import Stylesheet.Proofs.Lexeme.Scanning
import Stylesheet.Proofs.Scope
import Stylesheet.Proofs.Text.Hexadecimal
import Stylesheet.Proofs.Value.Discipline

/-! Well formed values: lists are flat and their separators are commas and slashes, no
unit is empty, and the channels of colours are within their range. Arithmetic makes well
formed values of well formed values, and so does the machine that evaluates expressions;
all that enters it are literals, colours, texts and the variables of the scope. -/
namespace Stylesheet

def Color.InRange (c : Color) : Prop := ∀ n ∈ c.channels, 0 ≤ n ∧ n ≤ 255

def Value.IsSingle : Value → Prop
  | .number q => q.unit ≠ some []
  | .text _ => True
  | .color c => c.InRange
  | .list _ => False

def Item.IsListed : Item → Prop
  | .value v => v.IsSingle
  | .separator op => op = .comma ∨ op = .slash

def Value.IsWellFormed : Value → Prop
  | .list items => ∀ item ∈ items, item.IsListed
  | v => v.IsSingle

def Item.Spreads (item : Item) : Prop := ∀ part ∈ item.spread, part.IsListed

theorem Value.isWellFormed_iff (v : Value) : v.IsWellFormed ↔ (Item.value v).Spreads := by
  cases v with
  | list items => exact Iff.rfl
  | number | text | color => simp [IsWellFormed, Item.Spreads, Item.spread, Item.IsListed]

theorem Value.IsWellFormed.isSingle {v : Value} (good : v.IsWellFormed) (notList : ∀ items, v ≠ .list items) :
    v.IsSingle := by
  cases v with
  | list items => exact absurd rfl (notList items)
  | number | text | color => exact good

namespace Quantity

variable {op : Operator} {left right result : Quantity} {offset : Option Int}

theorem resultUnit_ne {unit : Option Text} (first : left.unit ≠ some []) (second : right.unit ≠ some [])
    (made : resultUnit op left right offset = .ok unit) : unit ≠ some [] := by
  simp only [resultUnit] at made
  split at made
  · next here _ =>
    split at made
    · cases made
    split at made
    · cases made
      simp
    split at made
    · obtain ⟨_, -, made⟩ := bind_eq_ok.mp made
      obtain ⟨_, -, made⟩ := bind_eq_ok.mp made
      cases made
    · cases made
      rwa [here] at first
  · cases made
    split
    · exact second
    · exact first

theorem combine_unit (first : left.unit ≠ some []) (second : right.unit ≠ some [])
    (made : combine op left right offset = .ok result) : result.unit ≠ some [] := by
  rw [combine] at made
  obtain ⟨unit, found, made⟩ := bind_eq_ok.mp made
  split at made
  · obtain ⟨_, -, made⟩ := bind_eq_ok.mp made
    cases made
  · obtain ⟨_, -, made⟩ := bind_eq_ok.mp made
    cases made
    exact resultUnit_ne first second found

theorem divideAll_unit {rest : List Quantity} (first : left.unit ≠ some [])
    (others : ∀ q ∈ rest, q.unit ≠ some []) (made : divideAll left rest = .ok result) :
    result.unit ≠ some [] := by
  rw [divideAll] at made
  induction rest generalizing left with
  | nil =>
    cases made
    exact first
  | cons q rest ih =>
    rw [List.forall_mem_cons] at others
    rw [List.foldlM_cons] at made
    obtain ⟨quotient, divided, made⟩ := bind_eq_ok.mp made
    exact ih (combine_unit first others.1 divided) others.2 made

end Quantity

namespace Color

theorem clamp_inRange (n : Int) : 0 ≤ clamp n ∧ clamp n ≤ 255 := by
  rw [clamp]
  omega

theorem inRange_computedOf {red green blue : Int} (r : 0 ≤ red ∧ red ≤ 255) (g : 0 ≤ green ∧ green ≤ 255)
    (b : 0 ≤ blue ∧ blue ≤ 255) : (computedOf red green blue).InRange := by
  simp [InRange, channels, computedOf, r, g, b]

theorem inRange_combine {op : Operator} {c result : Color} {red green blue : Int} {offset : Option Int}
    (made : combine op c red green blue offset = .ok result) : result.InRange := by
  simp only [combine] at made
  split at made
  · cases made
  · cases made
    exact inRange_computedOf (clamp_inRange _) (clamp_inRange _) (clamp_inRange _)

/-- Two digits make at most 255, and so does one digit twice. -/
theorem inRange_ofHex {raw : Text} {offset : Option Int} {c : Color} (hex : Evaluate.isHexColor raw = true)
    (made : ofHex raw offset = .ok c) : c.InRange := by
  obtain ⟨digits, rfl, all⟩ := digits_of_isHexColor hex
  have value (d : Char) (member : d ∈ digits) : Text.hexValue d < 16 :=
    Text.hexValue_lt (List.all_eq_true.mp all d member)
  by_cases three : ∃ r g b, digits = [r, g, b]
  · obtain ⟨r, g, b, rfl⟩ := three
    cases (ofHex_three all offset).symm.trans made
    have := value r (by simp)
    have := value g (by simp)
    have := value b (by simp)
    simp only [InRange, channels, List.forall_mem_cons, List.not_mem_nil, false_imp_iff, implies_true, and_true]
    omega
  by_cases six : ∃ r r' g g' b b', digits = [r, r', g, g', b, b']
  · obtain ⟨r, r', g, g', b, b', rfl⟩ := six
    cases (ofHex_six all offset).symm.trans made
    have := value r (by simp)
    have := value r' (by simp)
    have := value g (by simp)
    have := value g' (by simp)
    have := value b (by simp)
    have := value b' (by simp)
    simp only [InRange, channels, List.forall_mem_cons, List.not_mem_nil, false_imp_iff, implies_true, and_true]
    omega
  · simp only [ofHex, dropWhile_hash all] at made
    split at made
    · exact absurd ⟨_, _, _, rfl⟩ three
    · exact absurd ⟨_, _, _, _, _, _, rfl⟩ six
    · cases made

end Color

namespace Value

variable {op : Operator} {left right result : Value} {offset : Option Int} {precision : Int}

theorem slashList?_units {v : Value} {first : Quantity} {rest : List Quantity} (good : v.IsWellFormed)
    (found : v.slashList? = some (first, rest)) : first.unit ≠ some [] ∧ ∀ q ∈ rest, q.unit ≠ some [] := by
  have divisors {items : List Item} {qs : List Quantity} (listed : ∀ item ∈ items, item.IsListed)
      (read : Item.divisors? items = some qs) : ∀ q ∈ qs, q.unit ≠ some [] := by
    fun_induction Item.divisors? items generalizing qs with
    | case1 =>
      cases read
      simp
    | case2 q rest ih =>
      obtain ⟨others, more, rfl⟩ := Option.map_eq_some_iff.mp read
      simp only [List.forall_mem_cons] at listed
      exact List.forall_mem_cons.mpr ⟨listed.2.1, ih listed.2.2 more⟩
    | case3 => cases read
  simp only [slashList?] at found
  split at found
  · next items =>
    split at found
    · next read =>
      cases found
      have listed := List.forall_mem_cons.mp good
      exact ⟨listed.1, divisors listed.2 read⟩
    · cases found
  · cases found

theorem collapsed_isWellFormed {v : Value} (good : v.IsWellFormed) (made : v.collapsed = .ok result) :
    result.IsWellFormed := by
  rw [collapsed] at made
  split at made
  · next found =>
    obtain ⟨q, divided, made⟩ := bind_eq_ok.mp made
    cases made
    have units := slashList?_units good found
    exact Quantity.divideAll_unit units.1 units.2 divided
  · cases made
    exact good

theorem glue_isWellFormed (first : left.IsWellFormed) (second : right.IsWellFormed)
    (made : glue left right precision = .ok result) : result.IsWellFormed := by
  simp only [glue] at made
  split at made
  · cases made
    exact List.forall_mem_append.mpr ⟨first, second⟩
  · next notList =>
    cases made
    exact List.forall_mem_singleton.mpr (first.isSingle notList)
  · obtain ⟨_, -, made⟩ := bind_eq_ok.mp made
    obtain ⟨_, -, made⟩ := bind_eq_ok.mp made
    cases made
    exact List.forall_mem_cons.mpr ⟨trivial, (List.forall_mem_cons.mp second).2⟩
  · next ls notList =>
    split at made
    · cases made
      exact List.forall_mem_singleton.mpr (second.isSingle notList)
    · obtain ⟨_, -, made⟩ := bind_eq_ok.mp made
      obtain ⟨_, -, made⟩ := bind_eq_ok.mp made
      cases made
      refine List.forall_mem_append.mpr ⟨?_, List.forall_mem_singleton.mpr trivial⟩
      intro item member
      exact first item ((List.dropLast_sublist ls).subset member)
  · cases made

theorem combine_isWellFormed (first : left.IsWellFormed) (second : right.IsWellFormed)
    (made : combine op left right offset precision = .ok result) : result.IsWellFormed := by
  simp only [combine] at made
  split at made
  · obtain ⟨q, combined, made⟩ := bind_eq_ok.mp made
    cases made
    exact Quantity.combine_unit first second combined
  · split at made
    · obtain ⟨c, combined, made⟩ := bind_eq_ok.mp made
      cases made
      exact Color.inRange_combine combined
    · cases made
  · obtain ⟨c, combined, made⟩ := bind_eq_ok.mp made
    cases made
    exact Color.inRange_combine combined
  · cases made
    exact List.forall_mem_cons.mpr ⟨first, List.forall_mem_cons.mpr ⟨trivial, List.forall_mem_singleton.mpr second⟩⟩
  · split at made
    · exact glue_isWellFormed first second made
    split at made
    · obtain ⟨_, -, made⟩ := bind_eq_ok.mp made
      obtain ⟨_, -, made⟩ := bind_eq_ok.mp made
      cases made
      trivial
    split at made
    · obtain ⟨_, -, made⟩ := bind_eq_ok.mp made
      obtain ⟨_, -, made⟩ := bind_eq_ok.mp made
      cases made
    · obtain ⟨_, -, made⟩ := bind_eq_ok.mp made
      obtain ⟨_, -, made⟩ := bind_eq_ok.mp made
      cases made

theorem calculate_isWellFormed (first : left.IsWellFormed) (second : right.IsWellFormed)
    (made : calculate op left right offset precision = .ok result) : result.IsWellFormed := by
  rw [calculate] at made
  split at made
  · obtain ⟨l, collapsedLeft, made⟩ := bind_eq_ok.mp made
    obtain ⟨r, collapsedRight, made⟩ := bind_eq_ok.mp made
    exact combine_isWellFormed (collapsed_isWellFormed first collapsedLeft)
      (collapsed_isWellFormed second collapsedRight) made
  · cases made

theorem separated_isWellFormed (first : left.IsWellFormed) (second : right.IsWellFormed) :
    (left.separated .slash right).IsWellFormed := by
  rw [isWellFormed_iff] at first second
  have slash : (Item.separator .slash).Spreads := List.forall_mem_singleton.mpr (.inr rfl)
  exact List.forall_mem_append.mpr ⟨List.forall_mem_append.mpr ⟨first, slash⟩, second⟩

theorem apply_isWellFormed {inParens : Bool} (first : left.IsWellFormed) (second : right.IsWellFormed)
    (made : apply op left right inParens offset precision = .ok result) : result.IsWellFormed := by
  rw [apply] at made
  split at made
  · next slash =>
    subst slash
    -- Inside parentheses or not, the slash separates or divides.
    dsimp only at made
    split at made
    all_goals
      split at made
      · cases made
        exact separated_isWellFormed first second
      · exact calculate_isWellFormed first second made
  · exact calculate_isWellFormed first second made

end Value

namespace Evaluate

theorem closed_spreads (precision : Int) : Closed precision Item.Spreads where
  comma := List.forall_mem_singleton.mpr (.inl rfl)
  sign := by simp [Item.Spreads, Item.spread, Item.IsListed, Value.IsSingle, Quantity.minusOne]
  applied first second made := by
    rw [← Value.isWellFormed_iff] at first second ⊢
    exact Value.apply_isWellFormed first second made
  listed items each := by
    intro part member
    obtain ⟨item, inside, spread⟩ := List.mem_flatMap.mp member
    exact each item inside part spread

end Evaluate

/-- The token is no number, or one that a number token is made as. -/
def Token.IsMade (token : Token) : Prop :=
  ∀ n, token = .number n → ∃ value unit computed raw, Numeral.make value unit computed raw = .ok n

/-- The unit of a number token is not empty. -/
theorem Numeral.unit_ne {value : Binary64} {unit : Option Text} {computed : Bool} {raw : Option Text} {n : Numeral}
    (made : make value unit computed raw = .ok n) : n.unit ≠ some [] := by
  have filtered : unit.filter (!·.isEmpty) ≠ some [] := by
    intro same
    cases (Option.filter_eq_some_iff.mp same).2
  simp only [make] at made
  split at made
  · cases made
    exact filtered
  · split at made
    · cases made
      exact filtered
    · cases made

namespace Scan

/-- Scanning gives a number no empty unit, as making it would not. -/
theorem IsNumber.isMade {sign digits unit : Text} {token : Token} (number : IsNumber sign digits unit token) :
    token.IsMade := by
  obtain ⟨value, -, rfl⟩ := number.token_eq
  intro n same
  cases same
  refine ⟨value, some unit, false, some (sign ++ digits ++ unit), ?_⟩
  cases unit <;> rfl

theorem isMade_of_read {c : Char} {rest after : Text} {token : Token}
    (reading : read c rest = (.ok token, after)) : token.IsMade := by
  rintro n rfl
  obtain ⟨sign, text, number⟩ := exists_readNumber reading
  obtain ⟨_, _, number, -, -, -⟩ := readNumber_inv number
  exact number.isMade n rfl

end Scan

/-- Scanning yields made tokens only. -/
theorem Outcome.isMade_of_mem_scan {source : Text} {o : Outcome} (member : o ∈ scan source) {l : Lexeme}
    (read : o.lexeme = .ok l) : l.token.IsMade := by
  obtain ⟨⟨c, rest, result⟩, -⟩ := exists_read member
  rw [(result_of_lexeme read).1] at result
  exact Scan.isMade_of_read (Prod.ext result.symm rfl)

namespace Scope

def EveryValue (P : Value → Prop) (s : Scope) : Prop := s.Each fun b => ∀ entry ∈ b.values, P entry.2

theorem EveryValue.value? {P : Value → Prop} {s : Scope} {name : Text} {value : Value} (every : s.EveryValue P)
    (found : s.value? name = some value) : P value := by
  rcases Option.or_eq_some_iff.mp found with here | ⟨-, root⟩
  · exact Each.current every _ (Table.mem_of_get? here)
  · exact every.1 _ (Table.mem_of_get? root)

end Scope

namespace Evaluate

variable {scope : Scope}

theorem identValue_isWellFormed (every : scope.EveryValue Value.IsWellFormed) {raw : Text} {offset : Option Int}
    {v : Value} (made : identValue scope raw offset = .ok v) : v.IsWellFormed := by
  simp only [identValue] at made
  split at made
  · cases made
    cases found : scope.value? raw with
    | none => trivial
    | some value => exact every.value? found
  split at made
  · split at made
    · cases made
      trivial
    · next q found =>
      cases made
      have good : (Value.number q).IsWellFormed := every.value? found
      exact good
    · obtain ⟨_, -, made⟩ := bind_eq_ok.mp made
      cases made
      trivial
  · split at made
    · next hex =>
      obtain ⟨c, read, made⟩ := bind_eq_ok.mp made
      cases made
      exact Color.inRange_ofHex hex read
    · cases made
      trivial

theorem lexemeValue_isWellFormed (every : scope.EveryValue Value.IsWellFormed) {l : Lexeme}
    (made : l.token.IsMade) {v : Value} (read : lexemeValue scope l = .ok v) : v.IsWellFormed := by
  simp only [lexemeValue] at read
  split at read
  · next n number =>
    cases read
    obtain ⟨_, _, _, _, numeral⟩ := made n number
    exact Numeral.unit_ne numeral
  · cases read
    trivial
  · exact identValue_isWellFormed every read
  · cases read

/-- A call stands for a text or a colour, whatever its arguments. -/
theorem call_isWellFormed {evaluate : List Lexeme → Traced Value} {name : Text} {arguments : List Lexeme}
    {offset : Option Int} {v : Value} (called : (call evaluate scope name arguments offset).result = .ok v) :
    v.IsWellFormed := by
  have channel_inRange {q : Quantity} {n : Int} (read : channel q = .ok n) : 0 ≤ n ∧ n ≤ 255 := by
    rw [channel] at read
    split at read
    · cases read
      exact Color.clamp_inRange _
    · cases read
  simp only [call] at called
  split at called
  · cases called
  split at called
  · obtain ⟨_, -, called⟩ := bind_eq_ok.mp ((Traced.result_bind _ _).symm.trans called)
    cases called
    trivial
  · rw [Traced.result_bind] at called
    obtain ⟨values, -, called⟩ := bind_eq_ok.mp called
    change callValue scope name values = .ok v at called
    rw [callValue] at called
    split at called
    · obtain ⟨r, red, called⟩ := bind_eq_ok.mp called
      obtain ⟨g, green, called⟩ := bind_eq_ok.mp called
      obtain ⟨b, blue, called⟩ := bind_eq_ok.mp called
      cases called
      exact Color.inRange_computedOf (channel_inRange red) (channel_inRange green) (channel_inRange blue)
    · obtain ⟨_, -, called⟩ := bind_eq_ok.mp called
      cases called
      trivial

theorem supplies_spreads (every : scope.EveryValue Value.IsWellFormed) {e : Expression}
    (made : ∀ l ∈ e, l.token.IsMade) {evaluate : List Lexeme → Traced Value} {part : Piece}
    (member : part ∈ pieces (Expression.withoutComments e)) : Supplies evaluate scope Item.Spreads part := by
  cases part with
  | lexeme l =>
    intro v read
    have inside : l ∈ Expression.withoutComments e := pieces_drawn (P := (· ∈ Expression.withoutComments e))
      (fun _ member => member) _ member
    exact (Value.isWellFormed_iff v).mp (lexemeValue_isWellFormed every (made l (List.mem_filter.mp inside).1) read)
  | call name arguments offset =>
    intro v called
    exact (Value.isWellFormed_iff v).mp (call_isWellFormed called)
  | unclosed offset => trivial

end Evaluate

/-- Where the variables are well formed, so is the value of an expression. -/
theorem evaluate_isWellFormed {scope : Scope} {e : Expression} {v : Value}
    (every : scope.EveryValue Value.IsWellFormed) (made : ∀ l ∈ e, l.token.IsMade)
    (evaluated : (evaluate scope e).result = .ok v) : v.IsWellFormed := by
  obtain ⟨m, offset, ⟨read, parts, ran⟩, finished⟩ := Evaluate.passes_of_evaluate evaluated
  have closed := Evaluate.closed_spreads scope.precision
  have sound : m.Sound Item.Spreads := by
    refine Evaluate.sound_of_parts closed ?_ ran
    intro part member
    exact Evaluate.supplies_spreads every made (parts.subset member)
  exact (Value.isWellFormed_iff v).mpr (sound.finish closed finished)

end Stylesheet
