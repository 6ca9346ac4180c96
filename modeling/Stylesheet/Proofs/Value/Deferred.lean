import Mathlib.Data.List.Forall2
import Stylesheet.Proofs.Value.Precedence
import Stylesheet.Proofs.Value.WellFormed

/-! Deferred division. Outside parentheses a slash between two numbers that were written
makes a list, which is divided out when it meets another operator. A formula is read
there step by step as it is read in parentheses: the same operators are on hold, and an
operand is the same number or a list that is still to be divided. Such a list is never
behind a slash, because products are finished before they become an operand. -/
namespace Stylesheet

variable {scope : Scope} {level : Level}

/-- A sum alone waits for what comes next. -/
theorem Operator.isAdditive_of_stays {pending next : Operator} (arithmetic : pending.isArithmetic = true)
    (stays : pending.appliesBefore next = false) : pending.isAdditive = true := by
  cases pending with
  | plus | minus => rfl
  | star | slash | percent => cases stays
  | _ => cases arithmetic

namespace Item

theorem divisors?_append {items more : List Item} {qs rs : List Quantity} (first : divisors? items = some qs)
    (second : divisors? more = some rs) : divisors? (items ++ more) = some (qs ++ rs) := by
  fun_induction divisors? items generalizing qs with
  | case1 =>
    cases first
    exact second
  | case2 q rest ih =>
    obtain ⟨qs, found, rfl⟩ := Option.map_eq_some_iff.mp first
    change (divisors? (rest ++ more)).map (q :: ·) = _
    rw [ih found]
    rfl
  | case3 => cases first

end Item

namespace Quantity

variable {op : Operator} {a b a' b' q : Quantity} {offset : Option Int}

/-- Where there is a unit of the result, it depends on the units alone. -/
theorem resultUnit_of_units {unit : Option Text} (found : resultUnit op a b offset = .ok unit) (first : a'.unit = a.unit)
    (second : b'.unit = b.unit) (elsewhere : Option Int) : resultUnit op a' b' elsewhere = .ok unit := by
  cases left : a.unit with
  | none => simpa only [resultUnit, first, second, left] using found
  | some l =>
    cases right : b.unit with
    | none => simpa only [resultUnit, first, second, left, right] using found
    | some r =>
      simp only [resultUnit, first, second, left, right] at found ⊢
      by_cases apart : l ≠ r
      · rw [if_pos apart] at found
        cases found
      rw [if_neg apart] at found ⊢
      by_cases divides : op = .slash
      · rwa [if_pos divides] at found ⊢
      rw [if_neg divides] at found ⊢
      by_cases multiplies : op = .star
      · rw [if_pos multiplies] at found
        obtain ⟨_, -, found⟩ := bind_eq_ok.mp found
        obtain ⟨_, -, found⟩ := bind_eq_ok.mp found
        cases found
      · rwa [if_neg multiplies] at found ⊢

/-- Where a number comes out, the offset does not count. -/
theorem combine_at (made : combine op a b offset = .ok q) (elsewhere : Option Int) :
    combine op a b elsewhere = .ok q := by
  rw [combine] at made
  obtain ⟨unit, found, made⟩ := bind_eq_ok.mp made
  split at made
  · obtain ⟨_, -, made⟩ := bind_eq_ok.mp made
    cases made
  · next divides =>
    rw [combine, resultUnit_of_units found rfl rfl elsewhere]
    exact (if_neg divides).trans made

theorem divideAll_concat {first : Quantity} {rest : List Quantity} {q : Quantity} (divided : divideAll first rest = .ok q)
    (r : Quantity) : divideAll first (rest ++ [r]) = combine .slash q r none := by
  rw [divideAll] at divided
  rw [divideAll, List.foldlM_append, divided]
  exact bind_pure (combine .slash q r none)

end Quantity

namespace Value

/-- The value is a slash list of numbers as they were written, which divides out to the
number. -/
structure Divides (v : Value) (q : Quantity) : Prop where
  written : ∃ first rest, v.slashList? = some (first, rest) ∧ ∀ r ∈ first :: rest, r.computed = false
  collapsed : v.collapsed = .ok (.number q)

/-- The value is the number, or a list that divides out to it. -/
def Defers (v : Value) (q : Quantity) : Prop := v = .number q ∨ v.Divides q

variable {v left right : Value} {q r a b : Quantity}

theorem Defers.collapsed (defers : v.Defers q) : v.collapsed = .ok (.number q) := by
  rcases defers with rfl | divides
  · rfl
  · exact divides.collapsed

/-- The items of a slash list. -/
theorem slashList?_eq_some {first : Quantity} {rest : List Quantity} (slashes : v.slashList? = some (first, rest)) :
    ∃ items, v = .list (.value (.number first) :: items) ∧ Item.divisors? items = some rest := by
  rw [slashList?.eq_def] at slashes
  split at slashes
  · next start items =>
    split at slashes
    · next found =>
      cases slashes
      exact ⟨items, rfl, found⟩
    · cases slashes
  · cases slashes

theorem slashList?_list (first : Quantity) {items : List Item} {rest : List Quantity}
    (found : Item.divisors? items = some rest) (divided : rest ≠ []) :
    (list (.value (.number first) :: items)).slashList? = some (first, rest) := by
  rw [slashList?, found]
  cases rest with
  | nil => exact absurd rfl divided
  | cons r rest => rfl

theorem divideAll_of_collapsed {first : Quantity} {rest : List Quantity} (slashes : v.slashList? = some (first, rest))
    (collapsed : v.collapsed = .ok (.number q)) : Quantity.divideAll first rest = .ok q := by
  rw [Value.collapsed, slashes] at collapsed
  obtain ⟨q', divided, same⟩ := bind_eq_ok.mp collapsed
  cases same
  exact divided

theorem divides_list {first : Quantity} {items : List Item} {rest : List Quantity}
    (found : Item.divisors? items = some rest) (some : rest ≠ []) (written : ∀ r ∈ first :: rest, r.computed = false)
    (divided : Quantity.divideAll first rest = .ok q) : (list (.value (.number first) :: items)).Divides q := by
  have slashes := slashList?_list first found some
  refine ⟨⟨first, rest, slashes, written⟩, ?_⟩
  rw [Value.collapsed, slashes]
  exact bind_eq_ok.mpr ⟨q, divided, rfl⟩

/-- A slash behind what is written makes a list that divides out to the quotient. -/
theorem Defers.separated (defers : left.Defers a) (computed : left.isComputed = false) (written : b.computed = false)
    (made : Quantity.combine .slash a b none = .ok q) : (left.separated .slash (.number b)).Divides q := by
  have divisor : Item.divisors? [.separator .slash, .value (.number b)] = some [b] := rfl
  rcases defers with rfl | ⟨⟨first, rest, slashes, all⟩, collapsed⟩
  · apply divides_list divisor (by simp)
    · simpa using ⟨computed, written⟩
    · rw [← made]
      exact bind_pure _
  · obtain ⟨items, rfl, found⟩ := slashList?_eq_some slashes
    have same : (list (.value (.number first) :: items)).separated .slash (.number b) =
        .list (.value (.number first) :: (items ++ [.separator .slash, .value (.number b)])) := by
      simp [Value.separated, Value.concat, Item.concat, Item.spread]
    rw [same]
    apply divides_list (Item.divisors?_append found divisor) (by simp)
    · simpa [or_imp, forall_and, written] using all
    · rw [Quantity.divideAll_concat (divideAll_of_collapsed slashes collapsed), made]

theorem calculate_of_defers {op : Operator} (arithmetic : op.isArithmetic = true) (first : left.Defers a)
    (second : right.Defers b) {offset : Option Int} (precision : Int) (made : Quantity.combine op a b offset = .ok q) :
    calculate op left right offset precision = .ok (.number q) := by
  rw [calculate, if_pos arithmetic, first.collapsed, second.collapsed]
  change combine op (.number a) (.number b) offset precision = _
  rw [combine, made]
  rfl

/-- Outside parentheses an operator makes the number that it makes of the divided
operands, or a list that divides out to it. The right operand of a product is divided. -/
theorem apply_of_defers {op : Operator} (arithmetic : op.isArithmetic = true) (first : left.Defers a)
    (second : right.Defers b) (divided : op.isAdditive = true ∨ right = .number b) {offset : Option Int}
    (precision : Int) (made : Quantity.combine op a b offset = .ok q) :
    ∃ v, apply op left right false offset precision = .ok v ∧ v.Defers q := by
  have calculated := calculate_of_defers arithmetic first second precision made
  by_cases slash : op = .slash
  · subst slash
    obtain rfl : right = .number b := by simpa [Operator.isAdditive] using divided
    by_cases computed : (left.isComputed || (number b).isComputed) = true
    · exact ⟨.number q, by simpa [apply, computed] using calculated, .inl rfl⟩
    · obtain ⟨one, two⟩ : left.isComputed = false ∧ (number b).isComputed = false := by simpa using computed
      refine ⟨left.separated .slash (.number b), by simp [apply, one, two], .inr ?_⟩
      exact first.separated one two (Quantity.combine_at made none)
  · exact ⟨.number q, by rw [apply, if_neg slash, calculated], .inl rfl⟩

end Value

namespace Held

variable {precision : Int} {p : Operator → Bool} {held held' : List Held} {h h' : Held} {v v' : Value} {q : Quantity}
  {s s' : Standing}

structure Defers (h h' : Held) : Prop where
  op : h.op = h'.op
  offset : h.offset = h'.offset
  left : ∃ q, h'.left = .number q ∧ h.left.Defers q

/-- Only the newest operator on hold may belong to a product. -/
def Steep (held : List Held) : Prop := ∀ h ∈ held.tail, h.op.isAdditive = true

theorem apply_of_defers (defers : h.Defers h') (value : v.Defers q)
    (divided : h.op.isAdditive = true ∨ v = .number q) (applied : h'.apply precision true (.number q) = .ok v') :
    ∃ v₁ q', h.apply precision false v = .ok v₁ ∧ v' = .number q' ∧ v₁.Defers q' := by
  obtain ⟨a, left', left⟩ := defers.left
  rw [apply, left', Value.apply_numbers h'.arithmetic, ← defers.op, ← defers.offset] at applied
  obtain ⟨q', made, same⟩ := bind_eq_ok.mp applied
  cases same
  obtain ⟨v₁, applied, result⟩ := Value.apply_of_defers h.arithmetic left value divided precision made
  exact ⟨v₁, q', applied, rfl, result⟩

/-- Outside parentheses operators are applied as inside. Behind the first of them, only
sums are left. -/
theorem applyWhile_of_defers (defers : List.Forall₂ Defers held held') (steep : Steep held) (value : v.Defers q)
    (divided : (∀ h ∈ held.head?, h.op.isAdditive = true) ∨ v = .number q)
    (applied : applyWhile precision true p held' (.number q) = .ok s') :
    ∃ s q', applyWhile precision false p held v = .ok s ∧ s'.value = .number q' ∧ s.value.Defers q' ∧
      List.Forall₂ Defers s.held s'.held := by
  induction defers generalizing v q with
  | nil =>
    cases applied
    exact ⟨⟨[], v⟩, q, rfl, rfl, value, .nil⟩
  | @cons h h' held held' one others ih =>
    rw [applyWhile] at applied
    split at applied
    · next goes =>
      obtain ⟨v', inside, rest⟩ := bind_eq_ok.mp applied
      obtain ⟨v₁, q', outside, rfl, made⟩ :=
        apply_of_defers one value (divided.imp_left fun adds => adds h rfl) inside
      have sums : ∀ h ∈ held, h.op.isAdditive = true := steep
      obtain ⟨s, q'', rest, result⟩ :=
        ih (fun h member => sums h (List.mem_of_mem_tail member)) made
          (.inl fun h here => sums h (List.mem_of_mem_head? here)) rest
      refine ⟨s, q'', ?_, result⟩
      rw [applyWhile, one.op, if_pos goes, outside]
      exact rest
    · next stays =>
      cases applied
      refine ⟨⟨h :: held, v⟩, q, ?_, rfl, value, .cons one others⟩
      rw [applyWhile, one.op, if_neg stays]
      rfl

theorem settle_of_defers (defers : List.Forall₂ Defers held held') (steep : Steep held)
    (settled : settle precision true held' (.number q) = .ok v') :
    ∃ v q', settle precision false held (.number q) = .ok v ∧ v' = .number q' ∧ v.Defers q' := by
  have all (op : Operator) (_ : op.isArithmetic = true) : (fun _ => true) op = true := rfl
  have applied : applyWhile precision true (fun _ => true) held' (.number q) = .ok ⟨[], v'⟩ := by
    rw [applyWhile_all all, settled]
    rfl
  obtain ⟨s, q', applied, same, result, -⟩ := applyWhile_of_defers defers steep (.inl rfl) (.inr rfl) applied
  rw [applyWhile_all all] at applied
  obtain ⟨v, settled, done⟩ := bind_eq_ok.mp applied
  cases done
  exact ⟨v, q', settled, same, result⟩

/-- Behind the operators that go before `op`, only sums are on hold. -/
theorem Steep.sums {op : Operator} {inParens : Bool} (steep : Steep held)
    (applied : applyWhile precision inParens (·.appliesBefore op) held v = .ok s) :
    ∀ h ∈ s.held, h.op.isAdditive = true := by
  obtain ⟨⟨gone, rfl⟩, stops⟩ := applyWhile_held applied
  cases gone with
  | cons h gone => exact fun h' member => steep h' (List.mem_append_right gone member)
  | nil =>
    cases kept : s.held with
    | nil => simp
    | cons h held =>
      rw [kept] at steep stops
      exact List.forall_mem_cons.mpr ⟨Operator.isAdditive_of_stays h.arithmetic (stops h rfl), steep⟩

/-- An operator is put on hold outside parentheses as inside. -/
theorem hold_of_defers {op : Operator} (arithmetic : op.isArithmetic = true) (offset : Option Int)
    (defers : List.Forall₂ Defers held held') (steep : Steep held) {now : List Held}
    (holds : Standing.hold precision true op arithmetic offset ⟨held', .number q⟩ = .ok now) :
    ∃ now', Standing.hold precision false op arithmetic offset ⟨held, .number q⟩ = .ok now' ∧
      List.Forall₂ Defers now' now ∧ Steep now' := by
  obtain ⟨s', inside, done⟩ := bind_eq_ok.mp holds
  cases done
  obtain ⟨s, q', outside, same, value, others⟩ := applyWhile_of_defers defers steep (.inl rfl) (.inr rfl) inside
  refine ⟨⟨s.value, op, arithmetic, offset⟩ :: s.held, ?_, .cons ⟨rfl, rfl, q', same, value⟩ others, steep.sums outside⟩
  rw [Standing.hold, outside]
  rfl

end Held

namespace Formula

/-- What is read in parentheses behind operators on hold is read outside them too, and
behind it stands the same number. -/
def ReadsOutside (f : Formula scope level) : Prop :=
  ∀ held held' s', List.Forall₂ Held.Defers held held' → Held.Steep held → f.read true held' = .ok s' →
    ∃ q kept, s'.value = .number q ∧ f.read false held = .ok ⟨kept, .number q⟩ ∧
      List.Forall₂ Held.Defers kept s'.held ∧ Held.Steep kept

theorem ReadsOutside.binary {left right : Level} {f : Formula scope left} {g : Formula scope right}
    (first : f.ReadsOutside) (second : g.ReadsOutside) {op : Operator} (arithmetic : op.isArithmetic = true)
    (offset : Option Int) {held held' : List Held} {s' : Standing} (defers : List.Forall₂ Held.Defers held held')
    (steep : Held.Steep held)
    (whole : (do
      let s ← f.read true held'
      let held ← s.hold scope.precision true op arithmetic offset
      g.read true held) = .ok s') :
    ∃ q kept, s'.value = .number q ∧
      (do
        let s ← f.read false held
        let held ← s.hold scope.precision false op arithmetic offset
        g.read false held) = .ok ⟨kept, .number q⟩ ∧
      List.Forall₂ Held.Defers kept s'.held ∧ Held.Steep kept := by
  obtain ⟨⟨before', v⟩, read, behind⟩ := bind_eq_ok.mp whole
  obtain ⟨now', holds, ran⟩ := bind_eq_ok.mp behind
  obtain ⟨a, before, rfl, read, defers, steep⟩ := first held held' _ defers steep read
  obtain ⟨now, holds, defers, steep⟩ := Held.hold_of_defers arithmetic offset defers steep holds
  obtain ⟨b, kept, value, ran, result⟩ := second now now' s' defers steep ran
  exact ⟨b, kept, value, bind_eq_ok.mpr ⟨_, read, bind_eq_ok.mpr ⟨now, holds, ran⟩⟩, result⟩

theorem ReadsOutside.outcome {f : Formula scope level} (reads : f.ReadsOutside) {v' : Value}
    (inside : f.outcome true = .ok v') :
    ∃ v q, f.outcome false = .ok v ∧ v' = .number q ∧ v.Defers q := by
  obtain ⟨⟨held', value⟩, read, settled⟩ := bind_eq_ok.mp inside
  obtain ⟨q, kept, rfl, read, defers, steep⟩ := reads [] [] _ .nil (by simp [Held.Steep]) read
  obtain ⟨v, q', settled, same, value⟩ := Held.settle_of_defers defers steep settled
  exact ⟨v, q', bind_eq_ok.mpr ⟨_, read, settled⟩, same, value⟩

theorem readsOutside (f : Formula scope level) : f.ReadsOutside := by
  induction f with
  | number numeral offset =>
    intro held held' s' defers steep ran
    cases ran
    exact ⟨numeral.quantity, held, rfl, rfl, defers, steep⟩
  | reference name offset q bound =>
    intro held held' s' defers steep ran
    cases ran
    exact ⟨q, held, rfl, rfl, defers, steep⟩
  | group opened f closed ih =>
    -- Within its parentheses a group is read alike in both places.
    intro held held' s' defers steep ran
    rw [read_group] at ran
    obtain ⟨v', inside, done⟩ := bind_eq_ok.mp ran
    cases done
    obtain ⟨v, q, -, rfl, -⟩ := ih.outcome inside
    refine ⟨q, held, rfl, ?_, defers, steep⟩
    rw [read_group, inside]
    rfl
  | sign offset f ih =>
    intro held held' s' defers steep ran
    obtain ⟨now', holds, ran⟩ := bind_eq_ok.mp ran
    obtain ⟨now, holds, defers, steep⟩ := Held.hold_of_defers rfl offset defers steep holds
    obtain ⟨q, kept, value, ran, result⟩ := ih now now' s' defers steep ran
    exact ⟨q, kept, value, bind_eq_ok.mpr ⟨now, holds, ran⟩, result⟩
  | factor f ih => exact ih
  | term f ih => exact ih
  | times f op multiplies offset g first second =>
    exact fun held held' s' defers steep ran => first.binary second _ offset defers steep ran
  | plus f op adds offset g first second =>
    exact fun held held' s' defers steep ran => first.binary second _ offset defers steep ran

end Formula

/-- A formula that is a number in parentheses is that number outside them, or a slash list
of written numbers that divides out to it. -/
theorem evaluate_outside_parens (f : Formula scope .sum) (opened closed : Option Int) {n : Quantity}
    (inside : (evaluate scope (⟨.operator .leftParen, opened⟩ ::
      (f.lexemes ++ [⟨.operator .rightParen, closed⟩]))).result = .ok (.number n)) :
    ∃ v, (evaluate scope f.lexemes).result = .ok v ∧ (v = .number n ∨ v.Divides n) := by
  rw [evaluate_group] at inside
  obtain ⟨v, q, outside, same, defers⟩ := f.readsOutside.outcome inside
  cases same
  exact ⟨v, (evaluate_formula f).trans outside, defers⟩

theorem Operator.isMultiplicative_slash : Operator.slash.isMultiplicative = true := rfl

def writtenQuotient : Formula (.empty 5) .sum :=
  let numeral (n : Nat) (unit : Option Text) (raw : Text) : Numeral := ⟨.finite false (n * Binary64.oneUnits), unit, false, raw⟩
  let quotient : Formula (.empty 5) .product :=
    .times (.factor (.number (numeral 15 (some "px".toList) "15px".toList) (some 0))) .slash
      Operator.isMultiplicative_slash (some 5) (.number (numeral 3 none ['3']) (some 7))
  .term (.times quotient .slash Operator.isMultiplicative_slash (some 9) (.number (numeral 5 none ['5']) (some 11)))

theorem evaluate_writtenQuotient :
    tokenize "15px / 3 / 5".toList = .ok writtenQuotient.lexemes ∧
    (evaluate (.empty 5) (⟨.operator .leftParen, none⟩ ::
      (writtenQuotient.lexemes ++ [⟨.operator .rightParen, none⟩]))).result =
        .ok (.number (.computedOf .one (some "px".toList))) ∧
    ∃ v, (evaluate (.empty 5) writtenQuotient.lexemes).result = .ok v ∧
      (v = .number (.computedOf .one (some "px".toList)) ∨ v.Divides (.computedOf .one (some "px".toList))) := by
  have inside : (evaluate (.empty 5) (⟨.operator .leftParen, none⟩ ::
      (writtenQuotient.lexemes ++ [⟨.operator .rightParen, none⟩]))).result =
        .ok (.number (.computedOf .one (some "px".toList))) := by
    have value : writtenQuotient.value = .ok (.computedOf .one (some "px".toList)) := by decide +kernel
    rw [evaluate_group, (writtenQuotient.readsAsValue_of_isUnsigned rfl).outcome_eq, value]
    rfl
  exact ⟨by decide +kernel, inside, evaluate_outside_parens writtenQuotient none none inside⟩

end Stylesheet
