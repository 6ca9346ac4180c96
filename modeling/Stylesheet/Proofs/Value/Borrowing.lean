import Stylesheet.Proofs.Value.Discipline
import Stylesheet.Proofs.Value.Sign

/-! Whose operands the operators of a group are applied to. Every operator on hold has
its left operand in its own group, so a group uses its own operands as long as the last
operator has its right operand too. A group that ends in an operator is one operand
short. It is closed with the value below its operands for the first of them, if there is
one; which entry stands there can be read off the parts before. -/
namespace Stylesheet

namespace Held

/-- The operators with their left operands moved up by one, and a value for the oldest. -/
def lend (v : Value) : List Held → List Held
  | [] => []
  | [h] => [{ h with left := v }]
  | h :: h' :: held => { h with left := h'.left } :: lend v (h' :: held)

variable {v : Value}

theorem pending_lend (held : List Held) : (lend v held).map pending = held.map pending := by
  fun_induction lend v held with
  | case1 => rfl
  | case2 h => rfl
  | case3 h h' held ih => rw [List.map_cons, ih]; rfl

/-- The newest left operand becomes a right operand. -/
theorem left_lend (h : Held) (held : List Held) (below : List Item) :
    (h :: held).map (Item.value ·.left) ++ .value v :: below =
      .value h.left :: ((lend v (h :: held)).map (Item.value ·.left) ++ below) := by
  induction held generalizing h with
  | nil => rfl
  | cons h' held ih => rw [List.map_cons, List.cons_append, ih, lend, List.map_cons, List.cons_append]

end Held

namespace Evaluate

/-- What was read last in a group, or in an item of a list: nothing yet, an arithmetic
operator, or an operand. -/
inductive Behind where
  | nothing
  | operator
  | operand
  deriving DecidableEq

/-- Where the next part stands: what it stands behind, and whether there is a value below
the operands of the innermost group, of the group around it, and so on outwards. -/
structure Footing where
  behind : Behind
  lends : List Bool

namespace Footing

def start : Footing := ⟨.nothing, [false]⟩

/-- A group stands on the operand before it, or if there is none, on what stands below.
Behind a comma operands stand on that comma. -/
def after (f : Footing) : Piece → Footing
  | .lexeme ⟨.operator .leftParen, _⟩ => ⟨.nothing, (f.behind != .nothing || f.lends.headD false) :: f.lends⟩
  | .lexeme ⟨.operator .rightParen, _⟩ => ⟨.operand, f.lends.tail⟩
  | .lexeme ⟨.operator .comma, _⟩ => ⟨.nothing, false :: f.lends.tail⟩
  | .lexeme ⟨.operator op, _⟩ => ⟨if op.isArithmetic then .operator else .operand, f.lends⟩
  | _ => ⟨.operand, f.lends⟩

end Footing

def footing (read : List Piece) : Footing := read.foldl Footing.after .start

def Dangles (read : List Piece) : Prop :=
  ∃ before op offset, read = before ++ [.lexeme ⟨.operator op, offset⟩] ∧ op.isArithmetic = true

/-- Behind these parts, a value stands below the operands of the innermost group. -/
def Lends (read : List Piece) : Prop := (footing read).lends.head? = some true

instance (read : List Piece) : Decidable (Lends read) := inferInstanceAs (Decidable (_ = _))

namespace Machine

/-- The machine in a group that is opened where `m` stands, behind these entries. -/
def inside (m : Machine) (offset : Option Int) (entries : List Item) : Machine where
  values := entries ++ m.values
  operators := ⟨.leftParen, offset⟩ :: m.operators
  parens := ⟨m.values.length, !m.afterOperator⟩ :: m.parens
  afterOperator := true

def receive (m : Machine) (v : Value) : Machine where
  values := if m.afterOperator then .value v :: m.values else join v m.values
  operators := m.operators
  parens := m.parens
  afterOperator := false

/-- On top of the stacks of `base` there are only operators on hold and their operands. -/
def Over (base m : Machine) : Prop := (∃ held, m = base.awaiting held) ∨ ∃ s, m = base.standing s

variable {m base : Machine}

theorem Over.receive (upon : base.Over m) (v : Value) : ∃ s, m.receive v = base.standing s := by
  rcases upon with ⟨held, rfl⟩ | ⟨s, rfl⟩
  · exact ⟨⟨held, v⟩, rfl⟩
  · exact ⟨⟨s.held, s.value.concat v⟩, rfl⟩

/-- Another value may stand in the place of the newest operand, if there is any. -/
theorem Over.replace {v : Value} {rest : List Item} (upon : base.Over m) (values : m.values = .value v :: rest)
    (r : Value) : base.Over { m with values := .value r :: rest } ∨ m = base.awaiting [] := by
  rcases upon with ⟨held, rfl⟩ | ⟨s, rfl⟩
  · cases held with
    | nil => exact .inr rfl
    | cons h held =>
      obtain ⟨-, rfl⟩ := List.cons.inj values
      exact .inl (.inl ⟨{ h with left := r } :: held, rfl⟩)
  · obtain ⟨-, rfl⟩ := List.cons.inj values
    exact .inl (.inr ⟨⟨s.held, r⟩, rfl⟩)

end Machine

theorem eq_nil_of_append {entries below rest : List Item} {v : Value} (whole : entries ++ below = .value v :: rest)
    (noValue : ¬ EndsInValue entries) : entries = [] := by
  cases entries with
  | nil => rfl
  | cons item entries =>
    obtain ⟨rfl, -⟩ := List.cons.inj whole
    exact absurd ⟨v, entries, rfl⟩ noValue

/-- A machine at the beginning of a group, or of an item of a list in it, with the groups
that are open around it. -/
inductive Based : List Bool → Machine → Prop where
  | outermost {entries : List Item} (noValue : ¬ EndsInValue entries) (after : Bool) :
      Based [false] ⟨entries, [], [], after⟩
  | group {base m : Machine} {lends : List Bool} {lent : Bool} {entries : List Item} (around : Based lends base)
      (upon : base.Over m) (offset : Option Int) (noValue : ¬ EndsInValue entries)
      (onValue : EndsInValue (entries ++ m.values) ↔ lent = true) : Based (lent :: lends) (m.inside offset entries)

namespace Based

variable {lends : List Bool} {base : Machine}

theorem atOpening (based : Based lends base) : base.AtOpening := by
  intro op first
  cases based with
  | outermost => cases first
  | group =>
    cases first
    rfl

theorem endsInValue_iff (based : Based lends base) : EndsInValue base.values ↔ lends.head? = some true := by
  cases based with
  | outermost noValue => simpa using noValue
  | group around upon offset noValue onValue => exact onValue.trans (by simp)

theorem comma (based : Based lends base) (v : Value) :
    Based (false :: lends.tail) { base with values := .separator .comma :: .value v :: base.values } := by
  have noValue (entries : List Item) : ¬ EndsInValue (.separator .comma :: entries) := by simp [EndsInValue]
  cases based with
  | outermost _ after => exact .outermost (noValue _) after
  | @group _ m lends _ entries around upon offset =>
    have onComma : EndsInValue (.separator .comma :: .value v :: (entries ++ m.values)) ↔ false = true := by
      simp [noValue]
    exact .group around upon offset (noValue (.value v :: entries)) onComma

/-- Another value may stand in the place of the newest entry, whichever group it is in. -/
theorem replace {m : Machine} {v : Value} {rest : List Item} (based : Based lends base) (upon : base.Over m)
    (values : m.values = .value v :: rest) (r : Value) :
    ∃ base', Based lends base' ∧ base'.Over { m with values := .value r :: rest } := by
  induction based generalizing m with
  | outermost noValue after =>
    rcases upon.replace values r with upon | rfl
    · exact ⟨_, .outermost noValue after, upon⟩
    · exact absurd ⟨v, rest, values⟩ noValue
  | @group base₀ m₀ lends lent entries around upon₀ offset noValue onValue ih =>
    rcases upon.replace values r with upon | rfl
    · exact ⟨_, .group around upon₀ offset noValue onValue, upon⟩
    -- The group is empty so far, so the value stands in a group around it.
    change entries ++ m₀.values = .value v :: rest at values
    have lends : lent = true := onValue.mp ⟨v, rest, values⟩
    obtain rfl := eq_nil_of_append values noValue
    obtain ⟨base', based, upon'⟩ := ih upon₀ values
    rw [List.nil_append] at values
    have same : { (m₀.inside offset []).awaiting [] with values := .value r :: rest } =
        (({ m₀ with values := .value r :: rest } : Machine).inside offset []).awaiting [] := by
      simp [Machine.inside, Machine.awaiting, values]
    exact ⟨_, .group based upon' offset noValue ⟨fun _ => lends, fun _ => ⟨r, rest, rfl⟩⟩, .inl ⟨[], same⟩⟩

/-- What a group borrows stood there when it was opened. -/
theorem opened {v : Value} {rest : List Item} (based : Based lends base) (values : base.values = .value v :: rest) :
    ∃ (m base₀ : Machine) (offset : Option Int), base = m.inside offset [] ∧ m.values = .value v :: rest ∧
      Based lends.tail base₀ ∧ base₀.Over m := by
  cases based with
  | outermost noValue => exact absurd ⟨v, rest, values⟩ noValue
  | group around upon offset noValue =>
    obtain rfl := eq_nil_of_append values noValue
    exact ⟨_, _, offset, rfl, values, around, upon⟩

end Based

section

variable {precision : Int} {inParens : Bool} {operators : List Pending} {values : List Item}
  {outcome : List Pending × List Item}

theorem applyWhile_held {h : Held} {v : Value} (applied : (applyWhile precision inParens (· != .leftParen)
    (h.pending :: operators) (.value v :: values)).result = .ok outcome) :
    ∃ left rest result, values = .value left :: rest ∧
      (applyWhile precision inParens (· != .leftParen) operators (.value result :: rest)).result = .ok outcome := by
  have goes : (h.pending.op != .leftParen) = true := Operator.ne_leftParen _ h.arithmetic
  rw [applyWhile, if_pos goes, Traced.result_bind] at applied
  obtain ⟨between, top, applied⟩ := bind_eq_ok.mp applied
  obtain ⟨right, left, rest, result, split, -, rfl⟩ := applyTop_ok top
  exact ⟨left, rest, result, (List.cons.inj split).2, applied⟩

/-- One operand short, and with no value below, operators cannot all be applied. -/
theorem applyWhile_missing (noValue : ¬ EndsInValue values) (h : Held) (held : List Held) (v : Value) :
    (applyWhile precision inParens (· != .leftParen) (h.pending :: (held.map Held.pending ++ operators))
      (.value v :: (held.map (.value ·.left) ++ values))).result ≠ .ok outcome := by
  induction held generalizing h v with
  | nil =>
    intro applied
    obtain ⟨left, rest, -, split, -⟩ := applyWhile_held applied
    exact noValue ⟨left, rest, split⟩
  | cons h' held ih =>
    intro applied
    obtain ⟨left, rest, result, split, applied⟩ := applyWhile_held applied
    obtain ⟨-, rfl⟩ := List.cons.inj split
    exact ih h' result applied

end

namespace Machine

section

variable {precision : Int} {m m₀ m₁ m' base : Machine}

/-- The machine stands where the footing says, on top of a machine at the beginning of a
group. -/
inductive Footed : Footing → Machine → Prop where
  | bare {base : Machine} {lends : List Bool} (based : Based lends base) : Footed ⟨.nothing, lends⟩ (base.awaiting [])
  | waiting {base : Machine} {lends : List Bool} (based : Based lends base) (h : Held) (held : List Held) :
      Footed ⟨.operator, lends⟩ (base.awaiting (h :: held))
  | standing {base : Machine} {lends : List Bool} (based : Based lends base) (s : Standing) :
      Footed ⟨.operand, lends⟩ (base.standing s)

theorem footed_start : Footed .start start := by
  have based : Based [false] start := .outermost (by simp [EndsInValue]) true
  exact .bare based

theorem reduceToParen_standing_ok (opening : base.AtOpening) {s : Standing}
    (ran : ((base.standing s).reduceToParen precision).result = .ok m') : ∃ v, m' = base.standing ⟨[], v⟩ := by
  rw [reduceToParen_standing opening] at ran
  obtain ⟨v, -, ran⟩ := bind_eq_ok.mp ran
  exact ⟨v, (Except.ok.inj ran).symm⟩

theorem reduceIf_standing (opening : base.AtOpening) {s : Standing} {c : Bool}
    (ran : (if c then (base.standing s).reduceToParen precision else pure (base.standing s)).result = .ok m') :
    ∃ s', m' = base.standing s' := by
  cases c with
  | false => exact ⟨s, (Except.ok.inj ran).symm⟩
  | true =>
    obtain ⟨v, rfl⟩ := reduceToParen_standing_ok opening ran
    exact ⟨⟨[], v⟩, rfl⟩

namespace Footed

variable {f : Footing}

theorem push (footed : Footed f m) {v : Value} (ran : (m.push precision v).result = .ok m') :
    Footed ⟨.operand, f.lends⟩ m' := by
  cases footed with
  | bare based =>
    cases ran
    exact .standing based ⟨[], v⟩
  | waiting based h held =>
    cases ran
    exact .standing based ⟨h :: held, v⟩
  | @standing base lends based s =>
    have after : ¬ (base.standing s).afterOperator = true := by simp [Machine.standing]
    rw [Machine.push, if_neg after, Traced.ite_bind, Traced.result_bind] at ran
    obtain ⟨m₁, reduced, ran⟩ := bind_eq_ok.mp ran
    obtain ⟨s', rfl⟩ := reduceIf_standing based.atOpening reduced
    cases ran
    exact .standing based ⟨s'.held, s'.value.concat v⟩

theorem openParen (footed : Footed f m) {offset : Option Int} (ran : (m.openParen precision offset).result = .ok m') :
    Footed (f.after (.lexeme ⟨.operator .leftParen, offset⟩)) m' := by
  have opened {base m : Machine} {lends : List Bool} {lent : Bool} (based : Based lends base) (upon : base.Over m)
      (onValue : EndsInValue m.values ↔ lent = true) :
      Footed ⟨.nothing, lent :: lends⟩ ((m.inside offset []).awaiting []) :=
    .bare (.group based upon offset (by simp [EndsInValue]) onValue)
  cases footed with
  | @bare base lends based =>
    cases ran
    refine opened based (.inl ⟨[], rfl⟩) (based.endsInValue_iff.trans ?_)
    cases lends <;> simp
  | waiting based h held =>
    cases ran
    exact opened based (.inl ⟨h :: held, rfl⟩) ⟨fun _ => rfl, fun _ => ⟨h.left, _, rfl⟩⟩
  | standing based s =>
    simp only [Machine.openParen] at ran
    rw [Traced.ite_bind, Traced.result_bind] at ran
    obtain ⟨m₁, reduced, ran⟩ := bind_eq_ok.mp ran
    obtain ⟨s', rfl⟩ := reduceIf_standing based.atOpening reduced
    cases ran
    exact opened based (.inr ⟨s', rfl⟩) ⟨fun _ => rfl, fun _ => ⟨s'.value, _, rfl⟩⟩

theorem comma (footed : Footed f m) {offset : Option Int} (ran : (m.comma precision offset).result = .ok m') :
    Footed (f.after (.lexeme ⟨.operator .comma, offset⟩)) m' := by
  cases footed with
  | bare => cases ran
  | waiting => cases ran
  | @standing base lends based s =>
    have after : ¬ (base.standing s).afterOperator = true := by simp [Machine.standing]
    rw [Machine.comma, if_neg after, Traced.result_bind] at ran
    obtain ⟨m₁, reduced, ran⟩ := bind_eq_ok.mp ran
    obtain ⟨v, rfl⟩ := reduceToParen_standing_ok based.atOpening reduced
    cases ran
    exact .bare (based.comma v)

theorem arithmetic (footed : Footed f m) {op : Operator} (arithmetic : op.isArithmetic = true) {offset : Option Int}
    (ran : (m.operator precision op offset).result = .ok m') : Footed ⟨.operator, f.lends⟩ m' := by
  have held {base : Machine} (based : Based f.lends base) {op : Operator} {arithmetic : op.isArithmetic = true}
      {s : Standing} (ran : (s.hold precision base.inParens op arithmetic offset >>= fun held =>
        return base.awaiting held) = Except.ok m') : Footed ⟨.operator, f.lends⟩ m' := by
    obtain ⟨held, put, ran⟩ := bind_eq_ok.mp ran
    rw [Standing.hold] at put
    obtain ⟨s', -, put⟩ := bind_eq_ok.mp put
    cases put
    cases ran
    exact .waiting based _ _
  have signed {base : Machine} (based : Based f.lends base) {behind : List Held}
      (ran : ((base.awaiting behind).operator precision op offset).result = .ok m') :
      Footed ⟨.operator, f.lends⟩ m' := by
    cases op with
    | minus =>
      rw [operator_sign based.atOpening] at ran
      exact held based ran
    | plus | star | slash | percent => cases ran
    | _ => cases arithmetic
  cases footed with
  | bare based => exact signed based ran
  | waiting based h hs => exact signed based ran
  | standing based s =>
    rw [operator_standing based.atOpening arithmetic] at ran
    exact held based ran

end Footed

/-- The operators of a group that is one operand short find none below it. -/
theorem reduceToParen_missing (noValue : ¬ EndsInValue base.values) (h : Held) (held : List Held) :
    ((base.awaiting (h :: held)).reduceToParen precision).result ≠ .ok m' := by
  intro ran
  obtain ⟨operators, values, applied, -⟩ := reduceWhile_ok ran
  exact applyWhile_missing noValue h held h.left applied

/-- The operators of a group that is one operand short take the value below it. -/
theorem reduceToParen_lent (opening : base.AtOpening) {v : Value} {rest : List Item}
    (values : base.values = .value v :: rest) (h : Held) (held : List Held) :
    ((base.awaiting (h :: held)).reduceToParen precision).result =
      Held.settle precision base.inParens (Held.lend v (h :: held)) h.left >>= fun r =>
        return { base.awaiting [] with values := .value r :: rest } := by
  have stops : ∀ op ∈ base.operators.head?, (op.op != .leftParen) = false := by
    intro op first
    rw [opening op first]
    rfl
  have moved : (base.awaiting (h :: held)).values =
      .value h.left :: ((Held.lend v (h :: held)).map (.value ·.left) ++ rest) := by
    rw [← Held.left_lend, ← values]
    rfl
  have same : (base.awaiting (h :: held)).operators = (Held.lend v (h :: held)).map Held.pending ++ base.operators := by
    rw [Held.pending_lend]
    rfl
  rw [reduceToParen, reduceWhile, Traced.result_bind, moved, same, applyWhile_result _ _ _ _ stops,
    bind_assoc, Held.applyWhile_all Operator.ne_leftParen, bind_assoc]
  rfl

/-- A group is closed with what it has on top of the stacks. -/
theorem closeParen_inside (m₀ : Machine) (inner : List Item)
    (parens : m.parens = ⟨m₀.values.length, !m₀.afterOperator⟩ :: m₀.parens)
    (reduced : (m.reduceToParen precision).result = .ok m₁) (values : m₁.values = inner ++ m₀.values)
    (operators : m₁.operators.tail = m₀.operators) (offset : Option Int) :
    (m.closeParen precision offset).result =
      (if inner.isEmpty then .ok (.list []) else fold offset inner.reverse) >>= fun v => return m₀.receive v := by
  have count : m₁.values.length - m₀.values.length = inner.length := by
    rw [values, List.length_append]
    omega
  simp only [closeParen, parens]
  rw [Traced.bind_of_ok reduced, count, values, List.take_left, List.drop_left, operators, Traced.ite_bind,
    Traced.result_bind]
  cases inner <;> cases after : m₀.afterOperator <;> simp [receive, after] <;> rfl

/-- A group that is one operand short puts the result in the place of the value it takes,
and is itself empty. -/
theorem closeParen_lent {v : Value} {rest : List Item} (values : m₀.values = .value v :: rest)
    (opened closed : Option Int) (h : Held) (held : List Held) :
    (((m₀.inside opened []).awaiting (h :: held)).closeParen precision closed).result =
      Held.settle precision true (Held.lend v (h :: held)) h.left >>= fun r =>
        return ({ m₀ with values := .value r :: rest } : Machine).receive (.list []) := by
  have opening : (m₀.inside opened []).AtOpening := by
    intro op first
    cases first
    rfl
  have reduced : (((m₀.inside opened []).awaiting (h :: held)).reduceToParen precision).result =
      Held.settle precision true (Held.lend v (h :: held)) h.left >>= fun r => return _ :=
    reduceToParen_lent opening values h held
  have parens : ((m₀.inside opened []).awaiting (h :: held)).parens =
      ⟨m₀.values.length, !m₀.afterOperator⟩ :: m₀.parens := rfl
  cases settled : Held.settle precision true (Held.lend v (h :: held)) h.left with
  | error failure =>
    rw [settled] at reduced
    simp only [closeParen, parens]
    rw [Traced.result_bind, reduced]
    rfl
  | ok r =>
    rw [settled] at reduced
    have height : m₀.values.length = (Item.value r :: rest).length := by simp [values]
    rw [height] at parens
    exact closeParen_inside { m₀ with values := .value r :: rest } [] parens reduced rfl rfl closed

theorem reduced_of_closeParen {offset : Option Int} (ran : (m.closeParen precision offset).result = .ok m') :
    ∃ m₁, (m.reduceToParen precision).result = .ok m₁ := by
  simp only [closeParen] at ran
  split at ran
  · cases ran
  · rw [Traced.result_bind] at ran
    obtain ⟨m₁, reduced, -⟩ := bind_eq_ok.mp ran
    exact ⟨m₁, reduced⟩

theorem Footed.closeParen {f : Footing} (footed : Footed f m) {offset : Option Int}
    (ran : (m.closeParen precision offset).result = .ok m') : Footed ⟨.operand, f.lends.tail⟩ m' := by
  have received {m₀ base₀ : Machine} {lends : List Bool} {x : Except Failure Value} (around : Based lends base₀)
      (upon : base₀.Over m₀) (ran : (x >>= fun v => return m₀.receive v) = .ok m') :
      Footed ⟨.operand, lends⟩ m' := by
    obtain ⟨v, -, ran⟩ := bind_eq_ok.mp ran
    cases ran
    obtain ⟨s, same⟩ := upon.receive v
    rw [same]
    exact .standing around s
  obtain ⟨m₁, reduced⟩ := reduced_of_closeParen ran
  cases footed with
  | bare based =>
    cases based with
    | outermost => cases ran
    | @group base₀ m₀ _ _ entries around upon opened =>
      cases reduced
      rw [closeParen_inside m₀ entries rfl rfl rfl rfl] at ran
      exact received around upon ran
  | standing based s =>
    obtain ⟨v, rfl⟩ := reduceToParen_standing_ok based.atOpening reduced
    cases based with
    | outermost => cases ran
    | @group base₀ m₀ _ _ entries around upon opened =>
      rw [closeParen_inside m₀ (.value v :: entries) rfl reduced rfl rfl] at ran
      exact received around upon ran
  | @waiting base lends based h held =>
    -- The result stands where the value was, which may be in a group further out.
    by_cases lent : EndsInValue base.values
    · obtain ⟨v, rest, values⟩ := lent
      obtain ⟨m₀, base₀, opened, rfl, values, around, upon⟩ := based.opened values
      rw [closeParen_lent values] at ran
      obtain ⟨r, -, ran⟩ := bind_eq_ok.mp ran
      obtain ⟨base', around, upon⟩ := around.replace upon values r
      exact received (x := .ok (.list [])) around upon ran
    · exact absurd reduced (reduceToParen_missing lent h held)

theorem Footed.exists_held {f : Footing} (footed : Footed f m) (behind : f.behind = .operator) :
    ∃ base h held, Based f.lends base ∧ m = base.awaiting (h :: held) := by
  cases footed with
  | bare | standing => cases behind
  | waiting based h held => exact ⟨_, h, held, based, rfl⟩

def outside (m : Machine) : List Item :=
  match m.parens with
  | [] => []
  | paren :: _ => m.values.drop (m.values.length - paren.height)

theorem outside_over (parens : m.parens = ⟨m₀.values.length, !m₀.afterOperator⟩ :: m₀.parens)
    (values : m₀.values <:+ m.values) : m.outside = m₀.values := by
  obtain ⟨inner, whole⟩ := values
  have count : m.values.length - m₀.values.length = inner.length := by
    rw [← whole, List.length_append]
    omega
  simp only [outside, parens]
  rw [count, ← whole, List.drop_left]

/-- With all its operands a group is reduced on what it stands on. -/
theorem Footed.outside_reduceToParen {f : Footing} (footed : Footed f m) (ended : f.behind ≠ .operator)
    (ran : (m.reduceToParen precision).result = .ok m') : m'.outside = m.outside := by
  cases footed with
  | waiting => exact absurd rfl ended
  | bare based =>
    cases based with
    | outermost | group =>
      cases ran
      rfl
  | standing based s =>
    obtain ⟨v, rfl⟩ := reduceToParen_standing_ok based.atOpening ran
    cases based with
    | outermost => rfl
    | @group base₀ m₀ _ _ entries around upon opened =>
      have after : ((m₀.inside opened entries).standing ⟨[], v⟩).outside = m₀.values :=
        outside_over rfl ⟨.value v :: entries, rfl⟩
      have before : ((m₀.inside opened entries).standing s).outside = m₀.values := by
        refine outside_over rfl ⟨.value s.value :: (s.held.map (.value ·.left) ++ entries), ?_⟩
        simp [Machine.standing, inside]
      rw [after, before]

end

end Machine

section

variable {inner : List Lexeme → Traced Value} {scope : Scope} {f : Footing} {m m' : Machine}

theorem Machine.Footed.step {part : Piece} (footed : Footed f m) (ran : (step inner scope m part).result = .ok m') :
    Footed (f.after part) m' := by
  cases part with
  | call name arguments offset =>
    rw [Evaluate.step, Traced.result_bind] at ran
    obtain ⟨v, -, ran⟩ := bind_eq_ok.mp ran
    exact footed.push ran
  | unclosed offset => cases ran
  | lexeme l =>
    obtain ⟨token, offset⟩ := l
    cases token with
    | operator op =>
      cases op with
      | leftBrace | rightBrace | semicolon | colon => cases ran
      | leftParen => exact footed.openParen ran
      | rightParen => exact footed.closeParen ran
      | comma => exact footed.comma ran
      | plus | minus | star | slash | percent => exact footed.arithmetic rfl ran
    | _ =>
      rw [Evaluate.step, Traced.result_bind] at ran
      obtain ⟨v, -, ran⟩ := bind_eq_ok.mp ran
      exact footed.push ran

theorem footed_of_parts {parts : List Piece} (ran : (parts.foldlM (step inner scope) m).result = .ok m')
    (footed : m.Footed f) : m'.Footed (parts.foldl Footing.after f) := by
  induction parts generalizing m f with
  | nil =>
    cases ran
    exact footed
  | cons part parts ih =>
    rw [List.foldlM_cons, Traced.result_bind] at ran
    obtain ⟨m₁, first, ran⟩ := bind_eq_ok.mp ran
    exact ih ran (footed.step first)

theorem footing_concat (read : List Piece) (part : Piece) : footing (read ++ [part]) = (footing read).after part :=
  List.foldl_concat ..

/-- Behind an arithmetic operator, and only there, an operand is missing. -/
theorem behind_footing_iff (read : List Piece) : (footing read).behind = .operator ↔ Dangles read := by
  constructor
  · intro behind
    rcases List.eq_nil_or_concat read with rfl | ⟨before, part, rfl⟩
    · cases behind
    rw [List.concat_eq_append] at behind ⊢
    rw [footing_concat] at behind
    cases part with
    | call | unclosed => cases behind
    | lexeme l =>
      obtain ⟨token, offset⟩ := l
      cases token with
      | operator op =>
        refine ⟨before, op, offset, rfl, ?_⟩
        cases op <;> first | rfl | cases behind
      | _ => cases behind
  · rintro ⟨before, op, offset, rfl, arithmetic⟩
    rw [footing_concat]
    cases op <;> first | rfl | cases arithmetic

end

end Evaluate

open Evaluate in
/-- What a closing parenthesis finds its operands in. Unless an arithmetic operator stands
right before it, the entries from outside the group stay as they are. Behind an operator,
with no value below the operands of the group, the expression has no value. If there is
one, the operators are applied with that value as the operand they lack; the result takes
its place, and the group is an empty list behind it. -/
theorem closing_paren_operands (scope : Scope) {e : Expression} {before after : List Piece} {closed : Option Int}
    (parts : pieces (Expression.withoutComments e) = before ++ .lexeme ⟨.operator .rightParen, closed⟩ :: after) :
    (¬ Dangles before → ∀ m m', (before.foldlM (step (evaluate scope) scope) .start).result = .ok m →
      (m.reduceToParen scope.precision).result = .ok m' → m'.outside = m.outside) ∧
    (Dangles before → ¬ Lends before → ∃ failure, (evaluate scope e).result = .error failure) ∧
    (Dangles before → Lends before → ∀ m, (before.foldlM (step (evaluate scope) scope) .start).result = .ok m →
      ∃ (around : Machine) (opened : Option Int) (h : Held) (held : List Held) (v : Value) (rest : List Item),
        m = (around.inside opened []).awaiting (h :: held) ∧ around.values = .value v :: rest ∧
          (m.closeParen scope.precision closed).result =
            Held.settle scope.precision true (Held.lend v (h :: held)) h.left >>= fun r =>
              return ({ around with values := .value r :: rest } : Machine).receive (.list [])) := by
  have footed {m : Machine} (ran : (before.foldlM (step (evaluate scope) scope) .start).result = .ok m) :
      m.Footed (footing before) := footed_of_parts ran Machine.footed_start
  refine ⟨?_, ?_, ?_⟩
  · intro ended m m' ran reduced
    exact (footed ran).outside_reduceToParen (mt (behind_footing_iff before).mp ended) reduced
  · intro dangles noValue
    cases evaluated : (evaluate scope e).result with
    | error failure => exact ⟨failure, rfl⟩
    | ok v =>
      obtain ⟨m', offset, ran, -⟩ := reads_of_evaluate evaluated
      rw [parts, List.foldlM_append, Traced.result_bind] at ran
      obtain ⟨m, ran, rest⟩ := bind_eq_ok.mp ran
      obtain ⟨base, h, held, based, rfl⟩ := (footed ran).exists_held ((behind_footing_iff before).mpr dangles)
      rw [List.foldlM_cons, Traced.result_bind] at rest
      obtain ⟨m₁, closing, -⟩ := bind_eq_ok.mp rest
      obtain ⟨m₂, reduced⟩ := Machine.reduced_of_closeParen closing
      exact absurd reduced (Machine.reduceToParen_missing (mt based.endsInValue_iff.mp noValue) h held)
  · intro dangles lent m ran
    obtain ⟨base, h, held, based, rfl⟩ := (footed ran).exists_held ((behind_footing_iff before).mpr dangles)
    obtain ⟨v, rest, values⟩ := based.endsInValue_iff.mpr lent
    obtain ⟨around, base₀, opened, rfl, values, -⟩ := based.opened values
    exact ⟨around, opened, h, held, v, rest, rfl, values, Machine.closeParen_lent values opened closed h held⟩

namespace Evaluate

/-- Without identifiers there is no call. -/
theorem pieces_of_no_ident {ls : List Lexeme} (none : ∀ l ∈ ls, l.ident? = none) : pieces ls = ls.map .lexeme := by
  induction ls with
  | nil => rw [pieces]; rfl
  | cons l rest ih =>
    rw [List.forall_mem_cons] at none
    rw [pieces_cons, ih none.2, List.map_cons]
    intro paren _
    simp [callName?, none.1]

def openSum (first : List Lexeme) : List Lexeme :=
  first ++ [⟨.operator .leftParen, some 2⟩, ⟨.number (.ofDigit 2), some 3⟩, ⟨.operator .plus, some 5⟩]

def openSumAfterOne : List Lexeme := openSum [⟨.number (.ofDigit 1), some 0⟩]

def openSumAfterComma : List Lexeme := openSum [⟨.number (.ofDigit 1), some 0⟩, ⟨.operator .comma, some 1⟩]

def closing : Lexeme := ⟨.operator .rightParen, some 6⟩

theorem dangles_openSum (first : List Lexeme) : Dangles ((openSum first).map .lexeme) := by
  refine ⟨first.map .lexeme ++ [.lexeme ⟨.operator .leftParen, some 2⟩, .lexeme ⟨.number (.ofDigit 2), some 3⟩],
    .plus, some 5, ?_, rfl⟩
  simp [openSum]

theorem pieces_openSumAfterOne : pieces (Expression.withoutComments (openSumAfterOne ++ [closing])) =
    openSumAfterOne.map .lexeme ++ [.lexeme closing] :=
  pieces_of_no_ident (by decide)

theorem pieces_openSumAfterComma : pieces (Expression.withoutComments (openSumAfterComma ++ [closing])) =
    openSumAfterComma.map .lexeme ++ [.lexeme closing] :=
  pieces_of_no_ident (by decide)

end Evaluate

open Evaluate in
/-- In `1 (2 +)` the plus takes the one; in `1,(2 +)` it finds a comma. -/
theorem closing_paren_openSum :
    (¬ Lends (openSumAfterComma.map .lexeme) ∧
      ∃ failure, (evaluate (.empty 5) (openSumAfterComma ++ [closing])).result = .error failure) ∧
    Lends (openSumAfterOne.map .lexeme) ∧
      ∃ m, ((openSumAfterOne.map .lexeme).foldlM (step (evaluate (.empty 5)) (.empty 5)) .start).result = .ok m ∧
        ∃ (around : Machine) (opened : Option Int) (h : Held) (held : List Held) (v : Value) (rest : List Item),
          m = (around.inside opened []).awaiting (h :: held) ∧ around.values = .value v :: rest ∧
            (m.closeParen 5 (some 6)).result =
              Held.settle 5 true (Held.lend v (h :: held)) h.left >>= fun r =>
                return ({ around with values := .value r :: rest } : Machine).receive (.list []) := by
  have noValue : ¬ Lends (openSumAfterComma.map .lexeme) := by decide
  have lent : Lends (openSumAfterOne.map .lexeme) := by decide
  obtain ⟨m, ran⟩ : ∃ m, ((openSumAfterOne.map Piece.lexeme).foldlM (step (evaluate (.empty 5)) (.empty 5))
      .start).result = .ok m := exists_of_isOk (by decide +kernel)
  have missing := (closing_paren_operands (.empty 5) pieces_openSumAfterComma).2.1 (dangles_openSum _) noValue
  have taken := (closing_paren_operands (.empty 5) pieces_openSumAfterOne).2.2 (dangles_openSum _) lent m ran
  exact ⟨⟨noValue, missing⟩, lent, m, ran, taken⟩

open Evaluate in
/-- The group in `1 (2 +)` ends in an operator, and there is a value: the sum of both. -/
theorem evaluate_openSum :
    tokenize "1 (2 +)".toList = .ok (openSumAfterOne ++ [closing]) ∧
    pieces (Expression.withoutComments (openSumAfterOne ++ [closing])) =
      openSumAfterOne.map .lexeme ++ [.lexeme closing] ∧
    Dangles (openSumAfterOne.map .lexeme) ∧
    ∃ v, (evaluate (.empty 5) (openSumAfterOne ++ [closing])).result = .ok v ∧ v.css 5 false = .ok ['3'] := by
  have evaluated : (((evaluate (.empty 5) (openSumAfterOne ++ [closing])).result >>= (·.css 5 false)).toOption) =
      some ['3'] := by
    decide +kernel
  exact ⟨by decide +kernel, pieces_openSumAfterOne, dangles_openSum _, bind_eq_ok.mp (eq_ok_of_toOption evaluated)⟩

end Stylesheet
