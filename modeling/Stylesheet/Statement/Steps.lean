import Stylesheet.Statement.Parser

/-! What the steps of the parser do. One lemma for each step says which lexemes it takes
from the front of the stream, what it makes of them, and with which errors it can fail.
From these comes what a round does to the open bodies: it adds a statement to the
innermost one, opens a body inside it or closes it, and it takes a lexeme at least. -/
namespace Stylesheet

namespace Expression

def Uncommented (e : Expression) : Prop := ∀ l ∈ e, l.isComment = false

/-- An expression that can stand for a value. -/
structure IsValue (e : Expression) : Prop where
  nonempty : e ≠ []
  uncommented : e.Uncommented

theorem uncommented_withoutComments (ls : List Lexeme) : Uncommented (withoutComments ls) := by
  intro l member
  simpa using (List.mem_filter.mp member).2

theorem withoutComments_sublist (ls : List Lexeme) : (withoutComments ls).Sublist ls := List.filter_sublist

theorem Uncommented.sublist {e part : Expression} (plain : e.Uncommented) (within : part.Sublist e) :
    part.Uncommented :=
  fun l member => plain l (within.subset member)

end Expression

/-- A statement without a body as it is read from lexemes, in their order, outside all
bodies or in one. -/
inductive Statement.ReadFrom (inRoot : Bool) (taken : List Lexeme) : Statement → Prop where
  | property {l : Lexeme} {name : Text} {value : Expression} (named : l.ident? = some name) (isValue : value.IsValue)
      (written : (l :: value).Sublist taken) (inside : inRoot = false) :
      ReadFrom inRoot taken (.property name l.offset value)
  | assignment {l : Lexeme} {name : Text} {value : Expression} {isDefault isGlobal : Bool}
      (named : l.ident? = some name) (isValue : value.IsValue) (noFlag : ∀ m ∈ value.getLast?, Parser.flag? m = none)
      (written : (l :: value).Sublist taken) :
      ReadFrom inRoot taken (.assignment name l.offset value isDefault isGlobal)
  | comment {l : Lexeme} (here : l ∈ taken) : ReadFrom inRoot taken (.comment l.raw)
  | call {l : Lexeme} {name : Text} {arguments : List Argument} (here : l ∈ taken)
      (values : ∀ argument ∈ arguments, argument.value.IsValue)
      (written : (arguments.flatMap (·.value)).Sublist taken) : ReadFrom inRoot taken (.call name arguments l.offset)

theorem Statement.ReadFrom.ne_nil {inRoot : Bool} {taken : List Lexeme} {s : Statement}
    (read : s.ReadFrom inRoot taken) : taken ≠ [] := by
  rintro rfl
  cases read with
  | property named isValue written inside => cases written
  | assignment named isValue noFlag written => cases written
  | comment here => cases here
  | call here values written => cases here

namespace Parser

variable {x : Parse α} {f : α → Parse β} {p q : Parser} {l : Lexeme}

theorem bind_ok {p' : Parser} {b : β} (h : (x >>= f) p = .ok b p') : ∃ a q, x p = .ok a q ∧ f a q = .ok b p' := by
  change EStateM.bind x f p = _ at h
  unfold EStateM.bind at h
  split at h
  · exact ⟨_, _, ‹_›, h⟩
  · contradiction

theorem bind_of_ok {a : α} (h : x p = .ok a q) : (x >>= f) p = f a q := by
  change EStateM.bind x f p = _
  rw [EStateM.bind, h]

theorem bind_of_error {failure : Failure} (h : x p = .error failure q) : (x >>= f) p = .error failure q := by
  change EStateM.bind x f p = _
  rw [EStateM.bind, h]

theorem get_bind (f : Parser → Parse β) (p : Parser) : (get >>= f) p = f p p := rfl

theorem reading_ok {g : Cursor.Step α} {a : α} (h : reading g p = .ok a q) : g p.cursor = (.ok a, q.cursor) := by
  unfold reading at h
  dsimp only at h
  split at h
  · next hr =>
    cases h
    exact Prod.ext hr rfl
  · cases h

theorem reading_of {g : Cursor.Step α} {a : α} {cursor : Cursor} (h : g p.cursor = (.ok a, cursor)) :
    ∃ p', reading g p = .ok a p' ∧ p'.cursor = cursor ∧ p'.depth = p.depth := by
  unfold reading
  rw [h]
  exact ⟨_, rfl, rfl, rfl⟩

theorem switch_eq (mode : Mode) (p : Parser) :
    ∃ p', switch mode p = .ok () p' ∧ p'.cursor = p.cursor ∧ p'.depth = p.depth := by
  by_cases same : p.mode = mode
  · refine ⟨p, ?_, rfl, rfl⟩
    change (if p.mode ≠ mode then _ else _ : Parse Unit) p = _
    rw [if_neg (not_not_intro same)]
    rfl
  · refine ⟨{ p with mode, events := .switched p.mode mode :: p.events }, ?_, rfl, rfl⟩
    change (if p.mode ≠ mode then _ else _ : Parse Unit) p = _
    rw [if_pos same]
    rfl

/-- The parser with other lexemes in view. -/
def withView (p : Parser) (ahead : List Lexeme) : Parser := { p with cursor := { p.cursor with ahead } }

theorem takeSelector_eq (p : Parser) : takeSelector p =
    .ok (p.cursor.ahead.takeWhile (!·.isOp .leftBrace))
      (p.withView (p.cursor.ahead.dropWhile (!·.isOp .leftBrace)).tail) := rfl

theorem takeValue_of {value ahead : List Lexeme} (cut : cutValue 0 p.cursor.ahead = some (value, ahead)) :
    takeValue p = .ok (Expression.withoutComments value) (p.withView ahead) := by
  unfold takeValue
  rw [get_bind, cut]
  rfl

theorem takeValue_of_none (cut : cutValue 0 p.cursor.ahead = none) :
    takeValue p = .error (.error (.endBefore .semicolon .endOfValue) (some p.cursor.length)) (p.withView []) := by
  unfold takeValue
  rw [get_bind, cut]
  rfl

/-- Texts that have to be nonempty are given, or the first that is empty is an error. -/
theorem mapM_nonempty (g : α → Text) (cause : Cause) (offset : Option Int) (as : List α) (p : Parser) :
    (as.mapM fun a => if (g a).isEmpty then fail cause offset else pure (g a) : Parse (List Text)) p =
      if [] ∈ as.map g then .error (.error cause offset) p else .ok (as.map g) p := by
  induction as with
  | nil => rfl
  | cons a as ih =>
    rw [List.mapM_cons]
    by_cases empty : g a = []
    · rw [if_pos (List.mem_map.mpr ⟨a, List.mem_cons_self, empty⟩)]
      apply bind_of_error
      rw [empty]
      rfl
    · have tail : [] ∈ (a :: as).map g ↔ [] ∈ as.map g := by simp [Ne.symm empty]
      rw [if_neg (by simpa using empty), pure_bind]
      by_cases later : [] ∈ as.map g
      · rw [if_pos later] at ih
        rw [if_pos (tail.mpr later)]
        exact bind_of_error ih
      · rw [if_neg later] at ih
        rw [if_neg (mt tail.mp later)]
        exact bind_of_ok ih

/-- The selectors that lexemes before an opening brace stand for. -/
def selectorsOf (ls : List Lexeme) : List Text :=
  (Expression.split .comma (Expression.withoutComments ls)).map fun group => Selector.normalize (Expression.join group)

/-- The head of a rule is what stands in view before an opening brace, and none of its
selectors may be empty. -/
theorem ruleHead_eq (p : Parser) : ∃ p₁ : Parser, p₁.cursor = p.cursor ∧ p₁.depth = p.depth ∧
    ruleHead p =
      if [] ∈ selectorsOf (p.cursor.ahead.takeWhile (!·.isOp .leftBrace)) then
        .error (.error .emptySelector (Expression.offset p.cursor.ahead))
          (p₁.withView (p.cursor.ahead.dropWhile (!·.isOp .leftBrace)).tail)
      else .ok (selectorsOf (p.cursor.ahead.takeWhile (!·.isOp .leftBrace)))
        (p₁.withView (p.cursor.ahead.dropWhile (!·.isOp .leftBrace)).tail) := by
  obtain ⟨p₁, switched, cursor, depth⟩ := switch_eq .selectors p
  refine ⟨p₁, cursor, depth, ?_⟩
  rw [← cursor]
  exact (bind_of_ok switched).trans ((get_bind _ p₁).trans ((bind_of_ok (takeSelector_eq p₁)).trans (mapM_nonempty ..)))

/-- An error that a step from a cursor can meet: one that is drawn, or one that the parser
finds at a lexeme it knew or has read, at the end of the source or nowhere. -/
inductive Meets (known : List Lexeme) (c : Cursor) : Failure → Prop where
  | drawn (read : List Lexeme) {failure : Failure} {rest : List (Except Failure Lexeme)}
      (stream : c.stream = read.map .ok ++ .error failure :: rest) : Meets known c failure
  | found (read : List Lexeme) {l : Lexeme} {cause : Cause} {rest : List (Except Failure Lexeme)}
      (stream : c.stream = read.map .ok ++ rest) (here : l ∈ known ++ read) (own : cause.stage = .parsing) :
      Meets known c (.error cause l.offset)
  | atEnd {cause : Cause} (own : cause.stage = .parsing) : Meets known c (.error cause (some c.length))
  | nowhere {cause : Cause} (own : cause.stage = .parsing) : Meets known c (.error cause none)

variable {known taken : List Lexeme} {cause : Cause}

/-- An error met behind lexemes that have been taken is met before them. -/
theorem Meets.before {c c' : Cursor} {failure : Failure} (passes : c.Passes taken c')
    (meets : Meets (known ++ taken) c' failure) : Meets known c failure := by
  cases meets with
  | drawn read stream => exact .drawn (taken ++ read) (passes.read stream)
  | found read stream here own => exact .found (taken ++ read) (passes.read stream) (by simpa using here) own
  | atEnd own =>
    rw [passes.length]
    exact .atEnd own
  | nowhere own => exact .nowhere own

theorem Meets.ofKnown {c : Cursor} (here : l ∈ known) (own : cause.stage = .parsing) :
    Meets known c (.error cause l.offset) :=
  .found [] rfl (List.mem_append_left [] here) own

theorem Meets.inView {c : Cursor} (here : l ∈ c.ahead) (own : cause.stage = .parsing) :
    Meets known c (.error cause l.offset) :=
  .found c.ahead rfl (List.mem_append_right known here) own

/-- What a step comes to if it starts from `p`. A result is given behind lexemes taken from
the front of the stream, and of the result, these lexemes and the parser behind them `S`
holds. -/
structure Leads (known : List Lexeme) (p : Parser) (S : α → List Lexeme → Parser → Prop) (x : Parse α) : Prop where
  ok {a : α} {q : Parser} : x p = .ok a q → ∃ taken, p.cursor.Passes taken q.cursor ∧ S a taken q
  error {failure : Failure} {q : Parser} : x p = .error failure q → Meets known p.cursor failure

/-- What a step that opens and closes no rule comes to. -/
def Yields (known : List Lexeme) (p : Parser) (S : α → List Lexeme → Parser → Prop) (x : Parse α) : Prop :=
  Leads known p (fun a taken q => q.depth = p.depth ∧ S a taken q) x

variable {S : α → List Lexeme → Parser → Prop} {T : β → List Lexeme → Parser → Prop}

theorem leads_of_ok {a : α} (ran : x p = .ok a q) (passes : p.cursor.Passes taken q.cursor) (good : S a taken q) :
    Leads known p S x := by
  constructor
  · intro a' q' ran'
    cases ran.symm.trans ran'
    exact ⟨taken, passes, good⟩
  · intro failure q' ran'
    cases ran.symm.trans ran'

theorem leads_of_error {failure : Failure} (ran : x p = .error failure q) (meets : Meets known p.cursor failure) :
    Leads known p S x := by
  constructor
  · intro a q' ran'
    cases ran.symm.trans ran'
  · intro failure' q' ran'
    cases ran.symm.trans ran'
    exact meets

theorem Leads.mono {S' : α → List Lexeme → Parser → Prop} (leads : Leads known p S x)
    (weaker : ∀ a taken q, S a taken q → S' a taken q) : Leads known p S' x where
  ok ran := by
    obtain ⟨taken, passes, good⟩ := leads.ok ran
    exact ⟨taken, passes, weaker _ taken _ good⟩
  error := leads.error

theorem Leads.then (first : Leads known p S x)
    (next : ∀ a taken q, S a taken q → Leads (known ++ taken) q (fun b more => T b (taken ++ more)) (f a)) :
    Leads known p T (x >>= f) := by
  cases ran : x p with
  | error failure q => exact leads_of_error (bind_of_error ran) (first.error ran)
  | ok a q =>
    obtain ⟨taken, passes, good⟩ := first.ok ran
    have rest := next a taken q good
    constructor
    · intro b r ran'
      obtain ⟨more, passes', good⟩ := rest.ok ((bind_of_ok ran).symm.trans ran')
      exact ⟨taken ++ more, passes.trans passes', good⟩
    · intro failure r ran'
      exact (rest.error ((bind_of_ok ran).symm.trans ran')).before passes

theorem Yields.then (first : Yields known p S x)
    (next : ∀ a taken q, S a taken q → Yields (known ++ taken) q (fun b more => T b (taken ++ more)) (f a)) :
    Yields known p T (x >>= f) :=
  Leads.then first fun a taken q good => (next a taken q good.2).mono fun _ _ _ rest => ⟨rest.1.trans good.1, rest.2⟩

theorem Yields.leads (first : Yields known p S x)
    (next : ∀ a taken q, q.depth = p.depth → S a taken q →
      Leads (known ++ taken) q (fun b more => T b (taken ++ more)) (f a)) : Leads known p T (x >>= f) :=
  Leads.then first fun a taken q good => next a taken q good.1 good.2

theorem leads_pure {a : α} (h : S a [] p) : Leads known p S (pure a) := leads_of_ok rfl (.refl _) h

theorem yields_pure {a : α} (h : S a [] p) : Yields known p S (pure a) := leads_pure ⟨rfl, h⟩

theorem yields_fail (here : l ∈ known) (own : cause.stage = .parsing) : Yields known p S (fail cause l.offset) :=
  leads_of_error rfl (.ofKnown here own)

/-- A failure where an expression starts, which is known. -/
theorem yields_fail_start {e : Expression} (inside : ∀ l ∈ e, l ∈ known) (own : cause.stage = .parsing) :
    Yields known p S (fail cause e.offset) := by
  cases e with
  | nil => exact leads_of_error rfl (.nowhere own)
  | cons l e => exact yields_fail (inside l List.mem_cons_self) own

theorem yields_failAtEnd (own : cause.stage = .parsing) : Yields known p S (failAtEnd cause) :=
  leads_of_error rfl (.atEnd own)

theorem yields_report (event : Event) : Yields known p (fun _ taken _ => taken = []) (report event) :=
  leads_of_ok rfl (.refl _) ⟨rfl, rfl⟩

theorem yields_switch (mode : Mode) :
    Yields known p (fun _ taken q => taken = [] ∧ q.cursor = p.cursor) (switch mode) := by
  obtain ⟨q, switched, cursor, depth⟩ := switch_eq mode p
  refine leads_of_ok switched ?_ ⟨depth, rfl, cursor⟩
  rw [cursor]
  exact .refl _

theorem yields_reading {g : Cursor.Step α} {S : α → List Lexeme → Cursor → Prop}
    (step : p.cursor.Yields S (g p.cursor)) : Yields known p (fun a taken q => S a taken q.cursor) (reading g) := by
  cases stepped : g p.cursor with
  | mk result c =>
    rw [stepped] at step
    cases result with
    | ok a =>
      obtain ⟨taken, passes, good⟩ := step
      obtain ⟨q, ran, rfl, depth⟩ := reading_of stepped
      exact leads_of_ok ran passes ⟨depth, good⟩
    | error failure =>
      obtain ⟨read, rest, stream⟩ := step
      obtain ⟨q, ran⟩ : ∃ q, reading g p = .error failure q := by
        unfold reading
        rw [stepped]
        exact ⟨_, rfl⟩
      exact leads_of_error ran (.drawn read stream)

theorem yields_take :
    Yields known p (fun found taken _ => taken = found.toList ∧ ∀ l ∈ p.cursor.ahead.head?, found = some l) take :=
  yields_reading p.cursor.yields_next

theorem yields_take_view (view : p.cursor.ahead.head? = some l) : Yields known p (fun _ taken _ => taken = [l]) take :=
  yields_take.mono fun found taken q ⟨depth, same, first⟩ => ⟨depth, by rw [same, first l view]; rfl⟩

theorem yields_peek :
    Yields known p (fun found taken q => taken = [] ∧ found = q.cursor.ahead.head? ∧
      (found = none → q.cursor.stream = [])) peek :=
  yields_reading p.cursor.yields_peek

/-- What is seen ahead is in view then, and nothing is seen only at the end. -/
theorem peek_ok {found : Option Lexeme} (seen : peek p = .ok found q) :
    p.cursor.Passes [] q.cursor ∧ found = q.cursor.ahead.head? ∧ (found = none → q.cursor.stream = []) := by
  have yields := p.cursor.yields_peek
  rw [reading_ok seen] at yields
  obtain ⟨taken, passes, rfl, view⟩ := yields
  exact ⟨passes, view⟩

theorem yields_boundary :
    Yields known p (fun _ taken q => taken = [] ∧ p.cursor.ahead <+: q.cursor.ahead) (reading Cursor.boundary) :=
  yields_reading p.cursor.yields_boundary

/-- Where each group is read without taking anything, what the results hold is taken from
the groups from left to right. -/
theorem yields_mapM {g : Expression → Parse β} {w : β → List Lexeme} {G : β → Prop} {groups : List Expression}
    (each : ∀ group ∈ groups, ∀ p,
      Yields known p (fun b taken _ => taken = [] ∧ (w b).Sublist group ∧ G b) (g group)) :
    Yields known p (fun bs taken _ => taken = [] ∧ (bs.flatMap w).Sublist groups.flatten ∧ ∀ b ∈ bs, G b)
      (groups.mapM g) := by
  induction groups generalizing p with
  | nil => exact yields_pure ⟨rfl, List.Sublist.refl _, by simp⟩
  | cons group groups ih =>
    obtain ⟨here, there⟩ := List.forall_mem_cons.mp each
    rw [List.mapM_cons]
    refine (here p).then fun b taken q ⟨nothing, part, good⟩ => ?_
    subst nothing
    rw [List.append_nil]
    refine (ih there).then fun bs taken r ⟨nothing, parts, others⟩ => ?_
    subst nothing
    exact yields_pure ⟨rfl, part.append parts, List.forall_mem_cons.mpr ⟨good, others⟩⟩

theorem yields_expect (op : Operator) (place : Place) :
    Yields known p (fun _ taken _ => ∃ l, taken = [l]) (expect op place) := by
  refine yields_take.then fun found taken q ⟨same, _⟩ => ?_
  subst same
  cases found with
  | none => exact yields_failAtEnd rfl
  | some l =>
    dsimp only
    split
    · exact yields_pure ⟨l, rfl⟩
    · exact yields_fail (by simp) rfl

/-- What is cut off in view is taken. -/
theorem passes_withView {ahead : List Lexeme} (view : p.cursor.ahead = taken ++ ahead) :
    p.cursor.Passes taken (p.withView ahead).cursor := Cursor.passes_view view

/-- The head of a rule takes something if something is in view. -/
theorem yields_ruleHead :
    Yields known p (fun selectors taken _ => (∃ ls, selectors = selectorsOf ls) ∧ [] ∉ selectors ∧
      (p.cursor.ahead ≠ [] → taken ≠ [])) ruleHead := by
  obtain ⟨p₁, cursor, depth, read⟩ := ruleHead_eq p
  by_cases named : [] ∈ selectorsOf (p.cursor.ahead.takeWhile (!·.isOp .leftBrace))
  · rw [if_pos named] at read
    refine leads_of_error read ?_
    cases view : p.cursor.ahead with
    | nil => exact .nowhere rfl
    | cons l ahead => exact .inView (by rw [view]; exact List.mem_cons_self) rfl
  · rw [if_neg named] at read
    have kept := List.dropWhile_suffix (l := p.cursor.ahead) (!·.isOp .leftBrace)
    obtain ⟨taken, view⟩ := (List.tail_suffix _).trans kept
    have passes : p.cursor.Passes taken (p₁.withView (p.cursor.ahead.dropWhile (!·.isOp .leftBrace)).tail).cursor := by
      rw [← cursor] at view ⊢
      exact passes_withView view.symm
    refine leads_of_ok read passes ⟨depth, ⟨_, rfl⟩, named, ?_⟩
    rintro inView rfl
    have less := kept.length_le
    have some := List.length_pos_iff.mpr inView
    have same := congrArg List.length view
    rw [List.nil_append, List.length_tail] at same
    omega

/-- A value and what is left behind it, with the semicolon between them. -/
theorem cutValue_eq {depth : Nat} {ls value after : List Lexeme} (cut : cutValue depth ls = some (value, after)) :
    ∃ stop, ls = (value ++ stop) ++ after := by
  induction ls generalizing depth value with
  | nil => cases cut
  | cons l rest ih =>
    rw [cutValue] at cut
    split at cut
    · cases cut
      exact ⟨[], rfl⟩
    split at cut
    · cases cut
      exact ⟨[l], rfl⟩
    · obtain ⟨⟨value', after'⟩, behind, same⟩ := Option.map_eq_some_iff.mp cut
      cases same
      obtain ⟨stop, rfl⟩ := ih behind
      exact ⟨stop, rfl⟩

theorem yields_takeValue :
    Yields known p (fun value taken _ => value.Sublist taken ∧ value.Uncommented) takeValue := by
  cases cut : cutValue 0 p.cursor.ahead with
  | none => exact leads_of_error (takeValue_of_none cut) (.atEnd rfl)
  | some parts =>
    obtain ⟨whole, after⟩ := parts
    obtain ⟨stop, view⟩ := cutValue_eq cut
    refine leads_of_ok (takeValue_of cut) (passes_withView view)
      ⟨rfl, ?_, Expression.uncommented_withoutComments whole⟩
    exact (Expression.withoutComments_sublist whole).trans (List.sublist_append_left whole stop)

/-- Behind the flags of an assignment its value does not end with one. -/
theorem getLast?_of_dropFlags (value : Expression) :
    ∀ l ∈ (value.reverse.dropWhile fun l => (flag? l).isSome).reverse.getLast?, flag? l = none := by
  intro l last
  rw [List.getLast?_reverse] at last
  have stops := List.head?_dropWhile_not (fun l => (flag? l).isSome) value.reverse
  rw [Option.mem_def.mp last] at stops
  simpa using stops

theorem dropFlags_sublist (value : Expression) :
    (value.reverse.dropWhile fun l => (flag? l).isSome).reverse.Sublist value := by
  have kept : (value.reverse.dropWhile fun l => (flag? l).isSome).Sublist value.reverse := List.dropWhile_sublist _
  simpa using kept.reverse

theorem yields_declaration (topLevel : Bool) :
    Yields known p (fun s taken _ => s.ReadFrom topLevel taken) (declaration topLevel) := by
  refine (yields_switch _).then fun _ switched p₁ _ => yields_take.then fun found first p₂ ⟨same, _⟩ => ?_
  subst same
  cases found with
  | none => exact yields_failAtEnd rfl
  | some l =>
    dsimp only
    split
    · exact yields_fail (by simp) rfl
    · next name named =>
      refine (yields_expect _ _).then fun _ colon p₃ _ => yields_takeValue.then fun value taken p₄ ⟨part, plain⟩ => ?_
      have whole {e : Expression} (within : e.Sublist value) :
          (l :: e).Sublist (switched ++ ((some l).toList ++ (colon ++ (taken ++ [])))) := by
        rw [List.append_nil]
        exact (((within.trans part).trans (List.sublist_append_right colon taken)).cons_cons l).trans
          (List.sublist_append_right switched _)
      split
      · have within := dropFlags_sublist value
        split
        · exact yields_fail (by simp) rfl
        · next nonempty =>
          apply yields_pure
          exact .assignment named ⟨by simpa using nonempty, plain.sublist within⟩ (getLast?_of_dropFlags value)
            (whole within)
      split
      · exact yields_fail (by simp) rfl
      · next nonempty =>
        split
        · exact yields_fail (by simp) rfl
        · next inside =>
          apply yields_pure
          exact .property named ⟨by simpa using nonempty, plain⟩ (whole (List.Sublist.refl value))
            (Bool.eq_false_iff.mpr inside)

/-- The groups are parts of the lexemes, from left to right, and no comment is in them. -/
structure AreParts (groups : List Expression) (taken : List Lexeme) : Prop where
  ordered : groups.flatten.Sublist taken
  uncommented : ∀ group ∈ groups, group.Uncommented

theorem areParts_nil (taken : List Lexeme) : AreParts [] taken := ⟨List.nil_sublist taken, by simp⟩

theorem AreParts.within {groups : List Expression} {whole : List Lexeme} (parts : AreParts groups taken)
    (within : taken.Sublist whole) : AreParts groups whole := ⟨parts.ordered.trans within, parts.uncommented⟩

theorem AreParts.mem {groups : List Expression} {group : Expression} (parts : AreParts groups taken)
    (member : group ∈ groups) : ∀ l ∈ group, l ∈ taken :=
  fun _ here => parts.ordered.subset (List.mem_flatten_of_mem member here)

theorem areParts_split (ls : List Lexeme) : AreParts (Expression.split .comma (Expression.withoutComments ls)) ls := by
  have plain := Expression.uncommented_withoutComments ls
  constructor
  · exact (Expression.flatten_splitFrom .comma 0 _).trans (Expression.withoutComments_sublist ls)
  · exact fun group member => plain.sublist (Expression.sublist_of_mem_splitFrom member)

theorem yields_parenthesized : Yields known p (fun groups taken _ => AreParts groups taken) parenthesized := by
  refine yields_take.then fun _ opened q _ => ?_
  refine (yields_reading (q.cursor.yields_group 0)).then fun found inner r grouped => ?_
  cases found with
  | none => exact yields_failAtEnd rfl
  | some ls =>
    obtain ⟨close, rfl⟩ := grouped ls rfl
    dsimp only
    split
    · exact yields_pure (areParts_nil _)
    · refine yields_pure ((areParts_split ls).within ?_)
      simp

theorem yields_groups : Yields known p (fun groups taken _ => AreParts groups taken) groups := by
  refine yields_peek.then fun found taken q ⟨nothing, _⟩ => ?_
  subst nothing
  cases found with
  | none => exact yields_pure (areParts_nil _)
  | some l =>
    dsimp only
    split
    · exact yields_parenthesized
    · exact yields_pure (areParts_nil _)

/-- The expression that a group names is the end of the group. -/
theorem named_suffix (group : Expression) : (named group).2 <:+ group := by
  rw [named.eq_def]
  split
  · next first second rest =>
    split
    · split
      · exact (List.suffix_cons second rest).trans (List.suffix_cons first _)
      · exact List.suffix_refl _
    · exact List.suffix_refl _
  · exact List.suffix_refl _

theorem yields_parameter {group : Expression} (inside : ∀ l ∈ group, l ∈ known) (plain : group.Uncommented) :
    Yields known p (fun parameter taken _ => taken = [] ∧ (parameter.default.getD []).Sublist group ∧
      ∀ e ∈ parameter.default, e.IsValue) (parameter group) := by
  have part := (named_suffix group).sublist
  rw [parameter.eq_def]
  split
  · next name default same =>
    rw [same] at part
    apply yields_pure
    by_cases empty : default.isEmpty = true
    · simp [empty]
    · have written : default ≠ [] := by simpa using empty
      rw [if_neg empty]
      refine ⟨rfl, part, fun e here => ?_⟩
      cases here
      exact ⟨written, plain.sublist part⟩
  · split
    · split
      · exact yields_pure (by simp)
      · exact yields_fail (inside _ List.mem_cons_self) rfl
    · exact yields_fail_start inside rfl

theorem yields_argument {group : Expression} (inside : ∀ l ∈ group, l ∈ known) (plain : group.Uncommented) :
    Yields known p (fun argument taken _ => taken = [] ∧ argument.value.Sublist group ∧ argument.value.IsValue)
      (argument group) := by
  have part := (named_suffix group).sublist
  rw [argument]
  split
  next name value same =>
  rw [same] at part
  split
  · exact yields_fail_start inside rfl
  · next written => exact yields_pure ⟨rfl, part, by simpa using written, plain.sublist part⟩

theorem yields_endCall (keyword name : Text) : Yields known p (fun _ _ _ => True) (endCall keyword name) := by
  refine yields_peek.then fun found taken q ⟨_, view, _⟩ => ?_
  cases found with
  | none => exact yields_failAtEnd rfl
  | some l =>
    dsimp only
    split
    · exact yields_take.then fun _ _ _ _ => yields_pure trivial
    split
    · exact yields_pure trivial
    · exact leads_of_error rfl (.inView (List.mem_of_mem_head? view.symm) rfl)

/-- The statement that a body becomes once it is closed. -/
def Opening.statement (body : List Statement) : Opening → Statement
  | .rule selectors depth => .rule selectors body depth
  | .mixin name parameters => .mixin name parameters body

/-- How many rules are opened. -/
def Opening.rules : Opening → Nat
  | .rule .. => 1
  | .mixin .. => 0

/-- What opens a body as it is read from lexemes, in their order, with so many rules
open. -/
inductive Opening.ReadFrom (depth : Nat) (taken : List Lexeme) : Opening → Prop where
  | rule {ls : List Lexeme} (named : [] ∉ selectorsOf ls) : ReadFrom depth taken (.rule (selectorsOf ls) depth)
  | mixin {name : Text} {parameters : List Parameter}
      (defaults : ∀ parameter ∈ parameters, ∀ e ∈ parameter.default, e.IsValue)
      (written : (parameters.flatMap (·.default.getD [])).Sublist taken) : ReadFrom depth taken (.mixin name parameters)

theorem Opening.ReadFrom.within {depth : Nat} {whole : List Lexeme} {opening : Opening}
    (head : opening.ReadFrom depth taken) (within : taken.Sublist whole) : opening.ReadFrom depth whole := by
  cases head with
  | rule named => exact .rule named
  | mixin defaults written => exact .mixin defaults (written.trans within)

theorem yields_mixinHead (name : Text) (depth : Nat) :
    Yields known p (fun opening taken _ => opening.rules = 0 ∧ opening.ReadFrom depth taken) (mixinHead name) := by
  refine yields_groups.then fun groups taken q parts => ?_
  refine (yields_mapM fun group member p => yields_parameter (fun l here => ?_) (parts.uncommented group member)).then
    fun parameters more r ⟨_, written, values⟩ => ?_
  · exact List.mem_append_right known (parts.mem member l here)
  · refine (yields_expect _ _).then fun _ brace _ _ => (yields_report _).then fun _ reported _ _ => yields_pure ?_
    exact ⟨rfl, .mixin values ((written.trans parts.ordered).trans (List.sublist_append_left taken _))⟩

theorem yields_callTail (keyword name : Text) (inRoot : Bool) (here : l ∈ known) :
    Yields known p (fun s taken _ => s.ReadFrom inRoot (known ++ taken)) (callTail keyword name l.offset) := by
  refine yields_groups.then fun groups taken q parts => (yields_endCall _ _).then fun _ ended _ _ => ?_
  refine (yields_mapM fun group member p => yields_argument (fun l here => ?_) (parts.uncommented group member)).then
    fun arguments more r ⟨_, written, values⟩ => yields_pure ?_
  · exact List.mem_append_left ended (List.mem_append_right known (parts.mem member l here))
  · refine .call (List.mem_append_left _ here) values ((written.trans parts.ordered).trans ?_)
    exact (List.sublist_append_left taken _).trans (List.sublist_append_right known _)

/-- Behind its keyword `l` an at-rule is a call, or it opens a mixin. -/
theorem yields_atRuleTail (keyword : Text) (inRoot : Bool) (depth : Nat) (here : l ∈ known) :
    Yields known p (fun result taken _ => Sum.elim (·.ReadFrom inRoot (known ++ taken))
      (fun opening => opening.rules = 0 ∧ opening.ReadFrom depth taken) result) (atRuleTail keyword l.offset) := by
  refine yields_take.then fun found first q ⟨same, _⟩ => ?_
  subst same
  cases found with
  | none => exact yields_failAtEnd rfl
  | some name =>
    dsimp only
    split
    · exact yields_fail (List.mem_append_left _ here) rfl
    split
    · exact yields_fail (by simp) rfl
    split
    · refine (yields_mixinHead _ depth).then fun opening taken r ⟨noRule, head⟩ => yields_pure ⟨noRule, ?_⟩
      exact head.within (by simp)
    · refine (yields_callTail _ _ inRoot (List.mem_append_left _ here)).then fun call taken r read => yields_pure ?_
      simpa using read

theorem leads_close (block : Block) (body : List Statement) :
    Leads known p (fun closed taken q => closed = block.before ++ [block.opening.statement body] ∧ taken = [] ∧
      q.depth = p.depth - block.opening.rules) (close block body) := by
  obtain ⟨opening, before⟩ := block
  cases opening with
  | rule selectors depth =>
    obtain ⟨q, switched, cursor, depth⟩ := switch_eq .selectors { p with depth := p.depth - 1 }
    refine leads_of_ok (bind_of_ok (x := leaveRule) rfl |>.trans (bind_of_ok switched)) ?_ ⟨rfl, rfl, depth⟩
    rw [cursor]
    exact .refl _
  | mixin name parameters => exact leads_pure ⟨rfl, rfl, rfl⟩

theorem leads_enterRule :
    Leads known p (fun outside taken q => outside = p.depth ∧ taken = [] ∧ q.depth = p.depth + 1) enterRule :=
  leads_of_ok rfl (.refl _) ⟨rfl, rfl, rfl⟩

/-- What a round that goes on does to the open bodies and the number of open rules. -/
inductive Advance (topLevel : Bool) (blocks : List Block) (body : List Statement) (depth : Nat) (taken : List Lexeme) :
    List Block → List Statement → Nat → Prop where
  | skip : Advance topLevel blocks body depth taken blocks body depth
  | add {s : Statement} (leaf : s.ReadFrom (topLevel && blocks.isEmpty) taken) :
      Advance topLevel blocks body depth taken blocks (body ++ [s]) depth
  | enter {opening : Opening} (head : opening.ReadFrom depth taken) :
      Advance topLevel blocks body depth taken (⟨opening, body⟩ :: blocks) [] (depth + opening.rules)
  | close {block : Block} {outer : List Block} (inside : blocks = block :: outer) :
      Advance topLevel blocks body depth taken outer (block.before ++ [block.opening.statement body])
        (depth - block.opening.rules)

/-- A mixin opens no rule. -/
theorem Advance.enter_mixin {topLevel : Bool} {blocks : List Block} {body : List Statement} {depth : Nat}
    {opening : Opening} (noRule : opening.rules = 0) (head : opening.ReadFrom depth taken) :
    Advance topLevel blocks body depth taken (⟨opening, body⟩ :: blocks) [] depth := by
  have entered : Advance topLevel blocks body depth taken (⟨opening, body⟩ :: blocks) [] (depth + opening.rules) :=
    .enter head
  rwa [noRule] at entered

/-- What a round leads to. It goes on behind lexemes it has taken, or it finishes the
outermost body, which at the top level is done where nothing is left to read. -/
def Progress.Follows (topLevel : Bool) (blocks : List Block) (body : List Statement) (depth : Nat) :
    Progress → List Lexeme → Parser → Prop
  | .reading blocks' body', taken, q => taken ≠ [] ∧ Advance topLevel blocks body depth taken blocks' body' q.depth
  | .finished body', taken, q =>
    blocks = [] ∧ body' = body ∧ (topLevel = true → taken = [] ∧ q.cursor.stream = [])

/-- An item, of which `l` is the first lexeme, takes that lexeme at least. -/
theorem leads_item (topLevel : Bool) (blocks : List Block) (body : List Statement)
    (view : p.cursor.ahead.head? = some l) :
    Leads [] p (Progress.Follows topLevel blocks body p.depth) (item topLevel blocks body l) := by
  have first : Yields [] p (fun _ taken _ => taken = [l]) take := yields_take_view view
  -- A semicolon, a closing brace, a comment, an at-rule, and what the look-ahead tells apart.
  unfold item
  split
  · refine first.leads fun _ taken q depth same => leads_pure ⟨by simp [same], ?_⟩
    rw [depth]
    exact .skip
  split
  · split
    · next block outer =>
      refine first.leads fun _ taken q depth same => (leads_close block body).then fun closed none r closes => ?_
      obtain ⟨rfl, -, fewer⟩ := closes
      refine leads_pure ⟨by simp [same], ?_⟩
      rw [fewer, depth]
      exact .close rfl
    · split
      · exact leads_of_error rfl (.inView (List.mem_of_mem_head? view) rfl)
      · next nested => exact first.leads fun _ _ _ _ _ => leads_pure ⟨rfl, rfl, fun top => absurd top nested⟩
  split
  · refine (yields_switch _).leads fun _ none q depth ⟨_, cursor⟩ => ?_
    rw [← cursor] at view
    refine (yields_take_view view).leads fun _ taken r depth' same => leads_pure ⟨by simp [same], ?_⟩
    rw [depth', depth]
    exact .add (.comment (by simp [same]))
  split
  · refine first.leads fun _ taken q depth same => ?_
    subst same
    have rest := yields_atRuleTail (p := q) l.raw (topLevel && blocks.isEmpty) p.depth (List.mem_singleton_self l)
    refine rest.leads fun result more r depth' read => ?_
    rw [← depth, ← depth'] at read ⊢
    cases result with
    | inl call => exact leads_pure ⟨by simp, .add (by simpa using read)⟩
    | inr opening =>
      obtain ⟨noRule, head⟩ := read
      exact leads_pure ⟨by simp, .enter_mixin noRule (head.within (by simp))⟩
  · refine yields_boundary.leads fun found none q depth ⟨nothing, kept⟩ => ?_
    subst nothing
    split
    · -- What was in view before the look-ahead is there for the head of the rule.
      have inView : q.cursor.ahead ≠ [] := kept.ne_nil (by rintro empty; simp [empty] at view)
      refine yields_ruleHead.leads fun selectors taken r depth' ⟨⟨ls, same⟩, named, takes⟩ => ?_
      subst same
      refine leads_enterRule.then fun outside nothing s ⟨same, _, deeper⟩ => leads_pure ⟨?_, ?_⟩
      · simp [takes inView]
      · rw [deeper, same, depth', depth]
        exact .enter (.rule named)
    · refine (yields_declaration _).leads fun s taken r depth' read => leads_pure ⟨?_, ?_⟩
      · simp [read.ne_nil]
      · rw [depth', depth]
        exact .add (by simpa using read)

/-- A round reads an item, or it ends the outermost body at the end of the source. -/
theorem leads_round (topLevel : Bool) (blocks : List Block) (body : List Statement) (p : Parser) :
    Leads [] p (Progress.Follows topLevel blocks body p.depth) (round topLevel blocks body) := by
  refine yields_peek.leads fun found none q depth ⟨nothing, view, atEnd⟩ => ?_
  subst nothing
  rw [← depth]
  cases found with
  | some l => exact leads_item topLevel blocks body view.symm
  | none =>
    dsimp only
    split
    · next outermost =>
      rw [Bool.and_eq_true, List.isEmpty_iff] at outermost
      exact leads_pure ⟨outermost.2, rfl, fun _ => ⟨rfl, atEnd rfl⟩⟩
    · exact leads_of_error rfl (.atEnd rfl)

end Parser

end Stylesheet
