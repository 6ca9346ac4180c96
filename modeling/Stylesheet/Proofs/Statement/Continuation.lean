import Stylesheet.Proofs.Lexeme.Cursor
import Stylesheet.Proofs.Lexeme.Scanning
import Stylesheet.Proofs.Statement.Items

/-! Parsing with more input behind. A step that gives a result which does not come
from the end of the input gives the same with more outcomes pending, and leaves them
pending. A whole source is therefore parsed the same way at the front of a longer
one, since every item looks only as far as its own end. -/
namespace Stylesheet

namespace Parser

structure Extends (more : List Outcome) (p q : Parser) : Prop where
  cursor : p.cursor.Extends more q.cursor
  depth : q.depth = p.depth

/-- A step that, started as `P` says, draws no error on its way to a result, and
comes to it with more outcomes pending as well. -/
def Persists (P : Parser → Prop) (x : Parse α) : Prop :=
  ∀ p a p', P p → x p = .ok a p' → (p'.cursor.Clean → p.cursor.Clean) ∧
    ∀ more q, Extends more p q → ∃ q', x q = .ok a q' ∧ Extends more p' q'

def Anywhere (_ : Parser) : Prop := True

def InView (p : Parser) : Prop := p.cursor.ahead ≠ []

def FailsAtEnd (x : Parse α) : Prop := ∀ p a p', p.cursor.size = 0 → x p ≠ .ok a p'

def Fails (x : Parse α) : Prop := ∀ p a p', x p ≠ .ok a p'

variable {P : Parser → Prop} {x : Parse α} {f : α → Parse β}

theorem fails_fail (cause : Cause) (offset : Option Int) : Fails (fail cause offset : Parse α) := by
  intro p a p' h
  cases h

theorem fails_failAtEnd (cause : Cause) : Fails (failAtEnd cause : Parse α) := by
  intro p a p' h
  cases h

theorem Fails.persists (fails : Fails x) : Persists P x := fun p a p' _ h => absurd h (fails p a p')

theorem Persists.anywhere (persists : Persists Anywhere x) : Persists P x :=
  fun p a p' _ h => persists p a p' trivial h

theorem Persists.then {Q : Parser → Prop} (first : Persists P x)
    (reach : ∀ p a p', P p → x p = .ok a p' → Q p') (next : ∀ a, Persists Q (f a)) : Persists P (x >>= f) := by
  intro p b p' start h
  obtain ⟨a, q, ran, h⟩ := bind_ok h
  obtain ⟨clean, again⟩ := first p a q start ran
  obtain ⟨clean', again'⟩ := next a q b p' (reach p a q start ran) h
  refine ⟨fun c => clean (clean' c), ?_⟩
  intro more p₁ longer
  obtain ⟨q₁, ran, longer⟩ := again more p₁ longer
  rw [bind_of_ok ran]
  exact again' more q₁ longer

theorem Persists.bind (first : Persists P x) (next : ∀ a, Persists Anywhere (f a)) : Persists P (x >>= f) :=
  first.then (fun _ _ _ _ _ => trivial) next

theorem persists_pure (a : α) : Persists P (pure a : Parse α) := by
  intro p b p' _ h
  cases h
  exact ⟨id, fun more q longer => ⟨q, rfl, longer⟩⟩

/-- A step that leaves the cursor as it is. -/
theorem persists_modifyGet {g : Parser → α × Parser} (cursor : ∀ p, (g p).2.cursor = p.cursor)
    (result : ∀ p q, q.depth = p.depth → (g q).1 = (g p).1 ∧ (g q).2.depth = (g p).2.depth) :
    Persists P (modifyGet g : Parse α) := by
  intro p a p' _ h
  obtain ⟨rfl, rfl⟩ : (g p).1 = a ∧ (g p).2 = p' := by
    cases h
    exact ⟨rfl, rfl⟩
  refine ⟨fun clean => by rwa [cursor] at clean, ?_⟩
  intro more q longer
  obtain ⟨same, depth⟩ := result p q longer.depth
  refine ⟨(g q).2, ?_, by rw [cursor, cursor]; exact longer.cursor, depth⟩
  rw [← same]
  rfl

theorem persists_report (event : Event) : Persists P (report event) :=
  persists_modifyGet (fun _ => rfl) fun _ _ depth => ⟨rfl, depth⟩

theorem persists_enterRule : Persists P enterRule :=
  persists_modifyGet (fun _ => rfl) fun _ _ depth => ⟨depth, congrArg (· + 1) depth⟩

theorem persists_leaveRule : Persists P leaveRule :=
  persists_modifyGet (fun _ => rfl) fun _ _ depth => ⟨rfl, congrArg (· - 1) depth⟩

theorem persists_switch (mode : Mode) : Persists P (switch mode) := by
  intro p a p' _ h
  obtain ⟨_, h', cursor, depth⟩ := switch_eq mode p
  cases h'.symm.trans h
  refine ⟨fun clean => by rwa [cursor] at clean, ?_⟩
  intro more q longer
  obtain ⟨q', switched, cursor', depth'⟩ := switch_eq mode q
  refine ⟨q', switched, ?_, depth'.trans (longer.depth.trans depth.symm)⟩
  rw [cursor, cursor']
  exact longer.cursor

theorem persists_mapM {g : α → Parse β} (each : ∀ a, Persists Anywhere (g a)) (as : List α) :
    Persists P (as.mapM g) := by
  induction as generalizing P with
  | nil => exact persists_pure _
  | cons a as ih =>
    rw [List.mapM_cons]
    exact (each a).anywhere.bind fun _ => ih.bind fun _ => persists_pure _

theorem reading_depth {g : Cursor.Step α} {p p' : Parser} {a : α} (h : reading g p = .ok a p') :
    p'.depth = p.depth := by
  obtain ⟨_, h', -, depth⟩ := reading_of (reading_ok h)
  cases h.symm.trans h'
  exact depth

/-- A step of the cursor, and what is done with what it gives, where nothing can be
done with the end of the input. -/
theorem persists_reading_bind {Q : Parser → Prop} {g : Cursor.Step (Option α)} {f : Option α → Parse β}
    (steady : Cursor.Steady g) (reach : ∀ p a p', P p → reading g p = .ok (some a) p' → Q p')
    (some : ∀ a, Persists Q (f (some a)))
    (none : ∀ p p' b p'', P p → reading g p = .ok none p' → f none p' ≠ .ok b p'') :
    Persists P (reading g >>= f) := by
  intro p b p' start h
  obtain ⟨found, p₁, ran, h⟩ := bind_ok h
  cases found with
  | none => exact absurd h (none p p₁ b p' start ran)
  | some a =>
    obtain ⟨clean, again⟩ := steady _ _ _ (reading_ok ran)
    obtain ⟨clean', again'⟩ := some a p₁ b p' (reach p a p₁ start ran) h
    refine ⟨fun c => clean (clean' c), ?_⟩
    intro more q longer
    obtain ⟨cursor, read, longerCursor⟩ := again more q.cursor longer.cursor
    obtain ⟨q₁, ran', rfl, depth⟩ := reading_of read
    rw [bind_of_ok ran']
    exact again' more q₁ ⟨longerCursor, by rw [depth, reading_depth ran, longer.depth]⟩

theorem persists_take_bind {f : Option Lexeme → Parse β} (some : ∀ l, Persists Anywhere (f (some l)))
    (none : Fails (f none)) : Persists P (take >>= f) :=
  persists_reading_bind Cursor.steady_next (fun _ _ _ _ _ => trivial) some fun _ p' b p'' _ _ => none p' b p''

/-- With a lexeme in view, the end of the input is not met. -/
theorem persists_take_inView {f : Option Lexeme → Parse β} (next : ∀ l, Persists Anywhere (f l)) :
    Persists InView (take >>= f) := by
  refine persists_reading_bind Cursor.steady_next (fun _ _ _ _ _ => trivial) (fun l => next (some l)) ?_
  intro p p' b p'' inView ran
  obtain ⟨l, ahead, view⟩ := List.exists_cons_of_ne_nil inView
  have taken := reading_ok ran
  simp [Cursor.next, view] at taken

theorem inView_of_peek {p p' : Parser} {l : Lexeme} (seen : peek p = .ok (some l) p') : InView p' := by
  obtain ⟨-, view, -⟩ := peek_ok seen
  intro empty
  rw [empty] at view
  cases view

theorem persists_peek_bind {f : Option Lexeme → Parse β} (some : ∀ l, Persists InView (f (some l)))
    (none : FailsAtEnd (f none)) : Persists P (peek >>= f) :=
  persists_reading_bind Cursor.steady_peek (fun _ _ _ _ => inView_of_peek) some fun _ p' b p'' _ ran =>
    none p' b p'' (by rw [← Cursor.stream_length, (peek_ok ran).2.2 rfl]; rfl)

theorem FailsAtEnd.bind_take {f : Option Lexeme → Parse β} (none : Fails (f none)) :
    FailsAtEnd (take >>= f) := by
  intro p b p' exhausted h
  obtain ⟨l, p₁, ran, h⟩ := bind_ok h
  obtain ⟨ahead, pending⟩ : p.cursor.ahead = [] ∧ p.cursor.pending = [] := by
    simpa [Cursor.size] using exhausted
  have taken := reading_ok ran
  obtain rfl : Option.none = l := by simpa [Cursor.next, Cursor.draw, ahead, pending] using congrArg Prod.fst taken
  exact none p₁ b p' h

theorem FailsAtEnd.bind_peek {f : Option Lexeme → Parse β} (none : Fails (f none)) :
    FailsAtEnd (peek >>= f) := by
  intro p b p' exhausted h
  obtain ⟨l, p₁, ran, h⟩ := bind_ok h
  obtain ⟨ahead, pending⟩ : p.cursor.ahead = [] ∧ p.cursor.pending = [] := by
    simpa [Cursor.size] using exhausted
  have seen := reading_ok ran
  obtain rfl : Option.none = l := by
    simpa [Cursor.peek_one, ahead, pending] using congrArg Prod.fst seen
  exact none p₁ b p' h

theorem FailsAtEnd.bind (first : FailsAtEnd x) : FailsAtEnd (x >>= f) := by
  intro p b p' exhausted h
  obtain ⟨a, p₁, ran, -⟩ := bind_ok h
  exact first p a p₁ exhausted ran

theorem persists_expect (op : Operator) (place : Place) : Persists P (expect op place) := by
  refine persists_take_bind (fun l => ?_) (fails_failAtEnd _)
  dsimp only
  split
  · exact persists_pure _
  · exact (fails_fail _ _).persists

theorem failsAtEnd_expect (op : Operator) (place : Place) : FailsAtEnd (expect op place) :=
  .bind_take (fails_failAtEnd _)

/-- A step that depends on what is in view only, and changes nothing else. -/
theorem persists_view (step : ∀ p a p', x p = .ok a p' →
      ∃ ahead, p' = p.withView ahead ∧ ∀ q, q.cursor.ahead = p.cursor.ahead → x q = .ok a (q.withView ahead)) :
    Persists P x := by
  intro p a p' _ h
  obtain ⟨ahead, rfl, again⟩ := step p a p' h
  refine ⟨id, ?_⟩
  rintro more q ⟨⟨index, length, cursor⟩, depth⟩
  refine ⟨q.withView ahead, again q (by rw [cursor]), ⟨index, length, ?_⟩, depth⟩
  unfold withView
  rw [cursor]

theorem persists_takeSelector : Persists P takeSelector := by
  refine persists_view fun p a p' h => ?_
  rw [takeSelector_eq] at h
  cases h
  refine ⟨_, rfl, fun q same => ?_⟩
  rw [takeSelector_eq, same]

theorem takeValue_ok {p p' : Parser} {e : Expression} (h : takeValue p = .ok e p') :
    ∃ value ahead, cutValue 0 p.cursor.ahead = some (value, ahead) := by
  cases cut : cutValue 0 p.cursor.ahead with
  | some parts => exact ⟨_, _, rfl⟩
  | none => cases (takeValue_of_none cut).symm.trans h

theorem persists_takeValue : Persists P takeValue := by
  refine persists_view fun p e p' h => ?_
  obtain ⟨value, ahead, cut⟩ := takeValue_ok h
  cases (takeValue_of cut).symm.trans h
  exact ⟨ahead, rfl, fun q same => takeValue_of (same ▸ cut)⟩

/-- A step that looks at the state for what is in view only. -/
theorem persists_get_bind {f : Parser → Parse β}
    (same : ∀ p q, q.cursor.ahead = p.cursor.ahead → f q = f p) (next : ∀ p, Persists Anywhere (f p)) :
    Persists P (get >>= f) := by
  intro p b p' _ h
  rw [get_bind] at h
  obtain ⟨clean, again⟩ := next p p b p' trivial h
  refine ⟨clean, ?_⟩
  intro more q longer
  have view : q.cursor.ahead = p.cursor.ahead := by
    obtain ⟨⟨index, length, cursor⟩, -⟩ := longer
    rw [cursor]
  rw [get_bind, same p q view]
  exact again more q longer

theorem persists_ruleHead : Persists P ruleHead := by
  refine (persists_switch _).bind fun _ => persists_get_bind ?_ fun p => ?_
  · intro p q view
    dsimp only
    rw [view]
  · refine persists_takeSelector.bind fun lexemes => persists_mapM (fun group => ?_) _
    dsimp only
    split
    · exact (fails_fail _ _).persists
    · exact persists_pure _

theorem persists_declaration (topLevel : Bool) : Persists P (declaration topLevel) := by
  refine (persists_switch _).bind fun _ => persists_take_bind (fun l => ?_) (fails_failAtEnd _)
  dsimp only
  split
  · exact (fails_fail _ _).persists
  · refine (persists_expect _ _).bind fun _ => persists_takeValue.bind fun value => ?_
    repeat' split
    all_goals first
      | exact (fails_fail _ _).persists
      | exact persists_pure _

theorem persists_parenthesized : Persists InView parenthesized := by
  refine persists_take_inView fun _ => ?_
  refine persists_reading_bind (Cursor.steady_group 0) (fun _ _ _ _ _ => trivial) (fun inner => ?_)
    fun _ p' b p'' _ _ => fails_failAtEnd _ p' b p''
  dsimp only
  split <;> exact persists_pure _

theorem persists_parameter (group : Expression) : Persists P (parameter group) := by
  unfold parameter
  repeat' split
  all_goals first
    | exact (fails_fail _ _).persists
    | exact persists_pure _

theorem persists_argument (group : Expression) : Persists P (argument group) := by
  unfold argument
  repeat' split
  all_goals first
    | exact (fails_fail _ _).persists
    | exact persists_pure _

theorem persists_endCall (keyword name : Text) : Persists P (endCall keyword name) := by
  refine persists_peek_bind (fun l => ?_) fun p a p' _ => fails_failAtEnd _ p a p'
  dsimp only
  split
  · exact persists_take_inView fun _ => persists_pure _
  split
  · exact persists_pure _
  · exact (fails_fail _ _).persists

theorem failsAtEnd_endCall (keyword name : Text) : FailsAtEnd (endCall keyword name) :=
  .bind_peek (fails_failAtEnd _)

/-- The groups behind a name may be left out at the end of the input, but what has
to follow them may not. -/
theorem persists_groups_bind {f : List Expression → Parse β} (next : ∀ groups, Persists Anywhere (f groups))
    (needed : FailsAtEnd (f [])) : Persists P (groups >>= f) := by
  unfold groups
  rw [bind_assoc]
  refine persists_peek_bind (fun l => ?_) ?_
  · dsimp only
    split
    · exact persists_parenthesized.bind next
    · exact (persists_pure _).bind next
  · simpa only [pure_bind] using needed

theorem persists_mixinHead (name : Text) : Persists P (mixinHead name) := by
  refine persists_groups_bind (fun groups => ?_) ?_
  · exact (persists_mapM persists_parameter _).bind fun _ => (persists_expect _ _).bind fun _ =>
      (persists_report _).bind fun _ => persists_pure _
  · simpa only [List.mapM_nil, pure_bind] using (failsAtEnd_expect _ _).bind

theorem persists_callTail (keyword name : Text) (offset : Option Int) :
    Persists P (callTail keyword name offset) := by
  refine persists_groups_bind (fun groups => ?_) (failsAtEnd_endCall _ _).bind
  exact (persists_endCall _ _).bind fun _ => (persists_mapM persists_argument _).bind fun _ => persists_pure _

theorem persists_atRuleTail (keyword : Text) (offset : Option Int) :
    Persists P (atRuleTail keyword offset) := by
  refine persists_take_bind (fun l => ?_) (fails_failAtEnd _)
  dsimp only
  split
  · exact (fails_fail _ _).persists
  split
  · exact (fails_fail _ _).persists
  split
  · exact (persists_mixinHead _).bind fun _ => persists_pure _
  · exact (persists_callTail _ _ _).bind fun _ => persists_pure _

theorem persists_close (block : Block) (body : List Statement) : Persists P (close block body) := by
  unfold close
  split
  · exact persists_leaveRule.bind fun _ => (persists_switch _).bind fun _ => persists_pure _
  · exact persists_pure _

/-- A value goes on behind a lexeme that is no boundary, or stands in parentheses. -/
theorem cutValue_of_inside {depth : Nat} {l : Lexeme} (inside : depth = 0 → l.boundary? = none) (rest : List Lexeme) :
    cutValue depth (l :: rest) =
      (cutValue (l.depthAfter depth) rest).map fun (value, after) => (l :: value, after) := by
  rw [cutValue, if_neg, if_neg]
  · rintro ⟨outside, isSemicolon⟩
    simp [Lexeme.boundary?, Lexeme.isOp_iff.mp isSemicolon] at inside
    exact inside outside
  · rintro ⟨outside, isBrace⟩
    simp [Lexeme.boundary?, Lexeme.isOp_iff.mp isBrace] at inside
    exact inside outside

/-- Where there is no boundary, there is no end of a value. -/
theorem cutValue_of_findBoundary {depth depth' : Nat} {ls : List Lexeme}
    (unbounded : Cursor.findBoundary depth ls = .inr depth') : cutValue depth ls = none := by
  fun_induction Cursor.findBoundary depth ls with
  | case1 => rfl
  | case2 => cases unbounded
  | case3 depth l rest inner ih =>
    have inside : depth = 0 → l.boundary? = none := fun outside =>
      Option.eq_none_iff_forall_ne_some.mpr fun op => inner op outside
    rw [cutValue_of_inside inside, ih unbounded, Option.map_none]

/-- All that is left is in view, and no item ends in it. -/
def Unbounded (p : Parser) : Prop :=
  p.cursor.pending = [] ∧ ∃ depth, Cursor.findBoundary 0 p.cursor.ahead = .inr depth

theorem unbounded_take {p p' : Parser} {l : Lexeme} (unbounded : Unbounded p)
    (plain : l.boundary? = none ∧ l.depthAfter 0 = 0) (ran : take p = .ok (some l) p') : Unbounded p' := by
  obtain ⟨pending, depth, nothing⟩ := unbounded
  have taken := reading_ok ran
  cases view : p.cursor.ahead with
  | nil => simp [Cursor.next, Cursor.draw, view, pending] at taken
  | cons l' ahead =>
    rw [view] at nothing
    simp only [Cursor.next, view, Prod.mk.injEq, Except.ok.injEq, Option.some.injEq] at taken
    obtain ⟨rfl, cursor⟩ := taken
    rw [Cursor.findBoundary_cons plain] at nothing
    rw [Unbounded, ← cursor]
    exact ⟨pending, depth, nothing⟩

theorem expect_ok {op : Operator} {place : Place} {p p' : Parser} (h : expect op place p = .ok () p') :
    ∃ l, take p = .ok (some l) p' ∧ l.token = .operator op := by
  obtain ⟨found, p₁, ran, h⟩ := bind_ok h
  cases found with
  | none => exact absurd h (fails_failAtEnd _ _ _ _)
  | some l =>
    dsimp only at h
    split at h
    · next isOp =>
      cases h
      exact ⟨l, ran, Lexeme.isOp_iff.mp isOp⟩
    · exact absurd h (fails_fail _ _ _ _ _)

theorem declaration_ok {topLevel : Bool} {p p' : Parser} {s : Statement}
    (h : declaration topLevel p = .ok s p') :
    ∃ p₁ p₂ p₃ l name value, p₁.cursor = p.cursor ∧ take p₁ = .ok (some l) p₂ ∧ l.token = .ident name ∧
      expect .colon (.afterName name) p₂ = .ok () p₃ ∧ takeValue p₃ = .ok value p' := by
  obtain ⟨_, p₁, switched, h⟩ := bind_ok h
  obtain ⟨_, switched', cursor, -⟩ := switch_eq .properties p
  cases switched.symm.trans switched'
  obtain ⟨found, p₂, taken, h⟩ := bind_ok h
  cases found with
  | none => exact absurd h (fails_failAtEnd _ _ _ _)
  | some l =>
    cases isName : l.ident? with
    | none =>
      simp only [isName] at h
      exact absurd h (fails_fail _ _ _ _ _)
    | some name =>
      simp only [isName] at h
      obtain ⟨_, p₃, passed, h⟩ := bind_ok h
      obtain ⟨value, q, read, h⟩ := bind_ok h
      -- What is made of the value reads nothing more.
      have same : q = p' := by
        repeat' split at h
        all_goals first
          | exact absurd h (fails_fail _ _ _ _ _)
          | cases h; rfl
      exact ⟨p₁, p₂, p₃, l, name, value, cursor, taken, Lexeme.token_of_ident? isName, passed, same ▸ read⟩

/-- A declaration that nothing ends is an error. -/
theorem declaration_unbounded {topLevel : Bool} {p p' : Parser} {s : Statement} (unbounded : Unbounded p) :
    declaration topLevel p ≠ .ok s p' := by
  intro h
  obtain ⟨p₁, p₂, p₃, l, name, value, cursor, taken, isName, passed, read⟩ := declaration_ok h
  obtain ⟨colon, taken', isColon⟩ := expect_ok passed
  have unbounded₁ : Unbounded p₁ := by rwa [Unbounded, cursor]
  have unbounded₂ : Unbounded p₂ := unbounded_take unbounded₁
    (by simp [Lexeme.boundary?, Lexeme.depthAfter, Lexeme.isOp, isName]) taken
  obtain ⟨-, depth, nothing⟩ := unbounded_take unbounded₂
    (by simp [Lexeme.boundary?, Lexeme.depthAfter, Lexeme.isOp, isColon]) taken'
  obtain ⟨value, ahead, cut⟩ := takeValue_ok read
  rw [cutValue_of_findBoundary nothing] at cut
  cases cut

theorem persists_item (topLevel : Bool) (blocks : List Block) (body : List Statement) (l : Lexeme) :
    Persists InView (item topLevel blocks body l) := by
  unfold item
  split
  · exact persists_take_inView fun _ => persists_pure _
  split
  · split
    · exact persists_take_inView fun _ => (persists_close _ _).bind fun _ => persists_pure _
    · split
      · exact (fails_fail _ _).persists
      · exact persists_take_inView fun _ => persists_pure _
  split
  · refine (persists_switch _).then (fun p _ p' inView h => ?_) fun _ => persists_take_inView fun _ => persists_pure _
    obtain ⟨q, switched, cursor, -⟩ := switch_eq .comment p
    cases switched.symm.trans h
    rwa [InView, cursor]
  split
  · refine persists_take_inView fun _ => (persists_atRuleTail _ _).bind fun result => ?_
    cases result <;> exact persists_pure _
  · refine persists_reading_bind (Q := Anywhere) Cursor.steady_boundary (fun _ _ _ _ _ => trivial) (fun op => ?_) ?_
    · split
      · exact persists_ruleHead.bind fun _ => persists_enterRule.bind fun _ => persists_pure _
      · exact (persists_declaration _).bind fun _ => persists_pure _
    · intro p p' b p'' _ ran h
      obtain ⟨s, p₁, declared, -⟩ := bind_ok h
      exact declaration_unbounded (Cursor.boundary_none (reading_ok ran)) declared

/-- A round that goes on reads an item. -/
theorem item_of_round {topLevel : Bool} {blocks blocks' : List Block} {body body' : List Statement} {p p' : Parser}
    (ran : round topLevel blocks body p = .ok (.reading blocks' body') p') :
    ∃ l q, peek p = .ok (some l) q ∧ item topLevel blocks body l q = .ok (.reading blocks' body') p' := by
  obtain ⟨found, q, seen, ran⟩ := bind_ok ran
  cases found with
  | some l => exact ⟨l, q, seen, ran⟩
  | none =>
    dsimp only at ran
    split at ran <;> cases ran

theorem round_extends {topLevel : Bool} {blocks blocks' : List Block} {body body' : List Statement} {p p' : Parser}
    (ran : round topLevel blocks body p = .ok (.reading blocks' body') p') :
    (p'.cursor.Clean → p.cursor.Clean) ∧ ∀ more q, Extends more p q →
      ∃ q', round topLevel blocks body q = .ok (.reading blocks' body') q' ∧ Extends more p' q' := by
  obtain ⟨l, p₁, seen, read⟩ := item_of_round ran
  obtain ⟨clean, again⟩ := Cursor.steady_peek _ _ _ (reading_ok seen)
  obtain ⟨clean', again'⟩ := persists_item topLevel blocks body l p₁ _ p' (inView_of_peek seen) read
  refine ⟨fun c => clean (clean' c), ?_⟩
  intro more q longer
  obtain ⟨cursor, found, longerCursor⟩ := again more q.cursor longer.cursor
  obtain ⟨q₁, ran, rfl, depth⟩ := reading_of found
  have ran : peek q = .ok (some l) q₁ := ran
  unfold round
  rw [bind_of_ok ran]
  exact again' more q₁ ⟨longerCursor, by rw [depth, reading_depth seen, longer.depth]⟩

/-- A source that is parsed to its end has no error in it, and with more input behind
it the parse goes on from there. -/
theorem rounds_extends {blocks : List Block} {body ss : List Statement} {p p' : Parser}
    (ran : rounds true blocks body p = .ok ss p') :
    p.cursor.Clean ∧ ∀ more q, Extends more p q →
      ∃ q', Reaches true blocks body q [] ss q' ∧ q'.cursor.ahead = [] ∧ q'.cursor.pending = more := by
  fun_induction rounds true blocks body p with
  | case1 => cases ran
  | case2 blocks body p body' p₁ round =>
    cases ran
    obtain ⟨taken, passes, rfl, rfl, whole⟩ := (leads_round ..).ok round
    obtain ⟨rfl, nothing⟩ := whole rfl
    obtain ⟨ahead, pending⟩ := Cursor.stream_eq_nil.mp (passes.stream.trans nothing)
    refine ⟨by simp [Cursor.Clean, pending], ?_⟩
    intro more q longer
    obtain ⟨⟨index, length, cursor⟩, -⟩ := longer
    refine ⟨q, .refl _ _ _, ?_, ?_⟩
    · rw [cursor, ahead]
    · rw [cursor, pending, List.nil_append]
  | case3 blocks body p blocks' body' p₁ round ih =>
    obtain ⟨clean, again⟩ := round_extends round
    obtain ⟨clean', again'⟩ := ih ran
    refine ⟨clean clean', ?_⟩
    intro more q longer
    obtain ⟨q₁, first, longer⟩ := again more q longer
    obtain ⟨q', rest, left⟩ := again' more q₁ longer
    exact ⟨q', .next first rest, left⟩

end Parser

/-- With more lines behind it, a source that is parsed leads to its own statements at
the outermost level, with just those lines left to read. -/
theorem parse_reaches {source : Text} {ss : List Statement} (parsed : (parse source).result = .ok ss) (more : Text) :
    ∃ q, Parser.Reaches true [] [] (Parser.start (source ++ '\n' :: more)) [] ss q ∧ q.cursor.ahead = [] ∧
      q.cursor.pending = Outcome.scanFrom source.length ('\n' :: more) := by
  obtain ⟨p, ran⟩ := parse_ok parsed
  obtain ⟨clean, again⟩ := Parser.rounds_extends ran
  refine again _ _ ⟨⟨0, (source ++ '\n' :: more).length, ?_⟩, rfl⟩
  change Cursor.ofSource (source ++ '\n' :: more) = _
  rw [Cursor.ofSource, Outcome.scan_append_newline clean]
  rfl

end Stylesheet
