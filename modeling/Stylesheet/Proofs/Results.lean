import Stylesheet.Trace

/-! Results of computations in a row. Each fact takes a row apart into its first step
and what follows it. -/
namespace Stylesheet

theorem bind_eq_ok {x : Except ε α} {f : α → Except ε β} {b : β} :
    (x >>= f) = .ok b ↔ ∃ a, x = .ok a ∧ f a = .ok b := by
  cases x <;> simp [bind, Except.bind]

theorem bind_eq_error {x : Except ε α} {f : α → Except ε β} {e : ε} :
    (x >>= f) = .error e ↔ x = .error e ∨ ∃ a, x = .ok a ∧ f a = .error e := by
  cases x <;> simp [bind, Except.bind]

theorem eq_ok_of_toOption {x : Except ε α} {a : α} (h : x.toOption = some a) : x = .ok a := by
  cases x with
  | error e => cases h
  | ok b => rw [Option.some.inj h]

theorem exists_of_isOk {x : Except ε α} (h : x.isOk = true) : ∃ a, x = .ok a := by
  cases x with
  | error e => cases h
  | ok a => exact ⟨a, rfl⟩

def failure? : Except ε α → Option ε
  | .error e => some e
  | .ok _ => none

theorem eq_error_of_failure? {x : Except ε α} {e : ε} (h : failure? x = some e) : x = .error e := by
  cases x with
  | error e' => rw [Option.some.inj h]
  | ok a => cases h

theorem failure?_map (f : α → β) (x : Except ε α) : failure? (x.map f) = failure? x := by
  cases x <;> rfl

theorem failure?_bind_ok (x : Except ε α) (f : α → β) : failure? (x >>= fun a => .ok (f a)) = failure? x := by
  cases x <;> rfl

theorem failure?_mapM {f : α → Except ε β} {g : α → Except ε γ} (each : ∀ a, failure? (f a) = failure? (g a))
    (as : List α) : failure? (as.mapM f) = failure? (as.mapM g) := by
  induction as with
  | nil => rfl
  | cons a as ih =>
    have first := each a
    rw [List.mapM_cons, List.mapM_cons]
    cases one : f a with
    | error e =>
      rw [one] at first
      rw [eq_error_of_failure? first.symm]
      rfl
    | ok b =>
      cases two : g a with
      | error e =>
        rw [one, two] at first
        cases first
      | ok c => exact (failure?_bind_ok _ _).trans (ih.trans (failure?_bind_ok _ _).symm)

theorem map_eq_ok {x : Except ε α} {f : α → β} {b : β} :
    x.map f = .ok b ↔ ∃ a, x = .ok a ∧ f a = b := by
  cases x <;> simp [Except.map]

theorem map_eq_bind (x : Except ε α) (f : α → β) : x.map f = x >>= fun a => return f a := by
  cases x <;> rfl

theorem mapM_cons_eq_ok {f : α → Except ε β} {a : α} {as : List α} {bs : List β} :
    (a :: as).mapM f = .ok bs ↔ ∃ b rest, f a = .ok b ∧ as.mapM f = .ok rest ∧ bs = b :: rest := by
  rw [List.mapM_cons, bind_eq_ok]
  constructor
  · rintro ⟨b, first, h⟩
    obtain ⟨rest, others, h⟩ := bind_eq_ok.mp h
    exact ⟨b, rest, first, others, (Except.ok.inj h).symm⟩
  · rintro ⟨b, rest, first, others, rfl⟩
    exact ⟨b, first, bind_eq_ok.mpr ⟨rest, others, rfl⟩⟩

theorem map_eq_of_mapM {f : α → Except ε β} {as : List α} {bs : List β} (h : as.mapM f = .ok bs) :
    as.map f = bs.map .ok := by
  induction as generalizing bs with
  | nil =>
    cases h
    rfl
  | cons a as ih =>
    obtain ⟨b, rest, first, others, rfl⟩ := mapM_cons_eq_ok.mp h
    rw [List.map_cons, List.map_cons, first, ih others]

theorem mapM_of_map_eq {f : α → Except ε β} {as : List α} {bs : List β} (h : as.map f = bs.map .ok) :
    as.mapM f = .ok bs := by
  induction as generalizing bs with
  | nil =>
    obtain rfl := List.map_eq_nil_iff.mp h.symm
    rfl
  | cons a as ih =>
    obtain ⟨b, rest, rfl, first, others⟩ := List.map_eq_cons_iff.mp h.symm
    exact mapM_cons_eq_ok.mpr ⟨b, rest, first.symm, ih others.symm, rfl⟩

theorem mapM_of_forall {f : α → Except ε β} {as : List α} (each : ∀ a ∈ as, ∃ b, f a = .ok b) :
    ∃ bs, as.mapM f = .ok bs := by
  induction as with
  | nil => exact ⟨[], rfl⟩
  | cons a as ih =>
    obtain ⟨b, first⟩ := each a List.mem_cons_self
    obtain ⟨bs, others⟩ := ih fun a member => each a (List.mem_cons_of_mem _ member)
    exact ⟨b :: bs, mapM_cons_eq_ok.mpr ⟨b, bs, first, others, rfl⟩⟩

theorem mapM_ok_iff (f : α → Except ε β) (as : List α) :
    (∃ bs, as.mapM f = .ok bs) ↔ ∀ a ∈ as, ∃ b, f a = .ok b := by
  constructor
  · rintro ⟨bs, ran⟩ a member
    induction as generalizing bs with
    | nil => cases member
    | cons a' as ih =>
      obtain ⟨b, rest, first, others, rfl⟩ := mapM_cons_eq_ok.mp ran
      rcases List.mem_cons.mp member with rfl | member
      · exact ⟨b, first⟩
      · exact ih rest others member
  · exact mapM_of_forall

theorem mapM_map {f : α → Except ε γ} {g : α → Except ε β} {h : β → γ} (each : ∀ a, f a = (g a).map h)
    (as : List α) : as.mapM f = (as.mapM g).map (List.map h) := by
  induction as with
  | nil => rfl
  | cons a as ih =>
    rw [List.mapM_cons, List.mapM_cons, ih, each]
    cases g a with
    | error e => rfl
    | ok b => cases as.mapM g <;> rfl

theorem mapM_append_eq_ok {f : α → Except ε β} {as more : List α} {bs : List β} :
    (as ++ more).mapM f = .ok bs ↔
      ∃ first second, as.mapM f = .ok first ∧ more.mapM f = .ok second ∧ bs = first ++ second := by
  rw [List.mapM_append, bind_eq_ok]
  constructor
  · rintro ⟨first, one, h⟩
    obtain ⟨second, two, h⟩ := bind_eq_ok.mp h
    exact ⟨first, second, one, two, (Except.ok.inj h).symm⟩
  · rintro ⟨first, second, one, two, rfl⟩
    exact ⟨first, one, bind_eq_ok.mpr ⟨second, two, rfl⟩⟩

def FailsAs (P : ε → Prop) (x : Except ε α) : Prop := ∀ e, x = .error e → P e

section

variable {P : ε → Prop} {x : Except ε α} {f : α → Except ε β}

theorem failsAs_ok (a : α) : FailsAs P (.ok a) := fun e h => by cases h

theorem failsAs_error {e : ε} (h : P e) : FailsAs P (.error e : Except ε α) := by
  intro e' same
  cases same
  exact h

theorem FailsAs.bind (first : FailsAs P x) (next : ∀ a, x = .ok a → FailsAs P (f a)) : FailsAs P (x >>= f) := by
  intro e failed
  rcases bind_eq_error.mp failed with failed | ⟨a, ran, failed⟩
  · exact first e failed
  · exact next a ran e failed

theorem failsAs_bind_iff : FailsAs P (x >>= f) ↔ FailsAs P x ∧ ∀ a, x = .ok a → FailsAs P (f a) := by
  refine ⟨fun whole => ⟨fun e failed => ?_, fun a ran e failed => ?_⟩, fun h => h.1.bind h.2⟩
  · exact whole e (bind_eq_error.mpr (.inl failed))
  · exact whole e (bind_eq_error.mpr (.inr ⟨a, ran, failed⟩))

theorem FailsAs.mono {Q : ε → Prop} (h : FailsAs P x) (weaker : ∀ e, P e → Q e) : FailsAs Q x :=
  fun e failed => weaker e (h e failed)

theorem FailsAs.map {g : α → β} (h : FailsAs P x) : FailsAs P (x.map g) := by
  intro e failed
  cases x with
  | error e' => exact h e (by cases failed; rfl)
  | ok a => cases failed

theorem failsAs_mapM {as : List α} (each : ∀ a ∈ as, FailsAs P (f a)) : FailsAs P (as.mapM f) := by
  induction as with
  | nil => exact failsAs_ok _
  | cons a as ih =>
    rw [List.mapM_cons]
    refine (each a List.mem_cons_self).bind fun b _ => ?_
    exact (ih fun a member => each a (List.mem_cons_of_mem _ member)).bind fun bs _ => failsAs_ok _

theorem failsAs_foldlM {g : β → α → Except ε β} (each : ∀ b a, FailsAs P (g b a)) (as : List α) (b : β) :
    FailsAs P (as.foldlM g b) := by
  induction as generalizing b with
  | nil => exact failsAs_ok _
  | cons a as ih =>
    rw [List.foldlM_cons]
    exact (each b a).bind fun b' _ => ih b'

end

/-- The second computation comes to what the first comes to, unless that is a failure
that does not count. -/
structure Keeps (Counts : ε → Prop) (x y : Except ε α) : Prop where
  ok : ∀ a, x = .ok a → y = .ok a
  error : ∀ e, Counts e → x = .error e → y = .error e

def Agree (R : α → β → Prop) : Except ε α → Except ε β → Prop
  | .ok a, .ok b => R a b
  | .error e, .error e' => e = e'
  | _, _ => False

section

variable {Counts : ε → Prop} {R : α → β → Prop} {S : γ → δ → Prop}

theorem keeps_refl (x : Except ε α) : Keeps Counts x x := ⟨fun _ ran => ran, fun _ _ failed => failed⟩

theorem Keeps.trans {x y z : Except ε α} (first : Keeps Counts x y) (second : Keeps Counts y z) : Keeps Counts x z :=
  ⟨fun a ran => second.ok a (first.ok a ran),
    fun e counts failed => second.error e counts (first.error e counts failed)⟩

theorem Keeps.eq {x y : Except ε α} {failure : ε} (keeps : Keeps (· ≠ failure) x y) (other : x ≠ .error failure) :
    y = x := by
  cases x with
  | ok a => exact keeps.ok a rfl
  | error e => exact keeps.error e (fun same => other (congrArg _ same)) rfl

theorem Keeps.bind {x y : Except ε α} {f g : α → Except ε β} (first : Keeps Counts x y)
    (next : ∀ a, x = .ok a → Keeps Counts (f a) (g a)) : Keeps Counts (x >>= f) (y >>= g) := by
  constructor
  · intro b ran
    obtain ⟨a, one, two⟩ := bind_eq_ok.mp ran
    exact bind_eq_ok.mpr ⟨a, first.ok a one, (next a one).ok b two⟩
  · intro e counts failed
    rcases bind_eq_error.mp failed with one | ⟨a, one, two⟩
    · exact bind_eq_error.mpr (.inl (first.error e counts one))
    · exact bind_eq_error.mpr (.inr ⟨a, first.ok a one, (next a one).error e counts two⟩)

theorem agree_refl {R : α → α → Prop} (refl : ∀ a, R a a) (x : Except ε α) : Agree R x x := by
  cases x with
  | ok a => exact refl a
  | error e => exact rfl

/-- Computations that agree may be followed by steps that come to the same. -/
theorem Agree.bind_eq {x : Except ε α} {y : Except ε β} {f : α → Except ε γ} {g : β → Except ε γ} (agree : Agree R x y)
    (next : ∀ a b, x = .ok a → y = .ok b → R a b → f a = g b) : x >>= f = y >>= g := by
  cases x with
  | ok a =>
    cases y with
    | ok b => exact next a b rfl rfl agree
    | error e => exact agree.elim
  | error e =>
    cases y with
    | ok b => exact agree.elim
    | error e' => exact congrArg Except.error agree

theorem Agree.bind {x : Except ε α} {y : Except ε β} {f : α → Except ε γ} {g : β → Except ε δ} (first : Agree R x y)
    (next : ∀ a b, x = .ok a → y = .ok b → R a b → Agree S (f a) (g b)) : Agree S (x >>= f) (y >>= g) := by
  cases x with
  | ok a =>
    cases y with
    | ok b => exact next a b rfl rfl first
    | error e => exact first.elim
  | error e =>
    cases y with
    | ok b => exact first.elim
    | error e' => exact first

end

theorem mapM_congr {m : Type → Type} [Monad m] [LawfulMonad m] {f g : α → m β} {as : List α}
    (same : ∀ a ∈ as, f a = g a) : as.mapM f = as.mapM g := by
  induction as with
  | nil => rfl
  | cons a as ih =>
    rw [List.mapM_cons, List.mapM_cons, same a List.mem_cons_self,
      ih fun a member => same a (List.mem_cons_of_mem _ member)]

def Traced.FailsAs (P : Failure → Prop) (x : Traced α) : Prop := Stylesheet.FailsAs P x.result

namespace Traced

variable {P : Failure → Prop} {x : Traced α} {f : α → Traced β}

theorem bind_of_ok {a : α} (h : x.result = .ok a) : (x >>= f).result = (f a).result := by
  rw [result_bind, h]
  rfl

/-- Two branches that go on alike are one step with two cases. -/
theorem ite_bind (c : Prop) [Decidable c] (x y : Traced α) (f : α → Traced β) :
    (if c then x >>= f else y >>= f) = (if c then x else y) >>= f := by
  split <;> rfl

theorem failsAs_pure (a : α) : FailsAs P (pure a : Traced α) := failsAs_ok a

theorem failsAs_fail {cause : Cause} {offset : Option Int} (h : P (.error cause offset)) :
    FailsAs P (fail cause offset : Traced α) := failsAs_error h

theorem FailsAs.bind (first : FailsAs P x) (next : ∀ a, x.result = .ok a → FailsAs P (f a)) :
    FailsAs P (x >>= f) := by
  unfold FailsAs
  rw [result_bind]
  exact Stylesheet.FailsAs.bind first next

theorem failsAs_mapM {as : List α} (each : ∀ a ∈ as, FailsAs P (f a)) : FailsAs P (as.mapM f) := by
  induction as with
  | nil => exact failsAs_pure _
  | cons a as ih =>
    obtain ⟨here, there⟩ := List.forall_mem_cons.mp each
    rw [List.mapM_cons]
    exact here.bind fun b _ => (ih there).bind fun bs _ => failsAs_pure _

theorem foldlM_congr {g h : β → α → Traced β} {as : List α} (same : ∀ a ∈ as, ∀ b, g b a = h b a) (b : β) :
    as.foldlM g b = as.foldlM h b := by
  induction as generalizing b with
  | nil => rfl
  | cons a as ih =>
    rw [List.foldlM_cons, List.foldlM_cons, same a List.mem_cons_self]
    apply bind_congr
    exact ih fun a member => same a (List.mem_cons_of_mem _ member)

def Ensures (P : Failure → Prop) (Q : α → Prop) (x : Traced α) : Prop :=
  x.FailsAs P ∧ ∀ a, x.result = .ok a → Q a

variable {Q : α → Prop} {R : β → Prop}

theorem ensures_pure {a : α} (h : Q a) : Ensures P Q (pure a : Traced α) := by
  refine ⟨failsAs_pure a, ?_⟩
  rintro _ ⟨⟩
  exact h

theorem ensures_fail {cause : Cause} {offset : Option Int} (h : P (.error cause offset)) :
    Ensures P Q (fail cause offset : Traced α) := by
  refine ⟨failsAs_fail h, ?_⟩
  rintro _ ⟨⟩

theorem Ensures.bind (first : Ensures P Q x) (next : ∀ a, Q a → Ensures P R (f a)) : Ensures P R (x >>= f) := by
  refine ⟨first.1.bind fun a ran => (next a (first.2 a ran)).1, ?_⟩
  intro b ran
  rw [result_bind] at ran
  obtain ⟨a, one, two⟩ := bind_eq_ok.mp ran
  exact (next a (first.2 a one)).2 b two

theorem FailsAs.then (first : FailsAs P x) (next : ∀ a, Ensures P R (f a)) : Ensures P R (x >>= f) :=
  Ensures.bind (Q := fun _ => True) ⟨first, fun _ _ => trivial⟩ fun a _ => next a

theorem Ensures.mono {Q' : α → Prop} (ensures : Ensures P Q x) (weaker : ∀ a, Q a → Q' a) : Ensures P Q' x :=
  ⟨ensures.1, fun a ran => weaker a (ensures.2 a ran)⟩

/-- What each step keeps, and fails with, a run keeps and fails with. -/
theorem ensures_foldlM {g : β → α → Traced β} {as : List α} {b : β}
    (step : ∀ b a, a ∈ as → R b → Ensures P R (g b a)) (start : R b) : Ensures P R (as.foldlM g b) := by
  induction as generalizing b with
  | nil => exact ensures_pure start
  | cons a as ih =>
    rw [List.foldlM_cons]
    refine (step b a List.mem_cons_self start).bind fun b' => ih ?_
    exact fun b a member => step b a (List.mem_cons_of_mem _ member)

/-- What every step of a run keeps, the run keeps. -/
theorem foldlM_invariant {g : β → α → Traced β} {as : List α} {b b' : β}
    (step : ∀ b a b', a ∈ as → R b → (g b a).result = .ok b' → R b') (start : R b)
    (ran : (as.foldlM g b).result = .ok b') : R b' := by
  have each : ∀ b a, a ∈ as → R b → Ensures (fun _ => True) R (g b a) :=
    fun b a member before => ⟨fun _ _ => trivial, fun b' => step b a b' member before⟩
  exact (ensures_foldlM each start).2 b' ran

end Traced

end Stylesheet
