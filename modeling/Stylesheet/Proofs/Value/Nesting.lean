import Stylesheet.Proofs.Lexeme.Groups
import Stylesheet.Value.Evaluate

/-! Evaluation without a limit on nesting. The arguments of a call are shorter than the
expression it stands in, so the depth that evaluation allows itself is never reached:
an expression is run with its calls evaluated as expressions of their own. -/
namespace Stylesheet

namespace Evaluate

theorem length_of_mem_pieces {ls arguments : List Lexeme} {name : Text} {offset : Option Int}
    (member : .call name arguments offset ∈ pieces ls) : arguments.length < ls.length := by
  fun_induction pieces ls with
  | case1 => cases member
  | case2 l => simp at member
  | case3 l paren rest noCall ih =>
    rcases List.mem_cons.mp member with same | member
    · cases same
    · exact Nat.lt_succ_of_lt (ih member)
  | case4 l paren rest name' called arguments' after closed ih =>
    have shorter := closeGroup_length closed
    simp only [List.length_cons]
    rcases List.mem_cons.mp member with same | member
    · cases same
      omega
    · have inside := ih member
      omega
  | case5 l paren rest name' called unclosed => simp at member

theorem subset_of_closeGroup {depth : Nat} {ls inner after : List Lexeme}
    (closed : closeGroup depth ls = some (inner, after)) : inner ⊆ ls ∧ after ⊆ ls := by
  induction ls generalizing depth inner with
  | nil => simp [closeGroup] at closed
  | cons l rest ih =>
    rw [closeGroup] at closed
    split at closed
    · cases closed
      exact ⟨List.nil_subset _, List.subset_cons_self l _⟩
    · obtain ⟨⟨_, _⟩, behind, same⟩ := Option.map_eq_some_iff.mp closed
      cases same
      obtain ⟨first, second⟩ := ih behind
      exact ⟨List.cons_subset_cons l first, List.subset_cons_of_subset l second⟩

def Piece.Drawn (P : Lexeme → Prop) : Piece → Prop
  | .lexeme l => P l
  | .call _ arguments offset => (∀ l ∈ arguments, P l) ∧ ∃ l, P l ∧ l.offset = offset
  | .unclosed offset => ∃ l, P l ∧ l.offset = offset

theorem pieces_drawn {P : Lexeme → Prop} {ls : List Lexeme} (all : ∀ l ∈ ls, P l) :
    ∀ part ∈ pieces ls, part.Drawn P := by
  fun_induction pieces ls with
  | case1 => simp
  | case2 l => simpa [Piece.Drawn] using all
  | case3 l paren rest noCall ih =>
    rw [List.forall_mem_cons] at all
    exact List.forall_mem_cons.mpr ⟨all.1, ih all.2⟩
  | case4 l paren rest name called arguments after closed ih =>
    obtain ⟨inner, behind⟩ := subset_of_closeGroup closed
    have rest : ∀ l ∈ rest, P l := fun l member => all l (List.mem_cons_of_mem _ (List.mem_cons_of_mem _ member))
    refine List.forall_mem_cons.mpr ⟨⟨fun l member => rest l (inner member), l, all l List.mem_cons_self, rfl⟩, ?_⟩
    exact ih fun l member => rest l (behind member)
  | case5 l paren rest name called unclosed =>
    exact List.forall_mem_singleton.mpr ⟨paren, all paren (List.mem_cons_of_mem _ List.mem_cons_self), rfl⟩

section

variable {f g : List Lexeme → Traced Value} {scope : Scope}

theorem call_congr {arguments : List Lexeme} (same : ∀ ls, ls.length ≤ arguments.length → f ls = g ls)
    (name : Text) (offset : Option Int) :
    call f scope name arguments offset = call g scope name arguments offset := by
  have groups : ((Expression.split .comma arguments).filter (!·.isEmpty)).mapM f =
      ((Expression.split .comma arguments).filter (!·.isEmpty)).mapM g := by
    apply mapM_congr
    intro group member
    exact same group (Expression.sublist_of_mem_splitFrom (List.mem_filter.mp member).1).length_le
  simp only [call, groups]

/-- A run depends on the values of shorter expressions only. -/
theorem run_congr {e : Expression} (same : ∀ ls, ls.length < e.length → f ls = g ls) :
    run f scope e = run g scope e := by
  have fewer : (Expression.withoutComments e).length ≤ e.length := List.length_filter_le _ _
  simp only [run]
  split
  · rfl
  · next l rest uncommented =>
    rw [uncommented] at fewer
    congr 1
    apply Traced.foldlM_congr
    intro part member m
    cases part with
    | lexeme l => rfl
    | unclosed offset => rfl
    | call name arguments offset =>
      have shorter := length_of_mem_pieces member
      simp only [step]
      rw [call_congr fun ls within => same ls (by omega)]

end

/-- More depth than an expression is long makes no difference. -/
theorem upTo_congr {scope : Scope} {depth more : Nat} {e : Expression} (deep : e.length < depth)
    (deeper : e.length < more) : upTo scope depth e = upTo scope more e := by
  induction depth generalizing more e with
  | zero => cases deep
  | succ depth ih =>
    cases more with
    | zero => cases deeper
    | succ more =>
      apply run_congr
      intro ls shorter
      exact ih (by omega) (by omega)

end Evaluate

/-- An expression is run with the arguments of its calls evaluated. -/
theorem evaluate_eq_run (scope : Scope) (e : Expression) :
    evaluate scope e = Evaluate.run (evaluate scope) scope e :=
  Evaluate.run_congr fun _ shorter => Evaluate.upTo_congr shorter (Nat.lt_succ_self _)

/-- An identifier on its own evaluates to what it stands for. -/
theorem evaluate_ident (scope : Scope) (raw : Text) (offset : Option Int) :
    (evaluate scope [⟨.ident raw, offset⟩]).result = Evaluate.identValue scope raw offset := by
  have one : Evaluate.pieces [⟨.ident raw, offset⟩] = [.lexeme ⟨.ident raw, offset⟩] := by rw [Evaluate.pieces]
  have ran : evaluate scope [⟨.ident raw, offset⟩] =
      (Evaluate.pieces [⟨.ident raw, offset⟩]).foldlM (Evaluate.step (Evaluate.upTo scope 1) scope)
        Evaluate.Machine.start >>= fun m => m.finish scope.precision offset := rfl
  rw [ran, one]
  simp only [List.foldlM_cons, List.foldlM_nil, Evaluate.step, Evaluate.lexemeValue, Traced.result_bind]
  cases Evaluate.identValue scope raw offset <;> rfl

end Stylesheet
