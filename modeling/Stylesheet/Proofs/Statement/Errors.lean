import Stylesheet.Proofs.Lexeme.Scanning
import Stylesheet.Proofs.Statement.Lexemes

/-! How parsing fails: with a compile error of its own, or with one that scanning
met. -/
namespace Stylesheet

namespace Scan

theorem read_error {c : Char} {rest : Text} {cause : Cause} (h : (read c rest).1 = .error cause) :
    cause.stage = .lexing := by
  have number : ∀ sign text, (readNumber sign text).1 = .error cause → cause.stage = .lexing := by
    intro sign text h
    unfold readNumber at h
    dsimp only at h
    split at h
    · cases h
    · cases h
      rfl
  have ident : ∀ text, (readIdent text).1 = .error cause → cause.stage = .lexing := by
    intro text h
    unfold readIdent at h
    dsimp only at h
    split at h
    · split at h
      · cases h
        rfl
      · cases h
    · cases h
  unfold read at h
  split at h
  · unfold readComment at h
    split at h
    · cases h
    · cases h
      rfl
  split at h
  · unfold readString at h
    split at h
    · cases h
    · cases h
      rfl
  split at h
  · split at h
    · exact number _ _ h
    split at h
    · exact ident _ h
    · cases h
  · split at h
    · cases h
    split at h
    · exact number _ _ h
    · exact ident _ h

end Scan

def Failure.IsSyntax : Failure → Prop
  | .error cause _ => cause.stage = .lexing ∨ cause.stage = .parsing
  | _ => False

theorem Outcome.isSyntax_of_scanFrom {index : Nat} {text : Text} {o : Outcome} {failure : Failure}
    (member : o ∈ scanFrom index text) (failed : o.lexeme = .error failure) : failure.IsSyntax := by
  obtain ⟨⟨c, rest, read⟩, -⟩ := exists_read member
  obtain ⟨cause, result, rfl⟩ := cause_of_lexeme failed
  exact .inl (Scan.read_error (read.symm.trans result))

/-- Parsing fails with syntax errors only. -/
theorem parse_error {source : Text} {failure : Failure} (failed : (parse source).result = .error failure) :
    failure.IsSyntax := by
  have admits : Parser.Admits (fun _ => True) Failure.IsSyntax := ⟨fun _ own => .inr own, fun own => .inr own⟩
  have scanned : ∀ o ∈ Outcome.drawn (Outcome.scan source), o.Reads (fun _ => True) Failure.IsSyntax := by
    intro o member
    exact ⟨fun _ _ => trivial, fun failure => Outcome.isSyntax_of_scanFrom (Outcome.drawn_subset _ member)⟩
  exact (ensures_parse admits (Cursor.each_ofSource scanned fun _ own => .inr own)).1 failure failed

end Stylesheet
