import Stylesheet.Proofs.Lexeme.Lexed
import Stylesheet.Proofs.Lexeme.Spans

/-! Lexemes spelled out and scanned again. A space keeps any two tokens apart, and two
lexemes that touch stood side by side in their source, where the first was complete
before the second. So whichever lexemes of a source are chosen, their spelling is
scanned as the same tokens. -/
namespace Stylesheet

/-- Lexemes that can be spelled side by side: if they touch, the first is complete
before the second. -/
def Lexeme.Fits (l next : Lexeme) : Prop :=
  l.touches next = true → l.token.endsBefore next.raw.head? = true

theorem Lexeme.start_of_touches {l next : Lexeme} {start : Nat} (offset : l.offset = some (start : Int))
    (touching : l.touches next = true) : next.start = start + l.raw.length := by
  rw [touches, stop_of_offset offset] at touching
  cases behind : next.offset with
  | none => simp [behind] at touching
  | some offset' =>
    simp only [behind, beq_iff_eq] at touching
    rw [Lexeme.start, behind, ← touching]
    rfl

/-- A space completes every token. -/
theorem Token.endsBefore_space (token : Token) : token.endsBefore (some ' ') = true :=
  token.endsBefore_of_stop rfl (by decide) fun _ => by decide

namespace Tiles

variable {index : Nat} {text last : Text} {lexemes : List Lexeme}

/-- Every lexeme that is found is a token by itself. -/
theorem isWhole (tiles : Tiles index text lexemes last) : ∀ l ∈ lexemes, l.token.IsWhole := by
  induction tiles with
  | nil => exact fun l member => absurd member List.not_mem_nil
  | @cons index gap tail after last c token lexemes skipped reads ends rest ih =>
    intro l member
    rcases List.mem_cons.mp member with rfl | member
    · refine reads.isWhole (Scan.isSpace_of_skipTrivia skipped) ?_
      rintro ⟨rfl, slash⟩
      refine Scan.notLine_of_skipTrivia skipped ⟨rfl, ?_⟩
      rw [List.head?_append, slash]
      rfl
    · exact ih l member

/-- A lexeme that starts where the text does is what the text starts with. -/
theorem head_of_start (tiles : Tiles index text lexemes last) {l : Lexeme} (member : l ∈ lexemes)
    (first : l.start = index) : text.head? = l.raw.head? := by
  cases tiles with
  | nil => exact absurd member List.not_mem_nil
  | @cons _ gap tail after _ c token lexemes skipped reads ends rest =>
    rcases List.mem_cons.mp member with rfl | member
    · have noGap : index + gap.length = index := first
      obtain rfl : gap = [] := List.length_eq_zero_iff.mp (by omega)
      rw [Lexeme.raw, reads.1]
      rfl
    · have behind := rest.start_ge l member
      have length := congrArg List.length reads.1
      rw [List.length_cons] at length
      omega

/-- Any two lexemes that are found can be spelled side by side. -/
theorem fits (tiles : Tiles index text lexemes last) : lexemes.Pairwise Lexeme.Fits := by
  induction tiles with
  | nil => exact .nil
  | @cons index gap tail after last c token lexemes skipped reads ends rest ih =>
    refine .cons (fun next member touching => ?_) ih
    have start := Lexeme.start_of_touches rfl touching
    rw [← rest.head_of_start member start]
    exact ends

end Tiles

namespace Expression

/-- For each lexeme but the last, whether the next one touches it. -/
def contacts : List Lexeme → List Bool
  | l :: next :: rest => l.touches next :: contacts (next :: rest)
  | _ => []

theorem joinAfter_congr {l l' : Lexeme} {ls ls' : List Lexeme}
    (tokens : ls.map (·.token) = ls'.map (·.token)) (same : contacts (l :: ls) = contacts (l' :: ls')) :
    joinAfter l ls = joinAfter l' ls' := by
  induction ls generalizing l l' ls' with
  | nil =>
    obtain rfl := List.map_eq_nil_iff.mp tokens.symm
    rfl
  | cons next ls ih =>
    obtain ⟨next', rest, rfl, token, others⟩ := List.map_eq_cons_iff.mp tokens.symm
    obtain ⟨touch, same⟩ := List.cons.inj same
    have raw : next.raw = next'.raw := congrArg Token.raw token.symm
    rw [joinAfter, joinAfter, touch, raw, ih others.symm same]

/-- Lexemes are spelled by their tokens and by which of them touch. -/
theorem join_congr {ls ls' : List Lexeme} (tokens : ls.map (·.token) = ls'.map (·.token))
    (same : contacts ls = contacts ls') : join ls = join ls' := by
  cases ls with
  | nil =>
    obtain rfl := List.map_eq_nil_iff.mp tokens.symm
    rfl
  | cons l ls =>
    obtain ⟨l', rest, rfl, token, others⟩ := List.map_eq_cons_iff.mp tokens.symm
    have raw : l.raw = l'.raw := congrArg Token.raw token.symm
    rw [join, join, raw, joinAfter_congr others.symm same]

variable {l : Lexeme} {ls : List Lexeme}

theorem touches_at (token token' : Token) (index start : Nat) :
    (⟨token, some (index : Int)⟩ : Lexeme).touches ⟨token', some (start : Int)⟩ =
      decide (index + token.raw.length = start) := by
  rw [Lexeme.touches, Lexeme.stop_of_offset rfl, Bool.eq_iff_iff, beq_iff_eq, decide_eq_true_iff]
  exact Int.natCast_inj

/-- Whole tokens that can be spelled side by side are scanned from their spelling, and
touch where they did. -/
theorem lexed_join (whole : ∀ m ∈ l :: ls, m.token.IsWhole) (fits : (l :: ls).Pairwise Lexeme.Fits) (index : Nat) :
    ∃ again : List Lexeme, Lexed index (l.raw ++ joinAfter l ls) [] (⟨l.token, some (index : Int)⟩ :: again) ∧
      again.map (·.token) = ls.map (·.token) ∧
      contacts (⟨l.token, some (index : Int)⟩ :: again) = contacts (l :: ls) := by
  induction ls generalizing l index with
  | nil =>
    refine ⟨[], ?_, rfl, rfl⟩
    rw [joinAfter, List.append_nil]
    exact (whole l List.mem_cons_self).lexed index [] l.token.endsBefore_none
  | cons next ls ih =>
    have wholeRest : ∀ m ∈ next :: ls, m.token.IsWhole := fun m member => whole m (List.mem_cons_of_mem l member)
    obtain ⟨behind, fitsRest⟩ := List.pairwise_cons.mp fits
    have first := (whole l List.mem_cons_self).lexed index
    cases touching : l.touches next with
    | true =>
      obtain ⟨again, lexed, tokens, same⟩ := ih wholeRest fitsRest (index + l.raw.length)
      have ends : l.token.endsBefore ((next.raw ++ joinAfter next ls) ++ []).head? = true := by
        obtain ⟨c, tail, reads⟩ := (wholeRest next List.mem_cons_self).reads
        have fit := behind next List.mem_cons_self touching
        rw [Lexeme.raw, reads.1] at fit ⊢
        exact fit
      refine ⟨⟨next.token, some ((index + l.raw.length : Nat) : Int)⟩ :: again, ?_, by simp [tokens], ?_⟩
      · rw [joinAfter, touching, if_pos rfl, List.nil_append]
        exact (first _ ends).append lexed
      · rw [contacts, same, contacts, touches_at, touching, Lexeme.raw, decide_eq_true rfl]
    | false =>
      obtain ⟨again, lexed, tokens, same⟩ := ih wholeRest fitsRest (index + l.raw.length + 1)
      have gap := lexed_space (c := ' ') rfl (index + l.raw.length) (next.raw ++ joinAfter next ls ++ [])
      refine ⟨⟨next.token, some ((index + l.raw.length + 1 : Nat) : Int)⟩ :: again, ?_, by simp [tokens], ?_⟩
      · rw [joinAfter, touching, if_neg Bool.false_ne_true, List.append_assoc]
        exact (first (' ' :: _) l.token.endsBefore_space).append (gap.append lexed)
      · rw [contacts, same, contacts, touches_at, touching, Lexeme.raw, decide_eq_false (by omega)]

end Expression

/-- A text of which nothing is left is scanned as its lexemes. -/
theorem Lexed.tokenize {text : Text} {lexemes : List Lexeme} (lexed : Lexed 0 text [] lexemes) :
    tokenize text = .ok lexemes := by
  unfold Lexed at lexed
  have nothing : scanned (0 + text.length) [] = [] := by rw [scanned, Outcome.scanFrom_nil rfl]; rfl
  rw [List.append_nil, nothing, List.append_nil] at lexed
  exact mapM_of_map_eq lexed

/-- Any lexemes of a source, in their order, are scanned from their spelling as the
same tokens, of which the same touch, so that they are spelled the same again. -/
theorem tokenize_join {source : Text} {lexemes part : List Lexeme} (read : tokenize source = .ok lexemes)
    (chosen : part.Sublist lexemes) :
    ∃ again, tokenize (Expression.join part) = .ok again ∧ again.map (·.token) = part.map (·.token) ∧
      Expression.contacts again = Expression.contacts part ∧ Expression.join again = Expression.join part := by
  obtain ⟨last, tiles⟩ := tokenize_eq_ok.mp read
  have whole : ∀ l ∈ part, l.token.IsWhole := fun l member => tiles.isWhole l (chosen.subset member)
  have fits : part.Pairwise Lexeme.Fits := tiles.fits.sublist chosen
  cases part with
  | nil => exact ⟨[], (lexed_nil 0 []).tokenize, rfl, rfl, rfl⟩
  | cons l ls =>
    obtain ⟨again, lexed, tokens, same⟩ := Expression.lexed_join whole fits 0
    have tokens : (⟨l.token, some (0 : Nat)⟩ :: again : List Lexeme).map (·.token) = (l :: ls).map (·.token) := by
      rw [List.map_cons, List.map_cons, tokens]
    exact ⟨_, lexed.tokenize, tokens, same, Expression.join_congr tokens same⟩

theorem tokenize_join_uncommented :
    tokenize "a/**/-1px(".toList =
        .ok [⟨.ident ['a'], some 0⟩, ⟨.comment "/**/".toList, some 1⟩,
          ⟨.number ⟨.ofDecimal true 1 0, some ['p', 'x'], false, "-1px".toList⟩, some 5⟩,
          ⟨.operator .leftParen, some 9⟩] ∧
      ∃ again, tokenize "a -1px(".toList = .ok again ∧
        again.map (·.token) = [.ident ['a'],
          .number ⟨.ofDecimal true 1 0, some ['p', 'x'], false, "-1px".toList⟩, .operator .leftParen] ∧
        Expression.contacts again = [false, true] ∧ Expression.join again = "a -1px(".toList := by
  have read := eq_ok_of_toOption (by decide +kernel : (tokenize "a/**/-1px(".toList).toOption =
    some [⟨.ident ['a'], some 0⟩, ⟨.comment "/**/".toList, some 1⟩,
      ⟨.number ⟨.ofDecimal true 1 0, some ['p', 'x'], false, "-1px".toList⟩, some 5⟩,
      ⟨.operator .leftParen, some 9⟩])
  exact ⟨read, tokenize_join read (.cons_cons _ (.cons _ (.refl _)))⟩

end Stylesheet
