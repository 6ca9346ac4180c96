import Stylesheet.Proofs.Lexeme.Cursor
import Stylesheet.Proofs.Lexeme.Lexed

/-! What a cursor has left to read, as one stream: lexemes in view, then outcomes not
drawn yet. Looking ahead moves the border between the two and leaves the stream as it
is. -/
namespace Stylesheet

namespace Cursor

def Before (c : Cursor) (text : Text) : Prop := ∃ index, c.stream = scanned index text

variable {c : Cursor} {l : Lexeme} {rest : List (Except Failure Lexeme)}

theorem Before.of_space {d : Char} {text : Text} (before : c.Before (d :: text)) (space : Scan.isSpace d = true) :
    c.Before text := by
  obtain ⟨index, stream⟩ := before
  exact ⟨index + 1, stream.trans (lexed_space space index text)⟩

theorem Before.stream_nil (before : c.Before []) : c.stream = [] := by
  obtain ⟨index, stream⟩ := before
  rw [stream, scanned, Outcome.scanFrom_nil rfl]
  rfl

/-- Behind a piece of text the cursor has its lexemes first. -/
theorem Before.stream_eq {text more : Text} {index : Nat} {ls : List Lexeme} (lexed : Lexed index text more ls)
    (stream : c.stream = scanned index (text ++ more)) :
    c.stream = ls.map .ok ++ scanned (index + text.length) more := stream.trans lexed

theorem next_of_stream (left : c.stream = .ok l :: rest) :
    ∃ c', c.next = (.ok (some l), c') ∧ c'.stream = rest := by
  obtain ⟨ahead, pending, index, length⟩ := c
  cases ahead with
  | cons l' ahead =>
    obtain ⟨same, rest⟩ := List.cons.inj left
    cases same
    exact ⟨_, rfl, rest⟩
  | nil =>
    cases pending with
    | nil => cases left
    | cons o pending =>
      obtain ⟨read, rest⟩ := List.cons.inj left
      refine ⟨⟨[], pending, o.stop, length⟩, ?_, rest⟩
      simp [next, draw, read, Except.map]

theorem peek_of_stream (left : c.stream = .ok l :: rest) :
    ∃ c', c.peek 1 = (.ok (some l), c') ∧ c'.stream = .ok l :: rest := by
  obtain ⟨ahead, pending, index, length⟩ := c
  rw [peek_one]
  cases ahead with
  | cons l' ahead =>
    have same := (List.cons.inj left).1
    cases same
    exact ⟨_, rfl, left⟩
  | nil =>
    cases pending with
    | nil => cases left
    | cons o pending =>
      obtain ⟨read, same⟩ := List.cons.inj left
      refine ⟨⟨[l], pending, o.stop, length⟩, by simp [read], ?_⟩
      rw [← same]
      rfl

theorem peek_of_end (left : c.stream = []) :
    ∃ c', c.peek 1 = (.ok none, c') ∧ c'.stream = [] := by
  obtain ⟨ahead, pending, index, length⟩ := c
  obtain ⟨rfl, rfl⟩ : ahead = [] ∧ pending = [] := stream_eq_nil.mp left
  rw [peek_one]
  exact ⟨_, rfl, rfl⟩

variable {ls : List Lexeme} {op : Operator}

theorem findBoundary_single (bound : l.boundary? = some op) : findBoundary 0 [l] = .inl op := by
  simp [findBoundary, bound]

/-- A boundary is found by drawing up to it. -/
theorem drawBoundary_of_stream {depth : Nat} (drawn : c.pending.map Outcome.lexeme = ls.map .ok ++ .ok l :: rest)
    (inside : findBoundary depth ls = .inr 0) (bound : l.boundary? = some op) :
    ∃ c', c.drawBoundary depth = (.ok (some op), c') ∧ c'.ahead = c.ahead ++ (ls ++ [l]) ∧
      c'.stream = c.stream := by
  obtain ⟨ahead, pending, index, length⟩ := c
  induction ls generalizing depth ahead pending index with
  | nil =>
    cases pending with
    | nil => cases drawn
    | cons o pending =>
      obtain ⟨read, -⟩ := List.cons.inj drawn
      have zero : depth = 0 := Sum.inr.inj inside
      rw [drawBoundary_cons, read, zero]
      simp only [findBoundary_single bound]
      exact ⟨_, rfl, rfl, by simp [stream, read]⟩
  | cons l' ls ih =>
    cases pending with
    | nil => cases drawn
    | cons o pending =>
      obtain ⟨read, drawn⟩ := List.cons.inj drawn
      have split := findBoundary_append depth [l'] ls
      rw [List.singleton_append, inside] at split
      cases here : findBoundary depth [l'] with
      | inl op' => simp [here] at split
      | inr depth' =>
        simp only [here] at split
        obtain ⟨c', found, view, same⟩ := ih split.symm (ahead ++ [l']) pending o.stop drawn
        rw [drawBoundary_cons, read]
        simp only [here]
        refine ⟨c', found, ?_, ?_⟩
        · rw [view]
          simp
        · rw [same]
          simp [stream, read]

/-- A stream that starts with lexemes has them in view, and maybe more, or is yet to
draw the last of them. -/
theorem view_or_drawn (left : c.stream = ls.map .ok ++ .ok l :: rest) :
    (∃ more, c.ahead = ls ++ l :: more) ∨
      ∃ drawn, ls = c.ahead ++ drawn ∧ c.pending.map Outcome.lexeme = drawn.map .ok ++ .ok l :: rest := by
  have inj {as bs : List Lexeme} (same : as.map (Except.ok (ε := Failure)) = bs.map .ok) : as = bs :=
    (List.map_inj_right fun _ _ => Except.ok.inj).mp same
  rcases List.append_eq_append_iff.mp left with ⟨drawn, same, pending⟩ | ⟨view, same, pending⟩
  · obtain ⟨seen, drawn, rfl, first, rfl⟩ := List.map_eq_append_iff.mp same
    obtain rfl := inj first
    exact .inr ⟨drawn, rfl, pending⟩
  · obtain ⟨seen, view, ahead, first, rfl⟩ := List.map_eq_append_iff.mp same
    obtain rfl := inj first
    cases view with
    | nil => exact .inr ⟨[], by simp [ahead], by simpa using pending.symm⟩
    | cons l' more =>
      obtain ⟨first, -⟩ := List.cons.inj pending
      cases first
      exact .inl ⟨more, ahead⟩

/-- The boundary behind lexemes that hold none is found, and comes into view. -/
theorem boundary_of_stream (left : c.stream = ls.map .ok ++ .ok l :: rest)
    (inside : findBoundary 0 ls = .inr 0) (bound : l.boundary? = some op) :
    ∃ c' more, c.boundary = (.ok (some op), c') ∧ c'.ahead = ls ++ l :: more ∧ c'.stream = c.stream := by
  rcases view_or_drawn left with ⟨more, view⟩ | ⟨drawn, rfl, pending⟩
  · have found : findBoundary 0 c.ahead = .inl op := by
      rw [view, ← List.singleton_append, ← List.append_assoc, findBoundary_append, findBoundary_append, inside]
      simp only [findBoundary_single bound]
    exact ⟨c, more, by rw [boundary, found], view, rfl⟩
  · rw [findBoundary_append] at inside
    cases here : findBoundary 0 c.ahead with
    | inl op' => simp [here] at inside
    | inr depth =>
      simp only [here] at inside
      obtain ⟨c', found, view, same⟩ := drawBoundary_of_stream pending inside bound
      refine ⟨c', [], ?_, by rw [view, List.append_assoc], same⟩
      rw [boundary, here]
      exact found

end Cursor

end Stylesheet
