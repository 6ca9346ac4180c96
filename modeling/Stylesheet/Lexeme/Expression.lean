import Stylesheet.Lexeme.Basic

/-! Expressions: the lexemes of a value that waits to be evaluated. They are
spelled back with one space where the source had a gap, and split at a separator
that stands outside parentheses. -/
namespace Stylesheet

abbrev Expression := List Lexeme

namespace Expression

/-- The spelling of the lexemes behind `previous`. -/
def joinAfter : Lexeme → List Lexeme → Text
  | _, [] => []
  | previous, l :: rest =>
    (if previous.touches l then [] else [' ']) ++ l.raw ++ joinAfter l rest

/-- The lexemes spelled out, with one space wherever two do not touch. -/
def join : Expression → Text
  | [] => []
  | l :: rest => l.raw ++ joinAfter l rest

/-- The offset of the first lexeme. -/
def offset (e : Expression) : Option Int := e.head?.bind (·.offset)

/-- The groups between separators outside parentheses, from a given depth on.
Parentheses themselves never separate. -/
def splitFrom (separator : Operator) : Nat → List Lexeme → List (List Lexeme)
  | _, [] => [[]]
  | depth, l :: rest =>
    let isParen := l.isOp .leftParen || l.isOp .rightParen
    if depth = 0 ∧ !isParen ∧ l.isOp separator then [] :: splitFrom separator 0 rest
    else match splitFrom separator (l.depthAfter depth) rest with
      | [] => [[l]]
      | group :: groups => (l :: group) :: groups

def split (separator : Operator) (e : Expression) : List Expression := splitFrom separator 0 e

/-- Expressions are equal in their tokens; offsets do not count. -/
def same (a b : Expression) : Bool :=
  a.length == b.length && (a.zip b).all fun (l, r) => l.token.same r.token

def inspect (e : Expression) : Text := "Expression(".toList ++ join e ++ [')']

/-- Without the comments. -/
def withoutComments (e : List Lexeme) : List Lexeme := e.filter (!·.isComment)

/-- The groups between separators, one behind the other, leave out the separators. -/
theorem flatten_splitFrom (separator : Operator) (depth : Nat) (ls : List Lexeme) :
    (splitFrom separator depth ls).flatten.Sublist ls := by
  induction ls generalizing depth with
  | nil => exact List.Sublist.refl _
  | cons l rest ih =>
    simp only [splitFrom]
    split
    · exact (ih 0).cons l
    · have inside := ih (l.depthAfter depth)
      split
      · exact (List.nil_sublist rest).cons_cons l
      · next group groups splits =>
        rw [splits] at inside
        exact inside.cons_cons l

/-- Every group is part of what was split, in its order. -/
theorem sublist_of_mem_splitFrom {separator : Operator} {depth : Nat} {ls group : List Lexeme}
    (member : group ∈ splitFrom separator depth ls) : group.Sublist ls :=
  (List.sublist_flatten_of_mem member).trans (flatten_splitFrom separator depth ls)

end Expression

end Stylesheet
