import Stylesheet.Text.Basic

/-! Selectors are texts with a normal form: single spaces, none at the ends and
none inside an attribute test. Nested selectors combine with those around them, and
the compressed style drops the blanks around combinators. -/
namespace Stylesheet

namespace Selector

/-- Characters of an attribute name. -/
def isNameChar (c : Char) : Bool :=
  !Text.isBlank c && c != '*' && c != '~' && c != '^' && c != '|' && c != '=' && c != ']'

/-- Characters that may stand before the `=` of an attribute test. -/
def isMatcher (c : Char) : Bool := c == '*' || c == '~' || c == '^' || c == '$' || c == '|'

/-- Characters of an attribute value. -/
def isValueChar (c : Char) : Bool := !Text.isBlank c && c != ']'

/-- The operator of an attribute test at the front, and the text behind it. -/
def matcher? : Text → Option (Text × Text)
  | '=' :: rest => some (['='], rest)
  | c :: '=' :: rest => if isMatcher c then some ([c, '='], rest) else none
  | _ => none

/-- The attribute test behind an opening bracket without its blanks, and the text
behind its closing bracket. -/
def attribute? (text : Text) : Option (Text × Text) :=
  let named := text.dropWhile Text.isBlank
  let name := named.takeWhile isNameChar
  match matcher? ((named.dropWhile isNameChar).dropWhile Text.isBlank) with
  | none => none
  | some (op, rest) =>
    let valued := rest.dropWhile Text.isBlank
    let value := valued.takeWhile isValueChar
    match (valued.dropWhile isValueChar).dropWhile Text.isBlank with
    | ']' :: after =>
      if name.isEmpty || value.isEmpty then none else some (name ++ op ++ value, after)
    | _ => none

private theorem dropWhile_le (p : Char → Bool) (text : Text) : (text.dropWhile p).length ≤ text.length :=
  (List.dropWhile_sublist p).length_le

theorem matcher?_length {text op rest : Text} (h : matcher? text = some (op, rest)) :
    rest.length < text.length := by
  unfold matcher? at h
  split at h
  · obtain ⟨-, rfl⟩ := Prod.mk.inj (Option.some.inj h)
    simp
  · split at h
    · obtain ⟨-, rfl⟩ := Prod.mk.inj (Option.some.inj h)
      simp only [List.length_cons]
      omega
    · simp at h
  · simp at h

/-- Behind an attribute test less text is left. -/
theorem attribute?_length {text inner after : Text} (h : attribute? text = some (inner, after)) :
    after.length < text.length := by
  unfold attribute? at h
  dsimp only at h
  split at h
  · simp at h
  · next op rest hm =>
    split at h
    · next hv =>
      split at h
      · simp at h
      · obtain ⟨-, rfl⟩ := Prod.mk.inj (Option.some.inj h)
        have h₁ := matcher?_length hm
        have h₂ := dropWhile_le Text.isBlank (((text.dropWhile Text.isBlank).dropWhile isNameChar))
        have h₃ := dropWhile_le isNameChar (text.dropWhile Text.isBlank)
        have h₄ := dropWhile_le Text.isBlank text
        have h₅ := dropWhile_le Text.isBlank ((rest.dropWhile Text.isBlank).dropWhile isValueChar)
        have h₆ := dropWhile_le isValueChar (rest.dropWhile Text.isBlank)
        have h₇ := dropWhile_le Text.isBlank rest
        rw [hv, List.length_cons] at h₅
        omega
    · simp at h

/-- Every attribute test without its blanks, left to right; what a test covers is
not looked at again. -/
def squeezeAttributes : Text → Text
  | [] => []
  | c :: rest =>
    if c = '[' then
      match _ : attribute? rest with
      | some (inner, after) => '[' :: inner ++ ']' :: squeezeAttributes after
      | none => '[' :: squeezeAttributes rest
    else c :: squeezeAttributes rest
termination_by text => text.length
decreasing_by
  · exact Nat.lt_succ_of_lt (attribute?_length ‹_›)
  · exact Nat.lt_succ_self _
  · exact Nat.lt_succ_self _

/-- The normal form of a selector. -/
def normalize (selector : Text) : Text := squeezeAttributes (Text.collapse (Text.strip selector))

/-- A child selector below a parent: `&` stands for the parent, and without one the
child is a descendant. -/
def below (parent child : Text) : Text :=
  if child.contains '&' then child.flatMap fun c => if c = '&' then parent else [c]
  else parent ++ ' ' :: child

/-- Each child below each parent, parent by parent; the children alone if there is
no parent. -/
def combine (parents children : List Text) : List Text :=
  if parents.isEmpty then children else parents.flatMap fun parent => children.map (below parent)

def isCombinator (c : Char) : Bool := c == '>' || c == '+' || c == '~'

/-- Without the blanks on either side of combinators. -/
def squeezeFrom (afterCombinator : Bool) : Text → Text
  | [] => []
  | c :: rest =>
    if isCombinator c then c :: squeezeFrom true rest
    else if !Text.isBlank c then c :: squeezeFrom false rest
    else if afterCombinator then squeezeFrom true rest
    else if (rest.dropWhile Text.isBlank).head?.any isCombinator then squeezeFrom false rest
    else c :: squeezeFrom false rest

def squeeze (selectors : Text) : Text := squeezeFrom false selectors

end Selector

end Stylesheet
