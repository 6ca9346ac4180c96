import Stylesheet.Text.Basic

/-! Text files: UTF-8 bytes in which every kind of newline counts as a line feed. -/
namespace Stylesheet

namespace Text

/-- A carriage return, alone or before a line feed, becomes a line feed. -/
def unifyNewlines : Text → Text
  | [] => []
  | '\r' :: '\n' :: rest => '\n' :: unifyNewlines rest
  | '\r' :: rest => '\n' :: unifyNewlines rest
  | c :: rest => c :: unifyNewlines rest

/-- A carriage return before a line feed is dropped; any other stays. -/
def dropReturns : Text → Text
  | [] => []
  | '\r' :: '\n' :: rest => '\n' :: dropReturns rest
  | c :: rest => c :: dropReturns rest

/-- The text of bytes, none if they are no UTF-8. -/
def ofBytes? (bytes : ByteArray) : Option Text :=
  (String.fromUTF8? bytes).map fun s => unifyNewlines s.toList

/-- The bytes of a text. -/
def toBytes (text : Text) : ByteArray := (String.ofList text).toUTF8

end Text

end Stylesheet
