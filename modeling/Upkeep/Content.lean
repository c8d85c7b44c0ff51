/-
What a file holds, or a program writes.
-/
import Upkeep.Text.Utf8

namespace Upkeep

/-- Text, or bytes that are not UTF-8. -/
inductive Content where
  | text (s : String)
  | bytes (bs : List UInt8)
  deriving DecidableEq, Repr

namespace Content

/-- The content made of some bytes. -/
def ofBytes (bs : ByteArray) : Content :=
  match String.fromUTF8? bs with
  | some s => .text s
  | none => .bytes bs.toList

/-- The content as text, if it is. -/
def decode : Content → Except Text.Utf8.Fault String
  | text s => .ok s
  | bytes bs => Text.Utf8.decode bs

/-- The content as it is shown, whether it is text or not. -/
def shown : Content → String
  | text s => s
  | bytes bs => Text.Utf8.shown bs

end Content

end Upkeep
