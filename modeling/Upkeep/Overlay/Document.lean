/-
JSON files of an overlay.

A document that is written back is printed in the pretty style.  It ends in a line feed
exactly when the file did before, and a new file always does.
-/
import Upkeep.Failure
import Upkeep.Json.Reader

namespace Upkeep.Overlay

/-- The document in a text that was found under the path. -/
def parseDocument (path text : String) : Except Failure Json.Value :=
  (Json.read text).mapError (.unreadable path)

/-- The document in a file. -/
def readDocument (o : Overlay) (path : String) : Except Failure Json.Value :=
  match o.content? path with
  | none => .error (.absent path)
  | some text => parseDocument path text

/-- The text ends in a line feed. -/
def endsInLineFeed (s : String) : Bool := s.toList.getLast? = some '\n'

/-- Writes a document to a file, new or old. -/
def writeDocument (o : Overlay) (path : String) (v : Json.Value) : Except Failure Overlay :=
  match o.content? path with
  | some current =>
    let text := if endsInLineFeed current then v.pretty ++ "\n" else v.pretty
    (o.update path text).mapError .refused
  | none => (o.add path (v.pretty ++ "\n")).mapError .refused

end Upkeep.Overlay
