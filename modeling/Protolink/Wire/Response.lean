import Protolink.Plugin
import Protolink.Wire.Varint

/-!
# Responses on the wire
-/

namespace Protolink.Wire

/-- The bytes of a text. -/
def textBytes (s : String) : Bytes := s.toUTF8.data.toList

/-- Writes a field that holds a number. -/
def numberField (field n : Nat) : Bytes := Varint.encode (8 * field) ++ Varint.encode n

/-- Writes a field that holds bytes. -/
def bytesField (field : Nat) (bs : Bytes) : Bytes :=
  Varint.encode (8 * field + 2) ++ Varint.encode bs.length ++ bs

def encodeFile (f : OutputFile) : Bytes :=
  bytesField 1 (textBytes f.name) ++ bytesField 15 (textBytes f.content)

/-- Writes a response, with its fields in the order of their numbers. -/
def encodeResponse : Response → Bytes
  | .failed message => bytesField 1 (textBytes message)
  | .generated features files =>
    numberField 2 features ++ files.flatMap fun f => bytesField 15 (encodeFile f)

end Protolink.Wire
