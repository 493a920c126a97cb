import Protolink.Plugin
import Protolink.Wire.Varint

/-!
# Codecs

What a command has to know about the wire: which request bytes hold, and which bytes hold a
response.
-/

namespace Protolink.Wire

structure Codec where
  /-- The request that bytes hold, if they hold one. -/
  readRequest : Bytes → Option Request
  writeResponse : Response → Bytes

end Protolink.Wire
