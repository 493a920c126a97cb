import Protolink.Wire.Codec
import Protolink.Wire.Request
import Protolink.Wire.Response

/-!
# The binary codec
-/

namespace Protolink.Wire

/-- Requests and responses as sequences of records. -/
def binary : Codec := ⟨decodeRequest, encodeResponse⟩

end Protolink.Wire
