import HttpSession.Field.Hop
import HttpSession.Outlet

namespace HttpSession.Http2

def carried (head : Head) : Head :=
  { head with version := .http2, fields := head.fields.withoutHop }

def send (sink : FrameSink) (call : Bool → Call) : FrameSink × List Call × Option Fault :=
  match sink.send with
  | (some f, sink) => (sink, [call false], some (Fault.ofStream f))
  | (none, sink) => (sink, [call true], none)

end HttpSession.Http2
