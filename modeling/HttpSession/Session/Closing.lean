import HttpSession.Session.Basic

namespace HttpSession.Session

def farewell (s : Session) (promise : Promise) : Action :=
  if s.status.fallback then .call (.connect s.channel.address .h1c promise.settled)
  else .refuse Fault.closedSession

def onTransportClosed (s : Session) (promise : Promise) : Traced Session :=
  if s.transportClosed then ⟨s, []⟩
  else
    let fallen := { s.deactivate with
      transportClosed := true, negotiation := none, alarm := none, phase := .closed }
    let failures :=
      match s.tracker? with
      | some t => (t.failAll Fault.closedSession).actions
      | none => []
    ⟨fallen.publish, failures ++ [s.farewell promise]⟩

def abandon (s : Session) (reason : String) : Traced Session :=
  let fallen := { s with negotiation := none, alarm := none, phase := .closed }
  match s.tracker? with
  | some t => ⟨fallen, (t.failAll (Fault.dispatchGone reason)).actions⟩
  | none => ⟨fallen, []⟩

end HttpSession.Session
