import HttpSession.Session.Basic

namespace HttpSession

inductive Message where
  | settings
  | raw (content : Octets)
  | other (text : String)
  deriving DecidableEq, Repr

namespace Message

def debug : Message → String
  | .settings => "Http2Settings"
  | .raw content => Text.applied "Bytes" [toString content.length]
  | .other text => Text.applied "Other" [text]

def objection : Message → Option String
  | .settings => none
  | .raw content =>
      some (toString content.length ++ " bytes, hex dump: " ++ hexDump content)
  | .other text => some text

end Message

namespace Session

def onMessage (s : Session) (message : Message) : Traced (Session × Option Fault) :=
  match message.objection with
  | none => ⟨(s, none), []⟩
  | some text =>
      ⟨(s, some (Fault.violation ("unexpected message type: " ++ text))), [.call .close]⟩

def onResponse (s : Session) (stream : Option StreamId) (part : Part) :
    Traced (Session × Option Fault) :=
  match s.phase with
  | .negotiating =>
      ⟨(s, some (Fault.violation "received a response before negotiation")), [.call .close]⟩
  | .closed => ⟨(s, none), []⟩
  | .established w t =>
      let received := t.receive stream part
      ⟨({ s with phase := .established w received.value.tracker }, received.value.fault),
        received.actions ++ if received.value.fault.isSome then [.call .close] else []⟩

def onTransportError (s : Session) (e : IoError) : Traced (Session × Option Fault) :=
  ⟨(s, if e.kind.isBenign then none else some (Fault.ofIo e)),
    if s.channel.isOpen then [.call .close] else []⟩

end Session

end HttpSession
