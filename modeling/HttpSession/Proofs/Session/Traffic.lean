import HttpSession.Proofs.Session.Run
import HttpSession.Proofs.Tracker.Accounts
import HttpSession.Proofs.Tracker.Replies

namespace HttpSession

/-- The working part of an established session: how many requests it took, how many it may take,
what is still to be written and what is still awaited. -/
structure Traffic where
  dispatched : Nat
  ceiling : Nat
  writer : Writer
  tracker : Tracker

def Input.isIdle : Input → Bool
  | .activate | .deactivate | .markFallback | .negotiated _ _ _ | .message _ | .transportError _
  | .closed _ | .keepTime _ | .write _ _ | .publish | .linked _ => true
  | _ => false

def Happening.isIdle : Happening → Bool
  | .input i => i.isIdle
  | .action a => a.isIdle

def Input.debts : Input → List Debt
  | .dispatch _ _ _ caller => [.reply caller]
  | _ => []

namespace Piece

def isBody : Piece → Bool
  | .data _ _ | .trailers _ => true
  | _ => false

def isFinal : Piece → Bool
  | .data _ last => last
  | .trailers _ => true
  | _ => false

theorem isBody_of_isFinal {piece : Piece} (h : piece.isFinal = true) : piece.isBody = true := by
  cases piece with
  | headers | reset => simp [isFinal] at h
  | _ => rfl

end Piece

namespace Traffic

open Happening (ofActions)

def hasRoom (c : Traffic) : Bool :=
  c.dispatched < c.ceiling && !c.tracker.isClosing

def enroll (c : Traffic) (options : Options) (request : Request) (sink : Nat)
    (deadline : Option Instant) : Traced Traffic :=
  let seq := c.dispatched + 1
  let t := c.tracker.register seq sink options.maxLength deadline
  let closing := if c.ceiling ≤ seq then t.closeAfterDrain else pure t
  ⟨{ c with
      dispatched := seq
      writer := c.writer.enqueue ⟨seq, request.head, request.body, options.writeTimeout⟩
      tracker := closing.value },
    .enroll seq sink :: closing.actions⟩

def receive (c : Traffic) (stream : Option StreamId) (part : Part) : Traced Traffic :=
  let received := c.tracker.receive stream part
  ⟨{ c with tracker := received.value.tracker },
    received.actions ++ if received.value.fault.isSome then [.call .close] else []⟩

def track (c : Traffic) (t : Traced Tracker) : Traced Traffic :=
  ⟨{ c with tracker := t.value }, t.actions⟩

def encode (c : Traffic) (encoder : Encoder) : Traffic :=
  { c with writer := { c.writer with encoder := encoder } }

def queue (c : Traffic) (queue : List Upload) : Traffic :=
  { c with writer := { c.writer with queue := queue } }

def fly (c : Traffic) (active : List InFlight) : Traffic :=
  { c with writer := { c.writer with active := active } }

def giveUp (c : Traffic) (seq : Nat) (fault : Fault) : Traced Traffic :=
  let given := c.writer.encoder.put seq .reset
  let failed := (c.encode given.encoder).track (c.tracker.fail seq fault)
  ⟨failed.value, given.actions seq .reset ++ failed.actions⟩

/-- What a turn of writing is made of. Nothing is written before all that was given up has been
stopped, and nothing leaves the queue while the writer may not start another request. -/
inductive Write (clock : Clock) (gone : Nat → Bool) : Traffic → List Happening → Traffic → Prop
  | stop {c : Traffic} (a : Abandoned) (rest : List Abandoned)
      (given : c.tracker.abandoned = a :: rest) :
      Write clock gone c (ofActions (c.writer.abandon a.seq a.reset).2)
        { c with
          writer := (c.writer.abandon a.seq a.reset).1
          tracker := { c.tracker with abandoned := rest } }
  | skip {c : Traffic} (u : Upload) (rest : List Upload) (stopped : c.tracker.abandoned = [])
      (next : c.writer.queue = u :: rest) (free : c.writer.mayStart = true)
      (canceled : c.tracker.isCanceled gone u.seq = true) :
      Write clock gone c (ofActions ((c.queue rest).track (c.tracker.forget u.seq)).actions)
        ((c.queue rest).track (c.tracker.forget u.seq)).value
  | launch {c : Traffic} (u : Upload) (rest : List Upload) (sent : Emission)
      (stopped : c.tracker.abandoned = []) (next : c.writer.queue = u :: rest)
      (free : c.writer.mayStart = true) (wanted : c.tracker.isCanceled gone u.seq = false)
      (put : c.writer.encoder.put u.seq (.headers u.head u.body.isEnd) = sent)
      (ok : sent.fault = none) :
      Write clock gone c (ofActions (sent.actions u.seq (.headers u.head u.body.isEnd)))
        (((c.queue rest).encode sent.encoder).fly (c.writer.active ++ c.writer.started clock u))
  | miss {c : Traffic} (u : Upload) (rest : List Upload) (sent : Emission) (fault : Fault)
      (stopped : c.tracker.abandoned = []) (next : c.writer.queue = u :: rest)
      (free : c.writer.mayStart = true) (wanted : c.tracker.isCanceled gone u.seq = false)
      (put : c.writer.encoder.put u.seq (.headers u.head u.body.isEnd) = sent)
      (failed : sent.fault = some fault) :
      Write clock gone c (ofActions (sent.actions u.seq (.headers u.head u.body.isEnd)
          ++ (((c.queue rest).encode sent.encoder).giveUp u.seq fault).actions))
        (((c.queue rest).encode sent.encoder).giveUp u.seq fault).value
  | proceed {c : Traffic} (f : InFlight) (before behind : List InFlight) (octets : Octets)
      (rest : List Frame) (sent : Emission) (stopped : c.tracker.abandoned = [])
      (flight : c.writer.active = before ++ f :: behind)
      (frame : f.body.frames = .data octets :: rest)
      (put : c.writer.encoder.put f.seq (.data octets false) = sent) (ok : sent.fault = none) :
      Write clock gone c (ofActions (sent.actions f.seq (.data octets false)))
        ((c.encode sent.encoder).fly
          (before ++ { f with body := { f.body with frames := rest } } :: behind))
  | stall {c : Traffic} (f : InFlight) (before behind : List InFlight)
      (stopped : c.tracker.abandoned = []) (flight : c.writer.active = before ++ f :: behind) :
      Write clock gone c []
        (c.fly (before ++ { f with body := { f.body with frames := f.body.frames.tail } } :: behind))
  | complete {c : Traffic} (f : InFlight) (before behind : List InFlight) (piece : Piece)
      (sent : Emission) (stopped : c.tracker.abandoned = [])
      (flight : c.writer.active = before ++ f :: behind) (final : piece.isFinal = true)
      (put : c.writer.encoder.put f.seq piece = sent) (ok : sent.fault = none) :
      Write clock gone c (ofActions (sent.actions f.seq piece))
        ((c.encode sent.encoder).fly (before ++ behind))
  | lose {c : Traffic} (f : InFlight) (before behind : List InFlight) (piece : Piece)
      (sent : Emission) (fault : Fault) (stopped : c.tracker.abandoned = [])
      (flight : c.writer.active = before ++ f :: behind) (body : piece.isBody = true)
      (put : c.writer.encoder.put f.seq piece = sent) (failed : sent.fault = some fault) :
      Write clock gone c (ofActions (sent.actions f.seq piece
          ++ (((c.encode sent.encoder).fly (before ++ behind)).giveUp f.seq fault).actions))
        (((c.encode sent.encoder).fly (before ++ behind)).giveUp f.seq fault).value
  | breakOff {c : Traffic} (f : InFlight) (before behind : List InFlight) (fault : Fault)
      (stopped : c.tracker.abandoned = []) (flight : c.writer.active = before ++ f :: behind)
      (cause : f.isLate clock = true ∧ fault = Fault.writeTimeout
        ∨ ∃ cause, fault = Fault.userBody cause) :
      Write clock gone c (ofActions ((c.fly (before ++ behind)).giveUp f.seq fault).actions)
        ((c.fly (before ++ behind)).giveUp f.seq fault).value

inductive Move : Traffic → List Happening → Traffic → Prop
  | idle {c : Traffic} (e : List Happening) (he : ∀ x ∈ e, x.isIdle = true) : Move c e c
  | enroll {c : Traffic} (clock : Clock) (options : Options) (request : Request) (sink : Nat)
      (deadline : Option Instant) (room : c.hasRoom = true) :
      Move c (.input (.dispatch clock options request sink)
          :: ofActions (c.enroll options request sink deadline).actions)
        (c.enroll options request sink deadline).value
  | refuse {c : Traffic} (clock : Clock) (options : Options) (request : Request) (sink : Nat)
      (full : c.hasRoom = false) :
      Move c [.input (.dispatch clock options request sink),
        .action (.answer sink (.failed Fault.closedSession))] c
  | receive {c : Traffic} (stream : Option StreamId) (part : Part) :
      Move c (.input (.response stream part) :: ofActions (c.receive stream part).actions)
        (c.receive stream part).value
  | expire {c : Traffic} (now : Instant) :
      Move c (ofActions (c.track (c.tracker.expire now)).actions)
        (c.track (c.tracker.expire now)).value
  | wire {c : Traffic} (f : Wire → Wire) :
      Move c [.input (.wire f)] (c.encode (c.writer.encoder.onWire f))
  | sink {c : Traffic} (f : FrameSink → FrameSink) :
      Move c [.input (.sink f)] (c.encode (c.writer.encoder.onSink f))
  | feed {c : Traffic} (source : Nat) (frames : List Frame) (ended : Option Bool) :
      Move c [.input (.feed source frames ended)]
        { c with writer := c.writer.feed source frames ended }
  | fire {c : Traffic} : Move c [.input .fire] { c with writer := c.writer.fire }
  | write {c d : Traffic} {x : List Happening} (clock : Clock) (gone : Nat → Bool)
      (wrote : Write clock gone c x d) : Move c x d

inductive Path (R : Traffic → List Happening → Traffic → Prop) :
    Traffic → List Happening → Traffic → Prop
  | refl (c : Traffic) : Path R c [] c
  | snoc {c d e : Traffic} {h x : List Happening} : Path R c h d → R d x e → Path R c (h ++ x) e

namespace Path

variable {R S : Traffic → List Happening → Traffic → Prop} {c d e : Traffic} {h x : List Happening}

theorem trans (hp : Path R c h d) (hq : Path R d x e) : Path R c (h ++ x) e := by
  induction hq with
  | refl => simpa using hp
  | snoc _ hm ih => simpa using ih.snoc hm

theorem single (hm : R c h d) : Path R c h d := by
  simpa using (Path.refl c).snoc hm

theorem cons (hm : R c h d) (hp : Path R d x e) : Path R c (h ++ x) e :=
  (single hm).trans hp

theorem mono (hRS : ∀ {c x d}, R c x d → S c x d) (hp : Path R c h d) : Path S c h d := by
  induction hp with
  | refl => exact .refl _
  | snoc _ hm ih => exact ih.snoc (hRS hm)

theorem split {before behind : List Happening} {y : Happening}
    (hp : Path R c (before ++ y :: behind) e) :
    ∃ c₁ c₂ a₁ a₂ b₁ b₂, before = a₁ ++ a₂ ∧ behind = b₁ ++ b₂ ∧ Path R c a₁ c₁
      ∧ R c₁ (a₂ ++ y :: b₁) c₂ ∧ Path R c₂ b₂ e := by
  generalize hall : before ++ y :: behind = all at hp
  induction hp generalizing behind with
  | refl => simp at hall
  | @snoc d e h x hp hm ih =>
      rcases split_of_append_eq hall.symm with ⟨tail, hh, rfl⟩ | ⟨a₂, rfl, rfl⟩
      · obtain ⟨c₁, c₂, a₁, a₂, b₁, b₂, ha, rfl, hfirst, hstep, hlast⟩ := ih hh.symm
        exact ⟨c₁, c₂, a₁, a₂, b₁, b₂ ++ x, ha, List.append_assoc .., hfirst, hstep, hlast.snoc hm⟩
      · exact ⟨d, e, h, a₂, behind, [], rfl, by simp, hp, hm, .refl e⟩

end Path

end Traffic

end HttpSession
