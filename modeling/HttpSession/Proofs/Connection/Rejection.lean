import HttpSession.Proofs.Connection.Fault
import HttpSession.Proofs.Streams.Effect

namespace HttpSession

def Pending.Objects (p : Pending) : Part → Prop
  | .head h => h.isInterim = false ∧ p.head.isSome = true
  | .data _ | .trailers _ | .finish => p.head = none
  | .reset _ => False

namespace Tracker

variable {t : Tracker} {p : Pending} {stream : Option StreamId} {part : Part} {fault : Fault}

/-- Whose response a part belongs to: on a pipeline it is the oldest, over streams the one of its stream. -/
inductive Concerns (t : Tracker) : Option StreamId → Pending → Prop
  | oldest {stream : Option StreamId} {p : Pending} {rest : List Pending}
      (ordered : t.binding = .ordered) (first : t.pending = p :: rest) : Concerns t stream p
  | named {id : StreamId} {p : Pending} (multiplexed : t.binding = .byStream)
      (number : seqOf? id = some p.seq) (found : t.find? p.seq = some p) : Concerns t (some id) p

inductive Offends (t : Tracker) : Option StreamId → Part → Prop
  | unasked {stream : Option StreamId} {part : Part} (ordered : t.binding = .ordered)
      (idle : t.pending = []) : Offends t stream part
  | unnamed {part : Part} (multiplexed : t.binding = .byStream) : Offends t none part
  | foreign {id : StreamId} {part : Part} (multiplexed : t.binding = .byStream)
      (even : id.toNat % 2 = 0) : Offends t (some id) part
  | untimely {stream : Option StreamId} {part : Part} {p : Pending} (concerns : t.Concerns stream p)
      (objects : p.Objects part) : Offends t stream part

inductive Outlived (t : Tracker) : Option StreamId → Prop
  | stream {id : StreamId} {seq : Nat} (multiplexed : t.binding = .byStream)
      (number : seqOf? id = some seq) (past : seq ∉ t.seqs) : Outlived t (some id)

theorem receive_of_desynced (h : t.desynced = true) (stream : Option StreamId) (part : Part) :
    t.receive stream part = ⟨⟨t, none⟩, []⟩ := by
  simp [receive, h, accepted]

theorem Outlived.receive (h : t.Outlived stream) (part : Part) :
    t.receive stream part = ⟨⟨t, none⟩, []⟩ := by
  obtain ⟨multiplexed, number, past⟩ := h
  simp [Tracker.receive, route, multiplexed, number, find?_eq_none.2 past, accepted]

theorem Concerns.receive (synced : t.desynced = false) (h : t.Concerns stream p) (part : Part) :
    t.receive stream part = t.receivePart p part := by
  cases h with
  | oldest ordered first =>
      have hfind : t.find? p.seq = some p := by simp [find?, first]
      simp [Tracker.receive, synced, route, ordered, first, hfind]
  | named multiplexed number found => simp [Tracker.receive, synced, route, multiplexed, number, found]

theorem receive_of_wrong (synced : t.desynced = false) (h : t.route stream = .wrong fault) (part : Part) :
    t.receive stream part = ⟨⟨t, some fault⟩, []⟩ := by
  simp [receive, synced, h]

theorem seqOf?_of_even {id : StreamId} (even : id.toNat % 2 = 0) : seqOf? id = none := by
  rw [seqOf?, if_neg]
  rw [odd_iff_toNat, even]
  decide

theorem route_unasked (ordered : t.binding = .ordered) (idle : t.pending = []) :
    t.route stream = .wrong (Fault.violation "received a response with no outstanding request") := by
  simp only [route, ordered, idle]

theorem route_unnamed (multiplexed : t.binding = .byStream) :
    t.route none = .wrong (Fault.violation "http2 response part without a stream id") := by
  simp only [route, multiplexed]

theorem route_foreign {id : StreamId} (multiplexed : t.binding = .byStream) (none : seqOf? id = none) :
    t.route (some id) = .wrong (Fault.violation "response on a server-initiated stream") := by
  simp only [route, multiplexed, none]

theorem concerns_cases (t : Tracker) (stream : Option StreamId) :
    (∃ p, t.Concerns stream p) ∨ t.Outlived stream
      ∨ (∃ fault, t.route stream = .wrong fault) ∧ ∀ part, t.Offends stream part := by
  cases hb : t.binding with
  | ordered =>
      cases hp : t.pending with
      | nil => exact .inr (.inr ⟨⟨_, route_unasked hb hp⟩, fun _ => .unasked hb hp⟩)
      | cons p rest => exact .inl ⟨p, .oldest hb hp⟩
  | byStream =>
      cases stream with
      | none => exact .inr (.inr ⟨⟨_, route_unnamed hb⟩, fun _ => .unnamed hb⟩)
      | some id =>
          cases hn : seqOf? id with
          | none =>
              have heven : id.toNat % 2 = 0 := by
                unfold seqOf? at hn
                split at hn
                · simp at hn
                · rename_i hodd
                  rw [odd_iff_toNat] at hodd
                  omega
              exact .inr (.inr ⟨⟨_, route_foreign hb hn⟩, fun _ => .foreign hb heven⟩)
          | some seq =>
              cases hf : t.find? seq with
              | none => exact .inr (.inl (.stream hb hn (find?_eq_none.1 hf)))
              | some p =>
                  obtain ⟨-, rfl⟩ := find?_eq_some hf
                  exact .inl ⟨p, .named hb hn hf⟩

theorem receivePart_rejects_iff (t : Tracker) (p : Pending) (part : Part) :
    (t.receivePart p part).value.fault.isSome = true ↔ p.Objects part := by
  cases part with
  | head h =>
      cases hp : p.head <;> cases hi : h.isInterim <;>
        simp [receivePart, Pending.Objects, hp, hi, accepted, rejected]
  | data octets =>
      cases hp : p.head with
      | none => simp [receivePart, Pending.Objects, hp, rejected]
      | some head => cases hx : p.exceeds octets <;> simp [receivePart, Pending.Objects, hp, hx, accepted]
  | trailers | finish => cases hp : p.head <;> simp [receivePart, Pending.Objects, hp, accepted, rejected]
  | reset => simp [receivePart, Pending.Objects, accepted]

theorem rejects_iff (t : Tracker) (stream : Option StreamId) (part : Part) :
    (t.receive stream part).value.fault.isSome = true ↔ t.desynced = false ∧ t.Offends stream part := by
  constructor
  · intro h
    obtain ⟨fault, hfault⟩ := Option.isSome_iff_exists.1 h
    have hsync := synced_of_rejected hfault
    refine ⟨hsync, ?_⟩
    obtain ⟨p, hp⟩ | hover | ⟨-, hoffends⟩ := t.concerns_cases stream
    · rw [hp.receive hsync, receivePart_rejects_iff] at h
      exact .untimely hp h
    · simp [hover.receive] at h
    · exact hoffends part
  · rintro ⟨hsync, hoffends⟩
    cases hoffends with
    | unasked ordered idle => rw [receive_of_wrong hsync (route_unasked ordered idle)]; rfl
    | unnamed multiplexed => rw [receive_of_wrong hsync (route_unnamed multiplexed)]; rfl
    | foreign multiplexed even =>
        rw [receive_of_wrong hsync (route_foreign multiplexed (seqOf?_of_even even))]
        rfl
    | untimely concerns objects =>
        rw [concerns.receive hsync, receivePart_rejects_iff]
        exact objects

theorem use_rejected {u : Use} (h : (t.use u).value.fault = some fault) :
    t.use u = ⟨⟨t, some fault⟩, []⟩ := by
  cases u with
  | receive stream part => exact receive_rejected h
  | _ => simp [use, accepted] at h

def undergo (t : Tracker) : List Use → Traced Tracker
  | [] => pure t
  | u :: rest => do
      let r ← t.use u
      r.tracker.undergo rest

def heeded (t : Tracker) : List Use → List Use
  | [] => []
  | u :: rest =>
      if (t.use u).value.fault.isSome then t.heeded rest else u :: (t.use u).value.tracker.heeded rest

theorem undergo_heeded (t : Tracker) (uses : List Use) : t.undergo (t.heeded uses) = t.undergo uses := by
  induction uses generalizing t with
  | nil => rfl
  | cons u rest ih =>
      cases hfault : (t.use u).value.fault with
      | none =>
          simp only [heeded, hfault, Option.isSome_none, Bool.false_eq_true, if_false]
          exact congrArg (fun r : Traced Tracker => (⟨r.value, (t.use u).actions ++ r.actions⟩ : Traced Tracker))
            (ih (t.use u).value.tracker)
      | some fault =>
          have hsame : t.undergo (u :: rest) = t.undergo rest := by
            rw [undergo, use_rejected hfault]
            rfl
          simp only [heeded, hfault, Option.isSome_some, if_true, ih, hsame]

end Tracker

namespace Session

variable {s : Session} {w : Writer} {t : Tracker} {stream : Option StreamId} {part : Part} {fault : Fault}

theorem onResponse_of_fault (h : (s.onResponse stream part).value.2 = some fault) :
    s.onResponse stream part = ⟨(s, some fault), [.call .close]⟩ := by
  cases hphase : s.phase with
  | negotiating =>
      simp only [onResponse, hphase] at h ⊢
      rw [← h]
  | closed => simp [onResponse, hphase] at h
  | established w t =>
      simp only [onResponse, hphase] at h ⊢
      rw [Tracker.receive_rejected h, ← hphase]
      rfl

theorem onResponse_unheeded (h : s.phase = .established w t)
    (hn : t.desynced = true ∨ t.Outlived stream) : s.onResponse stream part = ⟨(s, none), []⟩ := by
  have hreceive : t.receive stream part = ⟨⟨t, none⟩, []⟩ :=
    hn.elim (fun hd => t.receive_of_desynced hd stream part) fun ho => ho.receive part
  simp only [onResponse, h, hreceive]
  rw [← h]
  rfl

end Session

namespace Attempt

variable {a : Attempt} {stream : Option StreamId} {part : Part} {fault : Fault}

/-- A connection that was asked to close for something that went wrong. -/
def chide (a : Attempt) (fault : Fault) : Attempt :=
  { a with connection := a.connection.closeChannel.value.record (some fault) }

theorem closeChannel_kept (c : Connection) :
    c.closeChannel.value.session = { c.session with channel := c.session.channel.close }
      ∧ c.closeChannel.value.fault = c.fault ∧ c.closeChannel.actions = [] := by
  simp only [Connection.closeChannel]
  split <;> exact ⟨rfl, rfl, rfl⟩

theorem chide_session (a : Attempt) (fault : Fault) : (a.chide fault).connection.session
    = { a.connection.session with channel := a.connection.session.channel.close } :=
  (closeChannel_kept a.connection).1

theorem chide_fault (a : Attempt) (fault : Fault) :
    (a.chide fault).connection.fault = a.connection.fault.or (some fault) :=
  congrArg (Option.or · (some fault)) (closeChannel_kept a.connection).2.1

theorem handle_rejected (clock : Clock) (h : (a.connection.session.onResponse stream part).value.2 = some fault) :
    (a.handle clock (.response stream part)).value = a.chide fault
      ∧ (a.handle clock (.response stream part)).actions = [.call .close] := by
  have hsaid := (closeChannel_kept a.connection).2.2
  simp only [handle, judged, ask, Session.onResponse_of_fault h]
  refine ⟨rfl, ?_⟩
  simpa [reacts, react, Logged.actions] using hsaid

theorem handle_unheeded (clock : Clock) (h : a.connection.session.onResponse stream part
      = ⟨(a.connection.session, none), []⟩) :
    a.handle clock (.response stream part) = ⟨a, [.input (.response stream part)]⟩ := by
  simp only [handle, judged, ask, h]
  simp [reacts, bind, pure, Connection.record, Logged.note]

end Attempt

namespace Service

/-- A part against the protocol, and none but such a part, is rejected. It changes nothing that is awaited
and nothing comes of it, now or later; nor does anything come of a part on a pipeline out of step or on a
stream that nobody awaits. The connection is asked to close, and ends with the first fault of all. -/
theorem rejected_unheeded :
    (∀ (t : Tracker) (stream : Option StreamId) (part : Part),
      ((t.receive stream part).value.fault.isSome = true ↔ t.desynced = false ∧ t.Offends stream part)
        ∧ ((t.receive stream part).value.fault.isSome = true ∨ t.desynced = true ∨ t.Outlived stream →
          (t.receive stream part).value.tracker = t ∧ (t.receive stream part).actions = []))
      ∧ (∀ (t : Tracker) (uses : List Use), t.undergo (t.heeded uses) = t.undergo uses)
      ∧ (∀ (a : Attempt) (clock : Clock) (stream : Option StreamId) (part : Part),
        (∀ fault, (a.connection.session.onResponse stream part).value.2 = some fault →
          (a.handle clock (.response stream part)).value = a.chide fault
            ∧ (a.handle clock (.response stream part)).actions = [.call .close]
            ∧ (a.chide fault).connection.session
              = { a.connection.session with channel := a.connection.session.channel.close }
            ∧ (a.chide fault).connection.fault = a.connection.fault.or (some fault))
          ∧ ∀ w t, a.connection.session.phase = .established w t →
            t.desynced = true ∨ t.Outlived stream →
            a.handle clock (.response stream part) = ⟨a, [.input (.response stream part)]⟩)
      ∧ ∀ (s : Service) (first : Fault), s.attempt.connection.fault = some first →
        ∀ occasions clock gone out, (s.run occasions).value.isOpen = true →
          ((s.run occasions).value.polled clock gone).value.2 = .ready out → out = some first := by
  refine ⟨fun t stream part => ⟨t.rejects_iff stream part, ?_⟩, Tracker.undergo_heeded,
    fun a clock stream part => ⟨fun fault h => ?_, fun w t hphase hn => ?_⟩,
    fun s first h occasions clock gone out hopen hout => ?_⟩
  · rintro (h | h | h)
    · obtain ⟨fault, hfault⟩ := Option.isSome_iff_exists.1 h
      rw [Tracker.receive_rejected hfault]
      exact ⟨rfl, rfl⟩
    · rw [Tracker.receive_of_desynced h]
      exact ⟨rfl, rfl⟩
    · rw [h.receive]
      exact ⟨rfl, rfl⟩
  · obtain ⟨hvalue, hsaid⟩ := Attempt.handle_rejected clock h
    exact ⟨hvalue, hsaid, a.chide_session fault, a.chide_fault fault⟩
  · exact Attempt.handle_unheeded clock (Session.onResponse_unheeded hphase hn)
  · have hkept := (s.run_blames occasions hopen).trans
      ((((s.run occasions).value.polled_polls clock gone).blames hopen).2 out hout)
    exact hkept.kept first h

def interfered : List Use :=
  [.register 1 7 0 none, .receive (some 1) (.head ⟨200, .empty⟩), .receive (some 1) (.data (ascii "on")),
    .receive (some 1) (.head ⟨500, .empty⟩), .receive none (.data (ascii "off")),
    .receive (some 1) (.data (ascii "ly")), .receive (some 1) .finish]

def early : Fault := Fault.violation "received a response before negotiation"

theorem rejected_unheeded_interfered :
    let t := Tracker.new .byStream
    let a : Attempt := (start 0 0 (.blank 2) false .new).attempt
    let s := ((⟨a.chide early, 0⟩ : Service).run [.tell [.closed] (by simp [Event.debts])]).value
    (t.heeded interfered).length = 5 ∧ t.undergo (t.heeded interfered) = t.undergo interfered
      ∧ (t.undergo interfered).actions = [.answer 7 (.complete ⟨⟨200, .empty⟩, ascii "only", none⟩)]
      ∧ (a.handle (.steady 0) (.response none .finish)).value = a.chide early
      ∧ (a.handle (.steady 0) (.response none .finish)).actions = [.call .close]
      ∧ (s.polled (.steady 0) fun _ => false).value.2 ≠ .ready none
      ∧ ∀ out, (s.polled (.steady 0) fun _ => false).value.2 = .ready out → out = some early := by
  obtain ⟨-, hheeded, hhandled, hkept⟩ := rejected_unheeded
  obtain ⟨hchided, hsaid, -⟩ :=
    (hhandled (start 0 0 (.blank 2) false .new).attempt (.steady 0) none .finish).1 _ rfl
  refine ⟨by decide +kernel, hheeded _ _, by decide +kernel, hchided, hsaid, by decide +kernel, ?_⟩
  exact fun out => hkept _ early rfl _ (.steady 0) _ out rfl

end Service

end HttpSession
