import HttpSession.Proofs.Session.Numbering
import HttpSession.Proofs.Session.Verdict

namespace HttpSession

open Happening (ofActions deeds)

namespace Traffic

variable {c d : Traffic} {h x : List Happening}

theorem Reached.full (hr : Reached h c) (hp : Path Move c x d) (full : c.hasRoom = false) :
    d.hasRoom = false := by
  induction hp with
  | refl => exact full
  | snoc hq hm ih =>
      have hc := (hr.path hq).coherent
      have hk := hm.sameSetup
      simp only [hasRoom, Bool.and_eq_false_iff, decide_eq_false_iff_not, Bool.not_eq_false'] at ih ⊢
      rcases hm.advance hc.inOrder (fun a ha => (hc.abandoned a ha).2) with
        ha | ⟨clock, options, request, sink, deadline, room, -, -⟩
      · rw [ha.dispatched, hk.ceiling]
        exact ih.imp_right ha.tracker.lasting
      · simp only [hasRoom, Bool.and_eq_true, decide_eq_true_eq, Bool.not_eq_true'] at room
        rcases ih with hn | hd
        · exact absurd room.1 hn
        · exact absurd (hd.symm.trans room.2) (by decide)

end Traffic

def Input.isMarking : Input → Bool
  | .activate | .deactivate | .markFallback | .negotiated _ _ _ | .closed _ | .publish
  | .dispatch _ _ _ _ => true
  | _ => false

namespace Session

open Traffic (Path Move Reached)

variable {s : Session} {c : Traffic} {inputs : List Input}

/-- The session has ended, all its numbers are given out, or its pipeline is out of step. -/
def takesNone (s : Session) : Bool :=
  match s.phase with
  | .negotiating => false
  | .established _ t => !(s.dispatched < s.ceiling && !t.isClosing)
  | .closed => true

def Refuses (s : Session) : Prop :=
  ∀ clock options request sink, s.dispatch clock options request sink = s.refuse sink

theorem takesNone_of_closed (h : s.phase = .closed) : s.takesNone = true := by
  simp [takesNone, h]

theorem takesNone_of_traffic (h : s.traffic? = some c) : s.takesNone = !c.hasRoom := by
  obtain ⟨hphase, hd, hc⟩ := traffic?_eq_some h
  simp [takesNone, hphase, hd, hc, Traffic.hasRoom]

theorem refuses_of_takesNone (h : s.takesNone = true) : s.Refuses := by
  intro clock options request sink
  cases ht : s.traffic? with
  | none => exact dispatch_of_none ht clock options request sink
  | some c =>
      rw [takesNone_of_traffic ht, Bool.not_eq_true'] at h
      exact dispatch_of_full ht h clock options request sink

theorem not_refuses (h : s.takesNone = false) (hn : s.phase ≠ .negotiating) : ¬s.Refuses := by
  intro hrefuses
  cases ht : s.traffic? with
  | none =>
      have hclosed := (traffic?_eq_none.1 ht).resolve_left hn
      rw [takesNone_of_closed hclosed] at h
      simp at h
  | some c =>
      rw [takesNone_of_traffic ht, Bool.not_eq_false'] at h
      have htaken := (dispatch_of_room ht h ⟨0, 0, fun _ => false⟩ .default .bare 0).2
      rw [hrefuses] at htaken
      simp [refuse, Traffic.enroll] at htaken

theorem IsNew.takesNone_lasts (hs : s.IsNew) (h : (s.after inputs).takesNone = true)
    (more : List Input) : ((s.after inputs).after more).takesNone = true := by
  cases ht : (s.after inputs).traffic? with
  | none =>
      rcases traffic?_eq_none.1 ht with hn | hc
      · simp [takesNone, hn] at h
      · exact takesNone_of_closed (closed_course hc more).2
  | some c =>
      rw [takesNone_of_traffic ht, Bool.not_eq_true'] at h
      obtain ⟨d, x, y, -, hpath, -, ⟨hd, -⟩ | hclosed⟩ := course ht more
      · rw [takesNone_of_traffic hd, (hs.established inputs ht).1.full hpath h]
        rfl
      · exact takesNone_of_closed hclosed

theorem IsNew.takesNone_iff (hs : s.IsNew) (hn : (s.after inputs).phase ≠ .negotiating) :
    (s.after inputs).takesNone = true ↔ ∀ more, ((s.after inputs).after more).Refuses := by
  constructor
  · exact fun h more => refuses_of_takesNone (hs.takesNone_lasts h more)
  · intro h
    by_contra hroom
    exact not_refuses (by simpa using hroom) hn (h [])

structure SameStatus (s r : Session) : Prop where
  status : r.status = s.status
  dispatched : r.dispatched = s.dispatched

namespace SameStatus

theorem refl (s : Session) : SameStatus s s := ⟨rfl, rfl⟩

end SameStatus

theorem mapWriter_sameStatus (s : Session) (f : Writer → Writer) : s.SameStatus (s.mapWriter f) := by
  unfold mapWriter
  split <;> exact ⟨rfl, rfl⟩

theorem keepTime_sameStatus (s : Session) (clock : Clock) : s.SameStatus (s.keepTime clock).value.1 := by
  have hsame := keepNegotiation_value s clock
  cases h : s.traffic? with
  | none =>
      rw [keepTime_of_none h]
      dsimp only
      rw [hsame]
      exact ⟨rfl, rfl⟩
  | some c =>
      rw [keepTime_of_established (traffic?_eq_some h).1]
      dsimp only
      rw [hsame]
      exact ⟨rfl, rfl⟩

theorem respond_sameStatus (s : Session) {i : Input} (hi : i.isMarking = false) :
    s.SameStatus (s.respond i).value := by
  cases i with
  | activate | deactivate | markFallback | negotiated | closed | publish | dispatch =>
      simp [Input.isMarking] at hi
  | negotiationFailed fault =>
      rw [respond, onNegotiationFailed_value]
      exact ⟨rfl, rfl⟩
  | dropped reason =>
      rw [respond, abandon_value]
      exact ⟨rfl, rfl⟩
  | response stream part =>
      simp only [respond, onResponse]
      split <;> exact ⟨rfl, rfl⟩
  | message m =>
      simp only [respond, onMessage]
      split <;> exact .refl s
  | transportError e => exact .refl s
  | keepTime clock => exact keepTime_sameStatus s clock
  | write clock gone =>
      simp only [respond, Session.write]
      split <;> exact ⟨rfl, rfl⟩
  | linked isOpen => exact ⟨rfl, rfl⟩
  | wire f =>
      obtain ⟨hs, hd⟩ := mapWriter_sameStatus
        { s with channel := { s.channel with wire := f s.channel.wire } } _
      exact ⟨hs, hd⟩
  | sink f =>
      obtain ⟨hs, hd⟩ := mapWriter_sameStatus
        { s with channel := { s.channel with frames := s.channel.frames.map f } } _
      exact ⟨hs, hd⟩
  | feed source frames ended => exact mapWriter_sameStatus s _
  | fire =>
      obtain ⟨hs, hd⟩ := mapWriter_sameStatus { s with
        negotiation := s.negotiation.map Sleep.fire, alarm := s.alarm.map Sleep.fire } Writer.fire
      exact ⟨hs, hd⟩

theorem negotiated_flag (s : Session) (promise : Promise) (reachable : Bool) (p : Protocol) :
    (s.onNegotiated promise reachable p).value.isActive = s.isActive
      ∧ (s.onNegotiated promise reachable p).value.dispatched = s.dispatched := by
  by_cases h : s.phase = .negotiating
  · obtain ⟨fault, he⟩ | ⟨encoder, -, hv, -⟩ := onNegotiated_cases h promise reachable p
    · rw [he, onNegotiationFailed_value]
      exact ⟨rfl, rfl⟩
    · rw [hv]
      exact ⟨rfl, rfl⟩
  · rw [onNegotiated_ignored h]
    exact ⟨rfl, rfl⟩

theorem closed_flag (s : Session) (promise : Promise) :
    (s.onTransportClosed promise).value.isActive = (s.transportClosed && s.isActive)
      ∧ (s.onTransportClosed promise).value.dispatched = s.dispatched := by
  cases h : s.transportClosed with
  | true =>
      rw [onTransportClosed_again h]
      exact ⟨rfl, rfl⟩
  | false =>
      rw [onTransportClosed_value h]
      exact ⟨rfl, rfl⟩

theorem dispatch_flag (h : s.traffic? = some c) (room : c.hasRoom = true) (clock : Clock)
    (options : Options) (request : Request) (sink : Nat) :
    let taken := (s.dispatch clock options request sink).value.1
    taken.isActive = (s.isActive && decide (c.dispatched + 1 < c.ceiling))
      ∧ taken.dispatched = s.dispatched + 1 := by
  obtain ⟨hphase, hd, hc⟩ := traffic?_eq_some h
  have hfree : (decide (s.dispatched < s.ceiling) && !c.tracker.isClosing) = true := by
    rw [hd, hc]
    exact room
  have hsame := deadlineOf_snd s clock options
  dsimp only
  unfold Session.dispatch
  rw [hphase]
  simp only [hfree, if_true]
  generalize s.deadlineOf clock options = due at hsame ⊢
  rw [hsame]
  by_cases hlast : c.ceiling ≤ c.dispatched + 1 <;>
    simp [hd, hc, hlast, deactivate, isActive, Nat.not_lt.2, Nat.lt_of_not_le]

theorem respond_raised {i : Input} (h : (s.respond i).value.isActive = true) :
    i = .activate ∨ s.isActive = true ∧ (s.respond i).value.dispatched = s.dispatched
      ∨ s.isActive = true ∧ ∃ c, s.traffic? = some c
        ∧ (s.respond i).value.dispatched = c.dispatched + 1 ∧ c.dispatched + 1 < c.ceiling := by
  cases i with
  | activate => exact .inl rfl
  | deactivate => simp [respond, deactivate, isActive] at h
  | markFallback => exact .inr (.inl ⟨h, rfl⟩)
  | publish =>
      simp only [respond, Traced.value_pure, publish, isActive, Bool.and_eq_true] at h
      exact .inr (.inl ⟨h.1, rfl⟩)
  | negotiated promise reachable p =>
      obtain ⟨hflag, hd⟩ := negotiated_flag s promise reachable p
      exact .inr (.inl ⟨hflag ▸ h, hd⟩)
  | closed promise =>
      obtain ⟨hflag, hd⟩ := closed_flag s promise
      rw [respond, hflag, Bool.and_eq_true] at h
      exact .inr (.inl ⟨h.2, hd⟩)
  | dispatch clock options request sink =>
      simp only [respond, Traced.value_bind, Traced.value_pure] at h ⊢
      cases ht : s.traffic? with
      | none =>
          rw [dispatch_of_none ht] at h ⊢
          exact .inr (.inl ⟨h, rfl⟩)
      | some c =>
          cases hroom : c.hasRoom with
          | false =>
              rw [dispatch_of_full ht hroom] at h ⊢
              exact .inr (.inl ⟨h, rfl⟩)
          | true =>
              obtain ⟨hflag, hd⟩ := dispatch_flag ht hroom clock options request sink
              rw [hflag, Bool.and_eq_true, decide_eq_true_eq] at h
              exact .inr (.inr ⟨h.1, c, rfl, (traffic?_eq_some ht).2.1 ▸ hd, h.2⟩)
  | _ =>
      exact .inr (.inl ⟨(congrArg Status.active (respond_sameStatus s rfl).status).symm.trans h,
        (respond_sameStatus s rfl).dispatched⟩)

theorem after_concat (s : Session) (inputs : List Input) (i : Input) :
    s.after (inputs ++ [i]) = ((s.after inputs).step i).value := by
  rw [after_append, after_cons, after_nil]

def IsExhausted (s : Session) : Prop := ∃ c, s.traffic? = some c ∧ c.ceiling ≤ c.dispatched

/-- An event that comes too late for the flag: the session is activated although it has no number
left, or the negotiation fails although a protocol was agreed on. -/
inductive IsLate (s : Session) : Input → Prop
  | activate (exhausted : s.IsExhausted) : IsLate s .activate
  | failed (fault : Fault) (agreed : s.traffic?.isSome = true) : IsLate s (.negotiationFailed fault)

def HeardLate (s : Session) (inputs : List Input) : Prop :=
  ∃ before i behind, inputs = before ++ i :: behind ∧ (s.after before).IsLate i

theorem HeardLate.concat (h : s.HeardLate inputs) (i : Input) : s.HeardLate (inputs ++ [i]) := by
  obtain ⟨before, j, behind, rfl, hj⟩ := h
  exact ⟨before, j, behind ++ [i], by simp, hj⟩

theorem HeardLate.last {i : Input} (h : (s.after inputs).IsLate i) : s.HeardLate (inputs ++ [i]) :=
  ⟨inputs, i, [], rfl, h⟩

theorem IsNew.untouched (hs : s.IsNew) (h : (s.after inputs).phase = .negotiating) :
    (s.after inputs).dispatched = 0 ∧ (s.after inputs).protocol = none := by
  cases hs.stands inputs with
  | negotiating _ unused silent _ => exact ⟨unused, silent⟩
  | established c traffic => simp [(traffic?_eq_some traffic).1] at h
  | failed phase | closed _ _ _ phase => simp [phase] at h

theorem open_of_respond {i : Input} (h : (s.respond i).value.transportClosed = false) :
    s.transportClosed = false := by
  rw [Bool.eq_false_iff]
  intro hc
  cases i with
  | closed promise => simp [respond, onTransportClosed_again hc, hc] at h
  | _ => simp [respond_transportClosed, hc] at h

theorem IsNew.late_of_exhausted (hs : s.IsNew) (room : 0 < s.ceiling)
    (hfull : (s.after inputs).IsExhausted) (hflag : (s.after inputs).isActive = true) :
    s.HeardLate inputs := by
  induction inputs using List.reverseRecOn with
  | nil =>
      obtain ⟨c, hc, -⟩ := hfull
      simp [traffic?, hs.start.1] at hc
  | append_singleton inputs i ih =>
      rw [after_concat] at hfull hflag
      obtain ⟨c, hc, hle⟩ := hfull
      have hc : ((s.after inputs).respond i).value.traffic? = some c := hc
      have hd := (traffic?_eq_some hc).2.1
      have hk := (traffic?_eq_some hc).2.2
      rw [respond_ceiling] at hk
      rcases respond_raised hflag with rfl | ⟨hup, hsame⟩ | ⟨-, b, hb, hnext, hlt⟩
      · exact .last (.activate ⟨c, hc, hle⟩)
      · refine (ih ?_ hup).concat i
        rw [hsame] at hd
        cases ht : (s.after inputs).traffic? with
        | none =>
            -- What has only just agreed on a protocol has given out nothing.
            rcases traffic?_eq_none.1 ht with hn | hclosed
            · have hzero := (hs.untouched hn).1
              rw [after_ceiling] at hk
              omega
            · have hover := respond_closed hclosed i
              simp [traffic?, hover] at hc
        | some b =>
            obtain ⟨-, hdb, hkb⟩ := traffic?_eq_some ht
            exact ⟨b, ht, by omega⟩
      · obtain ⟨-, -, hkb⟩ := traffic?_eq_some hb
        omega

theorem IsNew.late_of_closed (hs : s.IsNew) (hclosed : (s.after inputs).phase = .closed)
    (hp : (s.after inputs).protocol ≠ none) (hopen : (s.after inputs).transportClosed = false)
    (kept : ∀ reason, .dropped reason ∉ inputs) : s.HeardLate inputs := by
  induction inputs using List.reverseRecOn with
  | nil => simp [hs.start.1] at hclosed
  | append_singleton inputs i ih =>
      rw [after_concat] at hclosed hp hopen
      have hclosed : ((s.after inputs).respond i).value.phase = .closed := hclosed
      have hp : ((s.after inputs).respond i).value.protocol ≠ none := hp
      have hopen : ((s.after inputs).respond i).value.transportClosed = false := hopen
      cases ht : (s.after inputs).traffic? with
      | none =>
          rcases traffic?_eq_none.1 ht with hn | hover
          · -- A negotiation that ends without an agreement leaves no protocol behind.
            exfalso
            rcases respond_negotiating hn i with ⟨hphase, -⟩ | ⟨-, hsame⟩ | ⟨_, _, -, -, hsome⟩
            · simp [hphase] at hclosed
            · exact hp (hsame.trans (hs.untouched hn).2)
            · simp [traffic?, hclosed] at hsome
          · refine (ih hover ?_ (open_of_respond hopen) fun reason hd => ?_).concat i
            · rwa [respond_protocol (by simp [hover])] at hp
            · exact kept reason (List.mem_append_left _ hd)
      | some c =>
          rcases respond_established ht i with ⟨d, hd, -⟩ | hends
          · simp [traffic?, hclosed] at hd
          · have hturning := hends.turning
            cases i with
            | negotiationFailed fault => exact .last (.failed fault (by simp [ht]))
            | dropped reason => exact absurd (by simp) (kept reason)
            | closed promise =>
                have hbefore := open_of_respond hopen
                simp [respond, onTransportClosed_value hbefore] at hopen
            | negotiated promise reachable p =>
                have hphase := (traffic?_eq_some ht).1
                simp [respond, onNegotiated_ignored, hphase] at hclosed
            | _ => simp [Input.isTurning] at hturning

end Session

end HttpSession
