import HttpSession.Proofs.Connection.Backlog
import HttpSession.Proofs.Connection.Flag
import HttpSession.Proofs.Session.Registration

namespace HttpSession

open Happening (deeds)

/-- The request of this caller was given a number, and the caller has not been answered. -/
def Waits (actions : List Action) (sink : Nat) : Prop :=
  (∃ seq, .enroll seq sink ∈ actions) ∧ ∀ reply, .answer sink reply ∉ actions

namespace Session

variable {s : Session} {inputs : List Input} {sink : Nat}

theorem hasUnfinished_iff : s.hasUnfinished = true ↔ ∃ sink, .reply sink ∈ s.debts := by
  cases h : s.phase with
  | established w t =>
      cases hp : t.pending <;>
        simp [hasUnfinished, debts, tracker?, h, Tracker.hasOutstanding, Tracker.debts, hp]
  | _ => simp [hasUnfinished, debts, tracker?, h]

theorem IsNew.enrolled_of_awaited (hs : s.IsNew) (h : .reply sink ∈ (s.after inputs).debts) :
    ∃ seq, (seq, sink) ∈ enrolled (s.history inputs) := by
  cases ht : (s.after inputs).traffic? with
  | none => simp [debts_of_none ht] at h
  | some c =>
      rw [debts_of_traffic ht] at h
      obtain ⟨p, hp, hsink⟩ := List.mem_map.1 h
      obtain rfl := Debt.reply.inj hsink
      exact ⟨p.seq, (hs.established inputs ht).1.coherent.awaited _ (Tracker.mem_awaited hp)⟩

theorem IsNew.answered_or_awaited (hs : s.IsNew) {seq : Nat} (h : (seq, sink) ∈ enrolled (s.history inputs)) :
    (∃ reply, .answer sink reply ∈ deeds (s.history inputs)) ∨ .reply sink ∈ (s.after inputs).debts := by
  have howed : .reply sink ∈ inputs.flatMap Input.debts := by
    obtain ⟨i, hi, hcaller⟩ :=
      List.mem_filterMap.1 ((hs.callers inputs).subset (List.mem_map_of_mem (f := Prod.snd) h))
    exact List.mem_flatMap.2 ⟨i, hi, by simp [i.debts_eq_caller, hcaller]⟩
  have hsettles := (hs.stands []).settles_after inputs
  have hin := hsettles.mem_iff.2 (List.mem_append_left _ howed)
  refine (List.mem_append.1 hin).imp (fun hpaid => ?_) id
  obtain ⟨a, ha, hpays⟩ := List.mem_filterMap.1 hpaid
  cases a with
  | answer caller reply =>
      obtain rfl := Debt.reply.inj (Option.some.inj hpays)
      exact ⟨reply, ha⟩
  | _ => simp [Action.pays?] at hpays

def IsPublished (s : Session) : Prop := s.status.unfinished = s.hasUnfinished

theorem publish_isPublished (s : Session) : s.publish.IsPublished := rfl

theorem onTransportClosed_isPublished (h : s.transportClosed = false) (promise : Promise) :
    (s.onTransportClosed promise).value.IsPublished := by
  rw [onTransportClosed_value h]
  rfl

theorem mapWriter_isPublished (h : s.IsPublished) (f : Writer → Writer) : (s.mapWriter f).IsPublished := by
  cases hphase : s.phase with
  | established w t => simpa [mapWriter, IsPublished, hasUnfinished, tracker?, hphase] using h
  | _ => simpa [mapWriter, hphase] using h

theorem respond_isPublished (h : s.IsPublished) {i : Input} (outer : i.isOuter = true) :
    (s.respond i).value.IsPublished := by
  cases i with
  | deactivate | markFallback | linked => exact h
  | wire f =>
      exact mapWriter_isPublished (s := { s with channel := { s.channel with wire := f s.channel.wire } })
        h _
  | sink f =>
      exact mapWriter_isPublished
        (s := { s with channel := { s.channel with frames := s.channel.frames.map f } }) h _
  | fire =>
      exact mapWriter_isPublished
        (s := { s with negotiation := s.negotiation.map Sleep.fire, alarm := s.alarm.map Sleep.fire }) h _
  | _ => simp [Input.isOuter] at outer

end Session

namespace Attempt

variable {a : Attempt}

theorem close_isPublished (h : a.connection.session.transportClosed = false) :
    a.close.value.connection.session.IsPublished := by
  have hclose : a.close.value.connection.session
      = (a.connection.session.step (.closed a.promise)).value := (hear_works a (.closed a.promise)).session
  rw [hclose]
  exact Session.onTransportClosed_isPublished h a.promise

theorem Takes.published {clock : Clock} {n : Nat} {log : List Entry} {r : Attempt × Intake}
    (h : Takes clock n a log r) (unclosed : a.connection.session.transportClosed = false)
    (ended : r.2 = .ended) : r.1.connection.session.IsPublished := by
  induction h with
  | interrupted | emptied => simp at ended
  | deserted => exact close_isPublished unclosed
  | @closed n a rest first => exact close_isPublished (a := a.pop rest) unclosed
  | @event n a e rest log r first other later ih =>
      have hopen := ((a.pop rest).handle_works clock e).open fun promise hm =>
        other (input_closed (List.mem_singleton.1 hm).symm)
      exact ih (hopen.trans unclosed) ended

theorem Polls.published {clock : Clock} {gone : Nat → Bool} {log : List Entry} {r : Attempt × Outcome}
    (h : Polls a clock gone log r) (ho : a.connection.isOpen = true)
    (unclosed : a.connection.session.transportClosed = false) (returned : ∀ text, r.2 ≠ .crashed text) :
    r.1.connection.session.IsPublished := by
  cases h with
  | idle closed => simp [ho] at closed
  | ended running takes => exact takes.published unclosed rfl
  | @onward log mid intake chores crash outcome running takes goes chore flag =>
      cases flag with
      | crashed text => exact absurd rfl (returned text)
      | pending =>
          cases chore with
          | published =>
              obtain ⟨w, hw⟩ := listen_published mid [.keepTime clock, .write clock gone]
              exact hw ▸ w.publish_isPublished

end Attempt

namespace Service

variable {s : Service} {inputs : List Input}

theorem meet_isPublished (hs : s.session.IsPublished) {o : Occasion} (still : o.isPoll = false)
    (kept : o.isDrop = false) : (s.meet o).value.session.IsPublished := by
  cases o with
  | poll => simp [Occasion.isPoll] at still
  | drop => simp [Occasion.isDrop] at kept
  | touch i outer => exact Session.respond_isPublished hs outer
  | feed source frames ended => exact Session.mapWriter_isPublished hs fun w => w.feed source frames ended
  | ask | tell | hold | cut | promise =>
      rw [(s.meet_hears _).session, meet_inputs]
      exact hs

theorem run_isPublished (hs : s.session.IsPublished) {occasions : List Occasion}
    (still : ∀ o ∈ occasions, o.isPoll = false ∧ o.isDrop = false) :
    (s.run occasions).value.session.IsPublished := by
  induction occasions generalizing s with
  | nil => exact hs
  | cons o rest ih =>
      obtain ⟨hpoll, hdrop⟩ := still o List.mem_cons_self
      exact ih (meet_isPublished hs hpoll hdrop) fun o ho => still o (List.mem_cons_of_mem _ ho)

theorem meet_poll_over (h : s.life ≠ .running) (clock : Clock) (gone : Nat → Bool) :
    (s.meet (.poll clock gone)).value = s := by
  have hover : s.attempt.connection.isOpen = false := beq_eq_false_iff_ne.2 h
  simp [meet, polled, Attempt.poll_of_over hover]

def HasTold (s : Service) : Prop := s.life = .finished → s.session.IsPublished

theorem polled_isPublished (hs : s.IsUpright inputs) (hc : s.HasTold) (kept : s.life ≠ .dropped)
    {clock : Clock} {gone : Nat → Bool}
    (returned : ∀ text, (s.polled clock gone).value.2 ≠ .crashed text) :
    (s.meet (.poll clock gone)).value.session.IsPublished := by
  cases hlife : s.life with
  | running =>
      have hopen : s.attempt.connection.isOpen = true := beq_iff_eq.2 hlife
      exact (s.polled_polls clock gone).published hopen (hs.running hlife) returned
  | dropped => exact absurd hlife kept
  | finished =>
      rw [meet_poll_over (by simp [hlife])]
      exact hc hlife

theorem meet_life (s : Service) {o : Occasion} (still : o.isPoll = false) (kept : o.isDrop = false) :
    (s.meet o).value.life = s.life := by
  cases o with
  | poll => simp [Occasion.isPoll] at still
  | drop => simp [Occasion.isDrop] at kept
  | ask options request =>
      simp only [meet, asks, Connection.submit]
      cases s.attempt.connection.isOpen <;> rfl
  | tell events plain =>
      simp only [meet, told, Connection.send]
      cases s.attempt.connection.isOpen <;> simp [mapConnection, life, Connection.post]
  | feed | touch | hold | cut | promise => rfl

theorem HasTold.meet (hc : s.HasTold) (hs : s.IsUpright inputs) (o : Occasion) :
    (s.meet o).value.HasTold := by
  intro hdone
  cases o with
  | drop crashed => exact nomatch hdone
  | poll clock gone =>
      cases hlife : s.life with
      | running =>
          rcases (s.polled_polls clock gone).leaves hlife (hs.running hlife) with
            ⟨-, -, ⟨fault, hready⟩, -⟩ | ⟨hlive, -⟩
          · refine polled_isPublished hs hc (by simp [hlife]) fun text hcrash => ?_
            exact absurd (hready.symm.trans hcrash) (by simp)
          · exact absurd (hlive.symm.trans hdone) (by decide)
      | _ =>
          rw [meet_poll_over (by simp [hlife])] at hdone ⊢
          exact hc hdone
  | _ => exact meet_isPublished (hc ((meet_life s rfl rfl).symm.trans hdone)) rfl rfl

theorem HasTold.run (hc : s.HasTold) (hs : s.IsUpright inputs) (occasions : List Occasion) :
    (s.run occasions).value.HasTold := by
  induction occasions generalizing s inputs with
  | nil => exact hc
  | cons o rest ih => exact ih (hc.meet hs o) (hs.meet o)

theorem awaited_iff {session : Session} (hs : session.IsNew) (id k : Nat) (closesAtOnce : Bool)
    (promise : Promise) (occasions : List Occasion) (sink : Nat) :
    let r := (start id k session closesAtOnce promise).run occasions
    .reply sink ∈ r.value.session.debts ↔ Waits r.actions sink := by
  intro r
  have hheard := (start id k session closesAtOnce promise).run_hears occasions
  constructor
  · intro hawaited
    have hnone : Accounts (issued (start id k session closesAtOnce promise).asked) []
        (start id k session closesAtOnce promise).debts := by
      rw [start_debts hs]
      exact .refl
    obtain ⟨-, hsettles⟩ := run_settles (start_isSound hs id k closesAtOnce promise) hnone occasions
    have hunpaid := hsettles.unpaid_of_left (issued_nodup _) (List.mem_append_right _ hawaited)
    refine ⟨?_, fun reply hanswered => hunpaid (List.mem_filterMap.2 ⟨_, hanswered, rfl⟩)⟩
    have hsame : r.value.session = session.after r.inputs := hheard.session
    rw [hsame] at hawaited
    obtain ⟨seq, henrolled⟩ := hs.enrolled_of_awaited hawaited
    exact ⟨seq, hheard.said.subset (Happening.action_mem_iff.1 (mem_enrolled.1 henrolled))⟩
  · rintro ⟨⟨seq, henrolled⟩, hunanswered⟩
    have hdeed : .enroll seq sink ∈ r.actions.filter Action.isDeed := List.mem_filter.2 ⟨henrolled, rfl⟩
    rw [hheard.deeds] at hdeed
    have hin := mem_enrolled.2 (Happening.action_mem_iff.2 (List.mem_filter.1 hdeed).1)
    rcases hs.answered_or_awaited hin with ⟨reply, hanswered⟩ | hawaited
    · exact absurd (hheard.said.subset hanswered) (hunanswered reply)
    · exact hheard.session ▸ hawaited

/-- Once a poll has returned, and as long as the connection is neither polled again nor dropped, its handles
are told that responses are unfinished exactly if somebody whose request was given a number waits. -/
theorem unfinished_faithful {builder : Builder} {opened : Clock} {channel : Channel} {speaksHttp1 : Bool}
    {session : Session} (hb : builder.session opened channel speaksHttp1 = .ok session) (id k : Nat)
    (closesAtOnce : Bool) (promise : Promise) (occasions : List Occasion) :
    let first := start id k session closesAtOnce promise
    let r := (first.run occasions).value
    r.life ≠ .dropped → ∀ clock gone, (∀ text, (r.polled clock gone).value.2 ≠ .crashed text) →
      ∀ later, (∀ o ∈ later, o.isPoll = false ∧ o.isDrop = false) →
        let q := first.run (occasions ++ .poll clock gone :: later)
        q.value.session.status.unfinished = true ↔ ∃ sink, Waits q.actions sink := by
  intro first r kept clock gone returned later still q
  have hnew := Builder.session_isNew hb
  have hfirst := start_isUpright hnew id k closesAtOnce promise
  have hpolled := polled_isPublished (hfirst.run occasions)
    (HasTold.run (s := first) (nomatch ·) hfirst occasions) kept returned
  have hq : q.value = ((r.meet (.poll clock gone)).value.run later).value :=
    congrArg (·.value) (first.run_append occasions (.poll clock gone :: later))
  have hpublished : q.value.session.IsPublished := hq ▸ run_isPublished hpolled still
  rw [hpublished, Session.hasUnfinished_iff]
  exact exists_congr fun sink => awaited_iff hnew id k closesAtOnce promise _ sink

def responded : List Occasion :=
  [.tell [.response none (.head ⟨200, .empty⟩), .response none .finish] (by simp [Event.debts])]

def halfway : List Occasion :=
  agreed ++ [.ask .default .bare, .ask .default .bare, .poll (.steady 0) fun _ => false] ++ responded

def respondedTwice : List Occasion := halfway ++ [.poll (.steady 0) fun _ => false] ++ responded

theorem unfinished_faithful_halfway :
    let first := start 0 0 (.blank maxDispatches) false .new
    let half := first.run (halfway ++ [.poll (.steady 0) fun _ => false, .touch .deactivate rfl])
    let full := first.run (respondedTwice ++ [.poll (.steady 0) fun _ => false])
    half.value.session.status.unfinished = true ∧ (∃ sink, Waits half.actions sink)
      ∧ full.actions.contains (.enroll 2 1) = true ∧ ∀ sink, ¬Waits full.actions sink := by
  have hb : Builder.new.session (.steady 0) (.new (.v4 #v[127, 0, 0, 1] 80) true true) true
      = .ok (.blank maxDispatches) := rfl
  have hpending : ∀ occasions ∈ [halfway, respondedTwice],
      let r := ((start 0 0 (.blank maxDispatches) false .new).run occasions).value
      r.life = .running ∧ (r.polled (.steady 0) fun _ => false).value.2 = .pending false := by
    decide +kernel
  obtain ⟨hlife, hreturned⟩ := hpending halfway (by simp)
  have hhalf := unfinished_faithful hb 0 0 false .new halfway (by simp [hlife]) (.steady 0) (fun _ => false)
    (by simp [hreturned]) [.touch .deactivate rfl] (by simp [Occasion.isPoll, Occasion.isDrop])
  obtain ⟨hlife, hreturned⟩ := hpending respondedTwice (by simp)
  have hfull := unfinished_faithful hb 0 0 false .new respondedTwice (by simp [hlife]) (.steady 0) (fun _ => false)
    (by simp [hreturned]) [] (by simp)
  have hup : ((start 0 0 (.blank maxDispatches) false .new).run
      (halfway ++ [.poll (.steady 0) fun _ => false, .touch .deactivate rfl])).value.session.status.unfinished
        = true := by
    decide +kernel
  have hdown : ((start 0 0 (.blank maxDispatches) false .new).run
      (respondedTwice ++ [.poll (.steady 0) fun _ => false])).value.session.status.unfinished = false := by
    decide +kernel
  refine ⟨hup, hhalf.1 hup, by decide +kernel, fun sink hwaits => ?_⟩
  exact absurd (hdown.symm.trans (hfull.2 ⟨sink, hwaits⟩)) (by decide)

end Service

end HttpSession
