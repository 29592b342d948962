import HttpSession.Proofs.Session.Turn
import HttpSession.Proofs.Writer.Run

namespace HttpSession

open Happening (ofActions)

def completed (actions : List Action) : List Nat :=
  ((handed (ofActions actions)).filter fun x => x.piece.isLast && x.ok).map Handed.seq

def headed (actions : List Action) : List Handed :=
  (handed (ofActions actions)).filter (·.piece.isHeaders)

def bodied (actions : List Action) : List Handed :=
  (handed (ofActions actions)).filter (!·.piece.isHeaders)

section

variable (xs ys : List Action)

@[simp] theorem completed_nil : completed [] = [] := rfl

@[simp] theorem headed_nil : headed [] = [] := rfl

@[simp] theorem bodied_nil : bodied [] = [] := rfl

@[simp] theorem completed_append : completed (xs ++ ys) = completed xs ++ completed ys := by
  simp [completed]

@[simp] theorem headed_append : headed (xs ++ ys) = headed xs ++ headed ys := by
  simp [headed]

@[simp] theorem bodied_append : bodied (xs ++ ys) = bodied xs ++ bodied ys := by
  simp [bodied]

end

namespace Emission

variable {sent : Emission} {seq : Nat} {piece : Piece}

theorem completed_actions :
    completed (sent.actions seq piece) = if piece.isLast && sent.fault.isNone then [seq] else [] := by
  rw [completed, handed_actions]
  cases hp : piece.isLast && sent.fault.isNone <;> simp [hp]

theorem headed_actions :
    headed (sent.actions seq piece) = if piece.isHeaders then [⟨seq, piece, sent.fault.isNone⟩] else [] := by
  rw [headed, handed_actions]
  cases hp : piece.isHeaders <;> simp [hp]

theorem bodied_actions :
    bodied (sent.actions seq piece) = if piece.isHeaders then [] else [⟨seq, piece, sent.fault.isNone⟩] := by
  rw [bodied, handed_actions]
  cases hp : piece.isHeaders <;> simp [hp]

end Emission

def Stage.completes (seq : Nat) : Stage → List Nat
  | .done => [seq]
  | _ => []

namespace Transfer

variable {seq : Nat} {encoder : Encoder} {piece : Piece} {next : Encoder → Transfer}

structure Tells (seq : Nat) (t : Transfer) : Prop where
  own : ∀ x ∈ handed (ofActions t.actions), x.seq = seq ∧ x.piece.isHeaders = false
  completed : completed t.actions = t.stage.completes seq

theorem giveUp_tells (encoder : Encoder) (seq : Nat) (fault : Fault) : (giveUp encoder seq fault).Tells seq where
  own := by simp [giveUp, Piece.isHeaders]
  completed := by simp [giveUp, Emission.completed_actions, Piece.isLast, Stage.completes]

theorem send_tells (hb : piece.isHeaders = false)
    (hnext : (encoder.put seq piece).fault = none → ∀ sent,
      (∀ x ∈ handed (ofActions (next sent).actions), x.seq = seq ∧ x.piece.isHeaders = false)
        ∧ (if piece.isLast then [seq] else []) ++ HttpSession.completed (next sent).actions
          = (next sent).stage.completes seq) :
    (send encoder seq piece next).Tells seq := by
  unfold send
  dsimp only
  cases hf : (encoder.put seq piece).fault with
  | none =>
      obtain ⟨hown, hcompleted⟩ := hnext hf (encoder.put seq piece).encoder
      refine ⟨?_, ?_⟩
      · simpa [after, hb] using hown
      · simpa [after, Emission.completed_actions, hf] using hcompleted
  | some fault =>
      obtain ⟨hown, hcompleted⟩ := giveUp_tells (encoder.put seq piece).encoder seq fault
      refine ⟨?_, ?_⟩
      · simpa [after, hb] using hown
      · simpa [after, Emission.completed_actions, hf] using hcompleted

theorem sendLast_tells (hb : piece.isHeaders = false) (hl : piece.isLast = true) :
    (sendLast encoder seq piece).Tells seq :=
  send_tells hb fun _ _ => ⟨by simp, by simp [hl, Stage.completes]⟩

theorem run_tells (seq : Nat) (body : Body) (encoder : Encoder) (frames : List Frame) :
    (run seq body encoder frames).Tells seq := by
  induction frames generalizing encoder with
  | nil =>
      unfold run
      split
      · exact sendLast_tells rfl rfl
      · exact ⟨by simp, rfl⟩
  | cons frame rest ih =>
      cases frame with
      | pending | crash text => exact ⟨by simp [run], rfl⟩
      | failure cause => exact giveUp_tells encoder seq _
      | trailers fields => exact sendLast_tells rfl rfl
      | data octets =>
          unfold run
          split
          · exact sendLast_tells rfl rfl
          · exact send_tells rfl fun _ sent => ⟨(ih sent).own, by simpa [Piece.isLast] using (ih sent).completed⟩

end Transfer

theorem InFlight.poll_tells (f : InFlight) (clock : Clock) (encoder : Encoder) :
    (f.poll clock encoder).Tells f.seq := by
  unfold poll
  split
  · exact Transfer.giveUp_tells encoder f.seq _
  · exact Transfer.run_tells f.seq f.body encoder f.body.frames

theorem Transfer.Tells.headed_eq {seq : Nat} {t : Transfer} (h : t.Tells seq) : headed t.actions = [] :=
  List.filter_eq_nil_iff.2 fun x hx => by simp [(h.own x hx).2]

theorem Transfer.Tells.bodied_eq {seq : Nat} {t : Transfer} (h : t.Tells seq) :
    bodied t.actions = handed (ofActions t.actions) :=
  List.filter_eq_self.2 fun x hx => by simp [(h.own x hx).2]

def Upload.opening (u : Upload) : Handed := ⟨u.seq, .headers u.head u.body.isEnd, true⟩

namespace Writer

variable {clock : Clock} {canceled : Nat → Bool} {w : Writer}

def BodyPoll.answer (clock : Clock) (p : BodyPoll) : Transfer := p.flight.poll clock p.encoder

theorem pass_bodied (clock : Clock) (encoder : Encoder) (active : List InFlight) :
    bodied (pass clock encoder active).actions
      = (pass clock encoder active).polls.flatMap fun p => handed (ofActions (p.answer clock).actions) := by
  induction active generalizing encoder with
  | nil => rfl
  | cons f rest ih =>
      have hpoll := (f.poll_tells clock encoder).bodied_eq
      cases hs : (f.poll clock encoder).stage with
      | waiting body => simp [pass_waiting rfl hs, Pass.after, Pass.keep, hpoll, ih, BodyPoll.answer]
      | done => simp [pass_done rfl hs, Pass.after, Pass.drop, hpoll, ih, BodyPoll.answer]
      | failed fault => simp [pass_failed rfl hs, hpoll, BodyPoll.answer]
      | crashed text body => simp [pass_crashed rfl hs, hpoll, BodyPoll.answer]

theorem pass_headed (clock : Clock) (encoder : Encoder) (active : List InFlight) :
    headed (pass clock encoder active).actions = [] := by
  induction active generalizing encoder with
  | nil => rfl
  | cons f rest ih =>
      have hpoll := (f.poll_tells clock encoder).headed_eq
      cases hs : (f.poll clock encoder).stage with
      | waiting body => simp [pass_waiting rfl hs, Pass.after, Pass.keep, hpoll, ih]
      | done => simp [pass_done rfl hs, Pass.after, Pass.drop, hpoll, ih]
      | failed fault => simp [pass_failed rfl hs, hpoll]
      | crashed text body => simp [pass_crashed rfl hs, hpoll]

theorem pass_waits {encoder : Encoder} {active : List InFlight}
    (hs : (pass clock encoder active).stop = none) (hf : ¬(pass clock encoder active).finished = true) :
    (pass clock encoder active).polls.map (fun p => (p.flight.seq, (p.answer clock).stage))
      = (pass clock encoder active).left.map fun f => (f.seq, .waiting f.body) := by
  induction active generalizing encoder with
  | nil => rfl
  | cons f rest ih =>
      cases hstage : (f.poll clock encoder).stage with
      | waiting body =>
          rw [pass_waiting rfl hstage] at hs hf ⊢
          simp only [List.map_cons, Pass.after, Pass.keep, ih hs hf]
          simp only [BodyPoll.answer, hstage]
      | done => simp [pass_done rfl hstage, Pass.after, Pass.drop] at hf
      | failed fault => simp [pass_failed rfl hstage] at hs
      | crashed text body => simp [pass_crashed rfl hstage] at hs

theorem pass_seqs (clock : Clock) (encoder : Encoder) (active : List InFlight) :
    (active.map InFlight.seq).Perm
      (((pass clock encoder active).stop.map Standing.named).getD []
        ++ completed (pass clock encoder active).actions
        ++ (pass clock encoder active).left.map InFlight.seq) := by
  induction active generalizing encoder with
  | nil => exact .refl _
  | cons f rest ih =>
      have hpoll := (f.poll_tells clock encoder).completed
      cases hs : (f.poll clock encoder).stage with
      | waiting body =>
          have hrest := (ih (f.poll clock encoder).encoder).cons f.seq
          rw [pass_waiting rfl hs]
          simp only [hs, Stage.completes] at hpoll
          simp only [Pass.after, Pass.keep, completed_append, hpoll, List.nil_append, List.map_cons]
          exact hrest.trans List.perm_middle.symm
      | done =>
          have hrest := (ih (f.poll clock encoder).encoder).cons f.seq
          rw [pass_done rfl hs]
          simp only [hs, Stage.completes] at hpoll
          simp only [Pass.after, Pass.drop, completed_append, hpoll, List.map_cons]
          simp only [List.append_assoc, List.singleton_append] at hrest ⊢
          exact hrest.trans List.perm_middle.symm
      | failed fault =>
          rw [pass_failed rfl hs]
          simp only [hs, Stage.completes] at hpoll
          simp [hpoll, Standing.named, Unwritten.seq]
      | crashed text body =>
          rw [pass_crashed rfl hs]
          simp only [hs, Stage.completes] at hpoll
          simp [hpoll, Standing.named]

theorem launchFrom_seqs (queue : List Upload) :
    (w.active.map InFlight.seq ++ queue.map Upload.seq).Perm
      ((launchFrom clock canceled w queue).unwritten.toList.map Unwritten.seq
        ++ completed (launchFrom clock canceled w queue).actions
        ++ (launchFrom clock canceled w queue).writer.seqs) := by
  induction queue generalizing w with
  | nil => exact .refl _
  | cons u rest ih =>
      cases hm : w.mayStart with
      | false =>
          rw [launchFrom_full hm]
          exact .refl _
      | true =>
          cases hc : canceled u.seq with
          | true =>
              rw [launchFrom_canceled hm hc]
              exact List.perm_middle
          | false =>
              cases hf : (w.encoder.put u.seq (.headers u.head u.body.isEnd)).fault with
              | some fault =>
                  rw [launchFrom_failed hm hc rfl hf]
                  simp only [completed_append, Emission.completed_actions, hf]
                  simp [Piece.isLast, Unwritten.seq, seqs]
              | none =>
                  rw [launchFrom_sent hm hc rfl hf]
                  have hrest := ih (w := { w with
                    encoder := (w.encoder.put u.seq (.headers u.head u.body.isEnd)).encoder
                    active := w.active ++ w.started clock u })
                  simp only [Launch.after, completed_append, Emission.completed_actions, hf, Piece.isLast,
                    List.map_append, started_seqs_eq, List.map_cons, Option.isNone_none, Bool.and_true] at hrest ⊢
                  cases he : u.body.isEnd with
                  | false => simpa [he] using hrest
                  | true =>
                      simp only [he, if_true, List.append_nil, List.append_assoc, List.singleton_append] at hrest ⊢
                      exact (List.perm_middle.trans (hrest.cons u.seq)).trans List.perm_middle.symm

theorem launchFrom_opens {queue : List Upload}
    (hu : (launchFrom clock canceled w queue).unwritten = none) :
    (∃ opened, queue = opened ++ (launchFrom clock canceled w queue).writer.queue
        ∧ headed (launchFrom clock canceled w queue).actions = opened.map Upload.opening)
      ∧ bodied (launchFrom clock canceled w queue).actions = [] := by
  induction queue generalizing w with
  | nil => exact ⟨⟨[], rfl, rfl⟩, rfl⟩
  | cons u rest ih =>
      cases hm : w.mayStart with
      | false =>
          rw [launchFrom_full hm]
          exact ⟨⟨[], rfl, rfl⟩, rfl⟩
      | true =>
          cases hc : canceled u.seq with
          | true => simp [launchFrom_canceled hm hc] at hu
          | false =>
              cases hf : (w.encoder.put u.seq (.headers u.head u.body.isEnd)).fault with
              | some fault => simp [launchFrom_failed hm hc rfl hf] at hu
              | none =>
                  rw [launchFrom_sent hm hc rfl hf] at hu ⊢
                  obtain ⟨⟨opened, hqueue, hheaded⟩, hbodied⟩ := ih hu
                  refine ⟨⟨u :: opened, congrArg (u :: ·) hqueue, ?_⟩, ?_⟩
                  · simp [Launch.after, Emission.headed_actions, Piece.isHeaders, hf, hheaded, Upload.opening]
                  · simp [Launch.after, Emission.bodied_actions, Piece.isHeaders, hbodied]

theorem launchFrom_multiplex (clock : Clock) (canceled : Nat → Bool) (w : Writer) (queue : List Upload) :
    (launchFrom clock canceled w queue).writer.multiplex = w.multiplex := by
  induction queue generalizing w with
  | nil => rfl
  | cons u rest ih =>
      unfold launchFrom
      split
      · rfl
      · split
        · rfl
        · dsimp only
          split
          · rfl
          · exact ih _

/-- How far a call gets. -/
structure GetsFar (clock : Clock) (w : Writer) (r : Round) : Prop where
  multiplex : r.writer.multiplex = w.multiplex
  empty : r.standing = .empty ↔ r.writer.isIdle = true ∧ ∀ u, r.standing ≠ .unwritten u
  settled : w.seqs.Perm (r.standing.named ++ completed r.actions ++ r.writer.seqs)
  opened : (∀ u, r.standing ≠ .unwritten u) →
    ∃ opened, w.queue = opened ++ r.writer.queue ∧ headed r.actions = opened.map Upload.opening
  polled : (∀ u, r.standing ≠ .unwritten u) →
    bodied r.actions = r.polls.flatMap fun p => handed (ofActions (p.answer clock).actions)
  waiting : r.standing = .pending →
    ∃ before last, r.polls = before ++ last
      ∧ last.map (fun p => (p.flight.seq, (p.answer clock).stage))
        = r.writer.active.map fun f => (f.seq, .waiting f.body)
  busy : r.standing = .pending → r.writer.active ≠ [] ∧ (w.multiplex = true → r.writer.queue = [])

variable {l : Launch} {p : Pass}

theorem launch_multiplex (launch : w.launch clock canceled = l) : l.writer.multiplex = w.multiplex :=
  launch ▸ launchFrom_multiplex clock canceled w w.queue

theorem launch_settled (launch : w.launch clock canceled = l) :
    w.seqs.Perm (l.unwritten.toList.map Unwritten.seq ++ completed l.actions ++ l.writer.seqs) := by
  subst launch
  exact launchFrom_seqs w.queue

theorem pass_settled (launch : w.launch clock canceled = l) (hu : l.unwritten = none)
    (pass : pass clock l.writer.encoder l.writer.active = p) :
    w.seqs.Perm ((p.stop.map Standing.named).getD [] ++ completed (l.actions ++ p.actions)
      ++ (l.writer.passed p).seqs) := by
  have hlaunch := launch_settled launch
  have hpass := pass_seqs clock l.writer.encoder l.writer.active
  rw [hu] at hlaunch
  rw [pass] at hpass
  rw [List.perm_iff_count] at *
  intro a
  have hlaunch := hlaunch a
  have hpass := hpass a
  simp only [seqs, passed, completed_append, List.count_append, Option.toList_none, List.map_nil,
    List.count_nil] at hlaunch hpass ⊢
  omega

theorem launch_opened (launch : w.launch clock canceled = l) (hu : l.unwritten = none)
    (pass : pass clock l.writer.encoder l.writer.active = p) :
    ∃ opened, w.queue = opened ++ (l.writer.passed p).queue
      ∧ headed (l.actions ++ p.actions) = opened.map Upload.opening := by
  subst launch pass
  obtain ⟨⟨opened, hqueue, hheaded⟩, -⟩ := launchFrom_opens hu
  exact ⟨opened, hqueue, by rw [headed_append, pass_headed, List.append_nil]; exact hheaded⟩

theorem launch_polled (launch : w.launch clock canceled = l) (hu : l.unwritten = none)
    (pass : pass clock l.writer.encoder l.writer.active = p) :
    bodied (l.actions ++ p.actions)
      = p.polls.flatMap fun q => handed (ofActions (q.answer clock).actions) := by
  subst launch pass
  obtain ⟨-, hbodied⟩ := launchFrom_opens hu
  rw [bodied_append, pass_bodied]
  exact (congrArg (· ++ _) hbodied).trans (List.nil_append _)

theorem launch_takes (launch : w.launch clock canceled = l) (hu : l.unwritten = none)
    (hm : l.writer.mayStart = true) : l.writer.queue = [] := by
  subst launch
  exact (launch_rest clock canceled w hu).resolve_right (by simp [hm])

theorem not_isIdle (hn : w.active ≠ []) : ¬w.isIdle = true := by
  simp [isIdle, hn]

theorem getsFar_of_unwritten (launch : w.launch clock canceled = l) {u : Unwritten} (hu : l.unwritten = some u) :
    GetsFar clock w ⟨l.writer, l.actions, [], .unwritten u⟩ where
  multiplex := launch_multiplex launch
  empty := ⟨fun h => Standing.noConfusion h, fun h => absurd rfl (h.2 u)⟩
  settled := by simpa [hu, Standing.named] using launch_settled launch
  opened h := absurd rfl (h u)
  polled h := absurd rfl (h u)
  waiting h := Standing.noConfusion h
  busy h := Standing.noConfusion h

theorem getsFar_of_empty (launch : w.launch clock canceled = l) (hu : l.unwritten = none)
    (hn : l.writer.active.isEmpty = true) : GetsFar clock w ⟨l.writer, l.actions, [], .empty⟩ where
  multiplex := launch_multiplex launch
  empty := by
    have hqueue := launch_takes launch hu (by simp [mayStart, hn])
    simp [isIdle, hqueue, List.isEmpty_iff.1 hn]
  settled := by simpa [hu, Standing.named] using launch_settled launch
  opened _ := by
    subst launch
    exact (launchFrom_opens hu).1
  polled _ := by
    subst launch
    exact (launchFrom_opens hu).2
  waiting h := Standing.noConfusion h
  busy h := Standing.noConfusion h

theorem getsFar_of_stop (launch : w.launch clock canceled = l) (hu : l.unwritten = none)
    (pass : pass clock l.writer.encoder l.writer.active = p) {standing : Standing} (hs : p.stop = some standing) :
    GetsFar clock w ⟨l.writer.passed p, l.actions ++ p.actions, p.polls, standing⟩ where
  multiplex := launch_multiplex launch
  empty := by
    subst pass
    refine ⟨fun h => absurd h (pass_stop hs).1, fun h => absurd h.1 (not_isIdle (w := passed _ _) ?_)⟩
    exact (pass_left_of_stop clock _ _ standing hs).resolve_left fun ⟨u, hu⟩ => h.2 u hu
  settled := by simpa [hs] using pass_settled launch hu pass
  opened _ := launch_opened launch hu pass
  polled _ := launch_polled launch hu pass
  waiting h := absurd h (pass_stop (pass ▸ hs)).2
  busy h := absurd h (pass_stop (pass ▸ hs)).2

theorem getsFar_again (launch : w.launch clock canceled = l) (hu : l.unwritten = none)
    (pass : pass clock l.writer.encoder l.writer.active = p) (hs : p.stop = none)
    {r : Round} (h : GetsFar clock (l.writer.passed p) r) :
    GetsFar clock w (r.after (l.actions ++ p.actions) p.polls) where
  multiplex := h.multiplex.trans (launch_multiplex launch)
  empty := h.empty
  settled := by
    have hfirst := pass_settled launch hu pass
    have hrest := h.settled
    rw [List.perm_iff_count] at *
    intro a
    have hfirst := hfirst a
    have hrest := hrest a
    simp only [hs, Option.map_none, Option.getD_none, Round.after, completed_append, List.count_append,
      List.count_nil] at hfirst hrest ⊢
    omega
  opened hn := by
    obtain ⟨first, hfirst, hheaded⟩ := launch_opened launch hu pass
    obtain ⟨rest, hrest, hheaded'⟩ := h.opened hn
    refine ⟨first ++ rest, ?_, ?_⟩
    · rw [hfirst, hrest, List.append_assoc]
      rfl
    · rw [Round.after, headed_append, hheaded, hheaded', List.map_append]
  polled hn := by
    rw [Round.after, bodied_append, launch_polled launch hu pass, h.polled hn, List.flatMap_append]
  waiting hp := by
    obtain ⟨before, last, hpolls, hlast⟩ := h.waiting hp
    exact ⟨p.polls ++ before, last, by simp [Round.after, hpolls], hlast⟩
  busy hp := (h.busy hp).imp_right fun hq hm => hq ((launch_multiplex launch).trans hm)

theorem getsFar_of_pending (launch : w.launch clock canceled = l) (hu : l.unwritten = none)
    (hn : ¬l.writer.active.isEmpty = true) (pass : pass clock l.writer.encoder l.writer.active = p)
    (hs : p.stop = none) (hf : ¬p.finished = true) :
    GetsFar clock w ⟨l.writer.passed p, l.actions ++ p.actions, p.polls, .pending⟩ := by
  have hmultiplex := launch_multiplex launch
  have hleft : p.left ≠ [] := by
    have hlength := pass_left_of_unfinished clock l.writer.encoder l.writer.active (by simpa [pass] using hf)
    rw [pass] at hlength
    intro hnil
    exact hn (List.isEmpty_iff.2 (List.length_eq_zero_iff.1 (by simpa [hnil] using hlength.symm)))
  exact {
    multiplex := hmultiplex
    empty := ⟨fun h => Standing.noConfusion h, fun h => absurd h.1 (not_isIdle (w := l.writer.passed p) hleft)⟩
    settled := by simpa [hs, Standing.named] using pass_settled launch hu pass
    opened := fun _ => launch_opened launch hu pass
    polled := fun _ => launch_polled launch hu pass
    waiting := fun _ => ⟨[], _, rfl, by subst pass; exact pass_waits hs hf⟩
    busy := fun _ => ⟨hleft, fun hm => launch_takes launch hu (by simp [mayStart, hmultiplex, hm])⟩ }

theorem getsFar (clock : Clock) (canceled : Nat → Bool) (w : Writer) :
    GetsFar clock w (advance clock canceled w) := by
  induction w using advance.induct clock canceled with
  | case1 w l u hu =>
      rw [advance_unwritten rfl hu]
      exact getsFar_of_unwritten rfl hu
  | case2 w l hu hn =>
      rw [advance_empty rfl hu hn]
      exact getsFar_of_empty rfl hu hn
  | case3 w l hu hn p standing hs =>
      rw [advance_stopped rfl hu hn rfl hs]
      exact getsFar_of_stop rfl hu rfl hs
  | case4 w l hu hn p rest hs hf ih =>
      rw [advance_again rfl hu hn rfl hs hf]
      exact getsFar_again rfl hu rfl hs ih
  | case5 w l hu hn p hs hf =>
      rw [advance_pending rfl hu hn rfl hs hf]
      exact getsFar_of_pending rfl hu hn rfl hs hf

theorem GetsFar.gone {r : Round} (h : GetsFar clock w r) (distinct : w.seqs.Nodup) {u : Unwritten} (hu : r.standing = .unwritten u) :
    u.seq ∈ w.seqs ∧ u.seq ∉ r.writer.seqs := by
  have hsettled := h.settled
  rw [hu, Standing.named, List.append_assoc, List.singleton_append] at hsettled
  have hrest := (List.nodup_cons.1 (hsettled.nodup_iff.1 distinct)).1
  exact ⟨hsettled.mem_iff.2 List.mem_cons_self, fun hm => hrest (List.mem_append_right _ hm)⟩

/-- A writer gets as far as it can: it waits only for bodies that it has polled in vain, one of them where
requests are written one at a time, and all that were queued where they are not; what left it was written
to its end or is reported. -/
theorem advance_gets_far (clock : Clock) (canceled : Nat → Bool) (w : Writer) :
    (∀ encoder timer operations, let v := ((new encoder timer false).run operations).1
      v.active.length ≤ 1
        ∧ ((advance clock canceled v).standing = .pending → (advance clock canceled v).writer.active.length = 1))
      ∧ GetsFar clock w (advance clock canceled w)
      ∧ (w.seqs.Nodup → ∀ u, (advance clock canceled w).standing = .unwritten u →
        u.seq ∈ w.seqs ∧ u.seq ∉ (advance clock canceled w).writer.seqs) := by
  refine ⟨fun encoder timer operations => ?_, getsFar clock canceled w, fun distinct u hu => ?_⟩
  · have hnew : (new encoder timer false).IsSingle := ⟨rfl, Nat.zero_le 1⟩
    have hv := run_isSingle hnew operations
    refine ⟨hv.one, fun hp => Nat.le_antisymm (advance_isSingle hv).one ?_⟩
    exact List.length_pos_iff.2 ((getsFar clock canceled _).busy hp).1
  · exact (getsFar clock canceled w).gone distinct hu

def stalling : List Upload :=
  [⟨0, ⟨ascii "PUT", ⟨none, none, some Target.slash⟩, .http2, .empty⟩,
      ⟨0, [.data (ascii "some"), .pending], false, false⟩, none⟩,
    ⟨1, ⟨ascii "PUT", ⟨none, none, some Target.slash⟩, .http2, .empty⟩, .full 1 (ascii "all"), none⟩]

theorem advance_gets_far_stalling :
    let clock : Clock := ⟨0, 0, fun _ => false⟩
    let w := stalling.foldl enqueue (new (.http2 .fresh) .present true)
    let r := advance clock (fun _ => false) w
    r.standing = .pending ∧ completed r.actions = [1] ∧ r.writer.seqs = [0] ∧ r.writer.queue = []
      ∧ r.polls.getLast?.map (fun p => (p.flight.seq, (p.answer clock).stage))
        = some (0, .waiting ⟨0, [], false, false⟩) := by
  intro clock w r
  obtain ⟨-, hfar, -⟩ := advance_gets_far clock (fun _ => false) w
  have hpending : r.standing = .pending := by decide +kernel
  refine ⟨hpending, by decide +kernel, by decide +kernel, (hfar.busy hpending).2 rfl, ?_⟩
  obtain ⟨before, last, hpolls, hlast⟩ := hfar.waiting hpending
  have hactive : r.writer.active = [⟨0, ⟨0, [], false, false⟩, none⟩] := by decide +kernel
  rw [hactive] at hlast
  obtain ⟨p, rfl, hp⟩ := List.map_eq_singleton_iff.1 hlast
  rw [hpolls, List.getLast?_append, List.getLast?_singleton]
  exact congrArg some hp

end Writer

end HttpSession
