import HttpSession.Proofs.Session.Traffic

namespace HttpSession

open Happening (ofActions)

theorem Transfer.run_body (seq : Nat) (body : Body) (encoder : Encoder) (stale frames : List Frame) :
    run seq { body with frames := stale } encoder frames = run seq body encoder frames := by
  induction frames generalizing encoder with
  | nil => rfl
  | cons frame rest ih =>
      cases frame with
      | data octets => simp only [run, ih]
      | _ => rfl

namespace Traffic

def landed (c : Traffic) (f : InFlight) (before behind : List InFlight) (t : Transfer) :
    Traced Traffic :=
  let c := c.encode t.encoder
  match t.stage with
  | .waiting body | .crashed _ body =>
      ⟨c.fly (before ++ { f with body := body } :: behind), t.actions⟩
  | .done => ⟨c.fly (before ++ behind), t.actions⟩
  | .failed fault =>
      let failed := (c.fly (before ++ behind)).track (c.tracker.fail f.seq fault)
      ⟨failed.value, t.actions ++ failed.actions⟩

theorem landed_after (c : Traffic) (f : InFlight) (before behind : List InFlight)
    (actions : List Action) (t : Transfer) :
    c.landed f before behind (t.after actions)
      = ⟨(c.landed f before behind t).value, actions ++ (c.landed f before behind t).actions⟩ := by
  unfold landed Transfer.after
  cases t.stage <;> simp

theorem landed_onward (c : Traffic) (f : InFlight) (before behind active : List InFlight)
    (encoder : Encoder) (body : Body) (t : Transfer) :
    ((c.encode encoder).fly active).landed { f with body := body } before behind t
      = c.landed f before behind t := by
  unfold landed
  cases t.stage <;> rfl

@[simp] theorem encode_self (c : Traffic) : c.encode c.writer.encoder = c := rfl

variable (clock : Clock) (gone : Nat → Bool) {c : Traffic} {f : InFlight}
  {before behind : List InFlight}

theorem send_path (stopped : c.tracker.abandoned = []) (flight : c.writer.active = before ++ f :: behind)
    {piece : Piece} (body : piece.isBody = true) (next : Encoder → Transfer)
    (hnext : ∀ sent, c.writer.encoder.put f.seq piece = sent → sent.fault = none →
      Path (Write clock gone) c (ofActions (sent.actions f.seq piece
          ++ (c.landed f before behind (next sent.encoder)).actions))
        (c.landed f before behind (next sent.encoder)).value) :
    Path (Write clock gone) c
      (ofActions (c.landed f before behind (Transfer.send c.writer.encoder f.seq piece next)).actions)
      (c.landed f before behind (Transfer.send c.writer.encoder f.seq piece next)).value := by
  unfold Transfer.send
  dsimp only
  cases hf : (c.writer.encoder.put f.seq piece).fault with
  | none =>
      rw [landed_after]
      exact hnext _ rfl hf
  | some fault =>
      rw [landed_after]
      exact Path.single (Write.lose f before behind piece _ fault stopped flight body rfl hf)

theorem sendLast_path (stopped : c.tracker.abandoned = [])
    (flight : c.writer.active = before ++ f :: behind) {piece : Piece} (body : piece.isBody = true)
    (final : piece.isFinal = true) :
    Path (Write clock gone) c
      (ofActions (c.landed f before behind (Transfer.sendLast c.writer.encoder f.seq piece)).actions)
      (c.landed f before behind (Transfer.sendLast c.writer.encoder f.seq piece)).value := by
  refine send_path clock gone stopped flight body _ fun sent put ok => ?_
  simpa [landed] using Path.single (Write.complete f before behind piece sent stopped flight final put ok)

theorem run_path (stopped : c.tracker.abandoned = [])
    (flight : c.writer.active = before ++ f :: behind) :
    Path (Write clock gone) c
      (ofActions (c.landed f before behind
        (Transfer.run f.seq f.body c.writer.encoder f.body.frames)).actions)
      (c.landed f before behind (Transfer.run f.seq f.body c.writer.encoder f.body.frames)).value := by
  induction hframes : f.body.frames generalizing c f with
  | nil =>
      simp only [Transfer.run]
      split
      · exact sendLast_path clock gone stopped flight rfl rfl
      · simpa [landed, hframes] using Path.single (Write.stall f before behind stopped flight)
  | cons frame rest ih =>
      cases frame with
      | pending | crash text =>
          simpa [Transfer.run, landed, hframes]
            using Path.single (Write.stall f before behind stopped flight)
      | failure cause =>
          exact Path.single (Write.breakOff f before behind _ stopped flight (.inr ⟨cause, rfl⟩))
      | trailers fields => exact sendLast_path clock gone stopped flight rfl rfl
      | data octets =>
          simp only [Transfer.run]
          split
          · exact sendLast_path clock gone stopped flight rfl rfl
          · refine send_path clock gone stopped flight rfl _ fun sent put ok => ?_
            have hgo : Write clock gone c _ _ :=
              .proceed f before behind octets rest sent stopped flight hframes put ok
            have hrest := ih
              (c := (c.encode sent.encoder).fly
                (before ++ { f with body := { f.body with frames := rest } } :: behind))
              (f := { f with body := { f.body with frames := rest } }) stopped rfl rfl
            rw [landed_onward, Transfer.run_body] at hrest
            rw [Happening.ofActions_append]
            exact Path.cons hgo hrest

theorem poll_path (stopped : c.tracker.abandoned = [])
    (flight : c.writer.active = before ++ f :: behind) :
    Path (Write clock gone) c (ofActions (c.landed f before behind (f.poll clock c.writer.encoder)).actions)
      (c.landed f before behind (f.poll clock c.writer.encoder)).value := by
  unfold InFlight.poll
  split
  · exact Path.single (Write.breakOff f before behind _ stopped flight (.inl ⟨‹_›, rfl⟩))
  · exact run_path clock gone stopped flight

end Traffic

def Standing.report (t : Tracker) : Standing → Traced Tracker
  | .unwritten (.canceled seq) => t.forget seq
  | .unwritten (.failed seq fault) => t.fail seq fault
  | _ => pure t

namespace Traffic

variable (clock : Clock) (gone : Nat → Bool) {c : Traffic}

def rested (c : Traffic) (w : Writer) (actions : List Action) (standing : Option Standing) :
    Traced Traffic :=
  let reported := ({ c with writer := w }).track
    ((standing.map (Standing.report c.tracker)).getD (pure c.tracker))
  ⟨reported.value, actions ++ reported.actions⟩

@[simp] theorem rested_none (c : Traffic) (w : Writer) (actions : List Action) :
    c.rested w actions none = ⟨{ c with writer := w }, actions⟩ := by
  simp [rested, track]

@[simp] theorem rested_some (c : Traffic) (w : Writer) (actions : List Action) (standing : Standing) :
    c.rested w actions (some standing)
      = ⟨{ c with writer := w, tracker := (standing.report c.tracker).value },
        actions ++ (standing.report c.tracker).actions⟩ := rfl

theorem rested_onward (c : Traffic) (encoder : Encoder) (active : List InFlight) (w : Writer)
    (xs ys : List Action) (standing : Option Standing) :
    c.rested w (xs ++ ys) standing
      = ⟨(((c.encode encoder).fly active).rested w ys standing).value,
        xs ++ (((c.encode encoder).fly active).rested w ys standing).actions⟩ := by
  simp [rested, fly, encode, track]

theorem pass_path (before active : List InFlight)
    (stopped : c.tracker.abandoned = []) (flight : c.writer.active = before ++ active) :
    let p := Writer.pass clock c.writer.encoder active
    let r := c.rested { c.writer with encoder := p.encoder, active := before ++ p.left } p.actions p.stop
    Path (Write clock gone) c (ofActions r.actions) r.value := by
  induction active generalizing c before with
  | nil =>
      have hw : ({ c.writer with active := before ++ [] } : Writer) = c.writer := by rw [← flight]
      simp only [Writer.pass, rested, hw]
      exact .refl c
  | cons f behind ih =>
      have hpoll := poll_path clock gone stopped flight
      generalize ht : f.poll clock c.writer.encoder = t at hpoll
      cases hs : t.stage with
      | waiting body =>
          rw [Writer.pass_waiting ht hs]
          simp only [landed, hs] at hpoll
          have hrest := ih (c := (c.encode t.encoder).fly (before ++ { f with body := body } :: behind))
            (before ++ [{ f with body := body }]) stopped (by simp [fly])
          simp only [Writer.Pass.after, Writer.Pass.keep]
          rw [rested_onward c t.encoder (before ++ { f with body := body } :: behind)]
          simpa [fly, encode] using hpoll.trans hrest
      | done =>
          rw [Writer.pass_done ht hs]
          simp only [landed, hs] at hpoll
          have hrest := ih (c := (c.encode t.encoder).fly (before ++ behind)) before stopped rfl
          simp only [Writer.Pass.after, Writer.Pass.drop]
          rw [rested_onward c t.encoder (before ++ behind)]
          simpa [fly, encode] using hpoll.trans hrest
      | failed fault =>
          rw [Writer.pass_failed ht hs]
          simpa [landed, hs, rested, Standing.report, track, fly, encode] using hpoll
      | crashed text body =>
          rw [Writer.pass_crashed ht hs]
          simpa [landed, hs, rested, Standing.report, track, fly, encode] using hpoll

theorem launch_path (queue : List Upload) (stopped : c.tracker.abandoned = []) :
    let l := Writer.launchFrom clock (c.tracker.isCanceled gone) c.writer queue
    let r := c.rested l.writer l.actions (l.unwritten.map Standing.unwritten)
    Path (Write clock gone) (c.queue queue) (ofActions r.actions) r.value := by
  induction queue generalizing c with
  | nil => exact .refl _
  | cons u rest ih =>
      cases hm : c.writer.mayStart with
      | false =>
          rw [Writer.launchFrom_full hm]
          exact .refl _
      | true =>
          cases hc : c.tracker.isCanceled gone u.seq with
          | true =>
              rw [Writer.launchFrom_canceled hm hc]
              exact .single (.skip u rest stopped rfl hm hc)
          | false =>
              cases hf : (c.writer.encoder.put u.seq (.headers u.head u.body.isEnd)).fault with
              | some fault =>
                  have hmiss : Write clock gone (c.queue (u :: rest)) _ _ :=
                    .miss u rest _ fault stopped rfl hm hc rfl hf
                  rw [Writer.launchFrom_failed hm hc rfl hf]
                  simpa [rested, Standing.report, track, Traffic.queue, giveUp, encode]
                    using Path.single hmiss
              | none =>
                  have hgo : Write clock gone (c.queue (u :: rest)) _ _ :=
                    .launch u rest _ stopped rfl hm hc rfl hf
                  have hrest := ih
                    (c := (c.encode (c.writer.encoder.put u.seq
                        (.headers u.head u.body.isEnd)).encoder).fly
                      (c.writer.active ++ c.writer.started clock u)) stopped
                  rw [Writer.launchFrom_sent hm hc rfl hf]
                  simpa [rested, track, fly, encode, Traffic.queue, Writer.Launch.after]
                    using Path.cons hgo hrest

theorem launched_path {w : Writer} {l : Writer.Launch} (stopped : c.tracker.abandoned = [])
    (launch : w.launch clock (c.tracker.isCanceled gone) = l) :
    let r := c.rested l.writer l.actions (l.unwritten.map Standing.unwritten)
    Path (Write clock gone) { c with writer := w } (ofActions r.actions) r.value :=
  launch ▸ launch_path (c := { c with writer := w }) clock gone w.queue stopped

theorem passed_path {w : Writer} {l : Writer.Launch} (stopped : c.tracker.abandoned = [])
    (launch : w.launch clock (c.tracker.isCanceled gone) = l) (hu : l.unwritten = none)
    {p : Writer.Pass} (pass : Writer.pass clock l.writer.encoder l.writer.active = p) :
    let r := c.rested { l.writer with encoder := p.encoder, active := p.left }
      (l.actions ++ p.actions) p.stop
    Path (Write clock gone) { c with writer := w } (ofActions r.actions) r.value := by
  subst pass
  have hlaunch := launched_path clock gone stopped launch
  have hpass := pass_path clock gone (c := { c with writer := l.writer }) [] _ stopped rfl
  simp only [hu, Option.map_none, rested_none] at hlaunch
  simpa [rested, track] using hlaunch.trans hpass

theorem advance_path (w : Writer) (stopped : c.tracker.abandoned = []) :
    let round := Writer.advance clock (c.tracker.isCanceled gone) w
    let r := c.rested round.writer round.actions (some round.standing)
    Path (Write clock gone) { c with writer := w } (ofActions r.actions) r.value := by
  induction w using Writer.advance.induct clock (c.tracker.isCanceled gone) with
  | case1 w l u hu =>
      have hlaunch := launched_path clock gone stopped (rfl : _ = l)
      rw [hu] at hlaunch
      rw [Writer.advance_unwritten rfl hu]
      exact hlaunch
  | case2 w l hu hn =>
      have hlaunch := launched_path clock gone stopped (rfl : _ = l)
      rw [hu] at hlaunch
      rw [Writer.advance_empty rfl hu hn]
      exact hlaunch
  | case3 w l hu hn p standing hs =>
      have hpassed := passed_path clock gone stopped (rfl : _ = l) hu (rfl : _ = p)
      rw [hs] at hpassed
      rw [Writer.advance_stopped rfl hu hn rfl hs]
      exact hpassed
  | case4 w l hu hn p rest hs hf ih =>
      have hpassed := passed_path clock gone stopped (rfl : _ = l) hu (rfl : _ = p)
      rw [hs, rested_none] at hpassed
      rw [Writer.advance_again rfl hu hn rfl hs hf]
      simpa [Writer.Round.after] using hpassed.trans ih
  | case5 w l hu hn p hs hf =>
      have hpassed := passed_path clock gone stopped (rfl : _ = l) hu (rfl : _ = p)
      rw [hs] at hpassed
      rw [Writer.advance_pending rfl hu hn rfl hs hf]
      exact hpassed

theorem stop_path (abandoned : List Abandoned) (given : c.tracker.abandoned = abandoned) :
    Path (Write clock gone) c (ofActions (c.writer.abandonAll abandoned).2)
      { c with
        writer := (c.writer.abandonAll abandoned).1
        tracker := { c.tracker with abandoned := [] } } := by
  induction abandoned generalizing c with
  | nil =>
      have ht : ({ c.tracker with abandoned := [] } : Tracker) = c.tracker := by rw [← given]
      simp only [Writer.abandonAll, ht]
      exact .refl c
  | cons a rest ih =>
      have hrest := ih (c := { c with
        writer := (c.writer.abandon a.seq a.reset).1
        tracker := { c.tracker with abandoned := rest } }) rfl
      simpa [Writer.abandonAll] using Path.cons (Write.stop a rest given) hrest

theorem round_path (w : Writer) (t : Tracker) :
    let round := Written.round clock gone w t
    let r := rested { c with tracker := { t with abandoned := [] } } round.writer round.actions
      (some round.standing)
    Path (Write clock gone) { c with writer := w, tracker := t } (ofActions r.actions) r.value := by
  have hstop := stop_path clock gone (c := { c with writer := w, tracker := t }) t.abandoned rfl
  have hround := advance_path clock gone (c := { c with tracker := { t with abandoned := [] } })
    (w.abandonAll t.abandoned).1 rfl
  simpa [Written.round, Writer.Round.after] using hstop.trans hround

theorem written_path (c : Traffic) :
    let done := Written.of clock gone c.writer c.tracker
    Path (Write clock gone) c (ofActions done.actions)
      { c with writer := done.value.writer, tracker := done.value.tracker } := by
  obtain ⟨dispatched, ceiling, w, t⟩ := c
  induction w, t using Written.of_induction clock gone with
  | failed w t seq fault hs ih =>
      have hround := round_path clock gone (c := ⟨dispatched, ceiling, w, t⟩) w t
      rw [Written.of_failed hs]
      simp only [hs, rested_some, Standing.report] at hround
      simpa using hround.trans (ih _)
  | canceled w t seq hs ih =>
      have hround := round_path clock gone (c := ⟨dispatched, ceiling, w, t⟩) w t
      rw [Written.of_canceled hs]
      simp only [hs, rested_some, Standing.report] at hround
      simpa using hround.trans (ih _)
  | crashed w t text hs =>
      have hround := round_path clock gone (c := ⟨dispatched, ceiling, w, t⟩) w t
      rw [Written.of_crashed hs]
      simpa [hs, Standing.report] using hround
  | written w t hs =>
      have hround := round_path clock gone (c := ⟨dispatched, ceiling, w, t⟩) w t
      rw [Written.of_written hs]
      rcases hs with hs | hs <;> simpa [hs, Standing.report] using hround

theorem timerLoop_path (timer : Timer) (clock : Clock) (v : TimerLoop) (c : Traffic) :
    let kept := v.run timer clock
    Path Move { c with tracker := v.tracker } (ofActions kept.actions)
      { c with tracker := kept.value.tracker } := by
  induction v using TimerLoop.run.induct timer clock with
  | case1 v later hcheck =>
      rw [TimerLoop.run_quiet hcheck]
      exact .refl _
  | case2 v text hcheck =>
      rw [TimerLoop.run_broken hcheck]
      exact .refl _
  | case3 v deadline hcheck expired ih =>
      have hdue := Move.expire (c := { c with tracker := v.tracker })
        (max (clock.reading v.readings) deadline)
      rw [TimerLoop.run_due hcheck]
      simpa [track, expired, TimerLoop.expire, TimerLoop.consult] using Path.cons hdue ih

end Traffic

end HttpSession
