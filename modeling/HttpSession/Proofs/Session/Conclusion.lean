import HttpSession.Proofs.Session.Steps
import HttpSession.Proofs.Session.Turn

namespace HttpSession

namespace Turn

variable {m : Moment} {v : Turn} {first r : Traced Turn}

def Reaches (m : Moment) (v : Turn) (r : Traced Turn) : Prop := ∃ n, passed (fun _ => m) v n = some r

namespace Reaches

theorem refl (m : Moment) (v : Turn) : Reaches m v (pure v) := ⟨0, rfl⟩

theorem head (h : step? m v = some first) (hr : Reaches m first.value r) :
    Reaches m v ⟨r.value, first.actions ++ r.actions⟩ := by
  obtain ⟨n, hn⟩ := hr
  exact ⟨n + 1, passed_succ h hn⟩

theorem single (h : step? m v = some first) : Reaches m v first := by
  simpa using head h (refl m first.value)

theorem trans (h : Reaches m v first) (hr : Reaches m first.value r) :
    Reaches m v ⟨r.value, first.actions ++ r.actions⟩ := by
  obtain ⟨n, hn⟩ := h
  induction n generalizing v first with
  | zero =>
      obtain rfl := Option.some.inj hn
      exact hr
  | succ n ih =>
      obtain ⟨next, rest, hnext, hrest, rfl⟩ := passed_succ_inv hn
      have hbehind : Reaches m next.value ⟨r.value, rest.actions ++ r.actions⟩ := ih hr hrest
      simpa using head hnext hbehind

end Reaches

variable (clock : Clock) (gone : Nat → Bool) {finished : Bool} {f : InFlight} {left : List InFlight}

def landed (v : Turn) (finished : Bool) (f : InFlight) (left : List InFlight) (t : Transfer) : Traced Turn :=
  let aside := (v.encode t.encoder).goTo (.passing finished left)
  match t.stage with
  | .waiting body => ⟨aside.fly (v.writer.active ++ [{ f with body := body }]), t.actions⟩
  | .done => ⟨aside.goTo (.passing true left), t.actions⟩
  | .failed fault =>
      let back := aside.report (.failed f.seq fault)
      ⟨back.value, t.actions ++ back.actions⟩
  | .crashed text body =>
      ⟨(aside.fly (v.writer.active ++ { f with body := body } :: left)).goTo (.ended (some text)), t.actions⟩

theorem landed_after (v : Turn) (finished : Bool) (f : InFlight) (left : List InFlight) (actions : List Action)
    (t : Transfer) :
    v.landed finished f left (t.after actions)
      = ⟨(v.landed finished f left t).value, actions ++ (v.landed finished f left t).actions⟩ := by
  unfold landed Transfer.after
  cases t.stage <;> simp

theorem landed_onward (v : Turn) (finished : Bool) (f : InFlight) (left : List InFlight) (encoder : Encoder)
    (body : Body) (place : Place) (t : Transfer) :
    ((v.encode encoder).goTo place).landed finished { f with body := body } left t = v.landed finished f left t := by
  unfold landed
  cases t.stage <;> rfl

theorem hand_sent {seq : Nat} {piece : Piece} {next : Turn → Turn} {sent : Emission}
    (put : m.put v.writer.encoder seq piece = sent) (hf : sent.fault = none) :
    hand m v seq piece next = ⟨next (v.encode sent.encoder), sent.actions seq piece⟩ := by
  subst put
  simp [hand, bind, Traced.perform, hf, pure]

theorem hand_failed {seq : Nat} {piece : Piece} {next : Turn → Turn} {sent : Emission}
    (put : m.put v.writer.encoder seq piece = sent) {fault : Fault} (hf : sent.fault = some fault) :
    hand m v seq piece next
      = ⟨(giveUp m (v.encode sent.encoder) seq fault).value,
        sent.actions seq piece ++ (giveUp m (v.encode sent.encoder) seq fault).actions⟩ := by
  subst put
  simp [hand, bind, Traced.perform, hf]

theorem hand_reaches {piece : Piece} {next : Turn → Turn} {rest : Encoder → Transfer}
    (hstep : step? (.plain clock gone) v
      = some (hand (.plain clock gone) (v.goTo (.passing finished left)) f.seq piece next))
    (hnext : ∀ encoder, Reaches (.plain clock gone) (next ((v.goTo (.passing finished left)).encode encoder))
      (v.landed finished f left (rest encoder))) :
    Reaches (.plain clock gone) v (v.landed finished f left (Transfer.send v.writer.encoder f.seq piece rest)) := by
  cases hf : (v.writer.encoder.put f.seq piece).fault with
  | none =>
      rw [hand_sent rfl hf] at hstep
      simp only [Transfer.send, hf, landed_after]
      exact .head hstep (hnext _)
  | some fault =>
      rw [hand_failed rfl hf] at hstep
      simp only [Transfer.send, hf, landed_after]
      exact .single hstep

theorem sendLast_reaches {piece : Piece}
    (hstep : step? (.plain clock gone) v
      = some (hand (.plain clock gone) (v.goTo (.passing finished left)) f.seq piece (·.goTo (.passing true left)))) :
    Reaches (.plain clock gone) v (v.landed finished f left (Transfer.sendLast v.writer.encoder f.seq piece)) :=
  hand_reaches clock gone hstep fun _ => .refl _ _

theorem run_reaches (hp : v.place = .sending finished f left) :
    Reaches (.plain clock gone) v
      (v.landed finished f left (Transfer.run f.seq f.body v.writer.encoder f.body.frames)) := by
  have hstep := step?_sending (m := .plain clock gone) hp
  unfold send at hstep
  induction hframes : f.body.frames generalizing v f with
  | nil =>
      have hbody : ({ f.body with frames := [] } : Body) = f.body := by rw [← hframes]
      simp only [hframes] at hstep
      rw [Transfer.run, hbody]
      split at hstep
      · rw [if_pos ‹_›]
        exact sendLast_reaches clock gone hstep
      · rw [if_neg ‹_›]
        exact .single hstep
  | cons frame rest ih =>
      simp only [hframes] at hstep
      cases frame with
      | pending | crash text | failure cause => exact .single hstep
      | trailers fields => exact sendLast_reaches clock gone hstep
      | data octets =>
          unfold Transfer.run
          split
          · rename_i hend
            simp only [Moment.plain, hend, if_true] at hstep
            exact sendLast_reaches clock gone hstep
          · rename_i hend
            simp only [Moment.plain, hend] at hstep
            refine hand_reaches clock gone hstep fun encoder => ?_
            -- What was sent is gone from the body that is asked next, but not from the one that the poll began with.
            have hrest := ih (v := (v.encode encoder).goTo
                (.sending finished { f with body := { f.body with frames := rest } } left))
              (f := { f with body := { f.body with frames := rest } }) rfl rfl rfl
            rw [landed_onward, Transfer.run_body] at hrest
            exact hrest

theorem poll_reaches (hp : v.place = .passing finished (f :: left)) :
    Reaches (.plain clock gone) v (v.landed finished f left (f.poll clock v.writer.encoder)) := by
  have hstep := step?_passing (m := .plain clock gone) hp
  rw [pass] at hstep
  unfold InFlight.poll
  split at hstep
  · rw [if_pos ‹_›]
    exact .single hstep
  · rw [if_neg ‹_›]
    exact .head hstep (run_reaches clock gone (f := f) (v := v.goTo (.sending finished f left)) rfl)

def concluded (v : Turn) : Standing → Traced Turn
  | .unwritten u => v.report u
  | .crashed text => pure (v.goTo (.ended (some text)))
  | .empty | .pending => pure (v.goTo (.collecting true))

def swept (v : Turn) (finished : Bool) (p : Writer.Pass) : Traced Turn :=
  let v := (v.encode p.encoder).fly (v.writer.active ++ p.left)
  match p.stop with
  | none => ⟨v.goTo (.passing (finished || p.finished) []), p.actions⟩
  | some standing =>
      let back := (v.goTo .launching).concluded standing
      ⟨back.value, p.actions ++ back.actions⟩

theorem swept_keep (v : Turn) (finished : Bool) (f : InFlight) (actions : List Action)
    (poll : Writer.BodyPoll) (encoder : Encoder) (place : Place) (p : Writer.Pass) :
    v.swept finished ((p.keep f).after actions poll)
      = let rest := (((v.encode encoder).goTo place).fly (v.writer.active ++ [f])).swept finished p
        ⟨rest.value, actions ++ rest.actions⟩ := by
  unfold swept
  cases hs : p.stop <;> simp [Writer.Pass.after, Writer.Pass.keep, hs, encode, fly, goTo]

theorem swept_drop (v : Turn) (finished : Bool) (actions : List Action) (poll : Writer.BodyPoll)
    (encoder : Encoder) (place : Place) (p : Writer.Pass) :
    v.swept finished (p.drop.after actions poll)
      = let rest := ((v.encode encoder).goTo place).swept true p
        ⟨rest.value, actions ++ rest.actions⟩ := by
  unfold swept
  cases hs : p.stop <;> simp [Writer.Pass.after, Writer.Pass.drop, hs, encode, fly, goTo]

theorem pass_reaches {active : List InFlight} (hp : v.place = .passing finished active) :
    Reaches (.plain clock gone) v (v.swept finished (Writer.pass clock v.writer.encoder active)) := by
  induction active generalizing v finished with
  | nil =>
      have hv : ((v.encode v.writer.encoder).fly (v.writer.active ++ [])).goTo (.passing (finished || false) [])
          = v := by
        rw [List.append_nil, Bool.or_false, ← hp]
        rfl
      simp only [Writer.pass, swept, hv]
      exact .refl _ v
  | cons f left ih =>
      have hpoll := poll_reaches clock gone hp
      generalize ht : f.poll clock v.writer.encoder = t at hpoll
      cases hs : t.stage with
      | waiting body =>
          rw [Writer.pass_waiting ht hs, swept_keep]
          simp only [landed, hs] at hpoll
          exact hpoll.trans (ih rfl)
      | done =>
          rw [Writer.pass_done ht hs, swept_drop]
          simp only [landed, hs] at hpoll
          exact hpoll.trans (ih rfl)
      | failed fault =>
          rw [Writer.pass_failed ht hs]
          simpa [landed, hs, swept, concluded, report, goTo, fly, encode, Place.held, Writer.Pass.after]
            using hpoll
      | crashed text body =>
          rw [Writer.pass_crashed ht hs]
          simpa [landed, hs, swept, concluded, goTo, fly, encode, Writer.Pass.after] using hpoll

def withWriter (v : Turn) (w : Writer) : Turn := { v with writer := w }

def launched (v : Turn) (l : Writer.Launch) : Traced Turn :=
  let v := v.withWriter l.writer
  match l.unwritten with
  | none => ⟨v, l.actions⟩
  | some u => ⟨(v.report u).value, l.actions ++ (v.report u).actions⟩

theorem launched_after (v : Turn) (actions : List Action) (l : Writer.Launch) (w : Writer) :
    v.launched (l.after actions)
      = ⟨((v.withWriter w).launched l).value, actions ++ ((v.withWriter w).launched l).actions⟩ := by
  unfold launched Writer.Launch.after
  cases l.unwritten <;> simp [withWriter]

theorem launch_of_mayStart {u : Upload} {rest : List Upload} (hm : v.writer.mayStart = true) :
    (v.queue (u :: rest)).launch (.plain clock gone)
      = if v.tracker.isCanceled gone u.seq then (v.queue rest).report (.canceled u.seq)
        else hand (.plain clock gone) (v.queue rest) u.seq (.headers u.head u.body.isEnd) fun w =>
          w.fly (w.writer.active ++ w.writer.started clock u) := by
  have hfree : (v.queue (u :: rest)).writer.mayStart = true := hm
  simp only [launch, Turn.queue] at hfree ⊢
  simp only [hfree]
  rfl

theorem launchFrom_reaches (hp : v.place = .launching) (queue : List Upload) :
    Reaches (.plain clock gone) (v.queue queue)
      (v.launched (Writer.launchFrom clock (v.tracker.isCanceled gone) v.writer queue)) := by
  induction queue generalizing v with
  | nil => exact .refl _ _
  | cons u rest ih =>
      have hstep := step?_launching (m := .plain clock gone) (v := v.queue (u :: rest)) hp
      cases hm : v.writer.mayStart with
      | false =>
          rw [Writer.launchFrom_full hm]
          exact .refl _ _
      | true =>
          rw [launch_of_mayStart clock gone hm] at hstep
          cases hc : v.tracker.isCanceled gone u.seq with
          | true =>
              rw [Writer.launchFrom_canceled hm hc]
              rw [if_pos hc] at hstep
              exact .single hstep
          | false =>
              rw [if_neg (by simp [hc])] at hstep
              cases hf : (v.writer.encoder.put u.seq (.headers u.head u.body.isEnd)).fault with
              | some fault =>
                  rw [Writer.launchFrom_failed hm hc rfl hf]
                  rw [hand_failed rfl hf] at hstep
                  simp only [launched, List.append_assoc]
                  exact .single hstep
              | none =>
                  rw [Writer.launchFrom_sent hm hc rfl hf]
                  rw [hand_sent rfl hf] at hstep
                  have hrest := ih
                    (v := (v.encode (v.writer.encoder.put u.seq (.headers u.head u.body.isEnd)).encoder).fly
                      (v.writer.active ++ v.writer.started clock u)) hp
                  rw [launched_after]
                  exact .head hstep hrest

theorem launch_of_rest (m : Moment) (h : v.writer.IsAtRest) : v.launch m = pure v.board := by
  unfold launch
  split
  · rfl
  · rename_i hq
    have hfull : v.writer.mayStart = false := h.resolve_left (by simp [hq])
    simp [hfull]

def advanced (v : Turn) (r : Writer.Round) : Traced Turn :=
  let back := (v.withWriter r.writer).concluded r.standing
  ⟨back.value, r.actions ++ back.actions⟩

section

variable {w : Writer} {l : Writer.Launch} {p : Writer.Pass}

theorem launch_reaches (hp : v.place = .launching) (launch : w.launch clock (v.tracker.isCanceled gone) = l) :
    Reaches (.plain clock gone) (v.withWriter w) (v.launched l) :=
  launch ▸ launchFrom_reaches clock gone (v := v.withWriter w) hp w.queue

theorem board_reaches (hp : v.place = .launching) (launch : w.launch clock (v.tracker.isCanceled gone) = l)
    (hu : l.unwritten = none) :
    Reaches (.plain clock gone) (v.withWriter w) ⟨(v.withWriter l.writer).board, l.actions⟩ := by
  have hrest : (v.withWriter l.writer).writer.IsAtRest := by
    subst launch
    exact Writer.launch_rest clock _ w hu
  have hstep : step? (.plain clock gone) (v.withWriter l.writer) = some (pure (v.withWriter l.writer).board) := by
    rw [← launch_of_rest (.plain clock gone) hrest]
    simp [step?, withWriter, hp]
  have hlaunch := launch_reaches clock gone hp launch
  simp only [launched, hu] at hlaunch
  simpa using hlaunch.trans (.single hstep)

theorem goTo_launching (hp : v.place = .launching) (w : Writer) :
    (v.withWriter w).goTo .launching = v.withWriter w := by
  rw [← hp]
  rfl

theorem sweep_reaches (hp : v.place = .launching) (launch : w.launch clock (v.tracker.isCanceled gone) = l)
    (hu : l.unwritten = none) (hn : ¬l.writer.active.isEmpty = true)
    (pass : Writer.pass clock l.writer.encoder l.writer.active = p) :
    let rest := v.withWriter { l.writer with encoder := p.encoder, active := p.left }
    (p.stop = none → Reaches (.plain clock gone) (v.withWriter w)
        ⟨rest.goTo (if p.finished then .launching else .collecting true), l.actions ++ p.actions⟩)
      ∧ ∀ standing, p.stop = some standing → Reaches (.plain clock gone) (v.withWriter w)
        ⟨(rest.concluded standing).value, l.actions ++ p.actions ++ (rest.concluded standing).actions⟩ := by
  intro rest
  have hboard := board_reaches clock gone hp launch hu
  have hnot : ¬(v.withWriter l.writer).writer.active.isEmpty = true := hn
  rw [board, if_neg hnot] at hboard
  have hswept := hboard.trans (pass_reaches clock gone rfl)
  have hpass : Writer.pass clock (v.withWriter l.writer).writer.encoder (v.withWriter l.writer).writer.active = p :=
    pass
  refine ⟨fun hs => ?_, fun standing hs => ?_⟩
  · simp only [goTo, fly, hpass, swept, hs] at hswept
    have hbehind := hswept.trans (.single rfl)
    simpa [pass, Turn.pass, goTo, encode, fly, withWriter, rest] using hbehind
  · simp only [goTo, fly, hpass, swept, hs] at hswept
    have hrest : rest.goTo .launching = rest := goTo_launching hp _
    rw [← hrest, List.append_assoc]
    exact hswept

theorem advance_reaches (hp : v.place = .launching) (w : Writer) :
    Reaches (.plain clock gone) (v.withWriter w)
      (v.advanced (Writer.advance clock (v.tracker.isCanceled gone) w)) := by
  induction w using Writer.advance.induct clock (v.tracker.isCanceled gone) with
  | case1 w l u hu =>
      have hlaunch := launch_reaches clock gone hp (rfl : _ = l)
      rw [Writer.advance_unwritten rfl hu]
      simp only [launched, hu] at hlaunch
      exact hlaunch
  | case2 w l hu hn =>
      have hboard := board_reaches clock gone hp (rfl : _ = l) hu
      have hnone : (v.withWriter l.writer).writer.active.isEmpty = true := hn
      rw [board, if_pos hnone] at hboard
      rw [Writer.advance_empty rfl hu hn]
      simpa [advanced, concluded] using hboard
  | case3 w l hu hn p standing hs =>
      obtain ⟨-, hstop⟩ := sweep_reaches clock gone hp (rfl : _ = l) hu hn (rfl : _ = p)
      rw [Writer.advance_stopped rfl hu hn rfl hs]
      exact hstop standing hs
  | case4 w l hu hn p rest hs hf ih =>
      obtain ⟨hsweep, -⟩ := sweep_reaches clock gone hp (rfl : _ = l) hu hn (rfl : _ = p)
      have hsweep := hsweep hs
      rw [if_pos hf, goTo_launching hp] at hsweep
      rw [Writer.advance_again rfl hu hn rfl hs hf]
      simpa [advanced, Writer.Round.after] using hsweep.trans ih
  | case5 w l hu hn p hs hf =>
      obtain ⟨hsweep, -⟩ := sweep_reaches clock gone hp (rfl : _ = l) hu hn (rfl : _ = p)
      have hsweep := hsweep hs
      rw [if_neg hf] at hsweep
      rw [Writer.advance_pending rfl hu hn rfl hs hf]
      simpa [advanced, concluded] using hsweep

end

variable {w : Writer} {t : Tracker} {stopped : List Abandoned}

theorem stop_reaches (last : Bool) (abandoned : List Abandoned) :
    Reaches m ⟨w, t, stopped, .stopping last abandoned⟩
      ⟨⟨(w.abandonAll abandoned).1, t, stopped ++ abandoned, .stopping last []⟩, (w.abandonAll abandoned).2⟩ := by
  induction abandoned generalizing w stopped with
  | nil =>
      rw [List.append_nil]
      exact .refl m _
  | cons a rest ih =>
      have htold := Reaches.head (m := m) (v := ⟨w, t, stopped, .stopping last (a :: rest)⟩) rfl ih
      simpa [Writer.abandonAll] using htold

theorem round_reaches (w : Writer) (t : Tracker) (stopped : List Abandoned) :
    let begun : Turn := ⟨w, { t with abandoned := [] }, stopped ++ t.abandoned, .launching⟩
    Reaches (.plain clock gone) ⟨w, t, stopped, .collecting false⟩ (begun.advanced (Written.round clock gone w t)) := by
  intro begun
  have hstop := Reaches.head (m := .plain clock gone) (v := ⟨w, t, stopped, .collecting false⟩) rfl
    (stop_reaches false t.abandoned)
  have hbegun := hstop.trans (.head rfl (advance_reaches clock gone (v := begun) rfl (w.abandonAll t.abandoned).1))
  simpa [advanced, Written.round, Writer.Round.after] using hbegun

theorem ended_reaches (hc : v.tracker.abandoned = []) :
    Reaches m (v.goTo (.collecting true)) (pure (v.goTo (.ended none))) := by
  have hv : ({ v with tracker := { v.tracker with abandoned := [] } } : Turn) = v := by rw [← hc]
  have hcollect : step? m (v.goTo (.collecting true)) = some (pure (v.goTo (.stopping true []))) := by
    change some (pure (goTo { v with tracker := { v.tracker with abandoned := [] } }
      (.stopping true v.tracker.abandoned))) = _
    rw [hv, hc]
  exact .head hcollect (.single rfl)

theorem report_behind (w : Writer) (t : Tracker) (stopped : List Abandoned) (u : Unwritten) :
    let left := (Standing.unwritten u).report t
    report ⟨w, t, stopped, .launching⟩ u = ⟨⟨w, left.value, stopped, .collecting false⟩, left.actions⟩ := by
  simp [report, goTo, fly, Place.held, bind, pure]

theorem written_reaches (w : Writer) (t : Tracker) (stopped : List Abandoned) :
    let done := Written.of clock gone w t
    ∃ told, Reaches (.plain clock gone) ⟨w, t, stopped, .collecting false⟩
      ⟨⟨done.value.writer, done.value.tracker, told, .ended done.value.crash⟩, done.actions⟩ := by
  induction w, t using Written.of_induction clock gone generalizing stopped with
  | failed w t seq fault hs ih =>
      have hround := round_reaches clock gone w t stopped
      simp only [advanced, hs, concluded, withWriter, report_behind, Standing.report] at hround
      obtain ⟨told, hrest⟩ := ih (Tracker.fail { t with abandoned := [] } seq fault).value (stopped ++ t.abandoned)
      refine ⟨told, ?_⟩
      rw [Written.of_failed hs]
      simpa using hround.trans hrest
  | canceled w t seq hs ih =>
      have hround := round_reaches clock gone w t stopped
      simp only [advanced, hs, concluded, withWriter, report_behind, Standing.report] at hround
      obtain ⟨told, hrest⟩ := ih (Tracker.forget { t with abandoned := [] } seq).value (stopped ++ t.abandoned)
      refine ⟨told, ?_⟩
      rw [Written.of_canceled hs]
      simpa using hround.trans hrest
  | crashed w t text hs =>
      have hround := round_reaches clock gone w t stopped
      simp only [advanced, hs, concluded, withWriter, goTo] at hround
      refine ⟨stopped ++ t.abandoned, ?_⟩
      rw [Written.of_crashed hs]
      simpa using hround
  | written w t hs =>
      have hround := round_reaches clock gone w t stopped
      have hended := ended_reaches (m := .plain clock gone)
        (v := ⟨(Written.round clock gone w t).writer, { t with abandoned := [] }, stopped ++ t.abandoned,
          .launching⟩) rfl
      refine ⟨stopped ++ t.abandoned, ?_⟩
      rw [Written.of_written hs]
      rcases hs with hs | hs
      all_goals
        simp only [advanced, hs, concluded, withWriter] at hround
        simpa [goTo] using hround.trans hended

end Turn

namespace Session

/-- Whatever a session has to write and whatever it meets at each step of it, its writing comes to an end, and
by then the writer was told of all that the tracker gave up. What a session does when it writes is such a turn. -/
theorem writing_ends (s : Session) :
    match s.phase with
    | .established w t =>
        (∀ moments : Nat → Moment, ∃ n r, Turn.Ends moments (.start w t) n r)
          ∧ ∀ clock gone, ∃ n r, Turn.Ends (fun _ => .plain clock gone) (.start w t) n r
            ∧ s.write clock gone
              = ⟨({ s with phase := .established r.value.writer r.value.tracker }, r.value.place.crash?),
                r.actions⟩
    | .negotiating | .closed => ∀ clock gone, s.write clock gone = pure (s, none) := by
  cases hphase : s.phase with
  | established w t =>
      refine ⟨fun moments => Turn.exists_ends moments (Turn.start_isClear w t), fun clock gone => ?_⟩
      obtain ⟨told, n, hn⟩ := Turn.written_reaches clock gone w t []
      refine ⟨n, _, Turn.ends_of_ended (Turn.start_isClear w t) hn rfl, ?_⟩
      simp [write, hphase, Place.crash?, bind, pure]
  | negotiating | closed => exact fun clock gone => by simp [write, hphase]

def brittle : Writer :=
  { Writer.new (.http1 .chunked .fresh) .present false with
    active := [⟨1, ⟨0, [.data (ascii "some"), .failure (.root (.text "lost"))], false, false⟩, none⟩]
    queue := [⟨2, Request.bare.head, .empty 1, none⟩, ⟨3, Request.bare.head, .empty 2, none⟩] }

def threeAwaited : Tracker :=
  (((Tracker.new .ordered).register 1 10 0 none).register 2 11 0 none).register 3 12 0 none

def adverse (k : Nat) : Moment :=
  { Moment.plain ⟨0, 0, fun _ => false⟩ (fun _ => false) with
    put := fun encoder seq piece =>
      if k % 2 = 0 then encoder.put seq piece else ⟨encoder, [], some Fault.closedSession⟩
    fill := fun body => { body with frames := [.data (ascii "more"), .data (ascii "more"), .pending] } }

theorem writing_ends_brittle :
    let clock : Clock := ⟨0, 0, fun _ => false⟩
    let s : Session := { blank 9 with phase := .established brittle threeAwaited }
    (∃ n r, Turn.Ends adverse (.start brittle threeAwaited) n r)
      ∧ (∃ n r, Turn.Ends (fun _ => .plain clock fun _ => false) (.start brittle threeAwaited) n r
        ∧ [⟨1, false⟩, ⟨2, false⟩, ⟨3, false⟩] <+: r.value.stopped
        ∧ (s.write clock fun _ => false).value.1.tracker?.map Tracker.abandoned = some [])
      ∧ (s.write clock fun _ => false).value.1.writer?.map Writer.isIdle = some true := by
  intro clock s
  obtain ⟨hends, hwrite⟩ := writing_ends s
  obtain ⟨n, r, hr, hs⟩ := hwrite clock fun _ => false
  refine ⟨hends adverse, ⟨n, r, hr, ?_, ?_⟩, by decide +kernel⟩
  · have hfailed : (Turn.passed (fun _ => .plain clock fun _ => false) (.start brittle threeAwaited) 6).map
        (fun mid => mid.value.stopped ++ mid.value.owed) = some [⟨1, false⟩, ⟨2, false⟩, ⟨3, false⟩] := by
      decide +kernel
    obtain ⟨mid, hmid, howed⟩ := Option.map_eq_some_iff.1 hfailed
    exact howed ▸ hr.told 6 mid hmid
  · rw [hs]
    exact congrArg some hr.collected

end Session

end HttpSession
