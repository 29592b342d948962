import HttpSession.Proofs.Streams.Order

namespace HttpSession

open Happening (ofActions)

def Unwritten.seq : Unwritten → Nat
  | .canceled seq | .failed seq _ => seq

def Standing.named : Standing → List Nat
  | .unwritten u => [u.seq]
  | _ => []

inductive Stage.IsLeft (source : Nat) (frames : List Frame) : Stage → Prop
  | waiting {body : Body} (same : body.source = source) (left : body.frames ⊆ frames) :
      IsLeft source frames (.waiting body)
  | done : IsLeft source frames .done
  | failed (fault : Fault) : IsLeft source frames (.failed fault)
  | crashed {text : String} {body : Body} (broken : .crash text ∈ frames) (same : body.source = source)
      (left : body.frames ⊆ frames) : IsLeft source frames (.crashed text body)

theorem Stage.IsLeft.mono {source : Nat} {frames more : List Frame} {stage : Stage}
    (h : stage.IsLeft source frames) (hm : frames ⊆ more) : stage.IsLeft source more := by
  cases h with
  | waiting same left => exact .waiting same (List.Subset.trans left hm)
  | done => exact .done
  | failed fault => exact .failed fault
  | crashed broken same left => exact .crashed (hm broken) same (List.Subset.trans left hm)

namespace Transfer

variable {source : Nat} {frames : List Frame}

theorem send_left {encoder : Encoder} {seq : Nat} {piece : Piece} {next : Encoder → Transfer}
    (h : ∀ sent, (next sent).stage.IsLeft source frames) :
    (send encoder seq piece next).stage.IsLeft source frames := by
  unfold send
  dsimp only
  split
  · exact h _
  · exact .failed _

theorem sendLast_left (encoder : Encoder) (seq : Nat) (piece : Piece) :
    (sendLast encoder seq piece).stage.IsLeft source frames :=
  send_left fun _ => .done

theorem run_left (seq : Nat) (body : Body) (encoder : Encoder) (frames : List Frame) :
    (run seq body encoder frames).stage.IsLeft body.source frames := by
  induction frames generalizing encoder with
  | nil =>
      unfold run
      split
      · exact sendLast_left _ _ _
      · exact .waiting rfl (List.Subset.refl _)
  | cons frame rest ih =>
      have htail : rest ⊆ frame :: rest := List.subset_cons_self _ _
      cases frame with
      | pending => exact .waiting rfl htail
      | crash text => exact .crashed List.mem_cons_self rfl htail
      | failure cause => exact .failed _
      | trailers fields => exact sendLast_left _ _ _
      | data octets =>
          unfold run
          split
          · exact sendLast_left _ _ _
          · exact send_left fun sent => (ih sent).mono htail

end Transfer

theorem InFlight.poll_left (f : InFlight) (clock : Clock) (encoder : Encoder) :
    (f.poll clock encoder).stage.IsLeft f.body.source f.body.frames := by
  unfold poll
  split
  · exact .failed _
  · exact Transfer.run_left _ _ _ _

namespace Writer

/-- Beside what its owner asks of it, a writer is met by the frames that bodies get, by timers that
fire, and by what becomes of the connection that its encoder writes to. -/
inductive Operation where
  | enqueue (u : Upload)
  | abandon (seq : Nat) (reset : Bool)
  | advance (clock : Clock) (canceled : Nat → Bool)
  | feed (source : Nat) (frames : List Frame) (ended : Option Bool)
  | fire
  | tune (encoder : Encoder)

inductive Report where
  | action (a : Action)
  | returned (standing : Standing)
  deriving DecidableEq, Repr

def Round.reports (r : Round) : List Report :=
  r.actions.map .action ++ [.returned r.standing]

def operate (w : Writer) : Operation → Writer × List Report
  | .enqueue u => (w.enqueue u, [])
  | .abandon seq reset => ((w.abandon seq reset).1, (w.abandon seq reset).2.map .action)
  | .advance clock canceled =>
      ((w.advance clock canceled).writer, (w.advance clock canceled).reports)
  | .feed source frames ended => (w.feed source frames ended, [])
  | .fire => (w.fire, [])
  | .tune encoder => ({ w with encoder := encoder }, [])

def run (w : Writer) : List Operation → Writer × List Report
  | [] => (w, [])
  | o :: rest =>
      let first := w.operate o
      let more := first.1.run rest
      (more.1, first.2 ++ more.2)

def seqs (w : Writer) : List Nat := w.active.map InFlight.seq ++ w.queue.map Upload.seq

theorem started_seqs_eq (w : Writer) (clock : Clock) (u : Upload) :
    (w.started clock u).map InFlight.seq = if u.body.isEnd then [] else [u.seq] := by
  unfold started
  split <;> rfl

variable {clock : Clock} {canceled : Nat → Bool} {w : Writer}

def passed (w : Writer) (p : Pass) : Writer := { w with encoder := p.encoder, active := p.left }

theorem advance_along {R : Writer → Writer → Prop} (trans : ∀ {u v w}, R u v → R v w → R u w)
    (launch : ∀ w : Writer, R w (w.launch clock canceled).writer)
    (pass : ∀ w : Writer, R w (w.passed (pass clock w.encoder w.active))) (w : Writer) :
    R w (advance clock canceled w).writer := by
  induction w using advance.induct clock canceled with
  | case1 w l u hu =>
      rw [advance_unwritten rfl hu]
      exact launch w
  | case2 w l hu hn =>
      rw [advance_empty rfl hu hn]
      exact launch w
  | case3 w l hu hn p standing hs =>
      rw [advance_stopped rfl hu hn rfl hs]
      exact trans (launch w) (pass l.writer)
  | case4 w l hu hn p rest hs hf ih =>
      rw [advance_again rfl hu hn rfl hs hf]
      exact trans (trans (launch w) (pass l.writer)) ih
  | case5 w l hu hn p hs hf =>
      rw [advance_pending rfl hu hn rfl hs hf]
      exact trans (launch w) (pass l.writer)

structure IsSingle (w : Writer) : Prop where
  single : w.multiplex = false
  one : w.active.length ≤ 1

theorem launchFrom_isSingle (h : w.IsSingle) (queue : List Upload) :
    (launchFrom clock canceled w queue).writer.IsSingle := by
  induction queue generalizing w with
  | nil => exact ⟨h.single, h.one⟩
  | cons u rest ih =>
      cases hm : w.mayStart with
      | false =>
          rw [launchFrom_full hm]
          exact ⟨h.single, h.one⟩
      | true =>
          cases hc : canceled u.seq with
          | true =>
              rw [launchFrom_canceled hm hc]
              exact ⟨h.single, h.one⟩
          | false =>
              cases hf : (w.encoder.put u.seq (.headers u.head u.body.isEnd)).fault with
              | some fault =>
                  rw [launchFrom_failed hm hc rfl hf]
                  exact ⟨h.single, h.one⟩
              | none =>
                  rw [launchFrom_sent hm hc rfl hf]
                  -- What may start has nothing in flight before it.
                  have hfree : w.active = [] := by simpa [mayStart, h.single] using hm
                  refine ih ⟨h.single, ?_⟩
                  simpa [hfree] using w.started_length_le clock u

theorem passed_isSingle (h : w.IsSingle) (clock : Clock) : (w.passed (pass clock w.encoder w.active)).IsSingle :=
  ⟨h.single, Nat.le_trans (pass_left_length_le clock w.encoder w.active) h.one⟩

theorem advance_isSingle (h : w.IsSingle) : (advance clock canceled w).writer.IsSingle :=
  advance_along (R := fun v w => v.IsSingle → w.IsSingle) (fun hv hw h => hw (hv h))
    (fun w h => launchFrom_isSingle h w.queue) (fun _ h => passed_isSingle h clock) w h

theorem abandon_isSingle (h : w.IsSingle) (seq : Nat) (reset : Bool) : (w.abandon seq reset).1.IsSingle := by
  unfold abandon
  split
  · exact ⟨h.single, h.one⟩
  · dsimp only
    split <;> exact ⟨h.single, Nat.le_trans List.length_eraseP_le h.one⟩

theorem operate_isSingle (h : w.IsSingle) (o : Operation) : (w.operate o).1.IsSingle := by
  cases o with
  | enqueue u => exact ⟨h.single, h.one⟩
  | abandon seq reset => exact abandon_isSingle h seq reset
  | advance clock canceled => exact advance_isSingle h
  | feed | fire => exact ⟨h.single, by simpa [operate, Writer.feed, Writer.fire] using h.one⟩
  | tune encoder => exact ⟨h.single, h.one⟩

theorem run_isSingle (h : w.IsSingle) (operations : List Operation) : (w.run operations).1.IsSingle := by
  induction operations generalizing w with
  | nil => exact h
  | cons o rest ih => exact ih (operate_isSingle h o)

end Writer

end HttpSession
