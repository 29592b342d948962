import HttpSession.Proofs.Http1.RoundTrip
import HttpSession.Writer

namespace HttpSession

open Http1

def written (actions : List Action) : Octets :=
  actions.flatMap fun
    | .call (.write octets true) => octets
    | _ => []

@[simp] theorem written_nil : written [] = [] := rfl

@[simp] theorem written_append (xs ys : List Action) : written (xs ++ ys) = written xs ++ written ys :=
  List.flatMap_append

@[simp] theorem Emission.written_actions (sent : Emission) (seq : Nat) (piece : Piece) :
    written (sent.actions seq piece) = written (sent.calls.map .call) := by
  simp [Emission.actions, written]

namespace Http1

theorem written_writeAll {wire : Wire} {writes : List Octets} (h : (writeAll wire writes).2.2 = none) :
    written ((writeAll wire writes).2.1.map .call) = writes.flatten := by
  induction writes generalizing wire with
  | nil => rfl
  | cons octets rest ih =>
      unfold writeAll at h ⊢
      split at h
      · simp at h
      · rw [List.flatten_cons, ← ih h]
        rfl

theorem dataWrites_last (framing : Framing) (octets : Octets) :
    (dataWrites framing octets true).flatten
      = (dataWrites framing octets false).flatten ++ carried framing [] := by
  cases framing <;> simp [dataWrites, carried]

end Http1

namespace Transfer

variable {framing : Framing} {octets : Octets} {seq : Nat} {piece : Piece} {writes : List Octets}
  {wire : Wire}

/-- Of these octets, what a transfer has not written is left in the body. -/
structure Carries (framing : Framing) (octets : Octets) (t : Transfer) : Prop where
  encoder : ∃ wire, t.encoder = .http1 framing wire
  waiting : ∀ body, t.stage = .waiting body →
    written t.actions ++ carried framing body.frames = octets
  done : t.stage = .done → written t.actions = octets

theorem giveUp_carries (framing : Framing) (wire : Wire) (octets : Octets) (seq : Nat) (fault : Fault)
    (actions : List Action) :
    ((giveUp (.http1 framing wire) seq fault).after actions).Carries framing octets :=
  ⟨⟨wire.shutdown, rfl⟩, fun _ h => Stage.noConfusion h, fun h => Stage.noConfusion h⟩

theorem send_carries
    (put : (Encoder.http1 framing wire).put seq piece = Encoder.ofWrites framing (writeAll wire writes))
    {next : Encoder → Transfer} (hnext : ∀ wire, (next (.http1 framing wire)).Carries framing octets) :
    (send (.http1 framing wire) seq piece next).Carries framing (writes.flatten ++ octets) := by
  unfold send
  dsimp only
  rw [put]
  cases hf : (writeAll wire writes).2.2 with
  | some fault =>
      simp only [Encoder.ofWrites, hf]
      exact giveUp_carries _ _ _ _ _ _
  | none =>
      have hwritten := written_writeAll hf
      have hrest := hnext (writeAll wire writes).1
      simp only [Encoder.ofWrites, hf, after]
      refine ⟨hrest.encoder, fun body hb => ?_, fun hd => ?_⟩
      · rw [← hrest.waiting body hb]
        simp [hwritten]
      · rw [← hrest.done hd]
        simp [hwritten]

theorem sendLast_carries
    (put : ∀ wire, (Encoder.http1 framing wire).put seq piece
      = Encoder.ofWrites framing (writeAll wire writes)) :
    (sendLast (.http1 framing wire) seq piece).Carries framing writes.flatten := by
  have hdone (wire : Wire) : (⟨.http1 framing wire, [], .done⟩ : Transfer).Carries framing [] :=
    ⟨⟨wire, rfl⟩, fun _ h => Stage.noConfusion h, fun _ => rfl⟩
  have hsent : (sendLast (.http1 framing wire) seq piece).Carries framing (writes.flatten ++ []) :=
    send_carries (put wire) hdone
  rwa [List.append_nil] at hsent

theorem run_carries (framing : Framing) (wire : Wire) (seq : Nat) (body : Body) (frames : List Frame) :
    (run seq body (.http1 framing wire) frames).Carries framing (carried framing frames) := by
  induction frames generalizing wire with
  | nil =>
      unfold run
      split
      · exact sendLast_carries fun _ => rfl
      · exact ⟨⟨wire, rfl⟩, fun b h => by cases h; rfl, fun h => Stage.noConfusion h⟩
  | cons frame rest ih =>
      cases frame with
      | data octets =>
          unfold run
          split
          · rename_i hend
            obtain rfl : rest = [] := Body.frames_of_isEnd hend
            rw [carried, ← dataWrites_last]
            exact sendLast_carries fun _ => rfl
          · exact send_carries rfl ih
      | trailers fields => exact sendLast_carries fun _ => rfl
      | failure cause => exact giveUp_carries framing wire _ seq _ []
      | crash text =>
          exact ⟨⟨wire, rfl⟩, fun _ h => Stage.noConfusion h, fun h => Stage.noConfusion h⟩
      | pending => exact ⟨⟨wire, rfl⟩, fun b h => by cases h; rfl, fun h => Stage.noConfusion h⟩

end Transfer

theorem InFlight.poll_carries (f : InFlight) (clock : Clock) (framing : Framing) (wire : Wire) :
    (f.poll clock (.http1 framing wire)).Carries framing (carried framing f.body.frames) := by
  unfold poll
  split
  · exact Transfer.giveUp_carries framing wire _ f.seq _ []
  · exact Transfer.run_carries framing wire f.seq f.body f.body.frames

namespace Writer

variable {clock : Clock} {canceled : Nat → Bool} {w : Writer} {framing : Framing} {wire : Wire}
  {octets : Octets}

def pouring (framing : Framing) (active : List InFlight) : Octets :=
  active.flatMap fun f => carried framing f.body.frames

/-- A pipeline with these octets left to write: it writes one request at a time. -/
structure Owes (w : Writer) (octets : Octets) : Prop where
  single : w.multiplex = false
  one : w.active.length ≤ 1
  left : ∃ framing wire, w.encoder = .http1 framing wire
    ∧ octets = pouring framing w.active ++ w.queue.flatMap Upload.octets

def Pours (octets : Octets) (actions : List Action) (w : Writer) : Prop :=
  ∃ left, w.Owes left ∧ written actions ++ left = octets

theorem pass_single {active : List InFlight} (one : active.length ≤ 1)
    (h : (pass clock (.http1 framing wire) active).stop = none) :
    ∃ wire', (pass clock (.http1 framing wire) active).encoder = .http1 framing wire'
      ∧ written (pass clock (.http1 framing wire) active).actions
          ++ pouring framing (pass clock (.http1 framing wire) active).left
        = pouring framing active := by
  cases active with
  | nil => exact ⟨wire, rfl, rfl⟩
  | cons f rest =>
      obtain rfl : rest = [] := List.eq_nil_of_length_eq_zero (by simpa using one)
      have hf := f.poll_carries clock framing wire
      obtain ⟨wire', hencoder⟩ := hf.encoder
      cases hs : (f.poll clock (.http1 framing wire)).stage with
      | waiting body =>
          rw [pass_waiting rfl hs]
          have hbody := hf.waiting body hs
          exact ⟨wire', hencoder, by simpa [pass, Pass.after, Pass.keep, pouring] using hbody⟩
      | done =>
          rw [pass_done rfl hs]
          have hbody := hf.done hs
          exact ⟨wire', hencoder, by simpa [pass, Pass.after, Pass.drop, pouring] using hbody⟩
      | failed fault =>
          rw [pass_failed rfl hs] at h
          exact absurd h (Option.some_ne_none _)
      | crashed text body =>
          rw [pass_crashed rfl hs] at h
          exact absurd h (Option.some_ne_none _)

theorem pouring_started (w : Writer) (clock : Clock) (u : Upload) :
    pouring u.framing (w.started clock u) = u.entity := by
  unfold started Upload.entity
  split <;> simp [pouring]

theorem Owes.pass_pours (h : w.Owes octets)
    (hs : (pass clock w.encoder w.active).stop = none) :
    Pours octets (pass clock w.encoder w.active).actions
      { w with
        encoder := (pass clock w.encoder w.active).encoder
        active := (pass clock w.encoder w.active).left } := by
  obtain ⟨framing, wire, hencoder, rfl⟩ := h.left
  rw [hencoder] at hs ⊢
  obtain ⟨wire', hencoder', hwritten⟩ := pass_single h.one hs
  have hone := Nat.le_trans (pass_left_length_le clock (.http1 framing wire) w.active) h.one
  refine ⟨_, ⟨h.single, hone, framing, wire', hencoder', rfl⟩, ?_⟩
  rw [← List.append_assoc, hwritten]

theorem launchFrom_pours (single : w.multiplex = false) (one : w.active.length ≤ 1)
    (encoder : w.encoder = .http1 framing wire) (uploads : List Upload)
    (h : (launchFrom clock canceled w uploads).unwritten = none) :
    Pours (pouring framing w.active ++ uploads.flatMap Upload.octets)
      (launchFrom clock canceled w uploads).actions (launchFrom clock canceled w uploads).writer := by
  induction uploads generalizing w framing wire with
  | nil => exact ⟨_, ⟨single, one, framing, wire, encoder, rfl⟩, rfl⟩
  | cons u rest ih =>
      cases hm : w.mayStart with
      | false =>
          rw [launchFrom_full hm]
          exact ⟨_, ⟨single, one, framing, wire, encoder, rfl⟩, rfl⟩
      | true =>
          cases hc : canceled u.seq with
          | true =>
              rw [launchFrom_canceled hm hc] at h
              exact absurd h (Option.some_ne_none _)
          | false =>
              have hput : w.encoder.put u.seq (.headers u.head u.body.isEnd)
                  = Encoder.ofWrites u.framing (writeAll wire [headBlock u.head u.body.isEnd]) := by
                rw [encoder]
                rfl
              cases hf : (w.encoder.put u.seq (.headers u.head u.body.isEnd)).fault with
              | some fault =>
                  rw [launchFrom_failed hm hc rfl hf] at h
                  exact absurd h (Option.some_ne_none _)
              | none =>
                  have hempty : w.active = [] := by simpa [mayStart, single] using hm
                  have hone : (w.active ++ w.started clock u).length ≤ 1 := by
                    simpa [hempty] using w.started_length_le clock u
                  rw [launchFrom_sent hm hc rfl hf] at h ⊢
                  obtain ⟨left, howes, hwritten⟩ := ih (w := { w with
                    encoder := (w.encoder.put u.seq (.headers u.head u.body.isEnd)).encoder
                    active := w.active ++ w.started clock u }) single hone (by rw [hput]; rfl) h
                  refine ⟨left, howes, ?_⟩
                  have hhead : written ((w.encoder.put u.seq (.headers u.head u.body.isEnd)).calls.map
                      .call) = headBlock u.head u.body.isEnd := by
                    rw [hput] at hf ⊢
                    exact (written_writeAll hf).trans (List.append_nil _)
                  rw [hempty, List.nil_append, pouring_started] at hwritten
                  simp only [Launch.after, written_append, Emission.written_actions, hhead,
                    List.append_assoc, hempty, List.nil_append, hwritten]
                  simp [pouring, Upload.octets]

theorem launch_pours (h : w.Owes octets) (hu : (w.launch clock canceled).unwritten = none) :
    Pours octets (w.launch clock canceled).actions (w.launch clock canceled).writer := by
  obtain ⟨framing, wire, hencoder, rfl⟩ := h.left
  exact launchFrom_pours h.single h.one hencoder w.queue hu

theorem advance_pours
    (h : (advance clock canceled w).standing = .empty ∨ (advance clock canceled w).standing = .pending)
    (octets : Octets) (howes : w.Owes octets) :
    Pours octets (advance clock canceled w).actions (advance clock canceled w).writer := by
  revert octets
  induction w using advance.induct clock canceled with
  | case1 w l v hu =>
      rw [advance_unwritten rfl hu] at h
      simp at h
  | case2 w l hu hn =>
      intro octets howes
      rw [advance_empty rfl hu hn]
      exact launch_pours howes hu
  | case3 w l hu hn p standing hs =>
      rw [advance_stopped rfl hu hn rfl hs] at h
      exact absurd h (not_or.2 (pass_stop hs))
  | case4 w l hu hn p rest hs hf ih =>
      intro octets howes
      rw [advance_again rfl hu hn rfl hs hf] at h ⊢
      obtain ⟨left, hleft, hlaunched⟩ := launch_pours howes hu
      obtain ⟨behind, hbehind, hpassed⟩ := hleft.pass_pours hs
      obtain ⟨last, hlast, hmore⟩ := ih h behind hbehind
      refine ⟨last, hlast, ?_⟩
      rw [← hlaunched, ← hpassed, ← hmore]
      simp [Round.after]
      rfl
  | case5 w l hu hn p hs hf =>
      intro octets howes
      rw [advance_pending rfl hu hn rfl hs hf] at h ⊢
      obtain ⟨left, hleft, hlaunched⟩ := launch_pours howes hu
      obtain ⟨behind, hbehind, hpassed⟩ := hleft.pass_pours hs
      refine ⟨behind, hbehind, ?_⟩
      rw [← hlaunched, ← hpassed]
      simp

inductive Writes (w : Writer) : List Upload → List Action → Writer → Prop
  | start : Writes w [] [] w
  | enqueue {uploads : List Upload} {actions : List Action} {v : Writer} (u : Upload)
      (before : Writes w uploads actions v) : Writes w (uploads ++ [u]) actions (v.enqueue u)
  | fire {uploads : List Upload} {actions : List Action} {v : Writer}
      (before : Writes w uploads actions v) : Writes w uploads actions v.fire
  | wire {uploads : List Upload} {actions : List Action} {v : Writer} (f : Wire → Wire)
      (before : Writes w uploads actions v) :
      Writes w uploads actions { v with encoder := v.encoder.onWire f }
  | advance {uploads : List Upload} {actions : List Action} {v : Writer} (clock : Clock)
      (canceled : Nat → Bool) (before : Writes w uploads actions v)
      (well : (v.advance clock canceled).standing = .empty
        ∨ (v.advance clock canceled).standing = .pending) :
      Writes w uploads (actions ++ (v.advance clock canceled).actions)
        (v.advance clock canceled).writer

theorem Writes.pours {timer : Timer} {uploads : List Upload} {actions : List Action}
    (h : Writes (new (.http1 framing wire) timer false) uploads actions w) :
    Pours (uploads.flatMap Upload.octets) actions w := by
  induction h with
  | start => exact ⟨[], ⟨rfl, Nat.zero_le 1, framing, wire, rfl, rfl⟩, rfl⟩
  | enqueue u before ih =>
      obtain ⟨left, howes, hwritten⟩ := ih
      obtain ⟨framing, wire, hencoder, rfl⟩ := howes.left
      refine ⟨_, ⟨howes.single, howes.one, framing, wire, hencoder, rfl⟩, ?_⟩
      rw [List.flatMap_append, ← hwritten]
      simp [Writer.enqueue]
  | fire before ih =>
      obtain ⟨left, howes, hwritten⟩ := ih
      obtain ⟨framing, wire, hencoder, rfl⟩ := howes.left
      refine ⟨_, ⟨howes.single, ?_, framing, wire, hencoder, rfl⟩, ?_⟩
      · exact Nat.le_trans (Nat.le_of_eq (List.length_map _)) howes.one
      · rw [← hwritten]
        simp [Writer.fire, pouring, List.flatMap_map]
  | wire f before ih =>
      obtain ⟨left, howes, hwritten⟩ := ih
      obtain ⟨framing, wire, hencoder, rfl⟩ := howes.left
      exact ⟨_, ⟨howes.single, howes.one, framing, f wire, by simp [hencoder, Encoder.onWire], rfl⟩,
        hwritten⟩
  | advance clock canceled before well ih =>
      obtain ⟨left, howes, hwritten⟩ := ih
      obtain ⟨behind, hbehind, hmore⟩ := advance_pours well left howes
      exact ⟨behind, hbehind, by rw [written_append, List.append_assoc, hmore, hwritten]⟩

/-- Requests that were all written to an HTTP/1.1 connection read back as they were meant. -/
theorem written_reads_back {wire : Wire} {timer : Timer} {uploads : List Upload} {actions : List Action}
    (h : Writes (new (.http1 .length wire) timer false) uploads actions w) (idle : w.isIdle = true)
    (plain : ∀ u ∈ uploads, u.IsPlain) :
    messages? (written actions) = some (uploads.map Upload.received) := by
  obtain ⟨left, howes, hwritten⟩ := h.pours
  obtain ⟨framing, wire', -, hleft⟩ := howes.left
  simp only [isIdle, Bool.and_eq_true, List.isEmpty_iff] at idle
  rw [idle.1, idle.2] at hleft
  rw [← Upload.reads_back_all plain, ← hwritten, hleft]
  simp [pouring]

def posted : List Upload :=
  [⟨1, ⟨ascii "POST", ⟨none, none, some (ascii "/s")⟩, .http11, ⟨[⟨Field.host, [ascii "h"]⟩]⟩⟩,
      ⟨0, [.data (ascii "some data"), .pending, .data [],
        .trailers ⟨[⟨ascii "x-sum", [ascii "1"]⟩]⟩], true, false⟩, none⟩,
    ⟨2, ⟨ascii "GET", ⟨none, some (ascii "h:80"), none⟩, .http11, .empty⟩, .empty 1, none⟩,
    ⟨3, ⟨ascii "PUT", ⟨none, none, some (ascii "/u")⟩, .http11,
        ⟨[⟨Field.host, [ascii "h"]⟩, ⟨Field.contentLength, [ascii "5"]⟩]⟩⟩,
      .full 2 (ascii "known"), none⟩]

def round (w : Writer) : Round := w.advance ⟨0, 0, fun _ => false⟩ fun _ => false

theorem written_reads_back_posted :
    let first := (posted.foldl enqueue (new (.http1 .length .fresh) .present false)).round
    let second := first.writer.round
    first.standing = .pending ∧ messages? (written first.actions) ≠ some (posted.map Upload.received)
      ∧ messages? (written (first.actions ++ second.actions)) = some (posted.map Upload.received) := by
  intro first second
  have hfirst : first.standing = .pending := by decide +kernel
  have hsecond : second.standing = .empty := by decide +kernel
  have hqueued : Writes (new (.http1 .length .fresh) .present false) posted []
      (posted.foldl enqueue (new (.http1 .length .fresh) .present false)) :=
    .enqueue _ (.enqueue _ (.enqueue _ .start))
  refine ⟨hfirst, ?_, ?_⟩
  · decide +kernel
  · refine written_reads_back (.advance _ _ (.advance _ _ hqueued (.inr hfirst)) (.inl hsecond)) ?_ ?_
    · decide +kernel
    · decide +kernel

end Writer

end HttpSession
