import HttpSession.Proofs.Writer.Run

namespace HttpSession

variable {clock : Clock}

namespace Writer

variable {frame : Frame}

def framesOf (active : List InFlight) (queue : List Upload) : List Frame :=
  active.flatMap (·.body.frames) ++ queue.flatMap (·.body.frames)

def frames (w : Writer) : List Frame := framesOf w.active w.queue

theorem mem_framesOf {active : List InFlight} {queue : List Upload} :
    frame ∈ framesOf active queue
      ↔ (∃ f ∈ active, frame ∈ f.body.frames) ∨ ∃ u ∈ queue, frame ∈ u.body.frames := by
  simp [framesOf]

theorem framesOf_mono {active more : List InFlight} {queue others : List Upload} (ha : active ⊆ more)
    (hq : queue ⊆ others) : framesOf active queue ⊆ framesOf more others := by
  intro frame h
  rw [mem_framesOf] at h ⊢
  exact h.imp (fun ⟨f, hf, hm⟩ => ⟨f, ha hf, hm⟩) fun ⟨u, hu, hm⟩ => ⟨u, hq hu, hm⟩

theorem launchFrom_frames (clock : Clock) (canceled : Nat → Bool) (w : Writer) (queue : List Upload) :
    (launchFrom clock canceled w queue).writer.frames ⊆ framesOf w.active queue := by
  induction queue generalizing w with
  | nil => exact List.Subset.refl _
  | cons u rest ih =>
      have hrest : framesOf w.active rest ⊆ framesOf w.active (u :: rest) :=
        framesOf_mono (List.Subset.refl _) (List.subset_cons_self _ _)
      cases hm : w.mayStart with
      | false =>
          rw [launchFrom_full hm]
          exact List.Subset.refl _
      | true =>
          cases hc : canceled u.seq with
          | true =>
              rw [launchFrom_canceled hm hc]
              exact hrest
          | false =>
              cases hf : (w.encoder.put u.seq (.headers u.head u.body.isEnd)).fault with
              | some fault =>
                  rw [launchFrom_failed hm hc rfl hf]
                  exact hrest
              | none =>
                  rw [launchFrom_sent hm hc rfl hf]
                  intro frame h
                  have hmem := ih _ h
                  simp only [mem_framesOf, List.mem_append, List.mem_cons] at hmem ⊢
                  rcases hmem with ⟨f, hf | hf, hm⟩ | ⟨v, hv, hm⟩
                  · exact .inl ⟨f, hf, hm⟩
                  · refine .inr ⟨u, .inl rfl, ?_⟩
                    unfold started at hf
                    split at hf
                    · simp at hf
                    · obtain rfl := List.mem_singleton.1 hf
                      exact hm
                  · exact .inr ⟨v, .inr hv, hm⟩

theorem framesOf_cons (f : InFlight) (active : List InFlight) (queue : List Upload) :
    framesOf (f :: active) queue = f.body.frames ++ framesOf active queue := by
  simp [framesOf]

theorem pass_frames (clock : Clock) (encoder : Encoder) (active : List InFlight) (queue : List Upload) :
    framesOf (pass clock encoder active).left queue ⊆ framesOf active queue
      ∧ ∀ text, (pass clock encoder active).stop = some (.crashed text) →
        .crash text ∈ framesOf active queue := by
  induction active generalizing encoder with
  | nil => exact ⟨List.Subset.refl _, by simp [pass]⟩
  | cons f rest ih =>
      have hrest : framesOf rest queue ⊆ framesOf (f :: rest) queue :=
        framesOf_mono (List.subset_cons_self _ _) (List.Subset.refl _)
      have hpoll := f.poll_left clock encoder
      generalize ht : f.poll clock encoder = t at hpoll
      obtain ⟨hframes, hbroken⟩ := ih t.encoder
      have hkept {body : Body} (hb : body.frames ⊆ f.body.frames) {left : List InFlight}
          (hl : framesOf left queue ⊆ framesOf rest queue) :
          framesOf ({ f with body := body } :: left) queue ⊆ framesOf (f :: rest) queue := by
        rw [framesOf_cons, framesOf_cons]
        exact List.append_subset.2 ⟨List.subset_append_of_subset_left _ hb,
          List.subset_append_of_subset_right _ hl⟩
      cases hs : t.stage with
      | waiting body =>
          rw [hs] at hpoll
          cases hpoll with
          | waiting _ hleft =>
              rw [pass_waiting ht hs]
              exact ⟨hkept hleft hframes, fun text h => hrest (hbroken text h)⟩
      | done =>
          rw [pass_done ht hs]
          exact ⟨List.Subset.trans hframes hrest, fun text h => hrest (hbroken text h)⟩
      | failed fault =>
          rw [pass_failed ht hs]
          exact ⟨hrest, by simp⟩
      | crashed text body =>
          rw [hs] at hpoll
          cases hpoll with
          | crashed broken _ hleft =>
              rw [pass_crashed ht hs, framesOf_cons f]
              refine ⟨framesOf_cons f rest queue ▸ hkept hleft (List.Subset.refl _), fun text h => ?_⟩
              obtain rfl : _ = text := by simpa using h
              exact List.mem_append_left _ broken

theorem abandon_frames (w : Writer) (seq : Nat) (reset : Bool) :
    (w.abandon seq reset).1.frames ⊆ w.frames := by
  unfold abandon
  split
  · exact framesOf_mono (List.Subset.refl _) List.eraseP_subset
  · dsimp only
    split <;> exact framesOf_mono List.eraseP_subset (List.Subset.refl _)

theorem abandonAll_frames (w : Writer) (abandoned : List Abandoned) :
    (w.abandonAll abandoned).1.frames ⊆ w.frames := by
  induction abandoned generalizing w with
  | nil => exact List.Subset.refl _
  | cons a rest ih => exact List.Subset.trans (ih _) (w.abandon_frames a.seq a.reset)

theorem launch_frames (clock : Clock) (canceled : Nat → Bool) (w : Writer) :
    (w.launch clock canceled).writer.frames ⊆ w.frames :=
  launchFrom_frames clock canceled w w.queue

theorem passed_frames (clock : Clock) (w : Writer) :
    (w.passed (pass clock w.encoder w.active)).frames ⊆ w.frames :=
  (pass_frames clock w.encoder w.active w.queue).1

theorem advance_frames (clock : Clock) (canceled : Nat → Bool) (w : Writer) :
    (advance clock canceled w).writer.frames ⊆ w.frames :=
  advance_along (R := fun v w => w.frames ⊆ v.frames) (fun hv hw => List.Subset.trans hw hv)
    (launch_frames clock canceled) (passed_frames clock) w

theorem broken_of_advance {canceled : Nat → Bool} {w : Writer} {text : String}
    (h : (advance clock canceled w).standing = .crashed text) : .crash text ∈ w.frames := by
  induction w using advance.induct clock canceled with
  | case1 w l u hu => simp [advance_unwritten rfl hu] at h
  | case2 w l hu hn => simp [advance_empty rfl hu hn] at h
  | case3 w l hu hn p standing hs =>
      obtain rfl : standing = .crashed text := by simpa [advance_stopped rfl hu hn rfl hs] using h
      exact launch_frames clock canceled w ((pass_frames clock l.writer.encoder _ _).2 text hs)
  | case4 w l hu hn p rest hs hf ih =>
      rw [advance_again rfl hu hn rfl hs hf] at h
      exact launch_frames clock canceled w (passed_frames clock l.writer (ih h))
  | case5 w l hu hn p hs hf => simp [advance_pending rfl hu hn rfl hs hf] at h

end Writer

namespace Written

variable {gone : Nat → Bool}

theorem round_frames (clock : Clock) (gone : Nat → Bool) (w : Writer) (t : Tracker) :
    (round clock gone w t).writer.frames ⊆ w.frames :=
  List.Subset.trans (Writer.advance_frames clock _ _) (w.abandonAll_frames t.abandoned)

theorem broken_of_crash {w : Writer} {t : Tracker} {text : String}
    (h : (Written.of clock gone w t).value.crash = some text) : .crash text ∈ w.frames := by
  induction w, t using Written.of_induction clock gone with
  | failed w t seq fault hs ih =>
      rw [of_failed hs] at h
      exact round_frames clock gone w t (ih _ h)
  | canceled w t seq hs ih =>
      rw [of_canceled hs] at h
      exact round_frames clock gone w t (ih _ h)
  | crashed w t found hs =>
      obtain rfl : found = text := by simpa [of_crashed hs] using h
      exact w.abandonAll_frames t.abandoned (Writer.broken_of_advance hs)
  | written w t hs => simp [of_written hs] at h

end Written

theorem Session.broken_of_write {s : Session} {gone : Nat → Bool} {text : String}
    (h : (s.write clock gone).value.2 = some text) : ∃ w, s.writer? = some w ∧ .crash text ∈ w.frames := by
  unfold Session.write at h
  split at h
  · rename_i w t hphase
    refine ⟨w, by simp [writer?, hphase], Written.broken_of_crash (by simpa using h)⟩
  · simp at h

end HttpSession
