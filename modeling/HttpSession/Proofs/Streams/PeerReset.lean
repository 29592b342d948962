import HttpSession.Proofs.Session.Ending
import HttpSession.Proofs.Streams.Frames

namespace HttpSession

theorem mem_frames {h : List Happening} {call : Call} {stream : StreamId}
    (hc : call.stream? = some stream) : call ∈ frames h ↔ .action (.call call) ∈ h := by
  simp only [frames, List.mem_filterMap]
  constructor
  · rintro ⟨y, hy, hframe⟩
    unfold Happening.frame? at hframe
    split at hframe
    · rename_i other
      split at hframe
      · obtain rfl := Option.some.inj hframe
        exact hy
      · simp at hframe
    · simp at hframe
  · intro hmem
    exact ⟨_, hmem, by simp [Happening.frame?, hc]⟩

namespace Tracker

variable {t : Tracker} {seq : Nat}

theorem receive_of_unawaited (hb : t.binding = .byStream) (named : HasStream seq)
    (hout : seq ∉ t.seqs) (part : Part) :
    t.receive (some (streamOf seq)) part = accepted (pure t) := by
  simp [receive, route, hb, seqOf?_streamOf named, find?_eq_none.2 hout]

theorem receive_of_awaited (hb : t.binding = .byStream) (named : HasStream seq)
    (hsync : t.desynced = false) (hin : seq ∈ t.seqs) (part : Part) :
    ∃ p, p.seq = seq ∧ t.receive (some (streamOf seq)) part = t.receivePart p part := by
  obtain ⟨p, hp⟩ := Option.isSome_iff_exists.1 (find?_isSome.2 hin)
  refine ⟨p, (find?_eq_some hp).2, ?_⟩
  simp [receive, hsync, route, hb, seqOf?_streamOf named, hp]

end Tracker

namespace Traffic

variable {c : Traffic} {h : List Happening} {seq : Nat}

theorem Coherent.isDone_of_reset (hc : Coherent h c) (hb : c.tracker.binding = .byStream)
    (named : HasStream seq) (hin : seq ∈ c.tracker.seqs) (reason : Reason) :
    (c.receive (some (streamOf seq)) (.reset reason)).value.IsDone seq := by
  have hsync : c.tracker.desynced = false := by
    rw [Bool.eq_false_iff]
    intro hd
    simp [Tracker.seqs, hc.desynced hd] at hin
  obtain ⟨p, hseq, he⟩ := Tracker.receive_of_awaited hb named hsync hin (.reset reason)
  have ht : (c.receive (some (streamOf seq)) (.reset reason)).value.tracker
      = Tracker.erase { c.tracker with abandoned := c.tracker.abandoned ++ [⟨seq, false⟩] } seq := by
    simp [Traffic.receive, he, Tracker.receivePart, Tracker.accepted, Tracker.settle, hseq]
  refine ⟨⟨hc.seqs_le hin, ?_⟩, fun _ => ?_⟩
  · rw [ht]
    exact Tracker.erase_seqs _ seq
  · simp [ht, Tracker.erase]

theorem Reached.isDone_of_unawaited (hr : Reached h c) (hb : c.tracker.binding = .byStream)
    (named : HasStream seq) {x : Handed} (hx : x ∈ handed h) (hseq : x.seq = seq)
    (hout : seq ∉ c.tracker.seqs)
    (hf : seq ∈ c.flying → seq ∈ c.tracker.abandoned.map Abandoned.seq) (part : Part) :
    (c.receive (some (streamOf seq)) part).value.IsDone seq := by
  have hstreamed := hr.streamed hb
  have hle := (hstreamed.taken seq
    (List.mem_append_left _ (hseq ▸ hstreamed.order.opened x hx))).2
  have hsame : (c.receive (some (streamOf seq)) part).value = c := by
    simp [Traffic.receive, Tracker.receive_of_unawaited hb named hout, Tracker.accepted]
  rw [hsame]
  exact ⟨⟨hle, hout⟩, hf⟩

end Traffic

namespace Session

open Traffic (Reached Path Move Coherent)

variable {s : Session} {stream : StreamId} {reason : Reason}

def IsAwaited (s : Session) (stream : StreamId) : Prop :=
  ∃ t seq, s.tracker? = some t ∧ seqOf? stream = some seq ∧ seq ∈ t.seqs

def IsUploading (s : Session) (stream : StreamId) : Prop :=
  ∃ w t, s.phase = .established w t
    ∧ ∃ f ∈ w.active, streamOf f.seq = stream ∧ ∀ a ∈ t.abandoned, a.seq ≠ f.seq

theorem IsNew.multiplexed_traffic (hs : s.IsNew) {inputs : List Input}
    (hm : (s.after inputs).IsMultiplexed) {c : Traffic} (ht : (s.after inputs).traffic? = some c) :
    Reached (s.history inputs) c ∧ c.tracker.binding = .byStream := by
  obtain ⟨hreached, p, hp, hspeaks⟩ := hs.established inputs ht
  obtain ⟨q, hq, hmultiplex⟩ := hm
  obtain rfl := Option.some.inj (hp.symm.trans hq)
  refine ⟨hreached, ?_⟩
  simpa [hmultiplex] using hspeaks

theorem isAwaited_iff {c : Traffic} (ht : s.traffic? = some c) {seq : Nat} (named : HasStream seq) :
    s.IsAwaited (streamOf seq) ↔ seq ∈ c.tracker.seqs := by
  simp [IsAwaited, tracker?, (traffic?_eq_some ht).1, seqOf?_streamOf named]

theorem isUploading_of_flying {c : Traffic} (ht : s.traffic? = some c) {seq : Nat}
    (hf : seq ∈ c.flying) (hout : seq ∉ c.tracker.abandoned.map Abandoned.seq) :
    s.IsUploading (streamOf seq) := by
  obtain ⟨f, hflight, rfl⟩ := List.mem_map.1 hf
  exact ⟨_, _, (traffic?_eq_some ht).1, f, hflight, rfl,
    fun a ha he => hout (List.mem_map.2 ⟨a, ha, he⟩)⟩

theorem respond_unawaited {c : Traffic} (ht : s.traffic? = some c)
    (hb : c.tracker.binding = .byStream) {seq : Nat} (named : HasStream seq)
    (hout : seq ∉ c.tracker.seqs) (part : Part) :
    s.respond (.response (some (streamOf seq)) part) = ⟨s, []⟩ := by
  have hphase := (traffic?_eq_some ht).1
  have hself : { s with phase := .established c.writer c.tracker } = s := by rw [← hphase]
  simp only [respond, onResponse, hphase, Tracker.receive_of_unawaited hb named hout part,
    Tracker.accepted, Traced.value_pure, hself]
  rfl

theorem IsNew.closed_of_multiplexed (hs : s.IsNew) {inputs : List Input}
    (hm : (s.after inputs).IsMultiplexed) (ht : (s.after inputs).traffic? = none) :
    (s.after inputs).phase = .closed := by
  obtain ⟨p, hp, -⟩ := hm
  cases hs.stands inputs with
  | negotiating _ _ silent => simp [hp] at silent
  | failed phase => exact phase
  | established c traffic => simp [ht] at traffic
  | closed c before rest phase => exact phase

theorem silent_of_closed (h : s.phase = .closed) (more : List Input) {call : Call}
    (hc : call.stream? = some stream) : .action (.call call) ∉ s.history more := by
  intro hmem
  have hquiet := (closed_course h more).1 _ hmem
  cases call with
  | close | connect => simp [Call.stream?] at hc
  | _ => simp [Action.isQuiet, Action.isIdle] at hquiet

theorem IsNew.handed_of_frame (hs : s.IsNew) {inputs : List Input}
    (hm : (s.after inputs).IsMultiplexed) {call : Call} (hc : call.stream? = some stream)
    (hmem : .action (.call call) ∈ s.history inputs) :
    ∃ x ∈ handed (s.history inputs), x.call = call ∧ streamOf x.seq = stream := by
  have hframe := (mem_frames hc).2 hmem
  rw [hs.framed hm] at hframe
  obtain ⟨x, hx, rfl⟩ := List.mem_map.1 hframe
  rw [x.call_stream?] at hc
  exact ⟨x, hx, rfl, Option.some.inj hc⟩

theorem IsNew.silent_of_done (hs : s.IsNew) (bounded : s.ceiling ≤ maxDispatches)
    {inputs : List Input} (hm : (s.after inputs).IsMultiplexed) {c : Traffic}
    (ht : (s.after inputs).traffic? = some c) {seq : Nat} (named : HasStream seq) (hd : c.IsDone seq)
    (more : List Input) {call : Call} (hc : call.stream? = some (streamOf seq))
    (hmem : .action (.call call) ∈ (s.after inputs).history more) : call.isReset = true := by
  obtain ⟨hreached, hb⟩ := hs.multiplexed_traffic hm ht
  have hm' := hs.multiplexed_lasts hm more
  have hframed : Framed ((s.after inputs).history more) :=
    (hs.framed hm).right (history_append s inputs more ▸ hs.framed hm')
  have hframe := (mem_frames hc).2 hmem
  rw [hframed] at hframe
  obtain ⟨y, hy, rfl⟩ := List.mem_map.1 hframe
  rw [y.call_stream?] at hc
  have hall : y ∈ handed (s.history (inputs ++ more)) := by
    rw [history_append, handed_append]
    exact List.mem_append_right _ hy
  have hseq := streamOf_inj (hs.hasStream bounded hm' hall) named (Option.some.inj hc)
  obtain ⟨d, x, rest, hxy, hpath, hquiet, -⟩ := course ht more
  rw [hxy, handed_append, hquiet.handed, List.append_nil] at hy
  exact y.call_isReset.2 ((hd.path hreached hpath).2.1 y hy hseq)

/-- A reset by the peer ends the upload if the response was still awaited, or if there was no upload
left to end. On a stream whose response is complete it changes nothing. -/
theorem silent_of_peerReset (hs : s.IsNew) (bounded : s.ceiling ≤ maxDispatches) {inputs : List Input}
    (multiplexed : (s.after inputs).IsMultiplexed) {head : Head} {last ok : Bool}
    (opened : .action (.call (.headers stream head last ok)) ∈ s.history inputs) (reason : Reason) :
    ((s.after inputs).IsAwaited stream ∨ ¬(s.after inputs).IsUploading stream →
        ∀ more call, .action (.call call)
          ∈ (s.after (inputs ++ [.response (some stream) (.reset reason)])).history more →
        call.stream? = some stream → call.isReset = true)
      ∧ (¬(s.after inputs).IsAwaited stream →
        (s.after inputs).respond (.response (some stream) (.reset reason)) = ⟨s.after inputs, []⟩) := by
  have hcall : (Call.headers stream head last ok).stream? = some stream := rfl
  obtain ⟨x, hx, -, rfl⟩ := hs.handed_of_frame multiplexed hcall opened
  have named := hs.hasStream bounded multiplexed hx
  cases ht : (s.after inputs).traffic? with
  | none =>
      have hclosed := hs.closed_of_multiplexed multiplexed ht
      constructor
      · intro _ more call hmem hcall
        have hafter : (s.after (inputs ++ [.response (some (streamOf x.seq)) (.reset reason)])).phase
            = .closed := by
          rw [after_append]
          exact respond_closed hclosed _
        exact absurd hmem (silent_of_closed hafter more hcall)
      · intro _
        simp only [respond, onResponse, hclosed]
        rfl
  | some c =>
      obtain ⟨hreached, hb⟩ := hs.multiplexed_traffic multiplexed ht
      constructor
      · intro hcase more call hmem hcall
        have hdone : (c.receive (some (streamOf x.seq)) (.reset reason)).value.IsDone x.seq := by
          by_cases hin : x.seq ∈ c.tracker.seqs
          · exact hreached.coherent.isDone_of_reset hb named hin reason
          · have hidle := hcase.resolve_left fun h => hin ((isAwaited_iff ht named).1 h)
            exact hreached.isDone_of_unawaited hb named hx rfl hin
              (fun hf => by_contra fun hout => hidle (isUploading_of_flying ht hf hout)) (.reset reason)
        have hnext : (s.after (inputs ++ [.response (some (streamOf x.seq)) (.reset reason)])).traffic?
            = some (c.receive (some (streamOf x.seq)) (.reset reason)).value := by
          rw [after_append]
          exact (response_established ht _ _).1
        exact hs.silent_of_done bounded (hs.multiplexed_lasts multiplexed _) hnext named hdone more
          hcall hmem
      · intro hout
        exact respond_unawaited ht hb named (mt (isAwaited_iff ht named).2 hout) (.reset reason)

def upload (parts : List Part) : List Input :=
  [.negotiated .new true .h2,
      .dispatch ⟨0, 0, fun _ => false⟩ .default { Request.bare with body := ⟨0, [], false, false⟩ } 7,
      turn]
    ++ parts.map (.response (some 1))

def addition : List Input := [.feed 0 [.data (ascii "late")] none, turn]

theorem silent_of_peerReset_upload :
    (blank 2).ceiling ≤ maxDispatches ∧ ((blank 2).after (upload [])).IsMultiplexed
      ∧ ((blank 2).after (upload [])).IsAwaited 1
      ∧ ∀ call, .action (.call call)
          ∈ ((blank 2).after (upload [] ++ [.response (some 1) (.reset Reason.cancel)])).history addition →
        call.stream? = some 1 → call.isReset = true := by
  have bounded : (blank 2).ceiling ≤ maxDispatches := by decide
  have multiplexed : ((blank 2).after (upload [])).IsMultiplexed := ⟨.h2, by decide +kernel, rfl⟩
  have hawaited : ((blank 2).after (upload [])).tracker?.map Tracker.seqs = some [1] := by
    decide +kernel
  obtain ⟨t, ht, hseqs⟩ := Option.map_eq_some_iff.1 hawaited
  have awaited : ((blank 2).after (upload [])).IsAwaited 1 := ⟨t, 1, ht, by decide, by simp [hseqs]⟩
  have opened : .action (.call (.headers 1 (Http2.carried Request.bare.head) false true))
      ∈ (blank 2).history (upload []) := Happening.action_mem_iff.2 (by decide +kernel)
  exact ⟨bounded, multiplexed, awaited,
    (silent_of_peerReset (blank_isNew 2) bounded multiplexed opened Reason.cancel).1 (.inl awaited)
      addition⟩

def completed : List Part := [.head ⟨200, .empty⟩, .finish, .reset Reason.cancel]

theorem data_after_peerReset :
    (blank 2).IsNew ∧ (blank 2).ceiling ≤ maxDispatches
      ∧ ((blank 2).after (upload completed)).IsMultiplexed
      ∧ .action (.call (.headers 1 (Http2.carried Request.bare.head) false true))
        ∈ (blank 2).history (upload [])
      ∧ .action (.call (.data 1 (ascii "late") false true))
        ∈ ((blank 2).after (upload completed)).history addition := by
  refine ⟨blank_isNew 2, by decide, ⟨.h2, by decide +kernel, rfl⟩, ?_, ?_⟩
  · rw [Happening.action_mem_iff]
    decide +kernel
  · rw [Happening.action_mem_iff]
    decide +kernel

end Session

end HttpSession
