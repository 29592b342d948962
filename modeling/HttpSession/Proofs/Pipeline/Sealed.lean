import HttpSession.Proofs.Pipeline.HalfWritten

namespace HttpSession

open Happening (ofActions)

namespace Session

open Traffic (Path Write InLine IsMute Reached)

variable {s : Session} {c d : Traffic} {h : List Happening}

structure IsSealed (s : Session) (h : List Happening) : Prop where
  closing : .action (.call .close) ∈ h
  silent : ∀ inputs, Silent (s.history inputs)
  refused : ∀ inputs clock options request sink,
    ((s.after inputs).dispatch clock options request sink).value.2 = false
      ∧ ((s.after inputs).dispatch clock options request sink).actions
        = [.answer sink (.failed Fault.closedSession)]

theorem IsSealed.ofMute (ht : s.traffic? = some c) (hr : Reached h c) (hi : InLine h c)
    (hm : c.IsMute) (known : 0 < c.dispatched) : s.IsSealed h where
  closing := by
    have hfull : (decide (c.dispatched < c.ceiling) && !c.tracker.isClosing) = false := hm.full
    cases hs : c.tracker.desynced with
    | true => exact hi.closing hs
    | false =>
        exact hi.drained (hi.draining known (by simpa [Tracker.isClosing, hs] using hfull)) hm.pending
  silent inputs := by
    obtain ⟨d, x, y, hxy, hpath, hquiet, -⟩ := course ht inputs
    exact hxy ▸ (hm.path hr hpath).2.append (.ofQuiet hquiet)
  refused inputs clock options request sink := by
    obtain ⟨d, x, y, -, hpath, -, hend⟩ := course ht inputs
    rcases hend with ⟨hd, -⟩ | hclosed
    · rw [dispatch_of_full hd (hm.path hr hpath).1.full]
      exact ⟨rfl, rfl⟩
    · simp [Session.dispatch, hclosed, refuse]

theorem IsSealed.full (hs : s.IsSealed h) (ht : s.traffic? = some c) : c.hasRoom = false := by
  cases hroom : c.hasRoom with
  | false => rfl
  | true =>
      have hrefused := (hs.refused [] ⟨0, 0, fun _ => false⟩ .default .bare 0).2
      rw [after_nil, (dispatch_of_room ht hroom _ _ _ _).2] at hrefused
      simp [Traffic.enroll] at hrefused

theorem IsNew.inLine (hs : s.IsNew) {inputs : List Input} (hp : (s.after inputs).IsPipelined)
    (hn : ∀ stream reason, .response stream (.reset reason) ∉ inputs)
    (ht : (s.after inputs).traffic? = some c) :
    Reached (s.history inputs) c ∧ InLine (s.history inputs) c := by
  obtain ⟨hr, hb⟩ := hs.pipelined hp ht
  exact ⟨hr, hr.inLine hb fun stream reason => by rw [input_mem_history]; exact hn stream reason⟩

theorem isSealed_iff (ht : s.traffic? = some c) (hr : Reached h c) (hi : InLine h c) {clock : Clock}
    {gone : Nat → Bool} {before rest : List Action} {seq : Nat} {ok : Bool}
    (ha : (s.respond (.write clock gone)).actions = before ++ .encode seq .reset ok :: rest) :
    (s.step (.write clock gone)).value.IsSealed
          (h ++ .input (.write clock gone) :: ofActions (s.respond (.write clock gone)).actions)
        ∧ Silent (ofActions rest)
      ↔ c.Minds gone seq := by
  obtain ⟨hvalue, hdone⟩ := write_established ht clock gone
  have hpath := Traffic.written_path clock gone c
  have hrest := Written.of_rest clock gone c.writer c.tracker
  -- The turn itself is part of the history before anything is done in it.
  have hidle : ∀ x ∈ [Happening.input (.write clock gone)], x.isIdle = true := by
    simp [Happening.isIdle, Input.isIdle]
  have hr₀ := hr.move (.idle _ hidle)
  have hi₀ := hi.move hr.coherent (by simp) (.idle _ hidle)
  obtain ⟨hr', hi', -⟩ := hi₀.path_write hr₀ hpath
  rw [List.append_assoc, List.singleton_append] at hr' hi'
  dsimp only at hpath
  rw [← hdone] at hpath hr' hi'
  rw [ha, Happening.ofActions_append, Happening.ofActions_cons] at hpath
  obtain ⟨hnumber, hseals, hminds⟩ := hi.turn_giveUp hr hpath hrest
  constructor
  · rintro ⟨hsealed, hsilent⟩
    exact hminds (hsealed.full hvalue) hsilent
  · intro h
    obtain ⟨hmute, hsilent⟩ := hseals h
    exact ⟨.ofMute hvalue hr' hi' hmute hnumber, hsilent⟩

/-- On a pipeline a request that is given up half way is the last that is written if its response
is still awaited, and otherwise only if the pipeline had been given up before or has no number left
and nobody waits for what it still has to write. -/
theorem sealed_of_giveUp (hs : s.IsNew) (inputs : List Input)
    (hn : ∀ stream reason, .response stream (.reset reason) ∉ inputs) {w : Writer} {t : Tracker}
    (he : (s.after inputs).phase = .established w t) (hp : (s.after inputs).IsPipelined) :
    (∀ a ∈ t.abandoned, ∀ f ∈ w.active, a.seq = f.seq →
        (s.after inputs).IsSealed (s.history inputs))
      ∧ ∀ clock gone before seq ok rest,
        ((s.after inputs).respond (.write clock gone)).actions
            = before ++ .encode seq .reset ok :: rest →
        ((s.after (inputs ++ [.write clock gone])).IsSealed
              (s.history (inputs ++ [.write clock gone])) ∧ Silent (ofActions rest)
          ↔ seq ∈ t.seqs ∨ t.desynced = true
            ∨ (s.after inputs).ceiling ≤ (s.after inputs).dispatched
              ∧ ∀ p ∈ t.pending, gone p.sink = true) := by
  have ht := traffic?_of_phase he
  obtain ⟨hr, hi⟩ := hs.inLine hp hn ht
  constructor
  · intro a ha f hf hsame
    have hflying : f.seq ∈ w.active.map InFlight.seq := List.mem_map_of_mem hf
    refine .ofMute ht hr hi (hi.isMute_of_abandoned hr.coherent ha (hsame ▸ hflying)) ?_
    have := hr.coherent.taken f.seq (List.mem_append_left _ (hr.coherent.flying.subset hflying))
    exact Nat.lt_of_lt_of_le this.1 this.2
  · intro clock gone before seq ok rest hactions
    rw [after_append, history_append]
    simpa [Traffic.Minds] using isSealed_iff ht hr hi hactions

def truncated (parts : List Input) : List Input :=
  [.negotiated .new true .h1,
      .dispatch ⟨0, 0, fun _ => false⟩ .default { Request.bare with body := ⟨0, [], false, false⟩ } 7,
      turn]
    ++ parts ++ [.feed 0 [.failure (.root (.text "lost"))] none]

theorem sealed_of_giveUp_truncated :
    ((blank 2).after (truncated [] ++ [turn])).IsSealed
      ((blank 2).history (truncated [] ++ [turn])) := by
  obtain ⟨c, hc⟩ : ∃ c, ((blank 2).after (truncated [])).traffic? = some c :=
    Option.isSome_iff_exists.1 (by decide +kernel)
  have hawaited : ((blank 2).after (truncated [])).traffic?.map (·.tracker.seqs) = some [1] := by
    decide +kernel
  rw [hc, Option.map_some, Option.some.injEq] at hawaited
  have hturn : (((blank 2).after (truncated [])).respond turn).actions
      = [.call .shutdown] ++ .encode 1 .reset true
        :: [.answer 7 (.failed (.because .userBody (.root (.text "lost")))), .call .close] := by
    decide +kernel
  obtain ⟨-, hsealed⟩ := sealed_of_giveUp (blank_isNew 2) (truncated [])
    (by simp [truncated, turn]) (traffic?_eq_some hc).1 ⟨.h1, by decide +kernel, rfl⟩
  exact ((hsealed _ _ _ 1 true _ hturn).2 (.inl (by simp [hawaited]))).1

def answered : List Input :=
  truncated [.response none (.head ⟨200, .empty⟩), .response none .finish]

theorem write_after_giveUp :
    (blank 3).IsNew ∧ (∀ stream reason, .response stream (.reset reason) ∉ answered)
      ∧ ((blank 3).after answered).IsPipelined
      ∧ launched ((blank 3).history answered) = [1]
      ∧ (((blank 3).after answered).respond turn).actions
        = [.call .shutdown, .encode 1 .reset true]
      ∧ .action (.call .close) ∉ (blank 3).history (answered ++ [turn])
      ∧ (((blank 3).after (answered ++ [turn])).dispatch ⟨0, 0, fun _ => false⟩ .default .bare 8
          ).value.2 = true
      ∧ .action (.call (.write (ascii "GET / HTTP/1.1\r\n\r\n") true))
        ∈ ((blank 3).after (answered ++ [turn])).history
          [.dispatch ⟨0, 0, fun _ => false⟩ .default .bare 8, turn] := by
  refine ⟨blank_isNew 3, by simp [answered, truncated, turn], ⟨.h1, by decide +kernel, rfl⟩,
    by decide +kernel, by decide +kernel, ?_, by decide +kernel, ?_⟩
  · rw [Happening.action_mem_iff]
    decide +kernel
  · rw [Happening.action_mem_iff]
    decide +kernel

end Session

end HttpSession
