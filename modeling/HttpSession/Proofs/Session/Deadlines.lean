import HttpSession.Proofs.Session.Accounts
import HttpSession.Proofs.Session.Timing

namespace HttpSession

open Happening (ofActions deeds)

namespace Writer

variable {w : Writer} {seq : Nat} {reset : Bool}

def limits (w : Writer) : List (Nat × Option Span) := w.queue.map fun u => (u.seq, u.limit)

def timeouts (w : Writer) : List (Nat × Option Sleep) := w.active.map fun f => (f.seq, f.timeout)

theorem timeoutOf_steady (h : w.timer = .present) (now : Instant) (u : Upload) :
    w.timeoutOf (Clock.steady now) u = u.limit.map fun span => ⟨now + span, false⟩ := by
  unfold timeoutOf sleepOf
  rw [h]
  cases u.limit <;> rfl

theorem started_timeouts (w : Writer) (clock : Clock) (u : Upload) :
    (w.started clock u).map (fun f => (f.seq, f.timeout)) ⊆ [(u.seq, w.timeoutOf clock u)] := by
  unfold started
  split <;> simp

theorem abandon_keeps (w : Writer) (seq : Nat) (reset : Bool) :
    (w.abandon seq reset).1.timer = w.timer ∧ (w.abandon seq reset).1.limits ⊆ w.limits
      ∧ (w.abandon seq reset).1.timeouts ⊆ w.timeouts := by
  unfold abandon
  split
  · exact ⟨rfl, List.map_subset _ List.eraseP_subset, List.Subset.refl _⟩
  · dsimp only
    split <;> exact ⟨rfl, List.Subset.refl _, List.map_subset _ List.eraseP_subset⟩

end Writer

namespace Traffic

variable {c d : Traffic} {x : List Happening} {clock : Clock} {now : Instant} {gone : Nat → Bool}

structure Narrows (c : Traffic) (fresh : List (Nat × Option Sleep)) (d : Traffic) : Prop where
  timer : d.writer.timer = c.writer.timer
  awaited : d.tracker.terms ⊆ c.tracker.terms
  waiting : d.writer.limits ⊆ c.writer.limits
  writing : d.writer.timeouts ⊆ c.writer.timeouts ++ fresh

theorem Narrows.ofTracker {t : Tracker} (h : t.terms ⊆ c.tracker.terms) :
    c.Narrows [] { c with tracker := t } :=
  ⟨rfl, h, List.Subset.refl _, List.subset_append_left _ _⟩

theorem limits_next {u : Upload} {rest : List Upload} (next : c.writer.queue = u :: rest) :
    (c.queue rest).writer.limits ⊆ c.writer.limits := by
  rw [Writer.limits, Writer.limits, next]
  exact List.subset_cons_self _ _

theorem timeouts_take {f : InFlight} {before behind : List InFlight}
    (flight : c.writer.active = before ++ f :: behind) :
    (c.fly (before ++ behind)).writer.timeouts ⊆ c.writer.timeouts ++ [] := by
  rw [List.append_nil, Writer.timeouts, Writer.timeouts, flight]
  exact List.map_subset _ ((List.sublist_cons_self f behind).append_left before).subset

theorem timeouts_keep {f g : InFlight} {before behind : List InFlight}
    (flight : c.writer.active = before ++ f :: behind) (hs : g.seq = f.seq)
    (ht : g.timeout = f.timeout) :
    (c.fly (before ++ g :: behind)).writer.timeouts ⊆ c.writer.timeouts ++ [] := by
  rw [List.append_nil, Writer.timeouts, Writer.timeouts, flight]
  simp [fly, hs, ht]

theorem Write.narrows (hw : Write clock gone c x d) :
    ∃ fresh, c.Narrows fresh d ∧ ∀ w ∈ fresh, ∃ u ∈ c.writer.queue,
      u.seq ∈ launched x ∧ w = (u.seq, c.writer.timeoutOf clock u) := by
  cases hw with
  | launch u rest sent stopped next free wanted put ok =>
      refine ⟨[(u.seq, c.writer.timeoutOf clock u)],
        ⟨rfl, List.Subset.refl _, limits_next next, ?_⟩, ?_⟩
      · simp only [Writer.timeouts, fly, List.map_append]
        exact List.append_subset.2 ⟨List.subset_append_left _ _, List.Subset.trans
          (c.writer.started_timeouts clock u) (List.subset_append_right _ _)⟩
      · intro w hw
        refine ⟨u, next ▸ List.mem_cons_self, ?_, List.mem_singleton.1 hw⟩
        simp [sent.launched_of_headers ok]
  | stop a rest given =>
      obtain ⟨htimer, hlimits, htimeouts⟩ := c.writer.abandon_keeps a.seq a.reset
      exact ⟨[], ⟨htimer, List.Subset.refl _, hlimits, by simpa using htimeouts⟩, by simp⟩
  | skip u rest stopped next free canceled =>
      exact ⟨[], ⟨rfl, Tracker.terms_subset (c.tracker.erase_subset u.seq), limits_next next,
        List.subset_append_left _ _⟩, by simp⟩
  | miss u rest sent fault stopped next free wanted put failed =>
      exact ⟨[], ⟨rfl, Tracker.terms_subset (c.tracker.fail_subset u.seq fault), limits_next next,
        List.subset_append_left _ _⟩, by simp⟩
  | proceed f before behind octets rest sent stopped flight frame put ok =>
      exact ⟨[], ⟨rfl, List.Subset.refl _, List.Subset.refl _, timeouts_keep flight rfl rfl⟩, by simp⟩
  | stall f before behind stopped flight =>
      exact ⟨[], ⟨rfl, List.Subset.refl _, List.Subset.refl _, timeouts_keep flight rfl rfl⟩, by simp⟩
  | complete f before behind piece sent stopped flight final put ok =>
      exact ⟨[], ⟨rfl, List.Subset.refl _, List.Subset.refl _, timeouts_take flight⟩, by simp⟩
  | lose f before behind piece sent fault stopped flight body put failed =>
      exact ⟨[], ⟨rfl, Tracker.terms_subset (c.tracker.fail_subset f.seq fault), List.Subset.refl _,
        timeouts_take flight⟩, by simp⟩
  | breakOff f before behind fault stopped flight cause =>
      exact ⟨[], ⟨rfl, Tracker.terms_subset (c.tracker.fail_subset f.seq fault), List.Subset.refl _,
        timeouts_take flight⟩, by simp⟩

theorem feed_narrows (c : Traffic) (source : Nat) (frames : List Frame) (ended : Option Bool) :
    c.Narrows [] { c with writer := c.writer.feed source frames ended } where
  timer := rfl
  awaited := List.Subset.refl _
  waiting := by simp [Writer.feed, Writer.limits, Function.comp_def]
  writing := by simp [Writer.feed, Writer.timeouts, Function.comp_def]

theorem Path.terms (hp : Path (Write clock gone) c x d) : d.tracker.terms ⊆ c.tracker.terms := by
  induction hp with
  | refl => exact List.Subset.refl _
  | snoc _ hw ih =>
      obtain ⟨fresh, hn, -⟩ := hw.narrows
      exact List.Subset.trans hn.awaited ih

/-- What was asked for under a number, by whom and when, and when its head was written, account for
every deadline. -/
structure Dated (asked : Nat → Nat → Instant → Options → Prop) (begun : Nat → Instant → Prop)
    (c : Traffic) : Prop where
  timer : c.writer.timer = .present
  awaited : ∀ seq sink due, (seq, sink, due) ∈ c.tracker.terms → ∃ start options,
    asked seq sink start options ∧ due = options.responseTimeout.map (start + ·)
  waiting : ∀ seq limit, (seq, limit) ∈ c.writer.limits → ∃ sink start options,
    asked seq sink start options ∧ limit = options.writeTimeout
  writing : ∀ seq timeout, (seq, timeout) ∈ c.writer.timeouts → ∃ sink start options later,
    asked seq sink start options ∧ begun seq later
      ∧ timeout = options.writeTimeout.map fun span => ⟨later + span, false⟩

section

variable {asked asked' : Nat → Nat → Instant → Options → Prop} {begun begun' : Nat → Instant → Prop}

theorem Dated.fresh (ceiling : Nat) (encoder : Encoder) :
    (fresh ceiling encoder .present).Dated asked begun :=
  ⟨rfl, by simp [Traffic.fresh, Tracker.new, Tracker.terms],
    by simp [Traffic.fresh, Writer.new, Writer.limits],
    by simp [Traffic.fresh, Writer.new, Writer.timeouts]⟩

theorem Dated.mono (hc : c.Dated asked begun)
    (ha : ∀ {seq sink start options}, asked seq sink start options → asked' seq sink start options)
    (hb : ∀ {seq later}, begun seq later → begun' seq later) : c.Dated asked' begun' where
  timer := hc.timer
  awaited seq sink due hin := by
    obtain ⟨start, options, hasked, hdue⟩ := hc.awaited seq sink due hin
    exact ⟨start, options, ha hasked, hdue⟩
  waiting seq limit hin := by
    obtain ⟨sink, start, options, hasked, hlimit⟩ := hc.waiting seq limit hin
    exact ⟨sink, start, options, ha hasked, hlimit⟩
  writing seq timeout hin := by
    obtain ⟨sink, start, options, later, hasked, hbegun, htimeout⟩ := hc.writing seq timeout hin
    exact ⟨sink, start, options, later, ha hasked, hb hbegun, htimeout⟩

theorem Dated.narrow (hc : c.Dated asked begun) (hn : c.Narrows [] d) : d.Dated asked begun where
  timer := hn.timer.trans hc.timer
  awaited seq sink due hin := hc.awaited seq sink due (hn.awaited hin)
  waiting seq limit hin := hc.waiting seq limit (hn.waiting hin)
  writing seq timeout hin := hc.writing seq timeout (by simpa using hn.writing hin)

theorem Dated.enroll (hc : c.Dated asked begun) (options : Options) (request : Request) {sink : Nat}
    {start : Instant} (hin : asked (c.dispatched + 1) sink start options) :
    (c.enroll options request sink (options.responseTimeout.map (start + ·))).value.Dated
      asked begun where
  timer := hc.timer
  awaited seq caller due hmem := by
    rw [Tracker.terms, enroll_pending, ← Tracker.terms] at hmem
    rcases List.mem_cons.1 (c.tracker.register_terms _ _ _ _ hmem) with he | hmem
    · obtain ⟨rfl, rfl, rfl⟩ : seq = _ ∧ caller = _ ∧ due = _ := by simpa using he
      exact ⟨start, options, hin, rfl⟩
    · exact hc.awaited seq caller due hmem
  waiting seq limit hmem := by
    have hmem : (seq, limit) ∈ c.writer.limits ++ [(c.dispatched + 1, options.writeTimeout)] := by
      simpa [Traffic.enroll, Writer.enqueue, Writer.limits] using hmem
    rcases List.mem_append.1 hmem with hmem | hmem
    · exact hc.waiting seq limit hmem
    · obtain ⟨rfl, rfl⟩ := Prod.mk.inj (List.mem_singleton.1 hmem)
      exact ⟨sink, start, options, hin, rfl⟩
  writing := hc.writing

theorem Write.dated (hw : Write (Clock.steady now) gone c x d) (hc : c.Dated asked begun)
    (hx : ∀ seq ∈ launched x, begun seq now) : d.Dated asked begun := by
  obtain ⟨fresh, hn, hfresh⟩ := hw.narrows
  refine ⟨hn.timer.trans hc.timer, fun seq sink due hin => hc.awaited seq sink due (hn.awaited hin),
    fun seq limit hin => hc.waiting seq limit (hn.waiting hin), fun seq timeout hin => ?_⟩
  rcases List.mem_append.1 (hn.writing hin) with hin | hin
  · exact hc.writing seq timeout hin
  · obtain ⟨u, hu, hlaunched, he⟩ := hfresh _ hin
    obtain ⟨rfl, rfl⟩ := Prod.mk.inj he
    obtain ⟨sink, start, options, hasked, hlimit⟩ :=
      hc.waiting u.seq u.limit (List.mem_map_of_mem (f := fun u : Upload => (u.seq, u.limit)) hu)
    refine ⟨sink, start, options, now, hasked, hx u.seq hlaunched, ?_⟩
    rw [Writer.timeoutOf_steady hc.timer, hlimit]

theorem Path.dated (hp : Path (Write (Clock.steady now) gone) c x d) (hc : c.Dated asked begun)
    (hx : ∀ seq ∈ launched x, begun seq now) : d.Dated asked begun := by
  induction hp with
  | refl => exact hc
  | snoc _ hw ih =>
      simp only [launched_append, List.mem_append] at hx
      exact hw.dated (ih fun seq hs => hx seq (.inl hs)) fun seq hs => hx seq (.inr hs)

end

end Traffic

theorem Http1.writeAll_timely (wire : Wire) (octets : List Octets) {fault : Fault}
    (h : (Http1.writeAll wire octets).2.2 = some fault) : fault.isOverdue = false := by
  induction octets generalizing wire with
  | nil => simp [Http1.writeAll] at h
  | cons o rest ih =>
      unfold Http1.writeAll at h
      split at h
      · obtain rfl := Option.some.inj h
        rfl
      · exact ih _ h

theorem Http2.send_timely (sink : FrameSink) (call : Bool → Call) {fault : Fault}
    (h : (Http2.send sink call).2.2 = some fault) : fault.isOverdue = false := by
  unfold Http2.send at h
  split at h
  · rename_i f _ _
    obtain rfl := Option.some.inj h
    cases f <;> rfl
  · simp at h

theorem Encoder.put_timely (encoder : Encoder) (seq : Nat) (piece : Piece) {fault : Fault}
    (h : (encoder.put seq piece).fault = some fault) : fault.isOverdue = false := by
  cases encoder with
  | http1 framing wire =>
      cases piece with
      | reset => simp [put, reset] at h
      | _ => exact Http1.writeAll_timely _ _ h
  | http2 sink =>
      cases piece with
      | reset => simp [put, reset] at h
      | _ => exact Http2.send_timely _ _ h

@[simp] theorem Emission.overdue_actions (sent : Emission) (seq : Nat) (piece : Piece) :
    overdue (sent.actions seq piece) = [] := by
  simp [Emission.actions, overdue, List.filterMap_map, Function.comp_def, Action.overdue?]

theorem Writer.overdue_abandon (w : Writer) (seq : Nat) (reset : Bool) :
    overdue (w.abandon seq reset).2 = [] := by
  unfold abandon
  split
  · rfl
  · dsimp only
    split
    · exact Emission.overdue_actions _ _ _
    · rfl

namespace Traffic

variable {c d : Traffic} {x : List Happening} {clock : Clock} {now : Instant} {gone : Nat → Bool}
  {sink : Nat} {fault : Fault}

@[simp] theorem overdue_giveUp (c : Traffic) (seq : Nat) (fault : Fault) :
    overdue (c.giveUp seq fault).actions = c.tracker.told seq fault := by
  simp [giveUp, track, encode, Tracker.overdue_fail]

theorem overdue_enroll (c : Traffic) (options : Options) (request : Request) (sink : Nat)
    (deadline : Option Instant) :
    HttpSession.overdue (c.enroll options request sink deadline).actions = [] := by
  unfold enroll
  dsimp only
  split
  · exact Tracker.overdue_closeIfDrained _
  · rfl

theorem Write.overdue (hw : Write clock gone c x d) (h : (sink, fault) ∈ overdue (deeds x)) :
    fault = Fault.writeTimeout ∧ ∃ p ∈ c.tracker.pending, p.sink = sink
      ∧ ∃ f ∈ c.writer.active, f.seq = p.seq ∧ f.isLate clock = true := by
  cases hw with
  | stop a rest given => simp [Writer.overdue_abandon] at h
  | skip u rest =>
      rw [Happening.deeds_ofActions] at h
      exact absurd h (by simp [track, Tracker.forget, Tracker.overdue_settle, Tracker.told,
        Fault.isOverdue, Fault.canceled, Fault.of])
  | launch | proceed | complete => simp at h
  | stall => simp [deeds] at h
  | miss u rest sent fault' stopped next free wanted put failed =>
      simp [Tracker.told_of_timely _ _ (Encoder.put_timely _ _ _ (put ▸ failed))] at h
  | lose f before behind piece sent fault' stopped flight body put failed =>
      simp [Tracker.told_of_timely _ _ (Encoder.put_timely _ _ _ (put ▸ failed))] at h
  | breakOff f before behind fault' stopped flight cause =>
      rw [Happening.deeds_ofActions, overdue_giveUp] at h
      rcases cause with ⟨hlate, rfl⟩ | ⟨reason, rfl⟩
      · obtain ⟨rfl, p, hp, hseq, hsink⟩ := Tracker.mem_told h
        exact ⟨rfl, p, hp, hsink, f, flight ▸ by simp, hseq.symm, hlate⟩
      · have htimely : (Fault.userBody reason).isOverdue = false := by cases reason <;> rfl
        simp [Tracker.told_of_timely _ _ htimely] at h

theorem Path.overdue {asked : Nat → Nat → Instant → Options → Prop} {begun : Nat → Instant → Prop}
    (hp : Path (Write (Clock.steady now) gone) c x d) (hc : c.Dated asked begun)
    (hx : ∀ seq ∈ launched x, begun seq now) (h : (sink, fault) ∈ overdue (deeds x)) :
    fault = Fault.writeTimeout ∧ ∃ seq due, (seq, sink, due) ∈ c.tracker.terms
      ∧ ∃ caller start options later span, asked seq caller start options ∧ begun seq later
        ∧ options.writeTimeout = some span ∧ later + span ≤ now := by
  induction hp with
  | refl => simp [deeds] at h
  | @snoc d e before x hq hw ih =>
      simp only [launched_append, List.mem_append] at hx
      rw [Happening.deeds_append, overdue_append, List.mem_append] at h
      rcases h with h | h
      · exact ih (fun seq hs => hx seq (.inl hs)) h
      · have hd := hq.dated hc fun seq hs => hx seq (.inl hs)
        obtain ⟨rfl, p, hp, rfl, f, hf, hseq, hlate⟩ := hw.overdue h
        obtain ⟨caller, start, options, later, hasked, hbegun, htimeout⟩ :=
          hd.writing f.seq f.timeout (List.mem_map_of_mem (f := fun f : InFlight => (f.seq, f.timeout)) hf)
        obtain ⟨span, hspan, hover⟩ : ∃ span, options.writeTimeout = some span ∧ later + span ≤ now := by
          rw [InFlight.isLate, htimeout] at hlate
          cases hspan : options.writeTimeout with
          | none => simp [hspan] at hlate
          | some span => exact ⟨span, rfl, by simpa [hspan, Sleep.isOver, Clock.steady] using hlate⟩
        refine ⟨rfl, p.seq, p.deadline, hq.terms (Tracker.mem_terms hp), caller, start, options, later,
          span, hseq ▸ hasked, hseq ▸ hbegun, hspan, hover⟩

end Traffic

end HttpSession
