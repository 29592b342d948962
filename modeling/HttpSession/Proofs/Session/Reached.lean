import HttpSession.Proofs.Session.Course

namespace HttpSession

open Happening (ofActions)

namespace Traffic

inductive Reached : List Happening → Traffic → Prop
  | fresh {h : List Happening} (quiet : Quiet h) (ceiling : Nat) (encoder : Encoder)
      (timer : Timer) : Reached h (fresh ceiling encoder timer)
  | move {h x : List Happening} {c d : Traffic} : Reached h c → Move c x d → Reached (h ++ x) d

variable {c d : Traffic} {h x : List Happening}

theorem Reached.path (hc : Reached h c) (hp : Path Move c x d) : Reached (h ++ x) d := by
  induction hp with
  | refl => simpa using hc
  | snoc _ hm ih => simpa using ih.move hm

structure SameSetup (c d : Traffic) : Prop where
  ceiling : d.ceiling = c.ceiling
  binding : d.tracker.binding = c.tracker.binding
  multiplex : d.writer.multiplex = c.writer.multiplex
  encoder : d.writer.encoder.binding = c.writer.encoder.binding

namespace SameSetup

theorem refl (c : Traffic) : SameSetup c c := ⟨rfl, rfl, rfl, rfl⟩

theorem trans {e : Traffic} (hd : SameSetup c d) (he : SameSetup d e) : SameSetup c e :=
  ⟨he.1.trans hd.1, he.2.trans hd.2, he.3.trans hd.3, he.4.trans hd.4⟩

end SameSetup

end Traffic

namespace Encoder

theorem put_binding (encoder : Encoder) (seq : Nat) (piece : Piece) :
    (encoder.put seq piece).encoder.binding = encoder.binding := by
  cases piece <;> cases encoder <;> rfl

theorem onWire_binding (encoder : Encoder) (f : Wire → Wire) :
    (encoder.onWire f).binding = encoder.binding := by
  cases encoder <;> rfl

theorem onSink_binding (encoder : Encoder) (f : FrameSink → FrameSink) :
    (encoder.onSink f).binding = encoder.binding := by
  cases encoder <;> rfl

end Encoder

namespace Tracker

theorem desync_binding (t : Tracker) : t.desync.value.binding = t.binding :=
  t.desync_wanes.binding

theorem afterAbandon_binding (t : Tracker) (seqs : List Nat) :
    (t.afterAbandon seqs).value.binding = t.binding := by
  unfold afterAbandon
  split
  · exact desync_binding _
  · rfl

theorem expire_binding (t : Tracker) (now : Instant) : (t.expire now).value.binding = t.binding := by
  unfold expire
  dsimp only
  split
  · rfl
  · exact afterAbandon_binding _ _

end Tracker

namespace Writer

theorem abandon_multiplex (w : Writer) (seq : Nat) (reset : Bool) :
    (w.abandon seq reset).1.multiplex = w.multiplex := by
  unfold abandon
  split
  · rfl
  · dsimp only
    split <;> rfl

theorem abandon_binding (w : Writer) (seq : Nat) (reset : Bool) :
    (w.abandon seq reset).1.encoder.binding = w.encoder.binding := by
  unfold abandon
  split
  · rfl
  · dsimp only
    split
    · exact Encoder.put_binding _ _ _
    · rfl

end Writer

namespace Traffic

theorem giveUp_sameSetup (c : Traffic) (seq : Nat) (fault : Fault) : SameSetup c (c.giveUp seq fault).value where
  ceiling := rfl
  binding := (Tracker.fail_wanes c.tracker seq fault).binding
  multiplex := rfl
  encoder := Encoder.put_binding _ _ _

theorem Write.sameSetup {clock : Clock} {gone : Nat → Bool} (hw : Write clock gone c x d) : SameSetup c d := by
  cases hw with
  | stop a rest given =>
      exact ⟨rfl, rfl, Writer.abandon_multiplex _ _ _, Writer.abandon_binding _ _ _⟩
  | skip u rest stopped next free canceled => exact ⟨rfl, rfl, rfl, rfl⟩
  | stall => exact ⟨rfl, rfl, rfl, rfl⟩
  | launch u rest sent stopped next free wanted put ok =>
      exact ⟨rfl, rfl, rfl, put ▸ Encoder.put_binding _ _ _⟩
  | miss u rest sent fault stopped next free wanted put failed =>
      refine .trans ?_ (giveUp_sameSetup _ _ _)
      exact ⟨rfl, rfl, rfl, put ▸ Encoder.put_binding _ _ _⟩
  | proceed f before behind octets rest sent stopped flight frame put ok =>
      exact ⟨rfl, rfl, rfl, put ▸ Encoder.put_binding _ _ _⟩
  | complete f before behind piece sent stopped flight final put ok =>
      exact ⟨rfl, rfl, rfl, put ▸ Encoder.put_binding _ _ _⟩
  | lose f before behind piece sent fault stopped flight body put failed =>
      refine .trans ?_ (giveUp_sameSetup _ _ _)
      exact ⟨rfl, rfl, rfl, put ▸ Encoder.put_binding _ _ _⟩
  | breakOff f before behind fault stopped flight =>
      exact .trans (d := c.fly (before ++ behind)) ⟨rfl, rfl, rfl, rfl⟩ (giveUp_sameSetup _ _ _)

theorem Move.sameSetup (hm : Move c x d) : SameSetup c d := by
  cases hm with
  | idle | refuse => exact .refl c
  | enroll clock options request sink deadline room =>
      refine ⟨rfl, ?_, rfl, rfl⟩
      dsimp only [Traffic.enroll]
      split <;> rfl
  | receive stream part => exact ⟨rfl, (Tracker.receive_wanes _ _ _).binding, rfl, rfl⟩
  | expire now => exact ⟨rfl, Tracker.expire_binding _ _, rfl, rfl⟩
  | wire f => exact ⟨rfl, rfl, rfl, Encoder.onWire_binding _ _⟩
  | sink f => exact ⟨rfl, rfl, rfl, Encoder.onSink_binding _ _⟩
  | feed | fire => exact ⟨rfl, rfl, rfl, rfl⟩
  | write clock gone wrote => exact wrote.sameSetup

theorem Path.sameSetup (hp : Path Move c x d) : SameSetup c d := by
  induction hp with
  | refl => exact .refl c
  | snoc _ hm ih => exact ih.trans hm.sameSetup

end Traffic

namespace Session

open Traffic (Reached Path Move)

variable {s : Session} {c : Traffic} {h : List Happening}

def Speaks (s : Session) (c : Traffic) : Prop :=
  ∃ p, s.protocol = some p ∧ p.isMultiplex = (c.tracker.binding == .byStream)

inductive Stands (s : Session) (h : List Happening) : Prop
  | negotiating (phase : s.phase = .negotiating) (unused : s.dispatched = 0)
      (silent : s.protocol = none) (quiet : Quiet h)
  | established (c : Traffic) (traffic : s.traffic? = some c) (reached : Reached h c)
      (speaks : s.Speaks c)
  | failed (phase : s.phase = .closed) (silent : s.protocol = none) (quiet : Quiet h)
  | closed (c : Traffic) (before rest : List Happening) (phase : s.phase = .closed)
      (all : h = before ++ rest) (reached : Reached before c) (speaks : s.Speaks c)
      (quiet : Quiet rest)

theorem Speaks.sameSetup {r : Session} {d : Traffic} (hs : s.Speaks c) (hp : r.protocol = s.protocol)
    (hk : c.SameSetup d) : r.Speaks d := by
  obtain ⟨p, hsome, hmulti⟩ := hs
  exact ⟨p, hp.trans hsome, by rw [hk.binding, hmulti]⟩

theorem Stands.respond (hs : s.Stands h) (i : Input) :
    (s.respond i).value.Stands (h ++ .input i :: ofActions (s.respond i).actions) := by
  cases hs with
  | negotiating phase unused silent quiet =>
      have hq := quiet.append (.ofInput i (respond_quiet (s := s) (by simp [traffic?, phase]) i))
      rcases respond_negotiating phase i with ⟨hphase, hd, hp⟩ | ⟨hphase, hp⟩ | ⟨p, encoder, hp, hm, ht⟩
      · exact .negotiating hphase (hd.trans unused) (hp.trans silent) hq
      · exact .failed hphase (hp.trans silent) hq
      · rw [unused] at ht
        exact .established _ ht (.fresh hq _ _ _) ⟨p, hp, hm⟩
  | established c traffic reached speaks =>
      have hp := respond_protocol (s := s) (by simp [(traffic?_eq_some traffic).1]) i
      rcases respond_established traffic i with ⟨d, hd, hpath⟩ | hends
      · exact .established d hd (reached.path hpath) (speaks.sameSetup hp hpath.sameSetup)
      · exact .closed c h _ hends.closed rfl reached (speaks.sameSetup hp (.refl c)) (.ofInput i hends.quiet)
  | failed phase silent quiet =>
      have hp := respond_protocol (s := s) (by simp [phase]) i
      exact .failed (respond_closed phase i) (hp.trans silent)
        (quiet.append (.ofInput i (respond_quiet (by simp [traffic?, phase]) i)))
  | closed c before rest phase all reached speaks quiet =>
      have hp := respond_protocol (s := s) (by simp [phase]) i
      refine .closed c before _ (respond_closed phase i) (by rw [all, List.append_assoc]) reached
        (speaks.sameSetup hp (.refl c))
        (quiet.append (.ofInput i (respond_quiet (by simp [traffic?, phase]) i)))

theorem Stands.ofChannel (hs : s.Stands h) (channel : Channel) :
    Stands { s with channel := channel } h := by
  cases hs with
  | negotiating phase unused silent quiet => exact .negotiating phase unused silent quiet
  | established c traffic reached speaks => exact .established c traffic reached speaks
  | failed phase silent quiet => exact .failed phase silent quiet
  | closed c before rest phase all reached speaks quiet =>
      exact .closed c before rest phase all reached speaks quiet

theorem Stands.after (hs : s.Stands h) (inputs : List Input) :
    (s.after inputs).Stands (h ++ s.history inputs) := by
  induction inputs generalizing s h with
  | nil => simpa using hs
  | cons i rest ih =>
      simpa using ih (s := (s.step i).value) ((hs.respond i).ofChannel _)

theorem IsNew.start (hs : s.IsNew) :
    s.phase = .negotiating ∧ s.dispatched = 0 ∧ s.protocol = none ∧ s.transportClosed = false := by
  obtain ⟨channel, timer, clock, limit, ceiling, speaksHttp1, hnew⟩ := hs
  unfold Session.new at hnew
  cases hm : limit.mapM (timer.sleep clock) with
  | error text => simp [hm, bind, Except.bind] at hnew
  | ok negotiation =>
      simp only [hm, bind, Except.bind, pure, Except.pure, Except.ok.injEq] at hnew
      subst hnew
      exact ⟨rfl, rfl, rfl, rfl⟩

theorem IsNew.stands (hs : s.IsNew) (inputs : List Input) :
    (s.after inputs).Stands (s.history inputs) := by
  obtain ⟨phase, unused, silent, -⟩ := hs.start
  simpa using Stands.after (.negotiating phase unused silent .nil) inputs

theorem IsNew.established (hs : s.IsNew) (inputs : List Input)
    (h : (s.after inputs).traffic? = some c) :
    Reached (s.history inputs) c ∧ (s.after inputs).Speaks c := by
  cases hs.stands inputs with
  | established d traffic reached speaks =>
      obtain rfl := Option.some.inj (traffic.symm.trans h)
      exact ⟨reached, speaks⟩
  | negotiating phase | failed phase | closed _ _ _ phase => simp [traffic?, phase] at h

theorem closed_course (h : s.phase = .closed) (inputs : List Input) :
    Quiet (s.history inputs) ∧ (s.after inputs).phase = .closed := by
  induction inputs generalizing s with
  | nil => exact ⟨.nil, h⟩
  | cons i rest ih =>
      obtain ⟨hquiet, hend⟩ := ih (s := (s.step i).value) (respond_closed h i)
      have hi := Quiet.ofInput i (respond_quiet (s := s) (by simp [traffic?, h]) i)
      exact ⟨hi.append hquiet, hend⟩

theorem course (h : s.traffic? = some c) (inputs : List Input) :
    ∃ d x y, s.history inputs = x ++ y ∧ Path Move c x d ∧ Quiet y
      ∧ ((s.after inputs).traffic? = some d ∧ y = [] ∨ (s.after inputs).phase = .closed) := by
  induction inputs generalizing s c with
  | nil => exact ⟨c, [], [], rfl, .refl c, .nil, .inl ⟨h, rfl⟩⟩
  | cons i rest ih =>
      rcases respond_established h i with ⟨d, hd, hp⟩ | hends
      · obtain ⟨e, x, y, hxy, hpath, hquiet, hend⟩ := ih (s := (s.step i).value) hd
        exact ⟨e, _, y, by rw [history_cons, hxy, step_actions, List.append_assoc], hp.trans hpath,
          hquiet, hend⟩
      · obtain ⟨hquiet, hend⟩ := closed_course (s := (s.step i).value) hends.closed rest
        exact ⟨c, [], _, rfl, .refl c, (Quiet.ofInput i hends.quiet).append hquiet, .inr hend⟩

theorem IsNew.reached (hs : s.IsNew) (inputs : List Input) :
    ∃ before rest c, s.history inputs = before ++ rest ∧ Reached before c ∧ Quiet rest
      ∧ ∀ p, (s.after inputs).protocol = some p →
        p.isMultiplex = (c.tracker.binding == .byStream) := by
  cases hs.stands inputs with
  | negotiating _ _ silent quiet | failed _ silent quiet =>
      refine ⟨[], _, .fresh 0 (.http2 .fresh) .absent, rfl, .fresh .nil _ _ _, quiet, ?_⟩
      simp [silent]
  | established c traffic reached speaks =>
      obtain ⟨p, hp, hm⟩ := speaks
      exact ⟨_, [], c, (List.append_nil _).symm, reached, .nil,
        fun q hq => Option.some.inj (hp.symm.trans hq) ▸ hm⟩
  | closed c before rest phase all reached speaks quiet =>
      obtain ⟨p, hp, hm⟩ := speaks
      exact ⟨before, rest, c, all, reached, quiet,
        fun q hq => Option.some.inj (hp.symm.trans hq) ▸ hm⟩

end Session

end HttpSession
