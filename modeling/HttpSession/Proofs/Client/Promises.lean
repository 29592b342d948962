import HttpSession.Proofs.Client.Run

namespace HttpSession

def Settled.resolves (p : Nat) : Settled → Bool
  | .established q _ => q == p
  | .refused q _ => q == p
  | _ => false

namespace Client

variable {c : Client} {k p q : Nat} {w : Waiter}

/-- What becomes of a promise when something happens to the client: an outcome is final, and its waiter
is told of it at most once, and not if it gave the waiting up. -/
structure Serves (c : Client) (p : Nat) (a : Act) (u v : Promise) : Prop where
  settled : u.settled = true → v.settled = true
  sound : u.IsSound → v.IsSound
  once : u.IsSound →
    (c.announces a).countP (Settled.resolves p) + v.waiting.toNat ≤ u.waiting.toNat
  kept : u.IsSound → a ≠ .dropWaiter p →
    (c.announces a).countP (Settled.resolves p) + v.waiting.toNat = u.waiting.toNat

theorem Serves.ofGrows {a : Act} {u v : Promise} (ha : c.announces a = []) (h : u.Grows v) :
    c.Serves p a u v := by
  have hsame : (c.announces a).countP (Settled.resolves p) + v.waiting.toNat = u.waiting.toNat := by
    simp [ha, h.waiting]
  exact ⟨h.settled, h.sound, fun _ => Nat.le_of_eq hsame, fun _ _ => hsame⟩

theorem mapWaiter_grows {f : Waiter → Waiter} (hf : ∀ w : Waiter, w.promise.Grows (f w).promise)
    (hw : c.waiters[p]? = some w) (q : Nat) :
    ∃ v, (c.mapWaiter q f).waiters[p]? = some v ∧ w.promise.Grows v.promise := by
  by_cases hq : q = p
  · exact ⟨f w, by simp [mapWaiter, hq, hw], hf w⟩
  · exact ⟨w, by simp [mapWaiter, hq, hw], .refl _⟩

theorem absorb_grows {α : Type} {t : Logged (Attempt × α)} {x : Connection} {u : Waiter}
    (hplace : t.value.1.connection.promise = x.promise) (hu : c.waiters[x.promise]? = some u)
    (hg : u.promise.Grows t.value.1.promise) (hw : c.waiters[p]? = some w) :
    ∃ v, (c.absorb k t).client.waiters[p]? = some v ∧ w.promise.Grows v.promise := by
  simp only [absorb, hplace]
  by_cases hp : x.promise = p
  · subst hp
    obtain rfl := Option.some.inj (hu.symm.trans hw)
    exact ⟨{ u with promise := t.value.1.promise }, by simp [hu], hg⟩
  · exact ⟨w, by simp [hp, hw], .refl _⟩

theorem readPromise_other (c : Client) (w : Waiter) (hq : q ≠ p) :
    (c.readPromise q w).1.waiters[p]? = c.waiters[p]?
      ∧ (c.readPromise q w).2.countP (Settled.resolves p) = 0 := by
  unfold readPromise
  split <;> simp [mapWaiter, hq, Settled.resolves]

theorem readPromise_self (hw : c.waiters[p]? = some w) :
    ∃ v, (c.readPromise p w).1.waiters[p]? = some v
      ∧ v.promise = (if w.promise.outcome.isSome then w.promise.leave else w.promise)
      ∧ (c.readPromise p w).2.countP (Settled.resolves p) = w.promise.outcome.isSome.toNat := by
  unfold readPromise
  split
  · rename_i ho
    exact ⟨w, hw, by simp [ho], by simp [ho]⟩
  · rename_i j ho
    exact ⟨{ w with promise := w.promise.leave }, by simp [mapWaiter, hw], by simp [ho],
      by simp [ho, Settled.resolves]⟩
  · rename_i fault ho
    exact ⟨{ w with promise := w.promise.leave, fault := some fault }, by simp [mapWaiter, hw],
      by simp [ho], by simp [ho, Settled.resolves]⟩

def readOne (read : Client × List Settled) (entry : Waiter × Nat) : Client × List Settled :=
  let one := read.1.readPromise entry.2 entry.1
  (one.1, read.2 ++ one.2)

theorem readPromises_others (entries : List (Waiter × Nat)) (hn : ∀ e ∈ entries, e.2 ≠ p)
    (read : Client × List Settled) :
    (entries.foldl readOne read).1.waiters[p]? = read.1.waiters[p]?
      ∧ (entries.foldl readOne read).2.countP (Settled.resolves p)
        = read.2.countP (Settled.resolves p) := by
  induction entries generalizing read with
  | nil => exact ⟨rfl, rfl⟩
  | cons e rest ih =>
      obtain ⟨hwaiters, hcount⟩ := ih (fun f hf => hn f (List.mem_cons_of_mem _ hf)) (readOne read e)
      obtain ⟨hother, hnone⟩ := read.1.readPromise_other e.1 (hn e List.mem_cons_self)
      refine ⟨hwaiters.trans hother, hcount.trans ?_⟩
      simp [readOne, hnone]

theorem readPromises_self (hw : c.waiters[p]? = some w) :
    ∃ v, c.readPromises.1.waiters[p]? = some v
      ∧ v.promise = (if w.promise.outcome.isSome then w.promise.leave else w.promise)
      ∧ c.readPromises.2.countP (Settled.resolves p) = w.promise.outcome.isSome.toNat := by
  obtain ⟨hp, hget⟩ := List.getElem?_eq_some_iff.1 hw
  have hsplit : c.waiters.zipIdx = (c.waiters.take p).zipIdx ++ (w, p)
      :: (c.waiters.drop (p + 1)).zipIdx (p + 1) := by
    conv_lhs => rw [← List.take_append_drop p c.waiters, List.drop_eq_getElem_cons hp, hget]
    simp [List.zipIdx_append, Nat.min_eq_left (Nat.le_of_lt hp)]
  have hbefore : ∀ e ∈ (c.waiters.take p).zipIdx, e.2 ≠ p := fun e he => by
    have := (List.mem_zipIdx he).2.1
    simp at this
    omega
  have hbehind : ∀ e ∈ (c.waiters.drop (p + 1)).zipIdx (p + 1), e.2 ≠ p := fun e he => by
    have := (List.mem_zipIdx he).1
    omega
  obtain ⟨hkept, hquiet⟩ := readPromises_others _ hbefore (c, [])
  generalize hread : (c.waiters.take p).zipIdx.foldl readOne (c, []) = read at hkept hquiet
  obtain ⟨v, hv, hpromise, hone⟩ := readPromise_self (c := read.1) (hkept.trans hw)
  obtain ⟨hlater, hsilent⟩ := readPromises_others _ hbehind (readOne read (w, p))
  have hall : c.readPromises
      = ((c.waiters.drop (p + 1)).zipIdx (p + 1)).foldl readOne (readOne read (w, p)) := by
    change c.waiters.zipIdx.foldl readOne (c, []) = _
    rw [hsplit, List.foldl_append, List.foldl_cons, hread]
  rw [hall]
  refine ⟨v, hlater.trans hv, hpromise, hsilent.trans ?_⟩
  simpa [readOne, hquiet] using hone

theorem release_grows (hw : c.waiters[p]? = some w) :
    ∃ v, c.release.waiters[p]? = some v ∧ w.promise.Grows v.promise := by
  simp only [release, List.getElem?_mapIdx, hw, Option.map_some, Option.some.injEq, exists_eq_left']
  split
  · exact .refl _
  · exact Promise.settle_grows _ _

theorem acceptances_told (p : Nat) (callers : List Caller) :
    (acceptances callers).countP (Settled.resolves p) = 0 := by
  refine List.countP_eq_zero.2 fun x hx => ?_
  obtain ⟨e, -, he⟩ := List.mem_filterMap.1 hx
  obtain ⟨b, -, rfl⟩ := Option.map_eq_some_iff.1 he
  simp [Settled.resolves]

theorem replies_told (settled : Nat → Reply → Settled)
    (hs : ∀ q reply, (settled q reply).resolves p = false) (callers : List Caller) :
    (replies settled callers).countP (Settled.resolves p) = 0 := by
  refine List.countP_eq_zero.2 fun x hx => ?_
  obtain ⟨e, -, he⟩ := List.mem_filterMap.1 hx
  obtain ⟨b, -, rfl⟩ := Option.map_eq_some_iff.1 he
  simp [hs]

theorem collect_told (c : Client) (p : Nat) :
    c.collect.2.countP (Settled.resolves p)
      = c.release.readPromises.2.countP (Settled.resolves p) := by
  simp [collect, acceptances_told, replies_told .response fun _ _ => rfl,
    replies_told .raw fun _ _ => rfl]

theorem collect_serves (hw : c.waiters[p]? = some w) :
    ∃ v, c.collect.1.waiters[p]? = some v ∧ c.Serves p .collect w.promise v.promise
      ∧ (w.promise.IsSound → w.promise.settled = true → v.promise.waiting = false) := by
  obtain ⟨u, hu, hgrows⟩ := release_grows hw
  obtain ⟨v, hv, hpromise, htold⟩ := readPromises_self hu
  have hcount := (c.collect_told p).trans htold
  have hsum (hs : w.promise.IsSound) :
      u.promise.outcome.isSome.toNat + v.promise.waiting.toNat = w.promise.waiting.toNat := by
    have hsound : u.promise.outcome.isSome = (u.promise.settled && u.promise.waiting) :=
      hgrows.sound hs
    rw [hpromise, ← hgrows.waiting]
    cases ho : u.promise.outcome.isSome with
    | false => simp
    | true =>
        rw [ho] at hsound
        simp [Promise.leave, (Bool.and_eq_true_iff.1 hsound.symm).2]
  refine ⟨v, hv, ?_, fun hs hsettled => ?_⟩
  · refine ⟨fun h => ?_, fun h => ?_, fun h => ?_, fun h _ => ?_⟩
    · have hsettled := hgrows.settled h
      rw [hpromise]
      split
      · exact hsettled
      · exact hsettled
    · rw [hpromise]
      split
      · exact Promise.leave_isSound _
      · exact hgrows.sound h
    · exact Nat.le_of_eq (hcount ▸ hsum h)
    · exact hcount ▸ hsum h
  · have hsound : w.promise.outcome.isSome = (w.promise.settled && w.promise.waiting) := hs
    rw [hpromise, hgrows.final hsettled]
    split
    · rfl
    · rename_i ho
      rw [hsettled, Bool.true_and] at hsound
      exact hsound.symm.trans (Bool.not_eq_true _ ▸ ho)

theorem act_serves (a : Act) (hw : c.waiters[p]? = some w) :
    ∃ v, (c.act a).waiters[p]? = some v ∧ c.Serves p a w.promise v.promise := by
  have hp : p < c.waiters.length := (List.getElem?_eq_some_iff.1 hw).1
  have hsame (d : Client) (a : Act) (ha : c.announces a = []) (hd : d.waiters[p]? = some w) :
      ∃ v, d.waiters[p]? = some v ∧ c.Serves p a w.promise v.promise :=
    ⟨w, hd, .ofGrows ha (.refl _)⟩
  have hgrown (d : Client) (a : Act) (ha : c.announces a = [])
      (hd : ∃ v, d.waiters[p]? = some v ∧ w.promise.Grows v.promise) :
      ∃ v, d.waiters[p]? = some v ∧ c.Serves p a w.promise v.promise :=
    hd.imp fun v hv => ⟨hv.1, .ofGrows ha hv.2⟩
  cases a with
  | channel | cancel | feed | touch | fireAll | dropTransport | dropSink | dropFuture
  | takeFault => exact hsame _ _ rfl hw
  | promise => exact hsame _ _ rfl ((List.getElem?_append_left hp).trans hw)
  | connect builder clock channel closesAtOnce speaksHttp1 q =>
      refine hsame _ _ rfl ?_
      rcases c.connected_cases builder clock channel closesAtOnce speaksHttp1 q with he | ⟨-, s, -, he⟩
      · rw [act, he, hw]
      · rw [act, he]
        exact hw
  | send k event times =>
      refine hsame _ _ rfl ?_
      simp only [act, send]
      split <;> exact hw
  | dispatch handle options request =>
      rcases c.dispatch_cases handle options request with he | ⟨j, z, u, hz, hu, he⟩
      · exact hsame _ _ rfl (by rw [act, he]; exact hw)
      · refine hgrown _ _ rfl ?_
        have hplace : (z.submit ⟨options, request, c.callers.length⟩).value.promise = z.promise := by
          unfold Connection.submit
          split <;> rfl
        rw [act, he]
        exact absorb_grows (c := c.caller) hplace hu (.refl _) hw
  | poll k clock =>
      cases ha : c.attempt? k with
      | none => exact hsame _ _ rfl (by simpa [act, poll, turn, ha] using hw)
      | some b =>
          obtain ⟨x, u, -, hu, rfl⟩ := attempt?_eq_some ha
          have hpoll := (Attempt.poll_polls ⟨x, u.promise⟩ clock c.isGone).hears
          refine hgrown _ _ rfl ?_
          simp only [act, poll, turn, ha, Option.map_some, Option.getD_some]
          refine absorb_grows hpoll.place hu ?_ hw
          rw [hpoll.promise]
          exact Promise.heard_grows _ _ _
  | drop k crashed =>
      cases ha : c.attempt? k with
      | none => exact hsame _ _ rfl (by simpa [act, dropConnection, turn, ha] using hw)
      | some b =>
          obtain ⟨x, u, -, hu, rfl⟩ := attempt?_eq_some ha
          refine hgrown _ _ rfl ?_
          simp only [act, dropConnection, turn, ha, Option.map_some, Option.getD_some]
          exact absorb_grows rfl hu (.refl _) hw
  | dropHandle handle =>
      refine hsame _ _ rfl ?_
      simp only [act, dropHandle]
      split <;> exact hw
  | fail q fault => exact hgrown _ _ rfl (mapWaiter_grows (fun _ => Promise.settle_grows _ _) hw q)
  | offer q handle =>
      have hsettled (k : Nat) := mapWaiter_grows
        (f := fun u => { u with promise := u.promise.settle (.handle k) })
        (fun _ => Promise.settle_grows _ _) hw q
      refine hgrown _ _ rfl ?_
      simp only [act, offer]
      split
      · split <;> exact hsettled _
      · exact ⟨w, hw, .refl _⟩
  | dropPromise q =>
      exact hgrown _ _ rfl
        (mapWaiter_grows (f := fun u => { u with held := false }) (fun _ => .refl _) hw q)
  | takeRefusal q =>
      exact hgrown _ _ rfl
        (mapWaiter_grows (f := fun u => { u with fault := none }) (fun _ => .refl _) hw q)
  | dropWaiter q =>
      by_cases hq : q = p
      · subst hq
        refine ⟨{ w with promise := w.promise.leave }, by simp [act, dropWaiter, mapWaiter, hw], ?_⟩
        exact ⟨id, fun _ => Promise.leave_isSound _, fun _ => by simp [announces, Promise.leave],
          fun _ hn => absurd rfl hn⟩
      · exact hsame _ _ rfl (by simp [act, dropWaiter, mapWaiter, hq, hw])
  | collect =>
      obtain ⟨v, hv, hserves, -⟩ := collect_serves hw
      exact ⟨v, hv, hserves⟩

end Client

end HttpSession
