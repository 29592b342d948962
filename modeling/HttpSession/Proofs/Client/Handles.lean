import HttpSession.Proofs.Client.Establishment
import HttpSession.Proofs.Connection.Flag
import HttpSession.Proofs.Session.Negotiation

namespace HttpSession

open Happening (deeds worked)

namespace Promise

theorem outcome_of_settle {p : Promise} {first second : Establishment}
    (h : (p.settle first).outcome = some second) : p.outcome = some second ∨ first = second := by
  unfold settle at h
  split at h
  · exact .inl h
  · dsimp only at h
    split at h
    · exact .inr (Option.some.inj h)
    · simp at h

theorem offer_of_heard {id k : Nat} {actions : List Action} {p : Promise}
    (h : (actions.foldl (hear id) p).outcome = some (.handle k)) :
    p.outcome = some (.handle k) ∨ id = k ∧ .offer ∈ actions := by
  induction actions generalizing p with
  | nil => exact .inl h
  | cons a rest ih =>
      rcases ih h with hp | ⟨hid, hin⟩
      · unfold hear at hp
        split at hp
        · rcases outcome_of_settle hp with hp | he
          · exact .inl hp
          · exact .inr ⟨Establishment.handle.inj he, by simp⟩
        · rcases outcome_of_settle hp with hp | he
          · exact .inl hp
          · simp at he
        · exact .inl hp
      · exact .inr ⟨hid, List.mem_cons_of_mem a hin⟩

end Promise

namespace Client

variable {c d : Client} {k : Nat} {x : Connection} {log : List Entry}

/-- Somebody has a handle on connection `k`, or finds one when looking. -/
def Introduced (c : Client) (k : Nat) : Prop :=
  some k ∈ c.handles ∨ ∃ (p : Nat) (w : Waiter), c.waiters[p]? = some w
    ∧ w.promise.outcome = some (.handle k)

namespace Introduced

theorem ofSame (h : d.Introduced k) (hh : d.handles = c.handles) (hw : d.waiters = c.waiters) :
    c.Introduced k := by
  unfold Introduced at h ⊢
  rwa [hh, hw] at h

theorem ofMapWaiter {q : Nat} {f : Waiter → Waiter} (h : (c.mapWaiter q f).Introduced k)
    (hf : ∀ w, (f w).promise.outcome = some (.handle k) → w.promise.outcome = some (.handle k)) :
    c.Introduced k := by
  rcases h with h | ⟨p, v, hv, ho⟩
  · exact .inl h
  · simp only [mapWaiter, List.getElem?_modify, Option.map_eq_map,
      Option.map_eq_some_iff] at hv
    obtain ⟨w, hw, rfl⟩ := hv
    refine .inr ⟨p, w, hw, ?_⟩
    split at ho
    · exact hf w ho
    · exact ho

theorem ofAbsorb {α : Type} {j : Nat} {t : Logged (Attempt × α)}
    (h : (c.absorb j t).client.Introduced k) :
    c.Introduced k ∨ t.value.1.promise.outcome = some (.handle k) := by
  rcases h with h | ⟨p, v, hv, ho⟩
  · exact .inl (.inl h)
  · simp only [absorb, List.getElem?_modify, Option.map_eq_map,
      Option.map_eq_some_iff] at hv
    obtain ⟨w, hw, rfl⟩ := hv
    split at ho
    · exact .inr ho
    · exact .inl (.inr ⟨p, w, hw, ho⟩)

end Introduced

theorem readPromises_introduced (h : c.readPromises.1.Introduced k) : c.Introduced k := by
  have hfold (entries : List (Waiter × Nat)) (hin : ∀ e ∈ entries, c.waiters[e.2]? = some e.1)
      (read : Client × List Settled) (hr : read.1.Introduced k → c.Introduced k) :
      (entries.foldl readOne read).1.Introduced k → c.Introduced k := by
    induction entries generalizing read with
    | nil => exact hr
    | cons e rest ih =>
        refine ih (fun f hf => hin f (List.mem_cons_of_mem e hf)) _ fun hone => ?_
        simp only [readOne, readPromise] at hone
        split at hone
        · exact hr hone
        · rename_i j ho
          have hone := hone.ofMapWaiter fun w hw => by simp [Promise.leave] at hw
          rcases hone with hone | hone
          · rcases List.mem_append.1 hone with hone | hone
            · exact hr (.inl hone)
            · obtain rfl := Option.some.inj (List.mem_singleton.1 hone)
              exact .inr ⟨e.2, e.1, hin e List.mem_cons_self, ho⟩
          · exact hr (.inr hone)
        · exact hr (hone.ofMapWaiter fun w hw => by simp [Promise.leave] at hw)
  refine hfold c.waiters.zipIdx (fun e he => ?_) (c, []) id h
  exact List.mem_zipIdx_iff_getElem?.1 he

theorem release_introduced (h : c.release.Introduced k) : c.Introduced k := by
  rcases h with h | ⟨p, v, hv, ho⟩
  · exact .inl h
  · simp only [release, List.getElem?_mapIdx, Option.map_eq_some_iff] at hv
    obtain ⟨w, hw, rfl⟩ := hv
    refine .inr ⟨p, w, hw, ?_⟩
    split at ho
    · exact ho
    · exact (Promise.outcome_of_settle ho).resolve_right (by simp)

theorem act_introduced {a : Act} (h : (c.act a).Introduced k) :
    c.Introduced k ∨ ∃ j clock x, a = .poll j clock ∧ c.connections[j]? = some x ∧ x.id = k
      ∧ .offer ∈ c.does j a := by
  cases a with
  | channel | cancel | feed | touch | fireAll | dropTransport | dropSink | dropFuture
  | takeFault => exact .inl (h.ofSame rfl rfl)
  | promise =>
      rcases h with h | ⟨p, w, hw, ho⟩
      · exact .inl (.inl h)
      · simp only [act, Client.promise, List.getElem?_append] at hw
        split at hw
        · exact .inl (.inr ⟨p, w, hw, ho⟩)
        · obtain rfl := List.mem_singleton.1 (List.mem_of_getElem? hw)
          simp [Waiter.new, Promise.new] at ho
  | connect builder clock channel closesAtOnce speaksHttp1 q =>
      refine .inl ?_
      rcases c.connected_cases builder clock channel closesAtOnce speaksHttp1 q with he | ⟨-, s, -, he⟩
      · rwa [act, he] at h
      · rw [act, he] at h
        exact h.ofSame rfl rfl
  | send j event times =>
      simp only [act, send] at h
      split at h
      · exact .inl (h.ofSame rfl rfl)
      · exact .inl h
  | poll j clock =>
      cases ha : c.attempt? j with
      | none => exact .inl (by simpa [act, poll, turn, ha] using h)
      | some b =>
          obtain ⟨x, u, hx, hu, rfl⟩ := attempt?_eq_some ha
          have hpoll := (Attempt.poll_polls ⟨x, u.promise⟩ clock c.isGone).hears
          simp only [act, poll, turn, ha, Option.map_some, Option.getD_some] at h
          rcases h.ofAbsorb with h | ho
          · exact .inl h
          · rw [hpoll.promise] at ho
            rcases Promise.offer_of_heard ho with ho | ⟨hid, hin⟩
            · exact .inl (.inr ⟨x.promise, u, hu, ho⟩)
            · exact .inr ⟨j, clock, x, rfl, hx, hid, by simpa [does, logs, ha] using hin⟩
  | drop j crashed =>
      cases ha : c.attempt? j with
      | none => exact .inl (by simpa [act, dropConnection, turn, ha] using h)
      | some b =>
          obtain ⟨x, u, -, hu, rfl⟩ := attempt?_eq_some ha
          simp only [act, dropConnection, turn, ha, Option.map_some, Option.getD_some] at h
          rcases h.ofAbsorb with h | ho
          · exact .inl h
          · exact .inl (.inr ⟨x.promise, u, hu, ho⟩)
  | dispatch handle options request =>
      rcases c.dispatch_cases handle options request with he | ⟨j, z, u, -, hu, he⟩
      · exact .inl (by rwa [act, he] at h)
      · rw [act, he] at h
        rcases h.ofAbsorb (c := c.caller) with h | ho
        · exact .inl (h.ofSame rfl rfl)
        · exact .inl (.inr ⟨z.promise, u, hu, ho⟩)
  | dropHandle handle =>
      refine .inl ?_
      simp only [act, dropHandle] at h
      split at h
      · rcases h with h | h
        · exact .inl ((List.mem_or_eq_of_mem_set h).resolve_right (by simp))
        · exact .inr h
      · exact h
  | fail q fault =>
      exact .inl (h.ofMapWaiter fun w hw => (Promise.outcome_of_settle hw).resolve_right (by simp))
  | offer q handle =>
      refine .inl ?_
      simp only [act, offer] at h
      split at h
      · rename_i j u hj hu
        have hhandle : some j ∈ c.handles := by
          unfold connectionOf? at hj
          exact List.mem_of_getElem? (Option.join_eq_some_iff.1 hj)
        have hstep (h : (c.mapWaiter q fun w =>
            { w with promise := w.promise.settle (.handle j) }).Introduced k) : c.Introduced k := by
          by_cases hk : j = k
          · exact hk ▸ .inl hhandle
          · refine h.ofMapWaiter fun w hw => (Promise.outcome_of_settle hw).resolve_right ?_
            simpa using hk
        split at h
        · exact hstep (h.ofSame rfl rfl)
        · exact hstep h
      · exact h
  | dropPromise q => exact .inl (h.ofMapWaiter fun _ hw => hw)
  | takeRefusal q => exact .inl (h.ofMapWaiter fun _ hw => hw)
  | dropWaiter q => exact .inl (h.ofMapWaiter fun w hw => by simp [Promise.leave] at hw)
  | collect =>
      have hread : c.release.readPromises.1.Introduced k := h.ofSame rfl rfl
      exact .inl (release_introduced (readPromises_introduced hread))

theorem run_numbered (acts : List Act) (k : Nat) {x : Connection}
    (hx : (new.run acts).connections[k]? = some x) : x.id = k := by
  induction acts using List.reverseRecOn generalizing x with
  | nil => simp [run, new] at hx
  | append_singleton acts a ih =>
      rw [run_concat] at hx
      cases hz : (new.run acts).connections[k]? with
      | none => exact (act_born hz hx).1
      | some z =>
          obtain ⟨y, hy, hid, -⟩ := ((run_lives acts k).1 z hz).act hz a
          obtain rfl := Option.some.inj (hy.symm.trans hx)
          exact hid.trans (ih hz)

theorem run_introduced (acts : List Act) (h : (new.run acts).Introduced k) :
    .offer ∈ new.did k acts := by
  induction acts using List.reverseRecOn with
  | nil => simp [run, new, Introduced] at h
  | append_singleton acts a ih =>
      rw [run_concat] at h
      rw [did_concat, List.mem_append]
      rcases act_introduced h with h | ⟨j, clock, x, rfl, hx, hid, hoffer⟩
      · exact .inl (ih h)
      · obtain rfl : j = k := (run_numbered acts j hx).symm.trans hid
        exact .inr hoffer

theorem Lives.protocol_of_offer (h : c.Lives x log) (offered : .offer ∈ Entry.actions log) :
    ∃ p, x.session.protocol = some p := by
  obtain ⟨s, hnew, hsession, hdeeds⟩ := h.worked
  have hdeed : .offer ∈ (Entry.actions log).filter Action.isDeed := List.mem_filter.2 ⟨offered, rfl⟩
  rw [hdeeds] at hdeed
  rw [hsession]
  exact Option.ne_none_iff_exists'.1 (hnew.protocol_of_offered (List.mem_filter.1 hdeed).1)

theorem run_exists (acts : List Act) (offered : .offer ∈ new.did k acts) :
    ∃ x, (new.run acts).connections[k]? = some x := by
  cases hx : (new.run acts).connections[k]? with
  | some x => exact ⟨x, rfl⟩
  | none =>
      simp [did, (run_lives acts k).2 hx] at offered

/-- A connection negotiates once, whatever happens to it and in whichever order, and whoever has a handle
on it finds there the protocol that was agreed on. -/
theorem negotiated_once (acts : List Act) :
    let c := new.run acts
    ∀ k, (∀ x, c.connections[k]? = some x → ∃ s : Session, s.IsNew
        ∧ x.session = s.after (new.heard k acts)
        ∧ (new.did k acts).filter Action.isDeed = worked (s.history (new.heard k acts))
        ∧ s.Negotiates (new.heard k acts))
      ∧ (c.Introduced k → ∃ x p, c.connections[k]? = some x ∧ x.session.protocol = some p) := by
  intro c k
  constructor
  · intro x hx
    obtain ⟨s, hnew, hsession, hdeeds⟩ := ((run_lives acts k).1 x hx).worked
    exact ⟨s, hnew, hsession, hdeeds, hnew.negotiates _⟩
  · intro h
    have hoffer := run_introduced acts h
    obtain ⟨x, hx⟩ := run_exists acts hoffer
    obtain ⟨p, hp⟩ := ((run_lives acts k).1 x hx).protocol_of_offer hoffer
    exact ⟨x, p, hx, hp⟩

def timely : List Act :=
  [.promise, .connect { Builder.new with timer := .present } (.steady 0)
      (Session.blank maxDispatches).channel false true 0,
    .send 0 (.negotiated .h1) 1, .poll 0 (.steady 0), .collect,
    .poll 0 (.steady defaultNegotiationTimeout)]

theorem negotiated_once_timely :
    let c := new.run timely
    (∃ (x : Connection) (s : Session) (p : Protocol), c.connections[0]? = some x
        ∧ x.session = s.after (new.heard 0 timely)
        ∧ s.Negotiates (new.heard 0 timely) ∧ x.session.protocol = some p)
      ∧ (((new.run (timely.take 3)).connections[0]?).any fun x => x.session.negotiation.isSome) = true
      ∧ ((c.connections[0]?).any fun x => x.session.negotiation.isNone && x.life == .running) = true := by
  have handed : (new.run timely).Introduced 0 := .inl (by decide +kernel)
  obtain ⟨hheard, hreports⟩ := negotiated_once timely 0
  obtain ⟨x, p, hx, hp⟩ := hreports handed
  obtain ⟨s, -, hsession, -, hnegotiates⟩ := hheard x hx
  exact ⟨⟨x, s, p, hx, hsession, hnegotiates, hp⟩, by decide +kernel, by decide +kernel⟩

end Client

end HttpSession
