import HttpSession.Proofs.Client.Promises

namespace HttpSession

open Happening (deeds worked)

namespace Session

variable {s : Session}

theorem IsSound.after (hs : s.IsSound) (inputs : List Input) : (s.after inputs).IsSound := by
  induction inputs generalizing s with
  | nil => exact hs
  | cons i rest ih => exact ih ((hs.respond i).ofChannel _)

theorem after_fallback (h : s.status.fallback = true) (inputs : List Input) :
    (s.after inputs).status.fallback = true := by
  induction inputs generalizing s with
  | nil => exact h
  | cons i rest ih => exact ih (respond_fallback h i)

end Session

namespace Client

variable {c : Client} {k p : Nat} {x : Connection} {log more : List Entry}

/-- What holds of a connection of a client at any time, by what it logged. -/
structure Lives (c : Client) (x : Connection) (log : List Entry) : Prop where
  born : ∃ s : Session, s.IsNew ∧ x.session = s.after (Entry.inputs log)
    ∧ Entry.happenings log = s.history (Entry.inputs log)
  notices : Entry.NoticesOnly log
  running : x.life = .running → x.session.transportClosed = false
  served : ∃ w, c.waiters[x.promise]? = some w
    ∧ (x.life = .finished → Attempt.TakesLeave ⟨x, w.promise⟩ (Entry.actions log))

def LivesOn (c : Client) (k : Nat) (x : Connection) (a : Act) (log : List Entry) : Prop :=
  ∃ y, (c.act a).connections[k]? = some y ∧ y.id = x.id ∧ y.promise = x.promise
    ∧ (c.act a).Lives y (log ++ c.logs k a)

theorem Lives.worked (h : c.Lives x log) : ∃ s : Session, s.IsNew ∧ x.session = s.after (Entry.inputs log)
    ∧ (Entry.actions log).filter Action.isDeed = worked (s.history (Entry.inputs log)) := by
  obtain ⟨s, hnew, hsession, hhistory⟩ := h.born
  refine ⟨s, hnew, hsession, ?_⟩
  rw [← hhistory]
  exact Entry.filter_actions h.notices Action.isDeed_of_isNotice

theorem isDeed_of_isConnect (a : Action) (h : a.isConnect = true) : a.isDeed = true := by
  cases a with
  | answer | accept => simp [Action.isConnect] at h
  | _ => rfl

theorem Lives.at_most_once (h : c.Lives x log) :
    (Entry.actions log).count .offer ≤ 1 ∧ (Entry.actions log).countP Action.isConnect ≤ 1 := by
  obtain ⟨s, -, -, hdeeds⟩ := h.worked
  refine ⟨?_, ?_⟩
  · rw [← List.count_filter (p := Action.isDeed) rfl, hdeeds, Happening.worked, List.count_filter rfl]
    exact s.offers_le_one _
  · rw [← countP_connects isDeed_of_isConnect, hdeeds, Happening.worked,
      countP_connects isDeed_of_isConnect]
    exact s.connects_le_one _

theorem Lives.idled (h : c.Lives x log) (hx : c.connections[k]? = some x) {a : Act}
    (ha : a.isTurn = false) : c.LivesOn k x a log := by
  obtain ⟨y, hy, hidles⟩ := c.act_idles a ha hx
  obtain ⟨s, hnew, hsession, hhistory⟩ := h.born
  obtain ⟨w, hw, hleft⟩ := h.served
  obtain ⟨v, hv, hserves⟩ := c.act_serves a hw
  refine ⟨y, hy, hidles.id, hidles.promise, ⟨s, hnew, ?_, ?_⟩,
    Entry.noticesOnly_append.2 ⟨h.notices, hidles.notices⟩, fun hr => ?_, v, hidles.promise ▸ hv,
    fun hf => ?_⟩
  · rw [hidles.session, hsession, Entry.inputs_append, Session.after_append]
  · rw [Entry.happenings_append, Entry.inputs_append, hhistory, hidles.happenings, hsession,
      Session.history_append]
  · rw [hidles.open_]
    exact h.running (hidles.life ▸ hr)
  · rw [Entry.actions_append, hidles.silent, List.append_nil]
    rcases hleft (hidles.life ▸ hf) with hsettled | ⟨hfallback, hconnect⟩
    · exact .inl (hserves.settled hsettled)
    · refine .inr ⟨?_, hconnect⟩
      rw [show Connection.session _ = y.session from rfl, hidles.session]
      exact Session.after_fallback hfallback _

theorem Lives.turned {α : Type} {t : Logged (Attempt × α)} {w : Waiter}
    (h : c.Lives x log) (hx : c.connections[k]? = some x) (hw : c.waiters[x.promise]? = some w)
    (ht : Attempt.Hears ⟨x, w.promise⟩ (Entry.inputs t.log) t.log t.value.1)
    (hr : t.value.1.connection.life = .running →
      t.value.1.connection.session.transportClosed = false)
    (hf : t.value.1.connection.life = .finished →
      t.value.1.TakesLeave (Entry.actions log ++ Entry.actions t.log)) :
    (c.absorb k t).client.connections[k]? = some t.value.1.connection
      ∧ t.value.1.connection.id = x.id ∧ t.value.1.connection.promise = x.promise
      ∧ (c.absorb k t).client.Lives t.value.1.connection (log ++ t.log) := by
  obtain ⟨s, hnew, hsession, hhistory⟩ := h.born
  have hk : k < c.connections.length := (List.getElem?_eq_some_iff.1 hx).1
  have hplace : t.value.1.connection.promise = x.promise := ht.place
  refine ⟨List.getElem?_set_self hk, ht.id, hplace, ⟨s, hnew, ?_, ?_⟩,
    Entry.noticesOnly_append.2 ⟨h.notices, ht.notices⟩, hr,
    { w with promise := t.value.1.promise }, by simp [absorb, hplace, hw], ?_⟩
  · rw [ht.session, hsession, Entry.inputs_append, Session.after_append]
  · rw [Entry.happenings_append, Entry.inputs_append, hhistory, ht.happenings, hsession,
      Session.history_append]
  · rw [Entry.actions_append]
    exact hf

theorem Lives.polled (h : c.Lives x log) (hx : c.connections[k]? = some x) (clock : Clock) :
    c.LivesOn k x (.poll k clock) log := by
  obtain ⟨w, hw, hleft⟩ := h.served
  have ha : c.attempt? k = some ⟨x, w.promise⟩ := by simp [attempt?, hx, hw]
  have hpolls := Attempt.poll_polls ⟨x, w.promise⟩ clock c.isGone
  have hends := hpolls.ends h.running hleft
  simp only [LivesOn, act, poll, turn, logs, ha, if_true, Option.map_some, Option.getD_some]
  exact ⟨_, h.turned hx hw hpolls.hears hends.1 hends.2⟩

theorem Lives.dropped (h : c.Lives x log) (hx : c.connections[k]? = some x) (crashed : Bool) :
    c.LivesOn k x (.drop k crashed) log := by
  obtain ⟨w, hw, hleft⟩ := h.served
  have ha : c.attempt? k = some ⟨x, w.promise⟩ := by simp [attempt?, hx, hw]
  have hdrop := Attempt.drop_hears ⟨x, w.promise⟩ crashed
  have hturn : (do
        let connection ← x.drop crashed
        return ((⟨connection, w.promise⟩ : Attempt), ()))
      = (⟨(⟨(x.drop crashed).value, w.promise⟩, ()), (x.drop crashed).log⟩ :
        Logged (Attempt × Unit)) :=
    congrArg (Logged.mk _) (List.append_nil _)
  simp only [LivesOn, act, dropConnection, turn, logs, ha, if_true, Option.map_some,
    Option.getD_some, hturn]
  exact ⟨_, h.turned hx hw (hdrop.heard ▸ hdrop) (fun hr => Life.noConfusion hr)
    (fun hf => Life.noConfusion hf)⟩

theorem attempt?_of_none (hx : c.connections[k]? = none) : c.attempt? k = none := by
  simp [attempt?, hx]

theorem still_of_none (hx : c.connections[k]? = none) (a : Act) : c.logs k a = [] := by
  have hk : ¬k < c.connections.length := by simpa using hx
  cases a <;> simp [logs, attempt?_of_none hx, hk]

theorem Lives.beside (h : c.Lives x log) (hx : c.connections[k]? = some x) {j : Nat}
    (hj : j ≠ k) {a : Act} (ha : c.act a = c ∨ ∃ (α : Type) (t : Logged (Attempt × α)),
      c.act a = (c.absorb j t).client) (hquiet : c.logs k a = []) : c.LivesOn k x a log := by
  obtain ⟨w, hw, hleft⟩ := h.served
  obtain ⟨v, hv, hserves⟩ := c.act_serves a hw
  have hsame : (c.act a).connections[k]? = some x := by
    rcases ha with he | ⟨α, t, he⟩
    · rw [he, hx]
    · rw [he]
      simpa [absorb, hj] using hx
  rw [LivesOn, hquiet, List.append_nil]
  exact ⟨x, hsame, rfl, rfl, h.born, h.notices, h.running, v, hv,
    fun hf => (hleft hf).imp_left hserves.settled⟩

theorem Lives.act (h : c.Lives x log) (hx : c.connections[k]? = some x) (a : Act) :
    c.LivesOn k x a log := by
  cases ha : a.isTurn with
  | false => exact h.idled hx ha
  | true =>
      cases a with
      | poll j clock =>
          by_cases hj : j = k
          · exact hj ▸ h.polled (hj ▸ hx) clock
          · refine h.beside hx hj ?_ (by simp [logs, hj])
            cases ht : c.attempt? j with
            | none => exact .inl (by simp [Client.act, poll, turn, ht])
            | some b => exact .inr ⟨_, _, by simp [Client.act, poll, turn, ht]; rfl⟩
      | drop j crashed =>
          by_cases hj : j = k
          · exact hj ▸ h.dropped (hj ▸ hx) crashed
          · refine h.beside hx hj ?_ (by simp [logs, hj])
            cases ht : c.attempt? j with
            | none => exact .inl (by simp [Client.act, dropConnection, turn, ht])
            | some b => exact .inr ⟨_, _, by simp [Client.act, dropConnection, turn, ht]; rfl⟩
      | _ => simp [Act.isTurn] at ha

def Act.adds : Act → Bool
  | .promise | .connect _ _ _ _ _ _ => true
  | _ => false

theorem act_lengths (c : Client) {a : Act} (ha : a.adds = false) :
    (c.act a).connections.length = c.connections.length
      ∧ (c.act a).waiters.length = c.waiters.length := by
  cases a with
  | promise | connect => simp [Act.adds] at ha
  | channel | cancel | dropSink | dropFuture | takeFault => exact ⟨rfl, rfl⟩
  | fail | dropPromise | dropWaiter | takeRefusal => exact ⟨rfl, List.length_modify _ _ _⟩
  | touch | dropTransport => exact ⟨List.length_modify _ _ _, rfl⟩
  | feed | fireAll => exact ⟨List.length_map _, rfl⟩
  | send k event times =>
      simp only [act, send]
      split
      · exact ⟨List.length_modify _ _ _, rfl⟩
      · exact ⟨rfl, rfl⟩
  | poll k clock =>
      cases ht : c.attempt? k <;> simp [act, poll, turn, ht, absorb]
  | drop k crashed =>
      cases ht : c.attempt? k <;> simp [act, dropConnection, turn, ht, absorb]
  | dispatch handle options request =>
      rcases c.dispatch_cases handle options request with he | ⟨j, z, w, -, -, he⟩ <;>
        simp [act, he, absorb, caller]
  | dropHandle handle =>
      simp only [act, dropHandle]
      split
      · exact ⟨List.length_modify _ _ _, rfl⟩
      · exact ⟨rfl, rfl⟩
  | offer p handle =>
      simp only [act, offer]
      split
      · split <;> simp [mapWaiter, mapConnection]
      · exact ⟨rfl, rfl⟩
  | collect => exact ⟨congrArg List.length c.collect_reads.connections, c.collect_reads.waiters⟩

theorem act_born {a : Act} {y : Connection} (hx : c.connections[k]? = none)
    (hy : (c.act a).connections[k]? = some y) : y.id = k ∧ (c.act a).Lives y [] := by
  have hk : c.connections.length ≤ k := List.getElem?_eq_none_iff.1 hx
  have hk' : k < (c.act a).connections.length := (List.getElem?_eq_some_iff.1 hy).1
  cases ha : a.adds with
  | false =>
      rw [(c.act_lengths ha).1] at hk'
      exact absurd hk' (by omega)
  | true =>
      cases a with
      | promise => exact absurd (hx.symm.trans hy) (by simp)
      | connect builder clock channel closesAtOnce speaksHttp1 p =>
          rcases c.connected_cases builder clock channel closesAtOnce speaksHttp1 p with
            he | ⟨hp, s, hnew, he⟩
          · rw [act, he, hx] at hy
            simp at hy
          · rw [act, he] at hy hk' ⊢
            have hlast : k = c.connections.length := by
              simp at hk'
              omega
            obtain rfl : Connection.new c.connections.length p s closesAtOnce = y := by
              simpa [hlast] using hy
            obtain ⟨-, -, -, hopen⟩ := hnew.start
            exact ⟨hlast.symm, ⟨s, hnew, rfl, rfl⟩, by simp, fun _ => hopen, c.waiters[p],
              List.getElem?_eq_getElem hp, fun hf => Life.noConfusion hf⟩
      | _ => simp [Act.adds] at ha

theorem run_lives (acts : List Act) (k : Nat) :
    (∀ x, (new.run acts).connections[k]? = some x → (new.run acts).Lives x (new.logged k acts))
      ∧ ((new.run acts).connections[k]? = none → new.logged k acts = []) := by
  induction acts using List.reverseRecOn with
  | nil => exact ⟨fun x hx => by simp [run, new] at hx, fun _ => rfl⟩
  | append_singleton acts a ih =>
      rw [run_concat, logged_concat]
      cases hx : (new.run acts).connections[k]? with
      | none =>
          rw [ih.2 hx, still_of_none hx a]
          exact ⟨fun y hy => (act_born hx hy).2, fun _ => rfl⟩
      | some x =>
          obtain ⟨y, hy, -, -, hlives⟩ := (ih.1 x hx).act hx a
          rw [hy]
          refine ⟨fun z hz => ?_, fun hn => absurd hn (Option.some_ne_none _)⟩
          obtain rfl := Option.some.inj hz
          exact hlives

theorem announces_of_none (hw : c.waiters[p]? = none) (a : Act) :
    (c.announces a).countP (Settled.resolves p) = 0 := by
  cases a with
  | collect =>
      have hp : c.release.waiters.length ≤ p := by simpa [release] using hw
      refine (c.collect_told p).trans (readPromises_others _ (fun e he => ?_) (c.release, [])).2
      have := (List.mem_zipIdx he).2.1
      omega
  | _ => rfl

theorem act_awaited {a : Act} {w : Waiter} (hw : c.waiters[p]? = none)
    (hv : (c.act a).waiters[p]? = some w) : w = Waiter.new := by
  have hp : c.waiters.length ≤ p := List.getElem?_eq_none_iff.1 hw
  have hp' : p < (c.act a).waiters.length := (List.getElem?_eq_some_iff.1 hv).1
  cases ha : a.adds with
  | false =>
      rw [(c.act_lengths ha).2] at hp'
      exact absurd hp' (by omega)
  | true =>
      cases a with
      | promise =>
          have hlast : p = c.waiters.length := by
            simp [act, Client.promise] at hp'
            omega
          simpa [act, Client.promise, hlast, eq_comm] using hv
      | connect builder clock channel closesAtOnce speaksHttp1 q =>
          rcases c.connected_cases builder clock channel closesAtOnce speaksHttp1 q with he | ⟨-, s, -, he⟩ <;>
            simp [act, he, hw] at hv
      | _ => simp [Act.adds] at ha

theorem run_serves (acts : List Act) (p : Nat) :
    (∀ w, (new.run acts).waiters[p]? = some w → w.promise.IsSound
        ∧ (new.announced acts).countP (Settled.resolves p) + w.promise.waiting.toNat ≤ 1
        ∧ (.dropWaiter p ∉ acts →
          (new.announced acts).countP (Settled.resolves p) + w.promise.waiting.toNat = 1))
      ∧ ((new.run acts).waiters[p]? = none →
        (new.announced acts).countP (Settled.resolves p) = 0) := by
  induction acts using List.reverseRecOn with
  | nil => exact ⟨fun w hw => by simp [run, new] at hw, fun _ => rfl⟩
  | append_singleton acts a ih =>
      rw [run_concat, announced_concat, List.countP_append]
      cases hw : (new.run acts).waiters[p]? with
      | none =>
          rw [ih.2 hw, announces_of_none hw]
          refine ⟨fun v hv => ?_, fun _ => rfl⟩
          rw [act_awaited hw hv]
          exact ⟨Promise.new_isSound, Nat.le_refl 1, fun _ => rfl⟩
      | some w =>
          obtain ⟨hsound, honce, hkept⟩ := ih.1 w hw
          obtain ⟨v, hv, hserves⟩ := act_serves a hw
          rw [hv]
          refine ⟨fun u hu => ?_, fun hn => absurd hn (Option.some_ne_none _)⟩
          obtain rfl := Option.some.inj hu
          have hbound := hserves.once hsound
          refine ⟨hserves.sound hsound, by omega, fun hn => ?_⟩
          rw [List.mem_append, not_or, List.mem_singleton] at hn
          have hbefore := hkept hn.1
          have hnow := hserves.kept hsound (Ne.symm hn.2)
          omega

theorem Lives.run (h : c.Lives x log) (hx : c.connections[k]? = some x) (acts : List Act) :
    ∃ y, (c.run acts).connections[k]? = some y ∧ y.promise = x.promise := by
  induction acts generalizing c x log with
  | nil => exact ⟨x, hx, rfl⟩
  | cons a rest ih =>
      obtain ⟨y, hy, -, hplace, hlives⟩ := h.act hx a
      obtain ⟨z, hz, hlater⟩ := ih hlives hy
      exact ⟨z, hz, hlater.trans hplace⟩

theorem retriesOf_eq (p : Nat) (actions : List Action) :
    retriesOf p (callsOf actions) = List.replicate (actions.countP Action.isConnect) p := by
  induction actions with
  | nil => rfl
  | cons a rest ih =>
      have hother (ha : a.isConnect = false)
          (hr : retriesOf p (callsOf (a :: rest)) = retriesOf p (callsOf rest)) :
          retriesOf p (callsOf (a :: rest))
            = List.replicate ((a :: rest).countP Action.isConnect) p := by
        rw [List.countP_cons_of_neg (by simp [ha]), hr, ih]
      cases a with
      | call call =>
          cases call with
          | connect =>
              rw [List.countP_cons_of_pos rfl, List.replicate_succ, ← ih]
              rfl
          | _ => exact hother rfl rfl
      | _ => exact hother rfl rfl

theorem poll_retries (hx : c.connections[k]? = some x) (hw : (c.waiters[x.promise]?).isSome = true)
    (clock : Clock) :
    (c.act (.poll k clock)).retries = c.retries
      ++ List.replicate ((c.does k (.poll k clock)).countP Action.isConnect) x.promise := by
  obtain ⟨w, hw⟩ := Option.isSome_iff_exists.1 hw
  have ha : c.attempt? k = some ⟨x, w.promise⟩ := by simp [attempt?, hx, hw]
  have hplace : (Attempt.poll ⟨x, w.promise⟩ clock c.isGone).value.1.connection.promise = x.promise :=
    (Attempt.poll_polls ⟨x, w.promise⟩ clock c.isGone).hears.place
  simp [act, poll, turn, does, logs, ha, absorb, hplace, retriesOf_eq, Logged.actions]

theorem run_retries {acts before behind : List Act} {clock : Clock}
    (hx : (new.run acts).connections[k]? = some x) (hacts : acts = before ++ .poll k clock :: behind) :
    (new.run (before ++ [.poll k clock])).retries = (new.run before).retries
      ++ List.replicate (((new.run before).does k (.poll k clock)).countP Action.isConnect) x.promise := by
  subst hacts
  rw [run_concat]
  cases hz : (new.run before).connections[k]? with
  | none => simp [act, poll, turn, does, logs, attempt?_of_none hz]
  | some z =>
      have hearlier := (run_lives before k).1 z hz
      obtain ⟨w, hw, -⟩ := hearlier.served
      obtain ⟨y, hy, hplace⟩ := hearlier.run hz (.poll k clock :: behind)
      rw [run_append, hy] at hx
      rw [← Option.some.inj hx, hplace]
      exact poll_retries hz (by rw [hw]; rfl) clock

theorem told_of_settled {acts : List Act} {w : Waiter} (hw : (new.run acts).waiters[p]? = some w)
    (settled : w.promise.settled = true) (kept : .dropWaiter p ∉ acts) :
    (new.announced (acts ++ [.collect])).countP (Settled.resolves p) = 1 := by
  obtain ⟨hsound, -, hkept⟩ := (run_serves acts p).1 w hw
  obtain ⟨u, -, hserves, hdone⟩ := collect_serves hw
  have hnow := hserves.kept hsound (by simp)
  rw [hdone hsound settled, Bool.toNat_false, Nat.add_zero] at hnow
  rw [announced_concat, List.countP_append, hnow, hkept kept]

def dial : Act := .connect .new (.steady 0) (Session.blank maxDispatches).channel false true 0

def retried : List Act :=
  [.promise, dial, .send 0 .upgradeFailed 1, .send 0 .closed 1, .poll 0 (.steady 0), dial,
    .send 1 (.negotiated .h1) 1, .poll 1 (.steady 0), .send 1 .closed 1, .poll 1 (.steady 0)]

end Client

end HttpSession
