import HttpSession.Client.Settlement
import HttpSession.Proofs.Connection.Answers
import HttpSession.Proofs.Connection.Ending

namespace HttpSession

open Happening (worked)

inductive Client.Act where
  | promise
  | channel
  | connect (builder : Builder) (clock : Clock) (channel : Channel) (closesAtOnce speaksHttp1 : Bool)
      (p : Nat)
  | send (k : Nat) (event : Event) (times : Nat)
  | poll (k : Nat) (clock : Clock)
  | drop (k : Nat) (crashed : Bool)
  | dispatch (handle : Nat) (options : Options) (request : Request)
  | feed (source : Nat) (frames : List Frame) (ended : Option Bool)
  | cancel (sink : Nat)
  | touch (k : Nat) (i : Input) (outer : i.isOuter = true)
  | fireAll
  | dropHandle (handle : Nat)
  | dropTransport (k : Nat)
  | fail (p : Nat) (fault : Fault)
  | offer (p handle : Nat)
  | dropPromise (p : Nat)
  | dropWaiter (p : Nat)
  | dropSink (channel : Nat)
  | dropFuture (channel : Nat)
  | takeFault (sink : Nat)
  | takeRefusal (p : Nat)
  | collect

namespace Client

def connected (c : Client) (builder : Builder) (clock : Clock) (channel : Channel)
    (closesAtOnce speaksHttp1 : Bool) (p : Nat) : Client :=
  if p < c.waiters.length then
    (c.connect builder clock channel closesAtOnce speaksHttp1 p).toOption.getD c
  else c

def act (c : Client) : Act → Client
  | .promise => c.promise
  | .channel => c.channel
  | .connect builder clock channel closesAtOnce speaksHttp1 p =>
      c.connected builder clock channel closesAtOnce speaksHttp1 p
  | .send k event times => (c.send k event times).1
  | .poll k clock => ((c.poll k clock).map Turn.client).getD c
  | .drop k crashed => ((c.dropConnection k crashed).map Turn.client).getD c
  | .dispatch handle options request => ((c.dispatch handle options request).map Turn.client).getD c
  | .feed source frames ended => c.feed source frames ended
  | .cancel sink => c.cancel sink
  | .touch k i _ => c.mapSession k fun s => (s.respond i).value
  | .fireAll => c.fireAll
  | .dropHandle handle => c.dropHandle handle
  | .dropTransport k => c.dropTransport k
  | .fail p fault => c.fail p fault
  | .offer p handle => c.offer p handle
  | .dropPromise p => c.dropPromise p
  | .dropWaiter p => c.dropWaiter p
  | .dropSink channel => c.dropSink channel
  | .dropFuture channel => c.dropFuture channel
  | .takeFault sink => (c.takeFault sink).1
  | .takeRefusal p => (c.takeRefusal p).1
  | .collect => c.collect.1

def announces (c : Client) : Act → List Settled
  | .collect => c.collect.2
  | _ => []

def logs (c : Client) (k : Nat) : Act → List Entry
  | .poll j clock =>
      if j = k then ((c.attempt? k).map fun a => (a.poll clock c.isGone).log).getD [] else []
  | .drop j crashed =>
      if j = k then ((c.attempt? k).map fun a => (a.connection.drop crashed).log).getD [] else []
  | .feed source frames ended =>
      if k < c.connections.length then [.input (.feed source frames ended)] else []
  | .touch j i _ => if j = k ∧ k < c.connections.length then [.input i] else []
  | .fireAll => if k < c.connections.length then [.input .fire] else []
  | _ => []

def does (c : Client) (k : Nat) (a : Act) : List Action := Entry.actions (c.logs k a)

def run (c : Client) (acts : List Act) : Client := acts.foldl act c

def announced (c : Client) : List Act → List Settled
  | [] => []
  | a :: rest => c.announces a ++ (c.act a).announced rest

def logged (c : Client) (k : Nat) : List Act → List Entry
  | [] => []
  | a :: rest => c.logs k a ++ (c.act a).logged k rest

def did (c : Client) (k : Nat) (acts : List Act) : List Action := Entry.actions (c.logged k acts)

def heard (c : Client) (k : Nat) (acts : List Act) : List Input := Entry.inputs (c.logged k acts)

variable {c : Client} {k p : Nat} {acts : List Act}

theorem run_append (c : Client) (xs ys : List Act) : c.run (xs ++ ys) = (c.run xs).run ys :=
  List.foldl_append

theorem run_concat (c : Client) (acts : List Act) (a : Act) :
    c.run (acts ++ [a]) = (c.run acts).act a := by
  simp [run]

theorem announced_concat (c : Client) (acts : List Act) (a : Act) :
    c.announced (acts ++ [a]) = c.announced acts ++ (c.run acts).announces a := by
  induction acts generalizing c with
  | nil => simp [announced, run]
  | cons b rest ih => simp [announced, ih, run]

theorem logged_concat (c : Client) (k : Nat) (acts : List Act) (a : Act) :
    c.logged k (acts ++ [a]) = c.logged k acts ++ (c.run acts).logs k a := by
  induction acts generalizing c with
  | nil => simp [logged, run]
  | cons b rest ih => simp [logged, ih, run]

theorem did_concat (c : Client) (k : Nat) (acts : List Act) (a : Act) :
    c.did k (acts ++ [a]) = c.did k acts ++ (c.run acts).does k a := by
  rw [did, logged_concat, Entry.actions_append]
  rfl

theorem attempt?_eq_some {a : Attempt} (h : c.attempt? k = some a) :
    ∃ x w, c.connections[k]? = some x ∧ c.waiters[x.promise]? = some w ∧ a = ⟨x, w.promise⟩ := by
  unfold attempt? at h
  cases hx : c.connections[k]? with
  | none => simp [hx] at h
  | some x =>
      cases hw : c.waiters[x.promise]? with
      | none => simp [hx, hw] at h
      | some w =>
          simp only [hx, hw, Option.bind_eq_bind, Option.bind_some] at h
          exact ⟨x, w, rfl, hw, (Option.some.inj h).symm⟩

structure Idles (x y : Connection) (log : List Entry) : Prop where
  id : y.id = x.id
  promise : y.promise = x.promise
  life : y.life = x.life
  session : y.session = x.session.after (Entry.inputs log)
  open_ : y.session.transportClosed = x.session.transportClosed
  happenings : Entry.happenings log = x.session.history (Entry.inputs log)
  silent : Entry.actions log = []
  notices : Entry.NoticesOnly log

theorem Idles.ofSame {x y : Connection} (hid : y.id = x.id) (hp : y.promise = x.promise)
    (hl : y.life = x.life) (hs : y.session = x.session) : Idles x y [] :=
  ⟨hid, hp, hl, hs, by rw [hs], rfl, rfl, by simp⟩

theorem Idles.ofTouch {x : Connection} {i : Input} (outer : i.isOuter = true) :
    Idles x (x.mapSession fun s => (s.respond i).value) [.input i] := by
  have hquiet : (x.session.respond i).actions = [] := Service.touched_quiet x.session outer
  refine ⟨rfl, rfl, rfl, ?_, ?_, by simp [hquiet], rfl, by simp⟩
  · rw [Entry.inputs_input, Entry.inputs_nil, Session.after_cons, Session.after_nil,
      Session.step_of_undone (by simp [hquiet])]
    rfl
  · exact Session.respond_transportClosed (by rintro promise rfl; simp [Input.isOuter] at outer)

structure Reads (c d : Client) : Prop where
  connections : d.connections = c.connections
  waiters : d.waiters.length = c.waiters.length

theorem readPromise_reads (c : Client) (p : Nat) (w : Waiter) : c.Reads (c.readPromise p w).1 := by
  unfold readPromise
  split <;> exact ⟨rfl, by simp [mapWaiter]⟩

theorem readPromises_reads (c : Client) : c.Reads c.readPromises.1 := by
  have hfold (entries : List (Waiter × Nat)) (read : Client × List Settled) (hr : c.Reads read.1) :
      c.Reads (entries.foldl (fun read entry =>
        let one := read.1.readPromise entry.2 entry.1
        (one.1, read.2 ++ one.2)) read).1 := by
    induction entries generalizing read with
    | nil => exact hr
    | cons e rest ih =>
        have hone := readPromise_reads read.1 e.2 e.1
        exact ih _ ⟨hone.connections.trans hr.connections, hone.waiters.trans hr.waiters⟩
  exact hfold _ _ ⟨rfl, rfl⟩

theorem collect_reads (c : Client) : c.Reads c.collect.1 := by
  have hread := c.release.readPromises_reads
  exact ⟨hread.connections, hread.waiters.trans List.length_mapIdx⟩

theorem connected_cases (c : Client) (builder : Builder) (clock : Clock) (channel : Channel)
    (closesAtOnce speaksHttp1 : Bool) (p : Nat) :
    c.connected builder clock channel closesAtOnce speaksHttp1 p = c
      ∨ p < c.waiters.length ∧ ∃ session : Session, session.IsNew
        ∧ c.connected builder clock channel closesAtOnce speaksHttp1 p
          = { c with connections := c.connections
                ++ [Connection.new c.connections.length p session closesAtOnce] } := by
  unfold connected connect
  split
  · rename_i hp
    cases hb : builder.session clock channel speaksHttp1 with
    | error text => exact .inl rfl
    | ok session => exact .inr ⟨hp, session, Builder.session_isNew hb, rfl⟩
  · exact .inl rfl

theorem dispatch_cases (c : Client) (handle : Nat) (options : Options) (request : Request) :
    c.dispatch handle options request = none
      ∨ ∃ j x w, c.connections[j]? = some x ∧ c.waiters[x.promise]? = some w
        ∧ c.dispatch handle options request
          = some (c.caller.absorb j (do
              let connection ← x.submit ⟨options, request, c.callers.length⟩
              return (⟨connection, w.promise⟩, c.callers.length))) := by
  unfold dispatch
  cases hj : c.connectionOf? handle with
  | none => exact .inl rfl
  | some j =>
      cases ha : c.attempt? j with
      | none =>
          have ha : c.caller.attempt? j = none := ha
          exact .inl (by simp [turn, ha])
      | some a =>
          obtain ⟨x, w, hx, hw, rfl⟩ := attempt?_eq_some ha
          have ha : c.caller.attempt? j = some ⟨x, w.promise⟩ := ha
          exact .inr ⟨j, x, w, hx, hw, by simp [turn, ha]⟩

def Act.isTurn : Act → Bool
  | .poll _ _ | .drop _ _ => true
  | _ => false

theorem mapConnection_idles {x : Connection} (hx : c.connections[k]? = some x) (j : Nat)
    {f : Connection → Connection} {log : List Entry} (hf : j = k → Idles x (f x) log)
    (hn : j ≠ k → log = []) :
    ∃ y, (c.mapConnection j f).connections[k]? = some y ∧ Idles x y log := by
  by_cases hj : j = k
  · exact ⟨f x, by simp [mapConnection, hj, hx], hf hj⟩
  · refine ⟨x, by simp [mapConnection, hj, hx], ?_⟩
    rw [hn hj]
    exact .ofSame rfl rfl rfl rfl

theorem act_idles (a : Act) (ha : a.isTurn = false) {x : Connection}
    (hx : c.connections[k]? = some x) :
    ∃ y, (c.act a).connections[k]? = some y ∧ Idles x y (c.logs k a) := by
  have hk : k < c.connections.length := (List.getElem?_eq_some_iff.1 hx).1
  have hsame : Idles x x [] := .ofSame rfl rfl rfl rfl
  cases a with
  | poll | drop => simp [Act.isTurn] at ha
  | promise | channel | cancel | fail | dropPromise | dropWaiter | dropSink | dropFuture
  | takeFault | takeRefusal => exact ⟨x, hx, hsame⟩
  | connect builder clock channel closesAtOnce speaksHttp1 p =>
      refine ⟨x, ?_, hsame⟩
      rcases c.connected_cases builder clock channel closesAtOnce speaksHttp1 p with he | ⟨-, s, -, he⟩
      · rw [act, he, hx]
      · rw [act, he]
        exact (List.getElem?_append_left hk).trans hx
  | send j event times =>
      simp only [act, send]
      cases hj : c.connections[j]? with
      | none => exact ⟨x, hx, hsame⟩
      | some z =>
          refine mapConnection_idles hx j (fun he => ?_) fun _ => rfl
          obtain rfl : z = x := Option.some.inj ((he ▸ hj).symm.trans hx)
          unfold Connection.send
          split <;> exact .ofSame rfl rfl rfl rfl
  | dispatch handle options request =>
      rcases c.dispatch_cases handle options request with he | ⟨j, z, w, hz, -, he⟩
      · exact ⟨x, by rw [act, he]; exact hx, hsame⟩
      · have hset : (c.act (.dispatch handle options request)).connections
            = c.connections.set j (z.submit ⟨options, request, c.callers.length⟩).value := by
          rw [act, he]
          rfl
        rw [hset]
        by_cases hj : j = k
        · subst hj
          obtain rfl : z = x := Option.some.inj (hz.symm.trans hx)
          refine ⟨_, List.getElem?_set_self hk, ?_⟩
          unfold Connection.submit
          split <;> exact .ofSame rfl rfl rfl rfl
        · exact ⟨x, by rw [List.getElem?_set_ne hj, hx], hsame⟩
  | feed source frames ended =>
      have hsame := Session.mapWriter_sameOutsideTraffic x.session fun w => w.feed source frames ended
      refine ⟨x.feed source frames ended, by simp [act, Client.feed, hx], ?_⟩
      rw [logs, if_pos hk]
      exact ⟨rfl, rfl, rfl, rfl, hsame.transportClosed, rfl, rfl, by simp⟩
  | touch j i outer =>
      refine mapConnection_idles hx j (fun he => ?_) fun hn => by simp [logs, hn]
      rw [logs, if_pos ⟨he, hk⟩]
      exact .ofTouch outer
  | fireAll =>
      refine ⟨x.mapSession Session.fire, by simp [act, fireAll, hx], ?_⟩
      rw [logs, if_pos hk]
      exact .ofTouch (i := .fire) rfl
  | dropHandle handle =>
      simp only [act, dropHandle]
      split
      · exact mapConnection_idles (c := { c with handles := _ }) hx _ (fun _ => .ofSame rfl rfl rfl rfl)
          fun _ => rfl
      · exact ⟨x, hx, hsame⟩
  | dropTransport j => exact mapConnection_idles hx j (fun _ => .ofSame rfl rfl rfl rfl) fun _ => rfl
  | offer p handle =>
      simp only [act, offer]
      split
      · split
        · exact mapConnection_idles (c := c.mapWaiter p _) hx _ (fun _ => .ofSame rfl rfl rfl rfl)
            fun _ => rfl
        · exact ⟨x, hx, hsame⟩
      · exact ⟨x, hx, hsame⟩
  | collect => exact ⟨x, by rw [act, c.collect_reads.connections, hx], hsame⟩

end Client

end HttpSession
