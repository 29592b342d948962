import HttpSession.Proofs.Connection.Accounts

namespace HttpSession

def paid (actions : List Action) (d : Debt) : Nat := (actions.filterMap Action.pays?).count d

theorem Accounts.count {owed left : List Debt} {actions : List Action}
    (h : Accounts owed actions left) (d : Debt) : paid actions d + left.count d = owed.count d := by
  rw [← h.count_eq d, List.count_append, paid]

def issued (n : Nat) : List Debt := (List.range n).flatMap fun k => [.reply k, .word k]

theorem issued_succ (n : Nat) : issued (n + 1) = issued n ++ [.reply n, .word n] := by
  simp [issued, List.range_succ]

theorem mem_issued {n : Nat} {d : Debt} : d ∈ issued n ↔ ∃ k < n, d = .reply k ∨ d = .word k := by
  simp [issued]

theorem issued_nodup (n : Nat) : (issued n).Nodup := by
  induction n with
  | zero => exact List.nodup_nil
  | succ n ih =>
      rw [issued_succ]
      refine ih.append (by simp) fun d hd hnew => ?_
      obtain ⟨k, hk, rfl | rfl⟩ := mem_issued.1 hd <;> simp at hnew <;> omega

theorem issued_count {n : Nat} {d : Debt} (h : d ∈ issued n) : (issued n).count d = 1 :=
  List.count_eq_one_of_mem (issued_nodup n) h

namespace Service

variable {s : Service}

def debts (s : Service) : List Debt := s.attempt.debts

def owes (s : Service) : Occasion → List Debt
  | .ask _ _ => [.reply s.asked, .word s.asked]
  | _ => []

theorem meet_owes (s : Service) (o : Occasion) :
    issued (s.meet o).value.asked = issued s.asked ++ s.owes o := by
  cases o with
  | ask options request => exact issued_succ s.asked
  | _ => exact (List.append_nil _).symm

theorem asks_settles (hs : s.attempt.IsSound) (options : Options) (request : Request) :
    (s.asks options request).value.attempt.IsSound
      ∧ Accounts ([.reply s.asked, .word s.asked] ++ s.debts) (s.asks options request).actions
        (s.asks options request).value.debts := by
  unfold asks Connection.submit
  cases ho : s.attempt.connection.isOpen with
  | false => exact ⟨⟨hs.session, hs.finished⟩, List.Perm.refl _⟩
  | true =>
      refine ⟨⟨hs.session, fun hover => absurd (ho.symm.trans hover) (by decide)⟩, ?_⟩
      refine Accounts.perm_owed .refl ?_
      simpa [debts, Attempt.debts, Connection.debts, mapConnection, Connection.post, Event.debts]
        using List.perm_append_comm_assoc _ [_, _] _

theorem dropped_settles (hs : s.attempt.IsSound) (crashed : Bool) :
    (s.dropped crashed).value.attempt.IsSound
      ∧ Accounts s.debts (s.dropped crashed).actions (s.dropped crashed).value.debts := by
  have hover : (s.dropped crashed).value.attempt.IsSound :=
    ⟨hs.session.respond (.dropped _),
      fun _ => ⟨rfl, congrArg Session.phase (s.attempt.connection.session.abandon_value _)⟩⟩
  have habandon := (s.attempt.connection.session.abandon_settles
    (Connection.reason crashed)).beside
    (s.attempt.connection.queue.flatMap Event.debts)
  have hleft : Accounts (s.attempt.connection.queue.flatMap Event.debts ++ [])
      s.attempt.connection.leftovers [] := by
    rw [List.append_nil]
    exact .of_paid s.attempt.connection.leftovers_paid
  refine ⟨hover, ?_⟩
  rw [debts, debts, hover.debts_eq_nil rfl]
  simpa [dropped, Connection.drop, Attempt.debts, Connection.debts, Logged.actions]
    using habandon.trans hleft

theorem told_settles (hs : s.attempt.IsSound) {events : List Event}
    (plain : ∀ e ∈ events, e.debts = []) :
    (s.told events).value.attempt.IsSound
      ∧ Accounts s.debts (s.told events).actions (s.told events).value.debts := by
  unfold told Connection.send
  cases ho : s.attempt.connection.isOpen with
  | false => exact ⟨⟨hs.session, hs.finished⟩, .refl⟩
  | true =>
      have hevents : events.flatMap Event.debts = [] := List.flatMap_eq_nil_iff.2 plain
      refine ⟨⟨hs.session, fun hover => absurd (ho.symm.trans hover) (by decide)⟩, ?_⟩
      have hsame : Accounts s.debts [] s.debts := .refl
      simpa [debts, Attempt.debts, Connection.debts, mapConnection, Connection.post, hevents,
        Logged.actions] using hsame

theorem touched_settles (hs : s.attempt.IsSound) {i : Input} (hi : i.debts = [])
    (hquiet : (s.attempt.connection.session.respond i).actions = []) (f : Event → Event)
    (hf : ∀ e, (f e).debts = e.debts) :
    let touched := s.mapConnection fun c =>
      { c with session := (c.session.respond i).value, queue := c.queue.map f }
    touched.attempt.IsSound ∧ Accounts s.debts [] touched.debts := by
  obtain ⟨h, hstands⟩ := hs.session.stands
  constructor
  · refine ⟨hs.session.respond i, fun hover => ?_⟩
    obtain ⟨hqueue, hphase⟩ := hs.finished hover
    exact ⟨by simp [mapConnection, hqueue], Session.respond_closed hphase i⟩
  · have hsettles := (hstands.settles i).beside (s.attempt.connection.queue.flatMap Event.debts)
    rw [hquiet, hi, List.nil_append] at hsettles
    simpa [debts, Attempt.debts, Connection.debts, mapConnection, List.flatMap_map, hf] using hsettles

theorem meet_settles (hs : s.attempt.IsSound) (o : Occasion) :
    (s.meet o).value.attempt.IsSound
      ∧ Accounts (s.owes o ++ s.debts) (s.meet o).actions (s.meet o).value.debts := by
  cases o with
  | tell events plain => exact told_settles hs plain
  | ask options request => exact asks_settles hs options request
  | poll clock gone =>
      obtain ⟨hsound, hsettles, -⟩ := (s.polled_polls clock gone).settles hs
      rw [meet_poll]
      exact ⟨hsound, hsettles⟩
  | drop crashed => exact dropped_settles hs crashed
  | feed source frames ended =>
      exact touched_settles hs (i := .feed source frames ended) rfl rfl (Event.feed source frames ended)
        fun e => e.feed_debts source frames ended
  | touch i outer =>
      have hi : i.debts = [] ∧ (s.attempt.connection.session.respond i).actions = [] := by
        cases i <;> simp [Input.isOuter] at outer <;> exact ⟨rfl, rfl⟩
      simpa [meet, owes, Connection.mapSession, Logged.actions] using touched_settles hs hi.1 hi.2 id fun _ => rfl
  | hold handles => exact ⟨⟨hs.session, hs.finished⟩, .refl⟩
  | cut => exact ⟨⟨hs.session, hs.finished⟩, .refl⟩
  | promise p => exact ⟨⟨hs.session, hs.finished⟩, .refl⟩

theorem run_settles (hs : s.attempt.IsSound) {before : List Action}
    (hb : Accounts (issued s.asked) before s.debts) (occasions : List Occasion) :
    (s.run occasions).value.attempt.IsSound
      ∧ Accounts (issued (s.run occasions).value.asked) (before ++ (s.run occasions).actions)
        (s.run occasions).value.debts := by
  induction occasions generalizing s before with
  | nil => exact ⟨hs, hb.append_unpaid rfl⟩
  | cons o rest ih =>
      obtain ⟨hsound, hsettles⟩ := meet_settles hs o
      have hnext : Accounts (issued (s.meet o).value.asked) (before ++ (s.meet o).actions)
          (s.meet o).value.debts := by
        refine ((hb.beside (s.owes o)).trans hsettles).perm_owed ?_
        rw [meet_owes]
        exact List.perm_append_comm
      simpa [run] using ih hsound hnext

theorem meet_over (ho : s.isOpen = false) (o : Occasion) : (s.meet o).value.isOpen = false := by
  have hover : s.attempt.connection.isOpen = false := ho
  cases o with
  | tell events plain => simp [meet, told, isOpen, mapConnection, Connection.send, hover]
  | ask options request => simp [meet, asks, isOpen, mapConnection, Connection.submit, hover]
  | poll clock gone => simpa [meet, polled, isOpen, Attempt.poll_of_over hover] using hover
  | drop crashed => rfl
  | feed | touch | hold | cut | promise => exact ho

theorem run_over (ho : s.isOpen = false) (occasions : List Occasion) :
    (s.run occasions).value.isOpen = false := by
  induction occasions generalizing s with
  | nil => exact ho
  | cons o rest ih => exact ih (meet_over ho o)

def start (id k : Nat) (session : Session) (closesAtOnce : Bool) (promise : Promise) : Service :=
  ⟨⟨Connection.new id k session closesAtOnce, promise⟩, 0⟩

theorem start_isSound {session : Session} (hs : session.IsNew) (id k : Nat) (closesAtOnce : Bool)
    (promise : Promise) : (start id k session closesAtOnce promise).attempt.IsSound :=
  ⟨hs.isSound, fun hover => by simp [start, Connection.new, Connection.isOpen] at hover⟩

theorem start_debts {session : Session} (hs : session.IsNew) (id k : Nat) (closesAtOnce : Bool)
    (promise : Promise) : (start id k session closesAtOnce promise).debts = [] := by
  obtain ⟨hphase, -⟩ := hs.start
  exact Session.debts_of_none (Session.traffic?_eq_none.2 (.inl hphase))

end Service

theorem Builder.session_isNew {builder : Builder} {clock : Clock} {channel : Channel}
    {speaksHttp1 : Bool} {session : Session}
    (hb : builder.session clock channel speaksHttp1 = .ok session) : session.IsNew := by
  unfold Builder.session at hb
  cases hspan : builder.negotiationTimeout.check builder.timer "negotiation_timeout" with
  | error text => simp [hspan, bind, Except.bind] at hb
  | ok span =>
      simp only [hspan, bind, Except.bind] at hb
      exact ⟨_, _, _, _, _, _, hb⟩

namespace Service

/-- Everybody who sends a request over a connection gets one reply and one word whether the request was
taken: nothing comes twice, nothing is missing once the connection has returned or was dropped, and
who comes later is refused at once. -/
theorem answered_once {builder : Builder} {opened : Clock} {channel : Channel} {speaksHttp1 : Bool}
    {session : Session} (hb : builder.session opened channel speaksHttp1 = .ok session) (id k : Nat)
    (closesAtOnce : Bool) (promise : Promise) (occasions : List Occasion) :
    let r := (start id k session closesAtOnce promise).run occasions
    (∀ d, paid r.actions d ≤ 1)
      ∧ (r.value.isOpen = false → ∀ sink < r.value.asked,
        paid r.actions (.reply sink) = 1 ∧ paid r.actions (.word sink) = 1)
      ∧ (∀ clock gone fault, (r.value.polled clock gone).value.2 = .ready fault →
        (r.value.meet (.poll clock gone)).value.isOpen = false)
      ∧ (∀ crashed, (r.value.meet (.drop crashed)).value.isOpen = false)
      ∧ (r.value.isOpen = false →
        (∀ more, (r.value.run more).value.isOpen = false)
          ∧ ∀ options request, (r.value.meet (.ask options request)).actions
            = [.answer r.value.asked (.failed Fault.closedSession), .accept r.value.asked false]) := by
  intro r
  have hnew := Builder.session_isNew hb
  have hnone : Accounts (issued (start id k session closesAtOnce promise).asked) []
      (start id k session closesAtOnce promise).debts := by
    rw [start_debts hnew]
    exact .refl
  obtain ⟨hsound, hsettles⟩ :=
    run_settles (start_isSound hnew id k closesAtOnce promise) hnone occasions
  have hcount (d : Debt) : paid r.actions d + r.value.debts.count d
      = (issued r.value.asked).count d := by
    simpa using hsettles.count d
  refine ⟨fun d => ?_, fun hover sink hsink => ?_, fun clock gone fault => ?_, fun _ => rfl,
    fun hover => ⟨run_over hover, fun options request => ?_⟩⟩
  · have := hcount d
    have := List.nodup_iff_count_le_one.1 (issued_nodup r.value.asked) d
    omega
  · -- Nothing is owed any more by a connection that is over.
    have hnothing (d : Debt) : r.value.debts.count d = 0 := by
      rw [debts, hsound.debts_eq_nil hover, List.count_nil]
    have hreply := hcount (.reply sink)
    have hword := hcount (.word sink)
    rw [hnothing, issued_count (mem_issued.2 ⟨sink, hsink, .inl rfl⟩)] at hreply
    rw [hnothing, issued_count (mem_issued.2 ⟨sink, hsink, .inr rfl⟩)] at hword
    exact ⟨hreply, hword⟩
  · exact ((r.value.polled_polls clock gone).settles hsound).2.2 fault
  · have hrefused : r.value.attempt.connection.isOpen = false := hover
    simp [meet, asks, Connection.submit, hrefused, Envelope.refusal, Logged.actions]

def cutShort : List Occasion :=
  [.tell [.negotiated .h1] (by simp [Event.debts]), .ask .default .bare, .poll (.steady 0) fun _ => false,
    .tell [.response none (.head ⟨200, .empty⟩)] (by simp [Event.debts]), .poll (.steady 0) fun _ => false,
    .ask .default .bare, .drop false]

theorem answered_once_cutShort :
    let r := (start 0 0 (.blank maxDispatches) false .new).run cutShort
    r.value.asked = 2 ∧ r.actions.contains (.enroll 1 0) = true
      ∧ (∀ sink < 2, paid r.actions (.reply sink) = 1 ∧ paid r.actions (.word sink) = 1) := by
  have hb : Builder.new.session (.steady 0) (.new (.v4 #v[127, 0, 0, 1] 80) true true) true
      = .ok (.blank maxDispatches) := rfl
  have hasked : ((start 0 0 (.blank maxDispatches) false .new).run cutShort).value.asked = 2 := by
    decide +kernel
  obtain ⟨-, hover, -⟩ := answered_once hb 0 0 false .new cutShort
  exact ⟨hasked, by decide +kernel, fun sink hsink => hover rfl sink (hasked ▸ hsink)⟩

end Service

end HttpSession
