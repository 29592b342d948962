import HttpSession.Proofs.Streams.Effect

namespace HttpSession

/-- The course of a response: what was said so far from the first final head on, or the reply, with
word whether the request was given up and the peer has to be told. -/
inductive Course where
  | awaited (draft : Option Response)
  | ended (reply : Reply) (reset : Option Bool)
  deriving DecidableEq, Repr

namespace Course

def hear (maxLength : Nat) : Course → Part → Course
  | .awaited none, .head h => .awaited (if h.isInterim then none else some ⟨h, [], none⟩)
  | .awaited (some r), .data octets =>
      if maxLength ≠ 0 ∧ maxLength < (r.body ++ octets).length then
        .ended (.failed Fault.tooLarge) (some true)
      else .awaited (some { r with body := r.body ++ octets })
  | .awaited (some r), .trailers fields => .awaited (some { r with trailers := some fields })
  | .awaited (some r), .finish => .ended (.complete r) none
  | .awaited _, .reset reason => .ended (.failed (Fault.ofStream (.reason reason))) (some false)
  | course, _ => course

def meet (maxLength : Nat) : Course → Notice → Course
  | .ended reply reset, _ => .ended reply reset
  | course, .part part => course.hear maxLength part
  | _, .stopped fault => .ended (.failed fault) none
  | _, .late => .ended (.failed Fault.responseTimeout) (some true)

def of (maxLength : Nat) (notices : List Notice) : Course :=
  notices.foldl (meet maxLength) (.awaited none)

theorem of_append (maxLength : Nat) (notices more : List Notice) :
    of maxLength (notices ++ more) = more.foldl (meet maxLength) (of maxLength notices) :=
  List.foldl_append

def replies : Course → List Reply
  | .awaited _ => []
  | .ended reply _ => [reply]

def resets : Course → List Bool
  | .awaited _ => []
  | .ended _ reset => reset.toList

end Course

def Pending.Drafts (p : Pending) : Option Response → Prop
  | none => p.IsBlank
  | some r => p.Holds r

namespace Tracker

variable {t : Tracker} {p : Pending} {seq sink : Nat}

theorem update_find? {f : Pending → Pending} (same : ∀ q, (f q).seq = q.seq) (s : Nat) :
    (t.update s f).find? seq = (t.find? seq).map fun p => if p.seq == s then f p else p := by
  have hsame : ((·.seq == seq) ∘ fun p : Pending => if p.seq == s then f p else p) = (·.seq == seq) := by
    funext p
    simp only [Function.comp_apply]
    split
    · rw [same]
    · rfl
  simp only [find?, update, List.find?_map, hsame]

inductive Fits (sink maxLength : Nat) (deadline : Option Instant) : Course → Option Pending → Prop
  | awaited {draft : Option Response} {p : Pending} (own : p.sink = sink)
      (limit : p.maxLength = maxLength) (due : p.deadline = deadline) (drafts : p.Drafts draft) :
      Fits sink maxLength deadline (.awaited draft) (some p)
  | ended (reply : Reply) (reset : Option Bool) : Fits sink maxLength deadline (.ended reply reset) none

def Received.traced (r : Traced Received) : Traced Tracker := ⟨r.value.tracker, r.actions⟩

def Goes (t : Tracker) (seq sink maxLength : Nat) (deadline : Option Instant) (r : Traced Received)
    (course : Course) : Prop :=
  ∃ entry, Fits sink maxLength deadline course entry
    ∧ t.Shows seq sink (Received.traced r) entry course.replies course.resets

theorem Effect.spares {u : Use} {r : Traced Received} (he : t.Effect u r) (h : t.InOrder)
    (hown : t.Own seq sink) (hnew : ∀ p, u.enrolled? = some p → p.1 ≠ seq) (hheld : u ≠ .handOver)
    (hnone : ∀ p, t.find? seq = some p → u.notice? p.seq p.deadline = none) :
    t.Shows seq sink (Received.traced r) (t.find? seq) [] [] := by
  cases he with
  | kept fault => exact ⟨rfl, rfl, by simp [Received.traced]⟩
  | @noted _ p hp told f same =>
      have hne : ∀ q, t.find? seq = some q → q.seq ≠ p.seq := by
        intro q hq heq
        obtain rfl := h.seq_inj (find?_eq_some hq).1 hp heq
        simp [hnone q hq] at told
      refine ⟨?_, rfl, by simp [Received.traced, accepted, update]⟩
      simp only [Received.traced, accepted, Traced.value_pure, update_find? fun q => (same q).1]
      cases hf : t.find? seq with
      | none => rfl
      | some q => simp [hne q hf]
  | dismissed hd told =>
      refine hd.spares h hown fun p hf => ?_
      rw [Bool.eq_false_iff]
      intro hl
      have := told p (find?_eq_some hf).1 hl
      simp [hnone p hf] at this
  | enrolled s caller maxLength deadline =>
      have hne : s ≠ seq := hnew _ rfl
      exact ⟨register_find?_of_ne caller maxLength deadline hne.symm, rfl,
        by simp [Received.traced, accepted, register]⟩
  | drained => exact ⟨rfl, closeIfDrained_replies _ _, by simp [Received.traced, accepted, closeAfterDrain]⟩
  | handed => exact absurd rfl hheld

section

variable {draft : Option Response}

theorem Goes.stays (hf : t.find? seq = some p) (hd : p.Drafts draft) (fault : Option Fault) :
    t.Goes seq p.sink p.maxLength p.deadline ⟨⟨t, fault⟩, []⟩ (.awaited draft) :=
  ⟨some p, .awaited rfl rfl rfl hd, hf, rfl, by simp [Received.traced, Course.resets]⟩

theorem Goes.notes (hf : t.find? seq = some p) {f : Pending → Pending}
    (same : ∀ q, (f q).seq = q.seq ∧ (f q).sink = q.sink)
    (kept : (f p).maxLength = p.maxLength ∧ (f p).deadline = p.deadline) (hd : (f p).Drafts draft) :
    t.Goes seq p.sink p.maxLength p.deadline (accepted (pure (t.update p.seq f))) (.awaited draft) := by
  refine ⟨some (f p), .awaited (same p).2 kept.1 kept.2 hd, ?_, rfl, ?_⟩
  · simp [Received.traced, accepted, update_find? fun q => (same q).1, hf]
  · simp [Received.traced, accepted, update, Course.resets]

theorem Goes.ends {leaves : Pending → Bool} {reply : Reply} {reset : Option Bool} {r : Traced Tracker}
    (h : t.InOrder) (hown : t.Own seq p.sink) (hf : t.find? seq = some p)
    (hd : t.Dismisses leaves reply reset r) (hl : leaves p = true) :
    t.Goes seq p.sink p.maxLength p.deadline (accepted r) (.ended reply reset) :=
  ⟨none, .ended reply reset, hd.ends h hown hf hl⟩

theorem receivePart_goes (h : t.InOrder) (hb : t.binding = .byStream) (hown : t.Own seq p.sink)
    (hf : t.find? seq = some p) (hd : p.Drafts draft) (part : Part) :
    t.Goes seq p.sink p.maxLength p.deadline (t.receivePart p part)
      ((Course.awaited draft).hear p.maxLength part) := by
  obtain ⟨hp, rfl⟩ := find?_eq_some hf
  have stays := Goes.stays hf hd
  have hself : (p.seq == p.seq) = true := beq_self_eq_true _
  cases draft with
  | none =>
      obtain ⟨hhead, hbody, htrailers⟩ := hd
      cases part with
      | head head =>
          cases hi : head.isInterim with
          | true =>
              simp only [receivePart, hhead, hi, Course.hear, if_true]
              exact stays none
          | false =>
              simp only [receivePart, hhead, hi, Course.hear, Bool.false_eq_true, if_false]
              refine .notes hf (fun _ => ⟨rfl, rfl⟩) ⟨rfl, rfl⟩ ⟨rfl, ?_, htrailers⟩
              rw [hbody, Gathered.toOctets_empty]
      | data | trailers | finish =>
          simp only [receivePart, hhead, Course.hear]
          exact stays _
      | reset reason => exact .ends h hown hf (h.stop_dismisses hp _) hself
  | some r =>
      obtain ⟨hhead, hbody, htrailers⟩ := hd
      cases part with
      | head head =>
          cases hi : head.isInterim <;> simp only [receivePart, hhead, hi, Course.hear] <;> exact stays _
      | data octets =>
          have hexceeds : p.exceeds octets
              = decide (p.maxLength ≠ 0 ∧ p.maxLength < (r.body ++ octets).length) := by
            simp [Pending.exceeds, Gathered.size_eq_length, hbody, bne, Bool.beq_eq_decide_eq]
          by_cases hx : p.maxLength ≠ 0 ∧ p.maxLength < (r.body ++ octets).length
          · simp only [receivePart, hhead, hexceeds, Course.hear, if_pos hx, decide_eq_true hx, if_true]
            exact .ends h hown hf (h.abandon_dismisses hb _ _) hself
          · simp only [receivePart, hhead, hexceeds, Course.hear, if_neg hx, decide_eq_false hx,
              Bool.false_eq_true, if_false]
            refine .notes hf (fun _ => ⟨rfl, rfl⟩) ⟨rfl, rfl⟩ ⟨hhead, ?_, htrailers⟩
            rw [Gathered.toOctets_add, hbody]
      | trailers fields =>
          simp only [receivePart, hhead, Course.hear]
          exact .notes hf (fun _ => ⟨rfl, rfl⟩) ⟨rfl, rfl⟩ ⟨hhead, hbody, rfl⟩
      | finish =>
          simp only [receivePart, hhead, Course.hear, hbody, htrailers]
          exact .ends h hown hf (h.settle_dismisses _ _) hself
      | reset reason => exact .ends h hown hf (h.stop_dismisses hp _) hself

theorem use_goes (h : t.InOrder) (hb : t.binding = .byStream) (hsync : t.desynced = false)
    (hown : t.Own seq p.sink) (named : HasStream seq) (hf : t.find? seq = some p)
    (hd : p.Drafts draft) {u : Use} {n : Notice} (hn : u.notice? seq p.deadline = some n) :
    t.Goes seq p.sink p.maxLength p.deadline (t.use u)
      ((Course.awaited draft).meet p.maxLength n) := by
  have hself : (p.seq == seq) = true := by simp [(find?_eq_some hf).2]
  cases u with
  | receive stream part =>
      simp only [Use.notice?, Option.ite_none_right_eq_some, Option.some.injEq] at hn
      obtain ⟨rfl, rfl⟩ := hn
      have hreceive : t.receive (some (streamOf seq)) part = t.receivePart p part := by
        simp [receive, hsync, route, hb, seqOf?_streamOf named, hf]
      rw [use, hreceive]
      exact receivePart_goes h hb hown hf hd part
  | fail s fault =>
      simp only [Use.notice?, Option.ite_none_right_eq_some, Option.some.injEq] at hn
      obtain ⟨rfl, rfl⟩ := hn
      exact .ends h hown hf (h.fail_dismisses hb _ _) hself
  | forget s =>
      simp only [Use.notice?, Option.ite_none_right_eq_some, Option.some.injEq] at hn
      obtain ⟨rfl, rfl⟩ := hn
      exact .ends h hown hf (h.settle_dismisses _ _) hself
  | expire now =>
      simp only [Use.notice?, Option.ite_none_right_eq_some, Option.some.injEq] at hn
      obtain ⟨hlate, rfl⟩ := hn
      refine .ends h hown hf (expire_dismisses hb now) ?_
      cases hdue : p.deadline with
      | none => simp [hdue] at hlate
      | some limit => simpa [Pending.isDue, hdue] using hlate
  | register | drain | handOver => simp [Use.notice?] at hn

end

end Tracker

end HttpSession
