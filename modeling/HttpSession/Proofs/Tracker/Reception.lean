import HttpSession.Proofs.Tracker.Awaited

namespace HttpSession

namespace Pending

def IsBlank (p : Pending) : Prop := p.head = none ∧ p.body = Gathered.empty ∧ p.trailers = none

def Holds (p : Pending) (r : Response) : Prop :=
  p.head = some r.head ∧ p.body.toOctets = r.body ∧ p.trailers = r.trailers

end Pending

namespace Tracker

variable {t : Tracker} {p : Pending}

inductive Reception (t : Tracker) (p : Pending) : Part → Traced Received → Prop
  | ignored {part : Part} : Reception t p part (accepted (pure t))
  | wrong {part : Part} (text : String) : Reception t p part (t.rejected text)
  | added {part : Part} (f : Pending → Pending) (same : ∀ q, (f q).seq = q.seq ∧ (f q).sink = q.sink)
      (due : ∀ q, (f q).deadline = q.deadline) :
      Reception t p part (accepted (pure (t.update p.seq f)))
  | tooLarge {part : Part} : Reception t p part (accepted (t.abandon p.seq Fault.tooLarge))
  | complete (head : ResponseHead) (known : p.head = some head) :
      Reception t p .finish
        (accepted (t.settle p.seq (.complete ⟨head, p.body.toOctets, p.trailers⟩)))
  | reset (reason : Reason) :
      Reception t p (.reset reason)
        (accepted (settle { t with abandoned := t.abandoned ++ [⟨p.seq, false⟩] } p.seq
          (.failed (Fault.ofStream (.reason reason)))))

theorem receivePart_reception (t : Tracker) (p : Pending) (part : Part) :
    t.Reception p part (t.receivePart p part) := by
  cases part with
  | reset reason => exact .reset reason
  | head head =>
      cases h : p.head <;> cases hi : head.isInterim <;> simp only [receivePart, h, hi]
      · exact .added _ (fun _ => ⟨rfl, rfl⟩) fun _ => rfl
      · exact .ignored
      · exact .wrong _
      · exact .ignored
  | data octets =>
      cases h : p.head with
      | none =>
          simp only [receivePart, h]
          exact .wrong _
      | some head =>
          cases hx : p.exceeds octets <;> simp only [receivePart, h, hx]
          · exact .added _ (fun _ => ⟨rfl, rfl⟩) fun _ => rfl
          · exact .tooLarge
  | trailers fields =>
      cases h : p.head <;> simp only [receivePart, h]
      · exact .wrong _
      · exact .added _ (fun _ => ⟨rfl, rfl⟩) fun _ => rfl
  | finish =>
      cases h : p.head with
      | none =>
          simp only [receivePart, h]
          exact .wrong _
      | some head =>
          simp only [receivePart, h]
          exact .complete head h

theorem receive_cases (t : Tracker) (stream : Option StreamId) (part : Part) :
    (∃ fault, t.receive stream part = ⟨⟨t, fault⟩, []⟩)
      ∨ ∃ p ∈ t.pending, t.desynced = false ∧ t.route stream = .to p.seq
        ∧ t.receive stream part = t.receivePart p part := by
  unfold receive
  split
  · exact .inl ⟨none, rfl⟩
  · rename_i hsync
    split
    · exact .inl ⟨_, rfl⟩
    · exact .inl ⟨none, rfl⟩
    · rename_i seq hroute
      split
      · exact .inl ⟨none, rfl⟩
      · rename_i p hfind
        obtain ⟨hp, rfl⟩ := find?_eq_some hfind
        exact .inr ⟨p, hp, by simpa using hsync, hroute, rfl⟩

theorem receive_rejected {stream : Option StreamId} {part : Part} {fault : Fault}
    (h : (t.receive stream part).value.fault = some fault) :
    t.receive stream part = ⟨⟨t, some fault⟩, []⟩ := by
  obtain ⟨other, he⟩ | ⟨p, hp, -, -, he⟩ := t.receive_cases stream part
  · rw [he] at h ⊢
    obtain rfl : other = some fault := h
    rfl
  · rw [he] at h ⊢
    have hreception := t.receivePart_reception p part
    generalize t.receivePart p part = r at hreception h ⊢
    cases hreception with
    | wrong text =>
        obtain rfl := Option.some.inj h
        rfl
    | _ => simp [accepted] at h

theorem synced_of_rejected {stream : Option StreamId} {part : Part} {fault : Fault}
    (h : (t.receive stream part).value.fault = some fault) : t.desynced = false := by
  rw [Bool.eq_false_iff]
  intro hd
  simp [receive, hd, accepted] at h

theorem receivePart_wanes (hp : p ∈ t.pending) (part : Part) :
    t.Wanes (t.receivePart p part).value.tracker := by
  have hreception := t.receivePart_reception p part
  generalize t.receivePart p part = r at hreception ⊢
  cases hreception with
  | ignored | wrong => exact .refl t
  | added f same => exact update_wanes t _ f same
  | tooLarge => exact abandon_wanes t _ _
  | complete => exact erase_wanes t p.seq
  | reset reason =>
      refine ⟨awaited_filter_sublist t _, fun a ha => ?_, .inl, id, rfl, rfl⟩
      rcases List.mem_append.1 ha with ha | ha
      · exact .inl ha
      · obtain rfl := List.mem_singleton.1 ha
        exact .inr ⟨mem_seqs hp, by simp [Tracker.seqs, accepted, settle, erase]⟩

theorem receive_wanes (t : Tracker) (stream : Option StreamId) (part : Part) :
    t.Wanes (t.receive stream part).value.tracker := by
  obtain ⟨fault, he⟩ | ⟨p, hp, -, -, he⟩ := t.receive_cases stream part
  · rw [he]
    exact .refl t
  · rw [he]
    exact receivePart_wanes hp part

end Tracker

end HttpSession
