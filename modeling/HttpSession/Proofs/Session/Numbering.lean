import HttpSession.Proofs.Session.Coherence
import Mathlib.Data.List.Induction

namespace HttpSession

open Happening (ofActions)

namespace Traffic

variable {c d : Traffic} {h x : List Happening}

theorem Coherent.enrolled_le (hc : Coherent h c) (hm : Move c x d) :
    ∀ p ∈ enrolled x, p.1 ≤ c.ceiling := by
  rcases hm.advance hc.inOrder (fun a ha => (hc.abandoned a ha).2) with
    ha | ⟨clock, options, request, sink, deadline, room, rfl, rfl⟩
  · simp [ha.enrolled]
  · intro p hp
    rw [enrolled_input, enrolled_enroll, List.mem_singleton] at hp
    simp only [hasRoom, Bool.and_eq_true, decide_eq_true_eq] at room
    subst hp
    exact room.1

theorem Reached.enrolled_le (hr : Reached h c) (hp : Path Move c x d) :
    ∀ p ∈ enrolled x, p.1 ≤ c.ceiling := by
  induction hp with
  | refl => simp
  | snoc hq hm ih =>
      intro p hp
      rw [enrolled_append] at hp
      rcases List.mem_append.1 hp with hp | hp
      · exact ih p hp
      · exact hq.sameSetup.ceiling ▸ (hr.path hq).coherent.enrolled_le hm p hp

end Traffic

namespace Session

variable {s : Session}

theorem after_ceiling (s : Session) (inputs : List Input) : (s.after inputs).ceiling = s.ceiling := by
  induction inputs generalizing s with
  | nil => rfl
  | cons i rest ih => exact (ih _).trans (respond_ceiling s i)

theorem IsNew.enrolled_le (hs : s.IsNew) (inputs : List Input) :
    ∀ p ∈ enrolled (s.history inputs), p.1 ≤ s.ceiling := by
  induction inputs using List.reverseRecOn with
  | nil => simp
  | append_singleton inputs i ih =>
      intro p hp
      rw [history_append, enrolled_append] at hp
      rcases List.mem_append.1 hp with hp | hp
      · exact ih p hp
      · rw [history_cons, history_nil, List.append_nil] at hp
        have hquiet : (∀ a ∈ ((s.after inputs).respond i).actions, a.isQuiet = true) →
            p ∉ enrolled (.input i :: ofActions ((s.after inputs).respond i).actions) := fun hq => by
          simp [(Quiet.ofInput i hq).enrolled]
        cases ht : (s.after inputs).traffic? with
        | none => exact absurd hp (hquiet (respond_quiet ht i))
        | some c =>
            rcases respond_established ht i with ⟨d, -, hpath⟩ | hends
            · have hle := (hs.established inputs ht).1.enrolled_le hpath p hp
              rwa [← (traffic?_eq_some ht).2.2, after_ceiling] at hle
            · exact absurd hp (hquiet hends.quiet)

end Session

end HttpSession
