import HttpSession.Proofs.Http2.Hop
import Mathlib.Data.List.Flatten
import Mathlib.Data.List.Perm.Subperm

namespace HttpSession.Fields

variable {fields : Fields} {name value : Octets} {f : Field}

theorem remove_absent (h : ∀ f ∈ fields.entries, f.name ≠ name) : fields.remove name = fields :=
  remove_of_contains (by simpa [contains] using h)

theorem removeAll_absent {names : List Octets} (h : ∀ f ∈ fields.entries, f.name ∉ names) :
    fields.removeAll names = fields := by
  induction names with
  | nil => rfl
  | cons name rest ih =>
      have hfirst : fields.remove name = fields :=
        remove_absent fun f hf hname => h f hf (hname ▸ List.mem_cons_self)
      rw [removeAll, List.foldl_cons, hfirst]
      exact ih fun f hf hmem => h f hf (List.mem_cons_of_mem _ hmem)

theorem IsMap.withoutForeignTe_eq_self (h : fields.IsMap) (hte : ∀ f ∈ fields.entries, ¬IsForeignTe f) :
    fields.withoutForeignTe = fields := by
  unfold Fields.withoutForeignTe
  split
  · rename_i value hvalue
    split
    · rfl
    · rename_i hforeign
      refine remove_absent fun f hf hname => hte f hf ⟨hname, fun hhead => hforeign ?_⟩
      have hfirst : fields.get? Field.te = f.values.head? := hname ▸ h.get?_of_mem hf
      exact beq_iff_eq.2 (Option.some.inj (hvalue.symm.trans (hfirst.trans hhead)))
  · rfl

theorem IsMap.withoutListed_eq_self (h : fields.IsMap)
    (hplain : ∀ f ∈ fields.entries, f.name ≠ Field.connection) : fields.withoutListed = fields := by
  have hnone : fields.get? Field.connection = none := by
    cases hfind : fields.find? Field.connection with
    | none => rw [get?, hfind, Option.bind_none]
    | some f =>
        obtain ⟨hf, hname⟩ := h.find?_eq_some_iff.1 hfind
        exact absurd hname (hplain f hf)
  rw [Fields.withoutListed, hnone]

theorem IsMap.withoutHop_eq_self_iff (h : fields.IsMap) :
    fields.withoutHop = fields ↔ ∀ f ∈ fields.entries, ¬fields.IsHop f := by
  constructor
  · intro hsame f hf
    rw [← hsame] at hf
    exact (h.mem_withoutHop.1 hf).2
  · intro hplain
    have hnames : fields.removeAll hopNames = fields :=
      removeAll_absent fun f hf hmem => hplain f hf (.inl (List.mem_cons_of_mem _ hmem))
    have hte : fields.withoutForeignTe = fields :=
      h.withoutForeignTe_eq_self fun f hf hforeign => hplain f hf (.inr (.inl hforeign))
    have hlisted : fields.withoutListed = fields :=
      h.withoutListed_eq_self fun f hf hname => hplain f hf (.inl (hname ▸ List.mem_cons_self))
    rw [Fields.withoutHop, hnames, hte, hlisted]

theorem IsMap.withoutHop_plain (h : fields.IsMap) :
    ∀ f ∈ fields.withoutHop.entries, ¬fields.withoutHop.IsHop f := by
  intro f hf hhop
  have hout : ¬fields.IsHop f := (h.mem_withoutHop.1 hf).2
  rcases hhop with hname | hforeign | ⟨value, hvalue, -⟩
  · exact hout (.inl hname)
  · exact hout (.inr (.inl hforeign))
  · obtain ⟨g, hfind, -⟩ := Option.bind_eq_some_iff.1 hvalue
    obtain ⟨hg, hname⟩ := h.withoutHop.find?_eq_some_iff.1 hfind
    exact (h.mem_withoutHop.1 hg).2 (.inl (hname ▸ List.mem_cons_self))

theorem IsMap.withoutHop_subperm (h : fields.IsMap) :
    fields.withoutHop.entries.Subperm fields.entries :=
  List.subperm_of_subset (List.Nodup.of_map _ h.withoutHop.distinct) fun _ hf => (h.mem_withoutHop.1 hf).1

theorem lines_subperm {rest : Fields} (h : rest.entries.Subperm fields.entries) :
    rest.lines.Subperm fields.lines := by
  obtain ⟨entries, hperm, hsub⟩ := h
  exact ⟨_, hperm.flatMap_right _, hsub.flatMap _⟩

theorem IsMap.values_of_mem (h : fields.IsMap) (hf : f ∈ fields.entries) : fields.values f.name = f.values := by
  rw [values, h.find?_eq_some_iff.2 ⟨hf, rfl⟩]
  rfl

theorem values_of_absent (h : ∀ f ∈ fields.entries, f.name ≠ name) : fields.values name = [] := by
  have hnone : fields.find? name = none := List.find?_eq_none.2 fun f hf => by simpa using h f hf
  rw [values, hnone]
  rfl

theorem IsMap.values_withoutHop (h : fields.IsMap) (name : Octets) :
    fields.withoutHop.values name
      = if ∃ f ∈ fields.entries, f.name = name ∧ fields.IsHop f then [] else fields.values name := by
  by_cases hname : ∃ f ∈ fields.entries, f.name = name
  · obtain ⟨f, hf, rfl⟩ := hname
    by_cases hhop : fields.IsHop f
    · rw [if_pos ⟨f, hf, rfl, hhop⟩]
      refine values_of_absent fun g hg hsame => (h.mem_withoutHop.1 hg).2 ?_
      rwa [h.eq_of_name (h.mem_withoutHop.1 hg).1 hf hsame]
    · have hothers : ¬∃ g ∈ fields.entries, g.name = f.name ∧ fields.IsHop g := by
        rintro ⟨g, hg, hsame, hghop⟩
        exact hhop (h.eq_of_name hg hf hsame ▸ hghop)
      rw [if_neg hothers, h.values_of_mem hf, h.withoutHop.values_of_mem (h.mem_withoutHop.2 ⟨hf, hhop⟩)]
  · have hnone : ∀ f ∈ fields.entries, f.name ≠ name := fun f hf hsame => hname ⟨f, hf, hsame⟩
    rw [if_neg fun ⟨f, hf, hsame, _⟩ => hname ⟨f, hf, hsame⟩, values_of_absent hnone]
    exact values_of_absent fun f hf => hnone f (h.mem_withoutHop.1 hf).1

theorem not_firstLists (h : ∀ value ∈ fields.values Field.connection, ¬Lists value name) :
    ¬fields.FirstLists name := by
  rintro ⟨value, hvalue, hlists⟩
  rw [get?_eq_head?] at hvalue
  exact h value (List.mem_of_head? hvalue) hlists

/-- A field of another name keeps all its values unless some `connection` lists it, and so does a `te` that
says `trailers` and nothing else. What is left was all there before, field by field and line by line, and
whatever it is done to again leaves it as it is. -/
theorem withoutHop_spares (h : fields.IsMap) :
    (∀ name, name ∉ Field.te :: Field.connection :: hopNames →
        (∀ value ∈ fields.values Field.connection, ¬Lists value name) →
        fields.withoutHop.values name = fields.values name)
      ∧ (fields.values Field.te = [Field.trailers] →
        (∀ value ∈ fields.values Field.connection, ¬Lists value Field.te) →
        fields.withoutHop.values Field.te = [Field.trailers])
      ∧ (∀ f, f ∈ fields.withoutHop.entries ↔ f ∈ fields.entries ∧ ¬fields.IsHop f)
      ∧ fields.withoutHop.lines.Subperm fields.lines
      ∧ fields.withoutHop.withoutHop = fields.withoutHop := by
  refine ⟨fun name hname hunlisted => ?_, fun hte hunlisted => ?_, fun f => h.mem_withoutHop,
    lines_subperm h.withoutHop_subperm, h.withoutHop.withoutHop_eq_self_iff.2 h.withoutHop_plain⟩
  · rw [h.values_withoutHop, if_neg]
    rintro ⟨f, -, rfl, hother | hforeign | hfirst⟩
    · exact hname (List.mem_cons_of_mem _ hother)
    · exact hname (hforeign.1 ▸ List.mem_cons_self)
    · exact not_firstLists hunlisted hfirst
  · rw [h.values_withoutHop, if_neg, hte]
    rintro ⟨f, hf, hname, hother | hforeign | hfirst⟩
    · exact absurd (hname ▸ hother) (by decide)
    · refine hforeign.2 ?_
      rw [← h.values_of_mem hf, hname, hte]
      rfl
    · exact not_firstLists hunlisted (hname ▸ hfirst)

def patched : Fields :=
  .ofLines [(ascii "upgrade", ascii "h2c"), (ascii "x-keep", ascii "1"), (ascii "te", ascii "trailers"),
    (ascii "connection", ascii ", x hop,, X-HOP ,upgrade,x-hop"), (ascii "x-hop", ascii "1"),
    (ascii "connection", ascii "close"), (ascii "x-keep", ascii "2"), (ascii "x-last", ascii "3")]

theorem withoutHop_spares_patched :
    patched.IsMap ∧ patched.withoutHop.values (ascii "x-keep") = [ascii "1", ascii "2"]
      ∧ patched.withoutHop.values Field.te = [Field.trailers]
      ∧ patched.withoutHop.entries.map Field.name = [ascii "x-last", ascii "x-keep", ascii "te"]
      ∧ patched.withoutHop.withoutHop = patched.withoutHop := by
  have hmap : patched.IsMap := ofLines_isMap _
  obtain ⟨hkeep, hte, -, -, hagain⟩ := withoutHop_spares hmap
  refine ⟨hmap, ?_, ?_, by decide +kernel, hagain⟩
  · rw [hkeep (ascii "x-keep") (by decide +kernel) (by decide +kernel)]
    decide +kernel
  · exact hte (by decide +kernel) (by decide +kernel)

end HttpSession.Fields
