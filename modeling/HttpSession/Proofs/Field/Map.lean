import HttpSession.Field
import Mathlib.Data.List.Nodup

namespace HttpSession

namespace Fields

/-- A map of fields: every name stands once, in lower case and with a value. -/
structure IsMap (fields : Fields) : Prop where
  distinct : (fields.entries.map Field.name).Nodup
  lower : ∀ f ∈ fields.entries, f.name.map lowerAscii = f.name
  filled : ∀ f ∈ fields.entries, f.values ≠ []

instance (fields : Fields) : Decidable fields.IsMap :=
  decidable_of_iff ((fields.entries.map Field.name).Nodup
      ∧ (∀ f ∈ fields.entries, f.name.map lowerAscii = f.name) ∧ ∀ f ∈ fields.entries, f.values ≠ [])
    ⟨fun h => ⟨h.1, h.2.1, h.2.2⟩, fun h => ⟨h.distinct, h.lower, h.filled⟩⟩

variable {fields : Fields} {name value : Octets} {f g : Field}

theorem name_mem_iff_contains : name ∈ fields.entries.map Field.name ↔ fields.contains name = true := by
  simp [contains]

theorem empty_isMap : empty.IsMap := ⟨List.nodup_nil, by simp [empty], by simp [empty]⟩

theorem IsMap.append (h : fields.IsMap) (hn : name.map lowerAscii = name) (value : Octets) :
    (fields.append name value).IsMap := by
  unfold Fields.append
  split
  · have hname (f : Field) :
        (if f.name == name then { f with values := f.values ++ [value] } else f).name = f.name := by
      split <;> rfl
    refine ⟨?_, fun f hf => ?_, fun f hf => ?_⟩
    · simp only [List.map_map, Function.comp_def, hname]
      exact h.distinct
    · obtain ⟨g, hg, rfl⟩ := List.mem_map.1 hf
      rw [hname]
      exact h.lower g hg
    · obtain ⟨g, hg, rfl⟩ := List.mem_map.1 hf
      split
      · simp
      · exact h.filled g hg
  · rename_i habsent
    refine ⟨?_, fun f hf => ?_, fun f hf => ?_⟩
    · rw [List.map_append, List.nodup_append]
      refine ⟨h.distinct, by simp, fun a ha b hb hab => habsent (name_mem_iff_contains.1 ?_)⟩
      obtain rfl : b = name := List.mem_singleton.1 hb
      exact hab ▸ ha
    · rcases List.mem_append.1 hf with hf | hf
      · exact h.lower f hf
      · rwa [List.mem_singleton.1 hf]
    · rcases List.mem_append.1 hf with hf | hf
      · exact h.filled f hf
      · simp [List.mem_singleton.1 hf]

theorem lowerAscii_lowerAscii (b : UInt8) : lowerAscii (lowerAscii b) = lowerAscii b := by
  unfold lowerAscii
  by_cases h : 65 ≤ b ∧ b ≤ 90
  · have hlow : ¬(65 ≤ b + 32 ∧ b + 32 ≤ 90) := by
      simp only [UInt8.le_iff_toNat_le, UInt8.toNat_add, UInt8.reduceToNat] at h ⊢
      omega
    rw [if_pos h, if_neg hlow]
  · rw [if_neg h, if_neg h]

theorem ofLines_isMap (lines : List (Octets × Octets)) : (ofLines lines).IsMap := by
  have hall (more : List (Octets × Octets)) (fields : Fields) (h : fields.IsMap) :
      (more.foldl (fun fields line => fields.append (line.1.map lowerAscii) line.2) fields).IsMap := by
    induction more generalizing fields with
    | nil => exact h
    | cons line rest ih =>
        refine ih _ (h.append ?_ line.2)
        simp [lowerAscii_lowerAscii]
  exact hall lines empty empty_isMap

theorem mem_lines : (name, value) ∈ fields.lines ↔ ∃ f ∈ fields.entries, f.name = name ∧ value ∈ f.values := by
  simp only [lines, List.mem_flatMap, List.mem_map, Prod.mk.injEq]
  constructor
  · rintro ⟨f, hf, v, hv, hname, rfl⟩
    exact ⟨f, hf, hname, hv⟩
  · rintro ⟨f, hf, hname, hv⟩
    exact ⟨f, hf, value, hv, hname, rfl⟩

theorem mem_lines_insert {other v : Octets} (h : (other, v) ∈ (fields.insert name value).lines) :
    (other, v) ∈ fields.lines ∧ other ≠ name ∨ other = name ∧ v = value := by
  obtain ⟨f, hf, rfl, hv⟩ := mem_lines.1 h
  unfold insert at hf
  split at hf
  · obtain ⟨g, hg, rfl⟩ := List.mem_map.1 hf
    cases hname : g.name == name with
    | true =>
        simp only [hname, if_true] at hv ⊢
        exact .inr ⟨trivial, List.mem_singleton.1 hv⟩
    | false =>
        simp only [hname, Bool.false_eq_true, if_false] at hv ⊢
        exact .inl ⟨mem_lines.2 ⟨g, hg, rfl, hv⟩, by simpa using hname⟩
  · rename_i habsent
    rcases List.mem_append.1 hf with hold | hnew
    · refine .inl ⟨mem_lines.2 ⟨f, hold, rfl, hv⟩, fun hname => habsent ?_⟩
      exact hname ▸ name_mem_iff_contains.1 (List.mem_map_of_mem hold)
    · obtain rfl := List.mem_singleton.1 hnew
      exact .inr ⟨rfl, List.mem_singleton.1 hv⟩

theorem mem_insert_of_ne {other : Octets} (h : (other, value) ∈ fields.lines) (hne : other ≠ name)
    (v : Octets) : (other, value) ∈ (fields.insert name v).lines := by
  obtain ⟨f, hf, rfl, hv⟩ := mem_lines.1 h
  refine mem_lines.2 ⟨f, ?_, rfl, hv⟩
  unfold insert
  split
  · exact List.mem_map.2 ⟨f, hf, if_neg (by simpa using hne)⟩
  · exact List.mem_append_left _ hf

theorem insert_mem_lines (fields : Fields) (name value : Octets) :
    (name, value) ∈ (fields.insert name value).lines := by
  refine mem_lines.2 ⟨⟨name, [value]⟩, ?_, rfl, List.mem_singleton_self _⟩
  unfold insert
  split
  · rename_i h
    obtain ⟨f, hf, hname⟩ := List.any_eq_true.1 h
    exact List.mem_map.2 ⟨f, hf, if_pos hname⟩
  · exact List.mem_append_right _ (List.mem_singleton_self _)

theorem lastFirst_perm (entries : List Field) : (lastFirst entries).Perm entries := by
  cases hlast : entries.getLast? with
  | none =>
      rw [List.getLast?_eq_none_iff.1 hlast]
      exact .refl _
  | some f =>
      simp only [lastFirst, hlast]
      obtain ⟨front, rfl⟩ := List.getLast?_eq_some_iff.1 hlast
      rw [List.dropLast_concat]
      exact List.perm_append_singleton f front |>.symm

theorem removeEntry_perm (name : Octets) (entries : List Field) :
    (removeEntry name entries).Perm (entries.eraseP (·.name == name)) := by
  induction entries with
  | nil => exact .refl _
  | cons f rest ih =>
      rw [removeEntry, List.eraseP_cons]
      cases f.name == name with
      | true => exact lastFirst_perm rest
      | false => exact ih.cons f

theorem mem_remove_of_ne {other : Octets} (h : (other, value) ∈ fields.lines) (hne : other ≠ name) :
    (other, value) ∈ (fields.remove name).lines := by
  obtain ⟨f, hf, rfl, hv⟩ := mem_lines.1 h
  have hkept := (List.mem_eraseP_of_neg (p := (·.name == name)) (by simpa using hne)).2 hf
  exact mem_lines.2 ⟨f, (removeEntry_perm name fields.entries).mem_iff.2 hkept, rfl, hv⟩

theorem remove_lines_subset (fields : Fields) (name : Octets) : (fields.remove name).lines ⊆ fields.lines := by
  rintro ⟨other, value⟩ h
  obtain ⟨f, hf, hname, hv⟩ := mem_lines.1 h
  have hkept := List.mem_of_mem_eraseP ((removeEntry_perm name fields.entries).mem_iff.1 hf)
  exact mem_lines.2 ⟨f, hkept, hname, hv⟩

theorem eraseP_eq_filter {entries : List Field} (h : (entries.map Field.name).Nodup) (name : Octets) :
    entries.eraseP (·.name == name) = entries.filter (·.name != name) := by
  induction entries with
  | nil => rfl
  | cons f rest ih =>
      rw [List.map_cons, List.nodup_cons] at h
      cases hname : f.name == name with
      | true =>
          have hothers : ∀ g ∈ rest, (g.name != name) = true := by
            intro g hg
            rw [bne_iff_ne]
            rintro rfl
            exact h.1 (List.mem_map.2 ⟨g, hg, (beq_iff_eq.1 hname).symm⟩)
          rw [List.eraseP_cons_of_pos (by simpa using hname),
            List.filter_cons_of_neg (by simpa using hname), List.filter_eq_self.2 hothers]
      | false =>
          rw [List.eraseP_cons_of_neg (by simpa using hname),
            List.filter_cons_of_pos (by simpa using hname), ih h.2]

theorem IsMap.remove_perm (h : fields.IsMap) (name : Octets) :
    (fields.remove name).entries.Perm (fields.entries.filter (·.name != name)) :=
  eraseP_eq_filter h.distinct name ▸ removeEntry_perm name fields.entries

theorem IsMap.mem_remove (h : fields.IsMap) :
    f ∈ (fields.remove name).entries ↔ f ∈ fields.entries ∧ f.name ≠ name := by
  rw [(h.remove_perm name).mem_iff, List.mem_filter, bne_iff_ne]

theorem IsMap.remove (h : fields.IsMap) (name : Octets) : (fields.remove name).IsMap where
  distinct :=
    ((h.remove_perm name).map Field.name).nodup_iff.2 (h.distinct.sublist (List.filter_sublist.map _))
  lower f hf := h.lower f (h.mem_remove.1 hf).1
  filled f hf := h.filled f (h.mem_remove.1 hf).1

theorem IsMap.removeAll (h : fields.IsMap) (names : List Octets) : (fields.removeAll names).IsMap := by
  induction names generalizing fields with
  | nil => exact h
  | cons name rest ih => exact ih (h.remove name)

theorem IsMap.mem_removeAll (h : fields.IsMap) {names : List Octets} :
    f ∈ (fields.removeAll names).entries ↔ f ∈ fields.entries ∧ f.name ∉ names := by
  induction names generalizing fields with
  | nil => simp [Fields.removeAll]
  | cons name rest ih =>
      refine (ih (h.remove name)).trans ?_
      rw [h.mem_remove, List.mem_cons, not_or, and_assoc]

theorem IsMap.eq_of_name (h : fields.IsMap) (hf : f ∈ fields.entries) (hg : g ∈ fields.entries)
    (hname : f.name = g.name) : f = g :=
  List.inj_on_of_nodup_map h.distinct hf hg hname

theorem IsMap.find?_eq_some_iff (h : fields.IsMap) :
    fields.find? name = some f ↔ f ∈ fields.entries ∧ f.name = name := by
  constructor
  · intro hfound
    exact ⟨List.mem_of_find?_eq_some hfound, by simpa using List.find?_some hfound⟩
  · rintro ⟨hf, rfl⟩
    cases hfound : fields.find? f.name with
    | none => exact absurd (beq_self_eq_true f.name) (List.find?_eq_none.1 hfound f hf)
    | some g =>
        have hg : g.name = f.name := by simpa using List.find?_some hfound
        rw [h.eq_of_name (List.mem_of_find?_eq_some hfound) hf hg]

theorem IsMap.get?_of_mem (h : fields.IsMap) (hf : f ∈ fields.entries) :
    fields.get? f.name = f.values.head? := by
  rw [get?, h.find?_eq_some_iff.2 ⟨hf, rfl⟩]
  rfl

theorem get?_eq_head? (fields : Fields) (name : Octets) : fields.get? name = (fields.values name).head? := by
  unfold get? values
  cases fields.find? name <;> rfl

theorem IsMap.find?_eq_of_mem_iff {rest : Fields} (h : fields.IsMap) (hr : rest.IsMap)
    (hmem : ∀ f, f.name = name → (f ∈ rest.entries ↔ f ∈ fields.entries)) :
    rest.find? name = fields.find? name := by
  refine Option.ext fun f => ?_
  rw [hr.find?_eq_some_iff, h.find?_eq_some_iff]
  exact and_congr_left fun hname => hmem f hname

end Fields

end HttpSession
