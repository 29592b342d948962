import HttpSession.Text.Quoted

namespace HttpSession.Text

def IsShown (text : String) : Prop := ∀ c ∈ text.toList, isConcealed c = false

instance (text : String) : Decidable (IsShown text) :=
  decidable_of_iff (text.toList.all fun c => !isConcealed c) (by simp [IsShown])

variable {x y : String}

theorem isShown_append (hx : IsShown x) (hy : IsShown y) : IsShown (x ++ y) := by
  intro c hc
  rw [String.toList_append, List.mem_append] at hc
  exact hc.elim (hx c) (hy c)

theorem isShown_join {texts : List String} (h : ∀ x ∈ texts, IsShown x) : IsShown (String.join texts) := by
  intro c hc
  rw [String.toList_join, List.mem_flatMap] at hc
  obtain ⟨x, hx, hc⟩ := hc
  exact h x hx c hc

theorem lowerHexDigit_shown {d : Nat} (h : d < 16) : isConcealed (lowerHexDigit d) = false := by
  decide +revert

theorem lowerHex_shown (n : Nat) : IsShown (lowerHex n) := by
  unfold IsShown lowerHex
  induction n using hexDigits.induct with
  | case1 n h =>
      rw [hexDigits, if_pos h]
      simpa using lowerHexDigit_shown h
  | case2 n h ih =>
      rw [hexDigits, if_neg h]
      simp only [String.toList_ofList, List.map_append, List.mem_append] at ih ⊢
      rintro c (hc | hc)
      · exact ih c hc
      · obtain rfl := List.mem_singleton.1 hc
        exact lowerHexDigit_shown (Nat.mod_lt n (by decide))

theorem escapeChar_shown (c : Char) : IsShown (escapeChar c) := by
  unfold escapeChar
  split
  case h_7 =>
    split
    · exact isShown_append (isShown_append (by decide) (lowerHex_shown _)) (by decide)
    · rename_i hshown
      intro d hd
      obtain rfl : d = c := by simpa using hd
      simpa using hshown
  all_goals decide

theorem quoted_shown (text : String) : IsShown (quoted text) := by
  refine isShown_append (isShown_append (by decide) (isShown_join fun x hx => ?_)) (by decide)
  obtain ⟨c, -, rfl⟩ := List.mem_map.1 hx
  exact escapeChar_shown c

theorem printable_shown {n : Nat} (h : 32 ≤ n ∧ n < 127) : isConcealed (Char.ofNat n) = false := by
  have hall : ∀ n < 127, 32 ≤ n → isConcealed (Char.ofNat n) = false := by decide
  exact hall n h.2 h.1

theorem escapeOctet_shown (b : UInt8) : IsShown (escapeOctet b) := by
  unfold escapeOctet
  iterate 6
    split
    · decide
  split
  · rename_i h
    have hprintable : 32 ≤ b.toNat ∧ b.toNat < 127 := by
      simpa [UInt8.le_iff_toNat_le, UInt8.lt_iff_toNat_lt] using h
    intro c hc
    obtain rfl : c = Char.ofNat b.toNat := by simpa using hc
    exact printable_shown hprintable
  · refine isShown_append (by decide) fun c hc => ?_
    have hdigit : b.toNat / 16 < 16 := by
      have hbound := b.toNat_lt
      omega
    have hc : c = lowerHexDigit (b.toNat / 16) ∨ c = lowerHexDigit (b.toNat % 16) := by
      simpa [hexPair] using hc
    rcases hc with rfl | rfl
    · exact lowerHexDigit_shown hdigit
    · exact lowerHexDigit_shown (Nat.mod_lt _ (by decide))

theorem quotedOctets_shown (octets : Octets) : IsShown (quotedOctets octets) := by
  refine isShown_append (isShown_append (by decide) (isShown_join fun x hx => ?_)) (by decide)
  obtain ⟨b, -, rfl⟩ := List.mem_map.1 hx
  exact escapeOctet_shown b

end HttpSession.Text
