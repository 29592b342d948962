namespace HttpSession

abbrev StreamId := UInt32

def streamOf (seq : Nat) : StreamId :=
  UInt32.ofNat (2 * seq - 1)

def seqOf? (stream : StreamId) : Option Nat :=
  if stream % 2 = 1 then some (stream.toNat / 2 + 1) else none

def HasStream (seq : Nat) : Prop := 0 < seq ∧ seq < 1 <<< 31

instance (seq : Nat) : Decidable (HasStream seq) :=
  inferInstanceAs (Decidable (_ ∧ _))

variable {seq : Nat} {stream : StreamId}

theorem streamOf_toNat (h : HasStream seq) : (streamOf seq).toNat = 2 * seq - 1 := by
  obtain ⟨hpos, hlt⟩ := h
  rw [streamOf, UInt32.toNat_ofNat']
  exact Nat.mod_eq_of_lt (by omega)

theorem odd_iff_toNat : stream % 2 = 1 ↔ stream.toNat % 2 = 1 := by
  rw [← UInt32.toNat_inj, UInt32.toNat_mod]
  rfl

theorem seqOf?_streamOf (h : HasStream seq) : seqOf? (streamOf seq) = some seq := by
  have hnat := streamOf_toNat h
  obtain ⟨hpos, -⟩ := h
  have hodd : streamOf seq % 2 = 1 := odd_iff_toNat.2 (by omega)
  rw [seqOf?, if_pos hodd, hnat]
  exact congrArg some (by omega)

theorem eq_streamOf_of_seqOf? (h : seqOf? stream = some seq) : stream = streamOf seq := by
  unfold seqOf? at h
  split at h
  · rename_i hodd
    rw [odd_iff_toNat] at hodd
    obtain rfl := Option.some.inj h
    have hnat : 2 * (stream.toNat / 2 + 1) - 1 = stream.toNat := by omega
    rw [streamOf, hnat, UInt32.ofNat_toNat]
  · simp at h

end HttpSession
