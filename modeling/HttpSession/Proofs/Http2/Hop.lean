import HttpSession.Encoder
import HttpSession.Proofs.Field.Map

namespace HttpSession

namespace Fields

variable {fields given sent : Fields} {name value : Octets} {f : Field}

/-- A value of `connection` lists a name. Its items stand between commas; blanks around them and case do
not matter. A value that is not visible lists nothing. -/
def Lists (value name : Octets) : Prop :=
  value.all isVisible = true
    ∧ ∃ item ∈ splitOn 44 value, (trimBlanks item).map lowerAscii = name.map lowerAscii

instance (value name : Octets) : Decidable (Lists value name) :=
  inferInstanceAs (Decidable (_ ∧ _))

theorem mem_listedNames (hn : name.map lowerAscii = name) : name ∈ listedNames value ↔ Lists value name := by
  unfold listedNames Lists
  rw [hn]
  split
  · rename_i hvisible
    rw [List.mem_map]
    exact (and_iff_right hvisible).symm
  · rename_i hhidden
    exact iff_of_false List.not_mem_nil fun h => hhidden h.1

def FirstLists (fields : Fields) (name : Octets) : Prop :=
  ∃ value, fields.get? Field.connection = some value ∧ Lists value name

instance (fields : Fields) (name : Octets) : Decidable (fields.FirstLists name) :=
  decidable_of_iff (∃ value ∈ (fields.get? Field.connection).toList, Lists value name)
    (by simp only [Option.mem_toList, FirstLists])

/-- A `te` that starts with anything but `trailers`. -/
def IsForeignTe (f : Field) : Prop := f.name = Field.te ∧ f.values.head? ≠ some Field.trailers

instance (f : Field) : Decidable (IsForeignTe f) := inferInstanceAs (Decidable (_ ∧ _))

def IsHop (fields : Fields) (f : Field) : Prop :=
  f.name ∈ Field.connection :: hopNames ∨ IsForeignTe f ∨ fields.FirstLists f.name

instance (fields : Fields) (f : Field) : Decidable (fields.IsHop f) :=
  inferInstanceAs (Decidable (_ ∨ _ ∨ _))

theorem IsMap.withoutForeignTe (h : fields.IsMap) : fields.withoutForeignTe.IsMap := by
  unfold Fields.withoutForeignTe
  split
  · split
    · exact h
    · exact h.remove _
  · exact h

theorem IsMap.mem_withoutForeignTe (h : fields.IsMap) :
    f ∈ fields.withoutForeignTe.entries ↔ f ∈ fields.entries ∧ ¬IsForeignTe f := by
  have hhead (hf : f ∈ fields.entries) (hname : f.name = Field.te) :
      fields.get? Field.te = f.values.head? := hname ▸ h.get?_of_mem hf
  unfold Fields.withoutForeignTe
  split
  · rename_i value hvalue
    split
    · rename_i htrailers
      obtain rfl : value = Field.trailers := beq_iff_eq.1 htrailers
      exact (and_iff_left_of_imp fun hf hforeign =>
        hforeign.2 ((hhead hf hforeign.1).symm.trans hvalue)).symm
    · rename_i hforeign
      rw [h.mem_remove]
      refine and_congr_right fun hf => not_congr ⟨fun hname => ⟨hname, fun hhead' => hforeign ?_⟩, And.left⟩
      have hsame := hvalue.symm.trans ((hhead hf hname).trans hhead')
      exact beq_iff_eq.2 (Option.some.inj hsame)
  · rename_i hnone
    -- A field has a first value, so that there is no `te` at all.
    refine (and_iff_left_of_imp fun hf hforeign => h.filled f hf ?_).symm
    exact List.head?_eq_none_iff.1 ((hhead hf hforeign.1).symm.trans hnone)

theorem IsMap.withoutListed (h : fields.IsMap) : fields.withoutListed.IsMap := by
  unfold Fields.withoutListed
  split
  · exact (h.remove _).removeAll _
  · exact h

theorem IsMap.mem_withoutListed (h : fields.IsMap) :
    f ∈ fields.withoutListed.entries
      ↔ f ∈ fields.entries ∧ ¬(f.name = Field.connection ∨ fields.FirstLists f.name) := by
  unfold Fields.withoutListed
  cases hvalue : fields.get? Field.connection with
  | some value =>
      simp only
      rw [(h.remove _).mem_removeAll, h.mem_remove, and_assoc, ← not_or]
      refine and_congr_right fun hf => not_congr (or_congr_right ?_)
      rw [mem_listedNames (h.lower f hf)]
      simp [FirstLists, hvalue]
  | none =>
      refine (and_iff_left_of_imp fun hf hhop => ?_).symm
      rcases hhop with hname | ⟨value, hfirst, -⟩
      · refine h.filled f hf (List.head?_eq_none_iff.1 ?_)
        rw [← h.get?_of_mem hf, hname, hvalue]
      · simp [hvalue] at hfirst

theorem IsMap.withoutHop (h : fields.IsMap) : fields.withoutHop.IsMap :=
  ((h.removeAll hopNames).withoutForeignTe).withoutListed

theorem IsMap.get?_connection (h : fields.IsMap) :
    ((fields.removeAll hopNames).withoutForeignTe).get? Field.connection
      = fields.get? Field.connection := by
  have hrest := h.removeAll hopNames
  have hsame (f : Field) (hname : f.name = Field.connection) :
      f ∈ (fields.removeAll hopNames).withoutForeignTe.entries ↔ f ∈ fields.entries := by
    have hplain : f.name ∉ hopNames := hname ▸ by decide
    have hte : ¬IsForeignTe f := fun hforeign => absurd (hname.symm.trans hforeign.1) (by decide)
    rw [hrest.mem_withoutForeignTe, h.mem_removeAll, and_iff_left hte, and_iff_left hplain]
  exact congrArg (Option.bind · (·.values.head?)) (h.find?_eq_of_mem_iff hrest.withoutForeignTe hsame)

theorem IsMap.mem_withoutHop (h : fields.IsMap) :
    f ∈ fields.withoutHop.entries ↔ f ∈ fields.entries ∧ ¬fields.IsHop f := by
  have hrest := h.removeAll hopNames
  have hfirst : ((fields.removeAll hopNames).withoutForeignTe).FirstLists f.name
      ↔ fields.FirstLists f.name := by
    rw [FirstLists, h.get?_connection]
    rfl
  rw [Fields.withoutHop, hrest.withoutForeignTe.mem_withoutListed, hrest.mem_withoutForeignTe,
    h.mem_removeAll, hfirst, IsHop, List.mem_cons]
  tauto

/-- What HTTP/2 asks of a map that is sent in place of another: no field that is meant for one connection,
no `te` but `trailers`, and nothing that any `connection` of the other map lists. -/
structure IsEndToEnd (given sent : Fields) : Prop where
  plain : ∀ f ∈ sent.entries, f.name ∉ Field.connection :: hopNames
  te : ∀ f ∈ sent.entries, f.name = Field.te → ∀ value ∈ f.values, value = Field.trailers
  unlisted : ∀ f ∈ sent.entries, ∀ value ∈ given.values Field.connection, ¬Lists value f.name

theorem IsMap.isEndToEnd_iff (h : given.IsMap) :
    given.IsEndToEnd given.withoutHop
      ↔ (∀ f ∈ given.entries, f.name = Field.te → ¬given.IsHop f →
          ∀ value ∈ f.values, value = Field.trailers)
        ∧ ∀ f ∈ given.entries, ∀ value ∈ (given.values Field.connection).tail,
          Lists value f.name → given.IsHop f := by
  constructor
  · rintro ⟨-, hte, hunlisted⟩
    refine ⟨fun f hf hname hhop => hte f (h.mem_withoutHop.2 ⟨hf, hhop⟩) hname, ?_⟩
    intro f hf value hvalue hlists
    by_contra hhop
    exact hunlisted f (h.mem_withoutHop.2 ⟨hf, hhop⟩) value (List.mem_of_mem_tail hvalue) hlists
  · rintro ⟨hte, hlater⟩
    refine ⟨fun f hf hname => ?_, fun f hf hname => ?_, fun f hf value hvalue hlists => ?_⟩
    · exact (h.mem_withoutHop.1 hf).2 (.inl hname)
    · obtain ⟨hf, hhop⟩ := h.mem_withoutHop.1 hf
      exact hte f hf hname hhop
    · obtain ⟨hf, hhop⟩ := h.mem_withoutHop.1 hf
      cases hall : given.values Field.connection with
      | nil => simp [hall] at hvalue
      | cons first rest =>
          rw [hall] at hvalue
          rcases List.mem_cons.1 hvalue with rfl | hvalue
          · refine hhop (.inr (.inr ⟨value, ?_, hlists⟩))
            rw [get?_eq_head?, hall]
            rfl
          · exact hhop (hlater f hf value (by rwa [hall]) hlists)

end Fields

def Piece.fields? : Piece → Option Fields
  | .headers head _ => some head.fields
  | .trailers fields => some fields
  | _ => none

def Call.fields? : Call → Option Fields
  | .headers _ head _ _ => some head.fields
  | .trailers _ fields _ => some fields
  | _ => none

namespace Http2

theorem send_calls (sink : FrameSink) (call : Bool → Call) :
    ∃ ok, (send sink call).2.1 = [call ok] := by
  unfold send
  split
  · exact ⟨false, rfl⟩
  · exact ⟨true, rfl⟩

theorem put_calls {piece : Piece} {given : Fields} (hp : piece.fields? = some given) (sink : FrameSink)
    (seq : Nat) : ∃ call, ((Encoder.http2 sink).put seq piece).calls = [call]
      ∧ call.fields? = some given.withoutHop := by
  cases piece with
  | headers head last =>
      obtain rfl := Option.some.inj hp
      obtain ⟨ok, hcall⟩ := send_calls sink (.headers (streamOf seq) (carried head) last)
      exact ⟨_, hcall, rfl⟩
  | trailers fields =>
      obtain rfl := Option.some.inj hp
      obtain ⟨ok, hcall⟩ := send_calls sink (.trailers (streamOf seq) fields.withoutHop)
      exact ⟨_, hcall, rfl⟩
  | data | reset => simp [Piece.fields?] at hp

/-- Whatever map of fields an encoder is given, the transport gets those that nothing takes out, each with
all its values, and none that is for one connection by its name. They are all for the whole way exactly if
no `te` that goes through says more than `trailers`, and the values of `connection` behind the first list
nothing that goes through. -/
theorem carried_endToEnd {piece : Piece} {given : Fields} (hp : piece.fields? = some given)
    (h : given.IsMap) (sink : FrameSink) (seq : Nat) :
    ∃ call sent, ((Encoder.http2 sink).put seq piece).calls = [call] ∧ call.fields? = some sent
      ∧ (∀ f, f ∈ sent.entries ↔ f ∈ given.entries ∧ ¬given.IsHop f)
      ∧ (∀ f ∈ sent.entries, f.name ∉ Field.connection :: Fields.hopNames)
      ∧ (given.IsEndToEnd sent
        ↔ (∀ f ∈ given.entries, f.name = Field.te → ¬given.IsHop f →
            ∀ value ∈ f.values, value = Field.trailers)
          ∧ ∀ f ∈ given.entries, ∀ value ∈ (given.values Field.connection).tail,
            Fields.Lists value f.name → given.IsHop f) := by
  obtain ⟨call, hcalls, hfields⟩ := put_calls hp sink seq
  refine ⟨call, given.withoutHop, hcalls, hfields, fun f => h.mem_withoutHop, fun f hf hname => ?_,
    h.isEndToEnd_iff⟩
  exact (h.mem_withoutHop.1 hf).2 (.inl hname)

def relayed : Fields :=
  .ofLines [(ascii "Connection", ascii "X-Hop , keep-alive"), (ascii "x-hop", ascii "1"),
    (ascii "te", ascii "gzip"), (ascii "transfer-encoding", ascii "chunked"), (ascii "x-keep", ascii "yes")]

theorem carried_endToEnd_relayed :
    ∃ call sent, ((Encoder.http2 .fresh).put 1 (.trailers relayed)).calls = [call]
      ∧ call.fields? = some sent ∧ relayed.IsEndToEnd sent ∧ sent.lines = [(ascii "x-keep", ascii "yes")] := by
  obtain ⟨call, sent, hcalls, hfields, -, -, hiff⟩ :=
    carried_endToEnd (show (Piece.trailers relayed).fields? = some relayed from rfl)
      (Fields.ofLines_isMap _) .fresh 1
  have hcall : ((Encoder.http2 .fresh).put 1 (.trailers relayed)).calls
      = [.trailers 1 relayed.withoutHop true] := rfl
  obtain rfl : .trailers 1 relayed.withoutHop true = call := List.head_eq_of_cons_eq (hcall.symm.trans hcalls)
  obtain rfl := Option.some.inj hfields
  exact ⟨_, _, hcalls, hfields, hiff.2 ⟨by decide +kernel, by decide +kernel⟩, by decide +kernel⟩

def smuggled : Fields :=
  .ofLines [(ascii "te", ascii "trailers"), (ascii "te", ascii "gzip"), (ascii "connection", ascii "close"),
    (ascii "connection", ascii "x-hop"), (ascii "x-hop", ascii "1")]

theorem hop_crosses :
    smuggled.IsMap ∧ ((Encoder.http2 .fresh).put 1 (.trailers smuggled)).calls
        = [.trailers 1 smuggled.withoutHop true]
      ∧ smuggled.withoutHop.lines
        = [(ascii "te", ascii "trailers"), (ascii "te", ascii "gzip"), (ascii "x-hop", ascii "1")]
      ∧ ¬smuggled.IsEndToEnd smuggled.withoutHop := by
  refine ⟨Fields.ofLines_isMap _, rfl, by decide +kernel, fun h => ?_⟩
  have hlists : Fields.Lists (ascii "x-hop") (ascii "x-hop") := by decide +kernel
  exact h.unlisted ⟨ascii "x-hop", [ascii "1"]⟩ (by decide +kernel) (ascii "x-hop") (by decide +kernel) hlists

end Http2

end HttpSession
