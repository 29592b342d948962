import HttpSession.Proofs.Http1.Framing

namespace HttpSession

namespace Http1

def isTokenOctet (b : UInt8) : Bool :=
  (48 ≤ b && b ≤ 57) || (65 ≤ b && b ≤ 90) || (97 ≤ b && b ≤ 122)
    || [33, 35, 36, 37, 38, 39, 42, 43, 45, 46, 94, 95, 96, 124, 126].contains b

def isTextOctet (b : UInt8) : Bool := b == 9 || (32 ≤ b && b != 127)

def isTargetOctet (b : UInt8) : Bool := 32 < b

def IsToken (octets : Octets) : Prop := octets ≠ [] ∧ ∀ b ∈ octets, isTokenOctet b = true

instance (octets : Octets) : Decidable (IsToken octets) :=
  decidable_of_iff (octets ≠ [] ∧ octets.all isTokenOctet = true) (by simp [IsToken])

structure IsField (line : Octets × Octets) : Prop where
  name : IsToken line.1
  value : ∀ b ∈ line.2, isTextOctet b = true

instance (line : Octets × Octets) : Decidable (IsField line) :=
  decidable_of_iff (IsToken line.1 ∧ line.2.all isTextOctet = true)
    ⟨fun h => ⟨h.1, List.all_eq_true.1 h.2⟩, fun h => ⟨h.name, List.all_eq_true.2 h.value⟩⟩

structure Spells (method target : Octets) (lines : List (Octets × Octets)) (block : Octets) : Prop where
  token : IsToken method
  visible : ∀ b ∈ target, isTargetOctet b = true
  fields : ∀ line ∈ lines, IsField line
  spelled : block = method ++ [32] ++ target ++ [32] ++ ascii "HTTP/1.1" ++ crlf
    ++ lines.flatMap (fun line => line.1 ++ [58, 32] ++ line.2 ++ crlf) ++ crlf

inductive IsRequestTarget (head : Head) : Octets → Prop
  | origin (rest : Octets) : IsRequestTarget head (47 :: rest)
  | asterisk : IsRequestTarget head [42]
  | authority {target : Octets} (connect : head.method = ascii "CONNECT")
      (named : head.target.authority = some target) : IsRequestTarget head target

def IsRequestHead (head : Head) (block : Octets) : Prop :=
  ∃ target lines, Spells head.method target lines block ∧ IsRequestTarget head target

structure IsBuilt (head : Head) : Prop where
  method : IsToken head.method
  target : ∀ path ∈ head.target.path, ∀ b ∈ path, isTargetOctet b = true
  authority : ∀ authority ∈ head.target.authority, ∀ b ∈ authority, isTextOctet b = true
  fields : ∀ line ∈ head.fields.lines, IsField line
  filled : ∀ f ∈ head.fields.entries, f.values ≠ []

instance (head : Head) : Decidable (IsBuilt head) :=
  decidable_of_iff (IsToken head.method
      ∧ (head.target.path.toList.all fun path => path.all isTargetOctet) = true
      ∧ (head.target.authority.toList.all fun authority => authority.all isTextOctet) = true
      ∧ (∀ line ∈ head.fields.lines, IsField line) ∧ ∀ f ∈ head.fields.entries, f.values ≠ [])
    ⟨fun ⟨method, target, authority, fields, filled⟩ =>
      ⟨method, by simpa using target, by simpa using authority, fields, filled⟩,
      fun h => ⟨h.method, by simpa using h.target, by simpa using h.authority, h.fields, h.filled⟩⟩

variable {head : Head} {method target block name value : Octets} {lines : List (Octets × Octets)}

theorem Spells.target_unique {other : Octets} {more : List (Octets × Octets)}
    (h : Spells method target lines block) (h' : Spells method other more block) : target = other := by
  have hfree {t : Octets} (ht : ∀ b ∈ t, isTargetOctet b = true) : 32 ∉ t :=
    fun hmem => absurd (ht 32 hmem) (by decide)
  have hblock := h.spelled.symm.trans h'.spelled
  simp only [List.append_assoc, List.append_cancel_left_eq, List.cons_append, List.nil_append,
    List.cons.injEq, true_and] at hblock
  have hsplit := congrArg (List.head? ∘ splitOn 32) hblock
  simp only [Function.comp_apply, splitOn_append (hfree h.visible), splitOn_append (hfree h'.visible),
    List.head?_cons, Option.some.injEq] at hsplit
  exact hsplit

theorem Spells.isRequestHead_iff (h : Spells head.method target lines block) :
    IsRequestHead head block ↔ IsRequestTarget head target := by
  constructor
  · rintro ⟨other, more, hspells, htarget⟩
    exact h.target_unique hspells ▸ htarget
  · intro htarget
    exact ⟨target, lines, h, htarget⟩

theorem mem_sentFields (h : (Field.host, value) ∈ (withHost head).lines) (last : Bool) :
    (Field.host, value) ∈ (sentFields head last).lines := by
  unfold sentFields framed
  split
  · exact h
  · exact Fields.mem_insert_of_ne (Fields.mem_remove_of_ne h (by decide)) (by decide) _

namespace IsBuilt

theorem host (h : IsBuilt head)
    (hn : head.fields.contains Field.host = true ∨ head.target.authority.isSome = true) :
    ∃ value, (Field.host, value) ∈ (withHost head).lines
      ∧ ((Field.host, value) ∈ head.fields.lines ∨ head.target.authority = some value) := by
  rw [Upload.withHost_lines]
  cases hc : head.fields.contains Field.host with
  | true =>
      obtain ⟨value, hv⟩ := Fields.mem_of_contains h.filled hc
      exact ⟨value, List.mem_append_left _ hv, .inl hv⟩
  | false =>
      obtain ⟨authority, ha⟩ := Option.isSome_iff_exists.1 (by simpa [hc] using hn)
      exact ⟨authority, by simp [ha], .inr ha⟩

theorem withHost (h : IsBuilt head) : ∀ line ∈ (withHost head).lines, IsField line := by
  intro line hl
  rcases Upload.mem_withHost hl with hl | ⟨authority, ha, rfl⟩
  · exact h.fields line hl
  · exact ⟨(by decide : IsToken Field.host), h.authority authority ha⟩

theorem sentFields (h : IsBuilt head) (last : Bool) : ∀ line ∈ (sentFields head last).lines, IsField line := by
  rintro ⟨name, value⟩ hl
  unfold Http1.sentFields framed at hl
  split at hl
  · exact h.withHost _ hl
  · rcases Fields.mem_lines_insert hl with ⟨hold, -⟩ | ⟨rfl, rfl⟩
    · exact h.withHost _ (Fields.remove_lines_subset _ _ hold)
    · decide

theorem spells (h : IsBuilt head) (last : Bool) :
    Spells head.method (head.target.path.getD Target.slash) (Http1.sentFields head last).lines
      (headBlock head last) where
  token := h.method
  visible := by
    cases hp : head.target.path with
    | none => simp [Target.slash, isTargetOctet]
    | some path => exact h.target path hp
  fields := h.sentFields last
  spelled := by
    have hversion : ascii " HTTP/1.1" = [32] ++ ascii "HTTP/1.1" := by decide
    simp [headBlock, requestLine, Http1.sentFields, Fields.block, hversion]

end IsBuilt

end Http1

namespace Target

theorem head?_orSlash {octets : Octets} (h : ∀ b ∈ octets.head?, b = 47 ∨ b = 63) :
    (orSlash octets).head? = some 47 ∨ (orSlash octets).head? = some 63 := by
  unfold orSlash
  cases octets with
  | nil => exact .inl rfl
  | cons b rest => exact (h b rfl).imp (congrArg some) (congrArg some)

theorem head?_behindAuthority {rest : Octets} {b : UInt8}
    (h : b ∈ (withoutFragment (rest.dropWhile fun b => !endsAuthority b)).head?) : b = 47 ∨ b = 63 := by
  have hends := List.head?_dropWhile_not (fun b => !endsAuthority b) rest
  cases hl : rest.dropWhile fun b => !endsAuthority b with
  | nil => simp [hl, withoutFragment] at h
  | cons c tail =>
      rw [hl, withoutFragment, List.takeWhile_cons] at h
      rw [hl] at hends
      split at h
      · obtain rfl : c = b := by simpa using h
        have hor : (c = 47 ∨ c = 63) ∨ c = 35 := by
          simpa only [List.head?_cons, endsAuthority, Bool.not_eq_false', Bool.or_eq_true, beq_iff_eq] using hends
        exact hor.resolve_right (by simpa using ‹(c != 35) = true›)
      · simp at h

theorem head?_ofOctets (uri : Octets) :
    (ofOctets uri).path.getD slash = [42] ∨ ((ofOctets uri).path.getD slash).head? = some 47
      ∨ ((ofOctets uri).path.getD slash).head? = some 63 := by
  unfold ofOctets
  split
  · exact .inr (.inl (by simp [withoutFragment]))
  · exact .inl rfl
  · split
    · exact .inr (head?_orSlash fun b hb => head?_behindAuthority hb)
    · exact .inr (.inl rfl)

theorem query_notMem_authority {uri authority : Octets} {path : Octets}
    (hp : (ofOctets uri).path = some path) (ha : (ofOctets uri).authority = some authority) :
    63 ∉ authority := by
  unfold ofOctets at hp ha
  split at ha
  · simp at ha
  · simp at ha
  · split at ha
    · obtain rfl : _ = authority := Option.some.inj ha
      intro hmem
      have hno := List.all_eq_true.1 List.all_takeWhile 63 hmem
      simp [endsAuthority] at hno
    · simp_all

end Target

namespace Http1

variable {head : Head} {target uri : Octets}

theorem isRequestTarget_iff (huri : head.target = Target.ofOctets uri) :
    IsRequestTarget head (head.target.path.getD Target.slash)
      ↔ (head.target.path.getD Target.slash).head? ≠ some 63 := by
  constructor
  · intro htarget hquery
    generalize ht : head.target.path.getD Target.slash = target at htarget hquery
    cases htarget with
    | origin rest => simp at hquery
    | asterisk => simp at hquery
    | authority connect named =>
        cases hp : head.target.path with
        | none =>
            rw [hp] at ht
            subst ht
            simp [Target.slash] at hquery
        | some path =>
            rw [hp] at ht
            subst ht
            exact Target.query_notMem_authority (huri ▸ hp) (huri ▸ named) (List.mem_of_mem_head? hquery)
  · intro hquery
    rcases huri ▸ Target.head?_ofOctets uri with hall | hpath | hno
    · exact hall ▸ .asterisk
    · obtain ⟨rest, hrest⟩ := List.head?_eq_some_iff.1 hpath
      exact hrest ▸ .origin rest
    · exact absurd hno hquery

end Http1

open Http1

namespace Encoder

variable {head : Head} {framing : Framing} {wire : Wire} {seq : Nat} {last : Bool}

theorem headers_calls :
    ((http1 framing wire).put seq (.headers head last)).calls
      = [.write (headBlock head last) wire.write.1.isNone] := by
  rcases hw : wire.write with ⟨_ | e, after⟩ <;> simp [put, headers, ofWrites, writeAll, hw]

/-- The head that is written is spelled as HTTP/1.1 has it and names the host where one is known. It is
one of a request, if the target does not begin with the query. -/
theorem headers_spelled (h : IsBuilt head) (framing : Framing) (wire : Wire) (seq : Nat) (last : Bool) :
    ∃ block lines,
      ((http1 framing wire).put seq (.headers head last)).calls = [.write block wire.write.1.isNone]
      ∧ Spells head.method (head.target.path.getD Target.slash) lines block
      ∧ (head.fields.contains Field.host = true ∨ head.target.authority.isSome = true →
        ∃ value, (Field.host, value) ∈ lines
          ∧ ((Field.host, value) ∈ head.fields.lines ∨ head.target.authority = some value))
      ∧ ∀ uri, head.target = Target.ofOctets uri →
        (IsRequestHead head block ↔ (head.target.path.getD Target.slash).head? ≠ some 63) := by
  refine ⟨headBlock head last, (sentFields head last).lines, headers_calls, h.spells last, ?_, ?_⟩
  · intro hnamed
    obtain ⟨value, hmem, hfrom⟩ := h.host hnamed
    exact ⟨value, mem_sentFields hmem last, hfrom⟩
  · intro uri huri
    rw [(h.spells last).isRequestHead_iff, isRequestTarget_iff huri]

def probing (uri : Octets) : Head := ⟨ascii "GET", Target.ofOctets uri, .http11, .empty⟩

theorem headers_spelled_rooted :
    let head := probing (ascii "http://a/b?c")
    IsBuilt head ∧ head.target.authority.isSome = true
      ∧ ∃ (block : Octets) (lines : List (Octets × Octets)),
        ((http1 .length .fresh).put 1 (.headers head true)).calls = [.write block true]
        ∧ Spells head.method (ascii "/b?c") lines block
        ∧ (∃ value, (Field.host, value) ∈ lines
          ∧ ((Field.host, value) ∈ head.fields.lines ∨ head.target.authority = some value))
        ∧ IsRequestHead head block := by
  intro head
  have hbuilt : IsBuilt head := by decide +kernel
  have hpath : head.target.path.getD Target.slash = ascii "/b?c" := by decide
  obtain ⟨block, lines, hcalls, hspells, hhost, htarget⟩ := headers_spelled hbuilt .length .fresh 1 true
  rw [hpath] at hspells htarget
  exact ⟨hbuilt, by decide, block, lines, hcalls, hspells, hhost (.inr (by decide)),
    (htarget (ascii "http://a/b?c") rfl).2 (by decide)⟩

/-- Behind an authority the query stands where the path is to begin. -/
theorem query_without_path :
    let head := probing (ascii "http://a?x=1")
    let block := ascii "GET ?x=1 HTTP/1.1" ++ crlf ++ ascii "host: a" ++ crlf ++ crlf
    IsBuilt head ∧ ((http1 .length .fresh).put 1 (.headers head true)).calls = [.write block true]
      ∧ ¬IsRequestHead head block := by
  intro head block
  have hbuilt : IsBuilt head := by decide +kernel
  have hblock : headBlock head true = block := by decide +kernel
  refine ⟨hbuilt, by decide +kernel, fun h => ?_⟩
  rw [← hblock, (hbuilt.spells true).isRequestHead_iff,
    isRequestTarget_iff (show head.target = Target.ofOctets (ascii "http://a?x=1") from rfl)] at h
  exact h (by decide)

end Encoder

end HttpSession
