import HttpSession.Proofs.Http1.Reader
import HttpSession.Upload

namespace HttpSession.Http1

variable {a b : UInt8} {l name value rest tail : Octets} {lines : List (Octets × Octets)}

theorem cut?_append (h : a ∉ l) (rest : Octets) : cut? a b (l ++ a :: b :: rest) = some (l, rest) := by
  induction l with
  | nil => simp [cut?]
  | cons x tail ih =>
      rw [List.mem_cons, not_or] at h
      rw [List.cons_append, cut?, if_neg fun hx => h.1 hx.1.symm, ih h.2]
      rfl

theorem line?_append (h : 13 ∉ l) (rest : Octets) : line? (l ++ crlf ++ rest) = some (l, rest) := by
  rw [List.append_assoc]
  exact cut?_append h rest

theorem fields?_end (rest : Octets) : fields? (crlf ++ rest) = some ([], rest) :=
  fields?_of_line (line?_append (l := []) (by simp) rest)

theorem fields?_line (hn : 58 ∉ name ∧ 13 ∉ name) (hv : 13 ∉ value) (rest : Octets) :
    fields? (name ++ [58, 32] ++ value ++ crlf ++ rest)
      = (fields? rest).map fun more => ((name, value) :: more.1, more.2) := by
  have hline := line?_append (l := name ++ [58, 32] ++ value) (by simp [hn.2, hv]) rest
  have hfield : field? (name ++ [58, 32] ++ value) = some (name, value) := by
    rw [List.append_assoc]
    exact cut?_append hn.1 value
  rw [fields?_of_line hline, if_neg (by simp), hfield]
  cases fields? rest <;> rfl

/-- A field line that reads as it was meant: a lower case name without a colon, and no line break. -/
structure IsLegal (line : Octets × Octets) : Prop where
  lower : line.1.map lowerAscii = line.1
  name : 58 ∉ line.1 ∧ 13 ∉ line.1
  value : 13 ∉ line.2

instance (line : Octets × Octets) : Decidable (IsLegal line) :=
  decidable_of_iff (line.1.map lowerAscii = line.1 ∧ (58 ∉ line.1 ∧ 13 ∉ line.1) ∧ 13 ∉ line.2)
    ⟨fun h => ⟨h.1, h.2.1, h.2.2⟩, fun h => ⟨h.lower, h.name, h.value⟩⟩

theorem fields?_lines {lines : List (Octets × Octets)} (h : ∀ line ∈ lines, IsLegal line)
    (rest : Octets) :
    fields? (lines.flatMap (fun line => line.1 ++ [58, 32] ++ line.2 ++ crlf) ++ crlf ++ rest)
      = some (lines, rest) := by
  induction lines with
  | nil => exact fields?_end rest
  | cons line more ih =>
      have hline := h line List.mem_cons_self
      have hmore := ih fun l hl => h l (List.mem_cons_of_mem _ hl)
      rw [List.flatMap_cons, List.append_assoc, List.append_assoc, fields?_line hline.name hline.value,
        ← List.append_assoc, hmore]
      rfl

theorem fields?_block {fields : Fields} (h : ∀ line ∈ fields.lines, IsLegal line) (rest : Octets) :
    fields? (fields.block ++ crlf ++ rest) = some (fields.lines, rest) :=
  fields?_lines h rest

theorem valueOf?_eq {lines : List (Octets × Octets)} (h : ∀ line ∈ lines, IsLegal line) (name : Octets) :
    valueOf? name lines = (lines.find? fun line => line.1 == name).map Prod.snd := by
  unfold valueOf?
  congr 1
  induction lines with
  | nil => rfl
  | cons line more ih =>
      rw [List.find?_cons, List.find?_cons, (h line List.mem_cons_self).lower,
        ih fun l hl => h l (List.mem_cons_of_mem _ hl)]

theorem mem_of_valueOf? {lines : List (Octets × Octets)} (h : ∀ line ∈ lines, IsLegal line)
    (hv : valueOf? name lines = some value) : (name, value) ∈ lines := by
  rw [valueOf?_eq h] at hv
  obtain ⟨line, hline, rfl⟩ := Option.map_eq_some_iff.1 hv
  obtain rfl : line.1 = name := by simpa using List.find?_some hline
  exact List.mem_of_find?_eq_some hline

theorem valueOf?_ne_none (h : ∀ line ∈ lines, IsLegal line) (hm : (name, value) ∈ lines) :
    valueOf? name lines ≠ none := by
  rw [valueOf?_eq h, ne_eq, Option.map_eq_none_iff, List.find?_eq_none]
  exact fun hn => hn _ hm (beq_self_eq_true name)

theorem valueOf?_append (h : ∀ line ∈ lines, IsLegal line) (hn : ∀ v, (name, v) ∉ lines)
    (hm : name.map lowerAscii = name) : valueOf? name (lines ++ [(name, value)]) = some value := by
  have hnone : lines.find? (fun line => line.1.map lowerAscii == name) = none := by
    rw [List.find?_eq_none]
    intro line hl he
    rw [(h line hl).lower, beq_iff_eq] at he
    exact hn line.2 (he ▸ hl)
  simp [valueOf?, List.find?_append, hnone, hm]

theorem upperHex_unbroken (n : Nat) : 13 ∉ upperHex n := by
  have hdigit {d : Nat} (h : d < 16) : upperHexDigit d ≠ 13 := by decide +revert
  unfold upperHex
  induction n using hexDigits.induct with
  | case1 n h =>
      rw [hexDigits, if_pos h]
      simpa using (hdigit h).symm
  | case2 n h ih =>
      rw [hexDigits, if_neg h, List.map_append, List.mem_append, not_or]
      exact ⟨ih, by simpa using (hdigit (Nat.mod_lt n (by decide))).symm⟩

theorem chunks?_chunk {octets : Octets} (h : octets ≠ []) (rest : Octets) :
    chunks? (upperHex octets.length ++ crlf ++ octets ++ crlf ++ rest)
      = (chunks? rest).map fun more => (octets ++ more.1, more.2) := by
  have hline := line?_append (upperHex_unbroken octets.length) (octets ++ (crlf ++ rest))
  have hsize : octets.length ≠ 0 := by simpa using h
  have hmark : ((octets ++ (crlf ++ rest)).drop octets.length).take 2 = crlf := by simp [crlf]
  have hrest : (octets ++ (crlf ++ rest)).drop (octets.length + 2) = rest := by simp [crlf]
  simp only [List.append_assoc] at hline ⊢
  rw [chunks?_of_line hline, number?_upperHex, Option.bind_some, if_neg hsize, if_pos hmark, hrest]
  cases chunks? rest <;> simp

theorem chunks?_last {fields : Fields} (h : ∀ line ∈ fields.lines, IsLegal line) (rest : Octets) :
    chunks? (lastChunk ++ fields.block ++ crlf ++ rest) = some ([], fields.lines, rest) := by
  have hline := line?_append (l := ascii "0") (by decide) (fields.block ++ crlf ++ rest)
  have hzero : number? 16 (ascii "0") = some 0 := by decide
  have hall : lastChunk ++ fields.block ++ crlf ++ rest
      = ascii "0" ++ crlf ++ (fields.block ++ crlf ++ rest) := by
    simp [lastChunk]
  rw [hall, chunks?_of_line hline, hzero, Option.bind_some, if_pos rfl, fields?_block h rest]
  rfl

def payload (frames : List Frame) : Octets :=
  frames.flatMap fun
    | .data octets => octets
    | _ => []

def trailing (frames : List Frame) : List (Octets × Octets) :=
  frames.flatMap fun
    | .trailers fields => fields.lines
    | _ => []

def isWhole : List Frame → Bool
  | [] => true
  | .data _ :: rest | .pending :: rest => isWhole rest
  | .trailers _ :: rest => rest.isEmpty
  | .failure _ :: _ | .crash _ :: _ => false

def carried (framing : Framing) : List Frame → Octets
  | [] => (dataWrites framing [] true).flatten
  | .data octets :: rest => (dataWrites framing octets false).flatten ++ carried framing rest
  | .trailers fields :: _ => (trailerWrites framing fields).flatten
  | _ :: rest => carried framing rest

theorem carried_length {frames : List Frame} (h : isWhole frames = true) :
    carried .length frames = payload frames := by
  induction frames with
  | nil => rfl
  | cons frame rest ih =>
      cases frame with
      | data octets =>
          have hwrites : (dataWrites .length octets false).flatten = octets := by
            cases octets <;> simp [dataWrites]
          rw [carried, ih h, hwrites]
          rfl
      | pending => exact ih h
      | trailers fields =>
          obtain rfl : rest = [] := List.isEmpty_iff.1 h
          rfl
      | failure cause | crash text => simp [isWhole] at h

theorem chunks?_carried {frames : List Frame} (h : isWhole frames = true)
    (hl : ∀ line ∈ trailing frames, IsLegal line) (rest : Octets) :
    chunks? (carried .chunked frames ++ rest) = some (payload frames, trailing frames, rest) := by
  induction frames with
  | nil =>
      have hnone : ∀ line ∈ Fields.empty.lines, IsLegal line := by simp [Fields.empty, Fields.lines]
      simpa [carried, dataWrites, payload, trailing, Fields.empty, Fields.block, Fields.lines]
        using chunks?_last hnone rest
  | cons frame tail ih =>
      cases frame with
      | data octets =>
          have htail := ih h hl
          by_cases ho : octets = []
          · subst ho
            exact htail
          · have hwrites : (dataWrites .chunked octets false).flatten
                = upperHex octets.length ++ crlf ++ octets ++ crlf := by
              simp [dataWrites, ho]
            rw [carried, hwrites, List.append_assoc, chunks?_chunk ho, htail]
            rfl
      | pending => exact ih h hl
      | trailers fields =>
          obtain rfl : tail = [] := List.isEmpty_iff.1 h
          have hfields : ∀ line ∈ fields.lines, IsLegal line := by simpa [trailing] using hl
          simpa [carried, trailerWrites, payload, trailing] using chunks?_last hfields rest
      | failure cause | crash text => simp [isWhole] at h

end HttpSession.Http1

namespace HttpSession.Upload

open Http1

def framing (u : Upload) : Framing := Http1.framing (withHost u.head) u.body.isEnd

def fields (u : Upload) : Fields := framed (withHost u.head) u.framing

def entity (u : Upload) : Octets :=
  if u.body.isEnd then [] else carried u.framing u.body.frames

def octets (u : Upload) : Octets := headBlock u.head u.body.isEnd ++ u.entity

def isStreamed (u : Upload) : Bool :=
  !u.body.isEnd && !u.head.fields.contains Field.contentLength

def added (u : Upload) : List (Octets × Octets) :=
  (if u.head.fields.contains Field.host then []
    else u.head.target.authority.toList.map fun authority => (Field.host, authority))
  ++ if u.isStreamed then [(Field.transferEncoding, Field.chunked)] else []

def received (u : Upload) : Received where
  method := u.head.method
  target := u.head.target.path.getD Target.slash
  fields := u.head.fields.lines ++ u.added
  body := payload u.body.frames
  trailers := if u.isStreamed then trailing u.body.frames else []

/-- A request that HTTP/1.1 can carry. -/
structure IsPlain (u : Upload) : Prop where
  method : 32 ∉ u.head.method ∧ 13 ∉ u.head.method
  target : 32 ∉ u.received.target ∧ 13 ∉ u.received.target
  authority : ∀ authority ∈ u.head.target.authority, 13 ∉ authority
  filled : ∀ f ∈ u.head.fields.entries, f.values ≠ []
  legal : ∀ line ∈ u.head.fields.lines, IsLegal line
  uncoded : u.head.fields.contains Field.transferEncoding = false
  length : ∀ line ∈ u.head.fields.lines, line.1 = Field.contentLength →
    number? 10 line.2 = some (payload u.body.frames).length
  whole : isWhole u.body.frames = true
  trailers : ∀ line ∈ trailing u.body.frames, IsLegal line

instance (u : Upload) : Decidable u.IsPlain :=
  decidable_of_iff
    ((32 ∉ u.head.method ∧ 13 ∉ u.head.method) ∧ (32 ∉ u.received.target ∧ 13 ∉ u.received.target)
      ∧ (∀ authority ∈ u.head.target.authority, 13 ∉ authority)
      ∧ (∀ f ∈ u.head.fields.entries, f.values ≠ []) ∧ (∀ line ∈ u.head.fields.lines, IsLegal line)
      ∧ u.head.fields.contains Field.transferEncoding = false
      ∧ (∀ line ∈ u.head.fields.lines, line.1 = Field.contentLength →
        number? 10 line.2 = some (payload u.body.frames).length)
      ∧ isWhole u.body.frames = true ∧ ∀ line ∈ trailing u.body.frames, IsLegal line)
    ⟨fun ⟨method, target, authority, filled, legal, uncoded, length, whole, trailers⟩ =>
        { method, target, authority, filled, legal, uncoded, length, whole, trailers },
      fun h => ⟨h.method, h.target, h.authority, h.filled, h.legal, h.uncoded, h.length, h.whole,
        h.trailers⟩⟩

variable {u : Upload}

theorem withHost_cases (head : Head) :
    withHost head = head.fields ∧ (head.fields.contains Field.host = true ∨ head.target.authority = none)
      ∨ head.fields.contains Field.host = false ∧ ∃ authority, head.target.authority = some authority
        ∧ withHost head = head.fields.insert Field.host authority := by
  unfold withHost
  split
  · rename_i h
    exact .inl ⟨rfl, .inl h⟩
  · rename_i h
    cases ha : head.target.authority with
    | none => exact .inl ⟨rfl, .inr rfl⟩
    | some authority => exact .inr ⟨by simpa using h, authority, rfl, rfl⟩

theorem contains_withHost (head : Head) {name : Octets} (h : name ≠ Field.host) :
    (withHost head).contains name = head.fields.contains name := by
  rcases withHost_cases head with ⟨he, -⟩ | ⟨hn, authority, -, he⟩
  · rw [he]
  · rw [he, Fields.insert_of_contains hn]
    simp [Fields.contains, Ne.symm h]

theorem withHost_lines (head : Head) :
    (withHost head).lines = head.fields.lines ++ if head.fields.contains Field.host then []
      else head.target.authority.toList.map fun authority => (Field.host, authority) := by
  rcases withHost_cases head with ⟨he, hc | ha⟩ | ⟨hn, authority, ha, he⟩
  · simp [he, hc]
  · simp [he, ha]
  · rw [he, Fields.insert_lines hn]
    simp [hn, ha]

theorem mem_withHost {head : Head} {line : Octets × Octets} (hl : line ∈ (withHost head).lines) :
    line ∈ head.fields.lines
      ∨ ∃ authority, head.target.authority = some authority ∧ line = (Field.host, authority) := by
  rw [withHost_lines, List.mem_append] at hl
  refine hl.imp_right fun h => ?_
  split at h
  · simp at h
  · obtain ⟨authority, ha, rfl⟩ := List.mem_map.1 h
    exact ⟨authority, by simpa using ha, rfl⟩

theorem framing_eq (u : Upload) : u.framing = if u.isStreamed then .chunked else .length := by
  unfold framing Http1.framing isStreamed
  rw [contains_withHost u.head (by decide)]
  cases u.body.isEnd <;> cases u.head.fields.contains Field.contentLength <;> rfl

theorem lines_subset_withHost (head : Head) : head.fields.lines ⊆ (withHost head).lines := by
  rw [withHost_lines]
  exact List.subset_append_left _ _

theorem IsPlain.uncoded_withHost (h : u.IsPlain) :
    (withHost u.head).contains Field.transferEncoding = false :=
  (contains_withHost u.head (by decide)).trans h.uncoded

theorem IsPlain.legal_withHost (h : u.IsPlain) : ∀ line ∈ (withHost u.head).lines, IsLegal line := by
  intro line hl
  rcases mem_withHost hl with hl | ⟨authority, ha, rfl⟩
  · exact h.legal line hl
  · exact ⟨(by decide : Field.host.map lowerAscii = Field.host),
      (by decide : 58 ∉ Field.host ∧ 13 ∉ Field.host), h.authority authority ha⟩

theorem received_fields (u : Upload) : u.received.fields = (withHost u.head).lines
    ++ if u.isStreamed then [(Field.transferEncoding, Field.chunked)] else [] := by
  rw [withHost_lines, List.append_assoc]
  rfl

theorem IsPlain.fields_lines (h : u.IsPlain) : u.fields.lines = u.received.fields := by
  have hn := h.uncoded_withHost
  rw [received_fields, fields, framing_eq]
  split
  · rw [framed, Fields.remove_of_contains hn, Fields.insert_lines hn]
  · rw [framed, List.append_nil]

theorem IsPlain.legal_fields (h : u.IsPlain) : ∀ line ∈ u.fields.lines, IsLegal line := by
  intro line hl
  rw [h.fields_lines, received_fields, List.mem_append] at hl
  rcases hl with hl | hl
  · exact h.legal_withHost line hl
  · split at hl
    · rw [List.mem_singleton.1 hl]
      exact ⟨(by decide : Field.transferEncoding.map lowerAscii = Field.transferEncoding),
        (by decide : 58 ∉ Field.transferEncoding ∧ 13 ∉ Field.transferEncoding),
        (by decide : 13 ∉ Field.chunked)⟩
    · simp at hl

theorem IsPlain.entity_whole (h : u.IsPlain) (hs : u.isStreamed = false) :
    u.entity = payload u.body.frames := by
  unfold entity
  split
  · rw [Body.frames_of_isEnd ‹_›]
    rfl
  · rw [framing_eq, hs]
    exact carried_length h.whole

theorem IsPlain.reads_whole (h : u.IsPlain) (hs : u.isStreamed = false) (behind : Octets) :
    body? u.fields.lines (u.entity ++ behind) = some (payload u.body.frames, [], behind) := by
  rw [h.fields_lines, received_fields, hs, if_neg (by decide), List.append_nil, h.entity_whole hs, body?]
  have hlegal := h.legal_withHost
  cases hc : valueOf? Field.transferEncoding (withHost u.head).lines with
  | some coding =>
      have hmem := Fields.contains_of_mem (mem_of_valueOf? hlegal hc)
      exact absurd (hmem.symm.trans h.uncoded_withHost) (by decide)
  | none =>
      cases hv : valueOf? Field.contentLength (withHost u.head).lines with
      | some value =>
          have hnumber : number? 10 value = some (payload u.body.frames).length := by
            rcases mem_withHost (mem_of_valueOf? hlegal hv) with hm | ⟨authority, -, he⟩
            · exact h.length _ hm rfl
            · exact absurd (Prod.mk.inj he).1 (by decide)
          simp [hnumber]
      | none =>
          -- Without a length there is no body at all, or it would be streamed.
          have hnone : u.head.fields.contains Field.contentLength = false := by
            rw [← Bool.not_eq_true]
            intro hcontains
            obtain ⟨value, hmem⟩ := Fields.mem_of_contains h.filled hcontains
            exact valueOf?_ne_none hlegal (lines_subset_withHost u.head hmem) hv
          have hend : u.body.isEnd = true := by simpa [isStreamed, hnone] using hs
          simp [Body.frames_of_isEnd hend, payload]

theorem IsPlain.reads_streamed (h : u.IsPlain) (hs : u.isStreamed = true) (behind : Octets) :
    body? u.fields.lines (u.entity ++ behind)
      = some (payload u.body.frames, trailing u.body.frames, behind) := by
  have hopen : ¬u.body.isEnd = true := fun hend => by simp [isStreamed, hend] at hs
  have hcoding : valueOf? Field.transferEncoding u.fields.lines = some Field.chunked := by
    rw [h.fields_lines, received_fields, hs, if_pos rfl]
    refine valueOf?_append h.legal_withHost (fun v hv => ?_) (by decide)
    exact absurd ((Fields.contains_of_mem hv).symm.trans h.uncoded_withHost) (by decide)
  rw [body?, hcoding, entity, if_neg hopen, framing_eq, hs]
  exact chunks?_carried h.whole h.trailers behind

theorem IsPlain.reads_body (h : u.IsPlain) (behind : Octets) :
    body? u.fields.lines (u.entity ++ behind)
      = some (u.received.body, u.received.trailers, behind) := by
  cases hs : u.isStreamed with
  | false =>
      rw [h.reads_whole hs]
      simp [received, hs]
  | true =>
      rw [h.reads_streamed hs]
      simp [received, hs]

theorem IsPlain.reads_back (h : u.IsPlain) (behind : Octets) :
    message? (u.octets ++ behind) = some (u.received, behind) := by
  have hversion : ascii " HTTP/1.1" = 32 :: ascii "HTTP/1.1" := by decide
  have hsplit : splitOn 32 (u.head.method ++ [32] ++ u.received.target ++ ascii " HTTP/1.1")
      = [u.head.method, u.received.target, ascii "HTTP/1.1"] := by
    rw [List.append_assoc, List.append_assoc, hversion, List.singleton_append,
      splitOn_append h.method.1, splitOn_append h.target.1, splitOn_self (by decide)]
  have hunbroken : 13 ∉ u.head.method ++ [32] ++ u.received.target ++ ascii " HTTP/1.1" := by
    have : 13 ∉ ascii " HTTP/1.1" := by decide
    simp [h.method.2, h.target.2, this]
  have hline := line?_append hunbroken (u.fields.block ++ crlf ++ (u.entity ++ behind))
  have hall : u.octets ++ behind
      = u.head.method ++ [32] ++ u.received.target ++ ascii " HTTP/1.1" ++ crlf
        ++ (u.fields.block ++ crlf ++ (u.entity ++ behind)) := by
    simp [octets, headBlock, requestLine, received, fields, framing]
  rw [hall, message?, hline, Option.bind_eq_bind, Option.bind_some]
  simp only [hsplit, if_true, fields?_block h.legal_fields, Option.bind_eq_bind, Option.bind_some,
    h.reads_body, Option.pure_def]
  rw [h.fields_lines]
  rfl

theorem reads_back_all {uploads : List Upload} (h : ∀ u ∈ uploads, u.IsPlain) :
    messages? (uploads.flatMap octets) = some (uploads.map received) := by
  induction uploads with
  | nil => simp [messages?]
  | cons u more ih =>
      have hfirst := (h u List.mem_cons_self).reads_back (more.flatMap octets)
      rw [List.flatMap_cons, messages?_of_message hfirst, ih fun v hv => h v (List.mem_cons_of_mem _ hv)]
      rfl

end HttpSession.Upload
