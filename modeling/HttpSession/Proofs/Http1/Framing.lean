import HttpSession.Proofs.Field.Map
import HttpSession.Proofs.Http1.Written

namespace HttpSession

namespace Http1

variable {xs ys lines : List (Octets × Octets)} {name value : Octets} {head : Head}

def codings (lines : List (Octets × Octets)) : List Octets :=
  (lines.filter fun line => line.1.map lowerAscii == Field.transferEncoding).flatMap fun line =>
    ((splitOn 44 line.2).map fun item => (trimBlanks item).map lowerAscii).filter (· ≠ [])

inductive Announced where
  | chunked
  | sized (length : Octets)
  | absent
  deriving DecidableEq, Repr

/-- Chunks are announced by the last coding, whatever length is given beside it. -/
def announced (lines : List (Octets × Octets)) : Announced :=
  if (codings lines).getLast? = some Field.chunked then .chunked
  else
    match valueOf? Field.contentLength lines with
    | some length => .sized length
    | none => .absent

theorem announced_eq_chunked : announced lines = .chunked ↔ (codings lines).getLast? = some Field.chunked := by
  unfold announced
  split
  · exact iff_of_true rfl ‹_›
  · refine iff_of_false ?_ ‹_›
    split <;> simp

theorem codings_append (xs ys : List (Octets × Octets)) : codings (xs ++ ys) = codings xs ++ codings ys := by
  simp [codings]

theorem codings_eq_nil (h : ∀ line ∈ lines, line.1.map lowerAscii ≠ Field.transferEncoding) :
    codings lines = [] := by
  have hnone : lines.filter (fun line => line.1.map lowerAscii == Field.transferEncoding) = [] :=
    List.filter_eq_nil_iff.2 fun line hl => by simpa using h line hl
  rw [codings, hnone]
  rfl

theorem mem_codings_chunked (h : (Field.transferEncoding, Field.chunked) ∈ lines) :
    Field.chunked ∈ codings lines := by
  refine List.mem_flatMap.2 ⟨_, List.mem_filter.2 ⟨h, by decide⟩, ?_⟩
  decide

theorem getLast?_codings (h : (Field.transferEncoding, Field.chunked) ∈ lines)
    (hall : ∀ line ∈ lines, line.1.map lowerAscii = Field.transferEncoding → line.2 = Field.chunked) :
    (codings lines).getLast? = some Field.chunked := by
  have hitems : ((splitOn 44 Field.chunked).map fun item => (trimBlanks item).map lowerAscii).filter (· ≠ [])
      = [Field.chunked] := by decide
  have hne : codings lines ≠ [] := List.ne_nil_of_mem (mem_codings_chunked h)
  obtain ⟨line, hline, hlast⟩ := List.mem_flatMap.1 (List.getLast_mem hne)
  obtain ⟨hmem, hname⟩ := List.mem_filter.1 hline
  rw [hall line hmem (beq_iff_eq.1 hname), hitems, List.mem_singleton] at hlast
  rw [List.getLast?_eq_some_getLast hne, hlast]

def headLines? (octets : Octets) : Option (List (Octets × Octets) × Octets) := do
  let first ← line? octets
  fields? first.2

structure IsUnbroken (head : Head) : Prop where
  method : 13 ∉ head.method
  target : 13 ∉ head.target.path.getD Target.slash
  authority : ∀ authority ∈ head.target.authority, 13 ∉ authority
  lines : ∀ line ∈ head.fields.lines, IsLegal line

instance (head : Head) : Decidable (IsUnbroken head) :=
  decidable_of_iff (13 ∉ head.method ∧ 13 ∉ head.target.path.getD Target.slash
      ∧ (∀ authority ∈ head.target.authority.toList, 13 ∉ authority) ∧ ∀ line ∈ head.fields.lines, IsLegal line)
    ⟨fun h => ⟨h.1, h.2.1, fun a ha => h.2.2.1 a (Option.mem_toList.2 ha), h.2.2.2⟩,
      fun h => ⟨h.method, h.target, fun a ha => h.authority a (Option.mem_toList.1 ha), h.lines⟩⟩

def sentFields (head : Head) (last : Bool) : Fields :=
  framed (withHost head) (framing (withHost head) last)

theorem IsUnbroken.withHost (h : IsUnbroken head) : ∀ line ∈ (withHost head).lines, IsLegal line := by
  intro line hl
  rcases Upload.mem_withHost hl with hl | ⟨authority, ha, rfl⟩
  · exact h.lines line hl
  · exact ⟨(by decide : Field.host.map lowerAscii = Field.host),
      (by decide : 58 ∉ Field.host ∧ 13 ∉ Field.host), h.authority authority ha⟩

theorem IsUnbroken.sentFields (h : IsUnbroken head) (last : Bool) :
    ∀ line ∈ (sentFields head last).lines, IsLegal line := by
  rintro ⟨name, value⟩ hl
  unfold Http1.sentFields framed at hl
  split at hl
  · exact h.withHost _ hl
  · rcases Fields.mem_lines_insert hl with ⟨hold, -⟩ | ⟨rfl, rfl⟩
    · exact h.withHost _ (Fields.remove_lines_subset _ _ hold)
    · decide

theorem IsUnbroken.headLines? (h : IsUnbroken head) (last : Bool) :
    Http1.headLines? (headBlock head last) = some ((Http1.sentFields head last).lines, []) := by
  have hfirst : 13 ∉ head.method ++ [32] ++ head.target.path.getD Target.slash ++ ascii " HTTP/1.1" := by
    have hversion : 13 ∉ ascii " HTTP/1.1" := by decide
    simp [h.method, h.target, hversion]
  have hblock := fields?_block (h.sentFields last) []
  rw [List.append_nil] at hblock
  have hall : headBlock head last
      = head.method ++ [32] ++ head.target.path.getD Target.slash ++ ascii " HTTP/1.1" ++ crlf
        ++ ((Http1.sentFields head last).block ++ crlf) := by
    simp [headBlock, requestLine, Http1.sentFields]
  rw [Http1.headLines?, hall, line?_append hfirst]
  exact hblock

theorem announced_of_chunked (h : IsUnbroken head) {last : Bool}
    (hf : framing (withHost head) last = .chunked) :
    announced (sentFields head last).lines = .chunked := by
  have hsent : sentFields head last
      = ((withHost head).remove Field.transferEncoding).insert Field.transferEncoding Field.chunked := by
    rw [sentFields, hf]
    rfl
  refine announced_eq_chunked.2 (getLast?_codings (hsent ▸ Fields.insert_mem_lines _ _ _) ?_)
  rintro ⟨name, value⟩ hl hname
  obtain rfl : name = Field.transferEncoding := (h.sentFields last _ hl).lower.symm.trans hname
  rw [hsent] at hl
  rcases Fields.mem_lines_insert hl with ⟨-, hother⟩ | ⟨-, hvalue⟩
  · exact absurd rfl hother
  · exact hvalue

theorem codings_of_length {last : Bool} (hf : framing (withHost head) last = .length) :
    codings (sentFields head last).lines = codings head.fields.lines := by
  have hsent : (sentFields head last).lines = (withHost head).lines := by
    rw [sentFields, hf]
    rfl
  rw [hsent, Upload.withHost_lines, codings_append, List.append_right_eq_self]
  refine codings_eq_nil fun line hl => ?_
  split at hl
  · simp at hl
  · obtain ⟨authority, -, rfl⟩ := List.mem_map.1 hl
    exact (by decide : Field.host.map lowerAscii ≠ Field.transferEncoding)

theorem framing_eq_length (head : Head) (last : Bool) :
    framing (withHost head) last = .length
      ↔ last = true ∨ head.fields.contains Field.contentLength = true := by
  rw [framing, Upload.contains_withHost head (by decide)]
  cases last <;> cases head.fields.contains Field.contentLength <;> simp

def frames (pieces : List Piece) : List Frame :=
  pieces.filterMap fun
    | .data octets _ => some (.data octets)
    | .trailers fields => some (.trailers fields)
    | _ => none

def isBody : List Piece → Bool
  | [.data _ true] | [.trailers _] => true
  | .data _ false :: rest => isBody rest
  | _ => false

def writesOf (framing : Framing) : Piece → List Octets
  | .data octets last => dataWrites framing octets last
  | .trailers fields => trailerWrites framing fields
  | _ => []

theorem isWhole_frames {pieces : List Piece} (h : isBody pieces = true) : isWhole (frames pieces) = true := by
  fun_induction isBody pieces with
  | case1 | case2 => rfl
  | case3 octets rest ih => exact ih h
  | case4 => simp at h

end Http1

open Http1

def Encoder.putAll (encoder : Encoder) (seq : Nat) : List Piece → Emission
  | [] => ⟨encoder, [], none⟩
  | piece :: rest =>
      let sent := encoder.put seq piece
      match sent.fault with
      | some _ => sent
      | none =>
          let more := sent.encoder.putAll seq rest
          { more with calls := sent.calls ++ more.calls }

def Emission.octets (sent : Emission) : Octets := written (sent.calls.map .call)

namespace Encoder

variable {framing : Framing} {wire : Wire} {seq : Nat} {piece : Piece} {rest pieces : List Piece}

theorem putAll_cons (encoder : Encoder) (h : (encoder.putAll seq (piece :: rest)).fault = none) :
    (encoder.put seq piece).fault = none
      ∧ ((encoder.put seq piece).encoder.putAll seq rest).fault = none
      ∧ (encoder.putAll seq (piece :: rest)).octets
        = (encoder.put seq piece).octets ++ ((encoder.put seq piece).encoder.putAll seq rest).octets := by
  rw [putAll] at h ⊢
  cases hf : (encoder.put seq piece).fault with
  | some fault =>
      simp only [hf] at h
      exact absurd h (Option.some_ne_none _)
  | none =>
      simp only [hf] at h ⊢
      exact ⟨trivial, h, by simp [Emission.octets]⟩

theorem put_written (hp : frames [piece] ≠ [])
    (h : ((Encoder.http1 framing wire).put seq piece).fault = none) :
    ∃ wire', ((Encoder.http1 framing wire).put seq piece).encoder = .http1 framing wire'
      ∧ ((Encoder.http1 framing wire).put seq piece).octets = (writesOf framing piece).flatten := by
  cases piece with
  | data octets last => exact ⟨_, rfl, written_writeAll h⟩
  | trailers fields => exact ⟨_, rfl, written_writeAll h⟩
  | headers | reset => exact absurd rfl hp

theorem putAll_written (hb : isBody pieces = true)
    (h : ((Encoder.http1 framing wire).putAll seq pieces).fault = none) :
    ((Encoder.http1 framing wire).putAll seq pieces).octets = carried framing (frames pieces) := by
  fun_induction isBody pieces generalizing wire with
  | case1 octets =>
      obtain ⟨hfirst, -, hoctets⟩ := putAll_cons _ h
      obtain ⟨wire', hencoder, hwritten⟩ := put_written (by simp [frames]) hfirst
      have hend : carried framing (frames [.data octets true])
          = (dataWrites framing octets false).flatten ++ carried framing [] := rfl
      rw [hoctets, hwritten, hend, ← dataWrites_last]
      exact List.append_nil _
  | case2 fields =>
      obtain ⟨hfirst, -, hoctets⟩ := putAll_cons _ h
      obtain ⟨wire', hencoder, hwritten⟩ := put_written (by simp [frames]) hfirst
      rw [hoctets, hwritten]
      exact List.append_nil _
  | case3 octets rest ih =>
      obtain ⟨hfirst, hrest, hoctets⟩ := putAll_cons _ h
      obtain ⟨wire', hencoder, hwritten⟩ := put_written (by simp [frames]) hfirst
      rw [hencoder] at hrest hoctets
      rw [hoctets, hwritten, ih hb hrest]
      rfl
  | case4 => simp at hb

def WritesChunks (encoder : Encoder) : Prop :=
  ∀ seq pieces, isBody pieces = true → (∀ line ∈ trailing (frames pieces), IsLegal line) →
    (encoder.putAll seq pieces).fault = none → ∀ behind,
    chunks? ((encoder.putAll seq pieces).octets ++ behind)
      = some (payload (frames pieces), trailing (frames pieces), behind)

def WritesRaw (encoder : Encoder) : Prop :=
  ∀ seq pieces, isBody pieces = true → (encoder.putAll seq pieces).fault = none →
    (encoder.putAll seq pieces).octets = payload (frames pieces)

theorem writesRaw (wire : Wire) : (Encoder.http1 .length wire).WritesRaw := by
  intro seq pieces hb hf
  rw [putAll_written hb hf, carried_length (isWhole_frames hb)]

theorem writesChunks_iff : (Encoder.http1 framing wire).WritesChunks ↔ framing = .chunked := by
  constructor
  · intro h
    cases framing with
    | chunked => rfl
    | length =>
        -- Nothing at all is written of an empty body, and so not even a last chunk.
        have hempty := h 1 [.data [] true] rfl (by simp [frames, trailing]) rfl []
        have hnothing : chunks? [] = none := chunks?_of_none rfl
        exact absurd (hnothing.symm.trans hempty) (Option.some_ne_none _).symm
  · rintro rfl seq pieces hb hl hf behind
    rw [putAll_written hb hf]
    exact chunks?_carried (isWhole_frames hb) hl behind

/-- A head is written in one go and reads back as its lines. A body follows in chunks unless the head is all
or a length is given, and as it is otherwise. Chunks that come are announced; chunks that are announced come,
unless the caller announced them for a body that is not written so. -/
theorem framing_announced {head : Head} (h : IsUnbroken head) (last : Bool) (framing : Framing) (wire : Wire)
    (seq : Nat) :
    let sent := (Encoder.http1 framing wire).put seq (.headers head last)
    let raw := last = true ∨ head.fields.contains Field.contentLength = true
    ∃ block ok lines, sent.calls = [.write block ok] ∧ headLines? block = some (lines, [])
      ∧ (sent.encoder.WritesChunks ↔ ¬raw) ∧ (raw → sent.encoder.WritesRaw)
      ∧ (sent.encoder.WritesChunks → announced lines = .chunked)
      ∧ ((announced lines = .chunked ↔ sent.encoder.WritesChunks)
        ↔ ¬(raw ∧ (codings head.fields.lines).getLast? = some Field.chunked)) := by
  intro sent raw
  have hcalls : ∃ ok, sent.calls = [.write (headBlock head last) ok] := by
    simp only [sent, put, headers, ofWrites, writeAll]
    split
    · exact ⟨false, rfl⟩
    · exact ⟨true, rfl⟩
  obtain ⟨ok, hcalls⟩ := hcalls
  have hraw : Http1.framing (withHost head) last = .length ↔ raw := framing_eq_length head last
  have hchunks : sent.encoder.WritesChunks ↔ ¬raw := by
    refine writesChunks_iff.trans ?_
    rw [← hraw]
    cases Http1.framing (withHost head) last <;> simp
  have hannounced : sent.encoder.WritesChunks → announced (sentFields head last).lines = .chunked :=
    fun hw => announced_of_chunked h (writesChunks_iff.1 hw)
  refine ⟨_, ok, _, hcalls, h.headLines? last, hchunks, fun hr => ?_, hannounced, ?_⟩
  · simp only [sent, put, headers, ofWrites, hraw.2 hr]
    exact writesRaw _
  · by_cases hr : raw
    · have hnot : ¬sent.encoder.WritesChunks := fun hw => hchunks.1 hw hr
      rw [announced_eq_chunked, codings_of_length (hraw.2 hr), iff_false_right hnot, and_iff_right hr]
    · have hw := hchunks.2 hr
      exact iff_of_true (iff_of_true (hannounced hw) hw) fun hboth => hr hboth.1

def posting (fields : Fields) : Head := ⟨ascii "POST", ⟨none, some (ascii "h"), none⟩, .http11, fields⟩

theorem framing_announced_gzip :
    let sent := (Encoder.http1 .length .fresh).put 1
      (.headers (posting ⟨[⟨Field.transferEncoding, [ascii "gzip"]⟩]⟩) false)
    ∃ block ok lines, sent.calls = [.write block ok] ∧ headLines? block = some (lines, [])
      ∧ sent.encoder.WritesChunks ∧ announced lines = .chunked := by
  intro sent
  obtain ⟨block, ok, lines, hcalls, hlines, hchunks, -, hannounced, -⟩ :=
    framing_announced
      (show IsUnbroken (posting ⟨[⟨Field.transferEncoding, [ascii "gzip"]⟩]⟩) by decide +kernel)
      false .length .fresh 1
  have hw := hchunks.2 (by decide)
  exact ⟨block, ok, lines, hcalls, hlines, hw, hannounced hw⟩

/-- Chunks are announced where nothing follows, and where a body of known length follows as it is. -/
theorem chunks_announced_raw :
    let coded : List Field := [⟨Field.transferEncoding, [Field.chunked]⟩]
    let sized : List Field := ⟨Field.contentLength, [ascii "5"]⟩ :: coded
    let bare := (Encoder.http1 .length .fresh).put 1 (.headers (posting ⟨coded⟩) true)
    let known := (Encoder.http1 .length .fresh).put 1 (.headers (posting ⟨sized⟩) false)
    let body := known.encoder.putAll 1 [.data (ascii "hello") true]
    (((headLines? bare.octets).map fun parts => announced parts.1) = some .chunked
        ∧ ¬bare.encoder.WritesChunks)
      ∧ ((headLines? known.octets).map fun parts => announced parts.1) = some .chunked
        ∧ ¬known.encoder.WritesChunks ∧ body.octets = ascii "hello" := by
  intro coded sized bare known body
  refine ⟨⟨by decide +kernel, fun h => ?_⟩, by decide +kernel, fun h => ?_, by decide +kernel⟩
  · exact absurd (writesChunks_iff.1 h) (by decide)
  · exact absurd (writesChunks_iff.1 h) (by decide)

end Encoder

end HttpSession
