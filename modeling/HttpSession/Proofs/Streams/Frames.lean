import HttpSession.Proofs.Session.Numbering
import HttpSession.Proofs.Streams.Order

namespace HttpSession

open Happening (ofActions)

namespace Call

def stream? : Call → Option StreamId
  | .headers stream _ _ _ | .data stream _ _ _ | .trailers stream _ _ | .reset stream _ => some stream
  | _ => none

def opens? : Call → Option StreamId
  | .headers stream _ _ _ => some stream
  | _ => none

def isReset : Call → Bool
  | .reset _ _ => true
  | _ => false

def closes : Call → Bool
  | .headers _ _ last ok | .data _ _ last ok => last || !ok
  | .trailers _ _ _ => true
  | _ => false

end Call

def Happening.frame? : Happening → Option Call
  | .action (.call c) => if c.stream?.isSome then some c else none
  | _ => none

def frames (h : List Happening) : List Call := h.filterMap Happening.frame?

theorem Action.frame?_of_isQuiet {a : Action} (h : a.isQuiet = true) :
    Happening.frame? (.action a) = none := by
  cases a with
  | call c => cases c <;> first | rfl | simp [isQuiet, isIdle] at h
  | _ => rfl

def Handed.call (x : Handed) : Call :=
  match x.piece with
  | .headers head last => .headers (streamOf x.seq) (Http2.carried head) last x.ok
  | .data octets last => .data (streamOf x.seq) octets last x.ok
  | .trailers fields => .trailers (streamOf x.seq) fields.withoutHop x.ok
  | .reset => .reset (streamOf x.seq) Reason.cancel

section

variable {h x : List Happening} {actions : List Action}

def Framed (x : List Happening) : Prop := frames x = (handed x).map Handed.call

theorem frames_append (h x : List Happening) : frames (h ++ x) = frames h ++ frames x :=
  List.filterMap_append

namespace Framed

theorem nil : Framed [] := rfl

theorem append (hh : Framed h) (hx : Framed x) : Framed (h ++ x) := by
  rw [Framed, frames_append, handed_append, List.map_append, hh, hx]

theorem right (hh : Framed h) (hx : Framed (h ++ x)) : Framed x := by
  rw [Framed, frames_append, handed_append, List.map_append, hh] at hx
  exact List.append_cancel_left hx

theorem ofSilent (hf : ∀ y ∈ x, y.frame? = none) (hn : handed x = []) : Framed x := by
  rw [Framed, hn, frames, List.filterMap_eq_nil_iff.2 hf]
  rfl

theorem ofQuiet (hq : Quiet x) : Framed x := by
  refine .ofSilent (fun y hy => ?_) hq.handed
  cases y with
  | input => rfl
  | action a => exact Action.frame?_of_isQuiet (hq a hy)

theorem ofActions (hq : ∀ a ∈ actions, a.isQuiet = true) : Framed (ofActions actions) :=
  ofQuiet fun a ha => hq a (Happening.action_mem_ofActions.1 ha)

theorem emission {encoder : Encoder} (hb : encoder.binding = .byStream) {seq : Nat} {piece : Piece}
    {sent : Emission} (put : encoder.put seq piece = sent) :
    Framed (Happening.ofActions (sent.actions seq piece)) := by
  subst put
  rw [Framed, Emission.handed_actions]
  cases encoder with
  | http1 => simp [Encoder.binding] at hb
  | http2 sink =>
      cases piece with
      | reset => rfl
      | headers | data | trailers =>
          cases hs : sink.send with
          | mk fault rest => cases fault <;>
              simp [Encoder.put, Encoder.headers, Encoder.data, Encoder.trailers, Encoder.ofFrame,
                Http2.send, hs, Emission.actions, frames, Happening.frame?, Call.stream?,
                Handed.call, Happening.ofActions]

end Framed

end

namespace Traffic

variable {c d : Traffic} {h x : List Happening}

theorem giveUp_framed (hb : c.writer.encoder.binding = .byStream) (seq : Nat) (fault : Fault) :
    Framed (ofActions (c.giveUp seq fault).actions) := by
  rw [giveUp, Happening.ofActions_append]
  exact (Framed.emission hb rfl).append (.ofActions (Tracker.fail_quiet _ _ _))

theorem Write.framed (hb : c.writer.encoder.binding = .byStream) {clock : Clock} {gone : Nat → Bool}
    (hw : Write clock gone c x d) : Framed x := by
  cases hw with
  | stop a rest given =>
      unfold Writer.abandon
      split
      · exact .nil
      · dsimp only
        split
        · exact .emission hb rfl
        · exact .nil
  | skip u rest => exact .ofActions (c.tracker.forget_quiet u.seq)
  | launch u rest sent stopped next free wanted put ok => exact .emission hb put
  | proceed f before behind octets rest sent stopped flight frame put ok => exact .emission hb put
  | complete f before behind piece sent stopped flight final put ok => exact .emission hb put
  | stall => exact .nil
  | miss u rest sent fault stopped next free wanted put failed =>
      have hb' := put ▸ Encoder.put_binding c.writer.encoder u.seq (.headers u.head u.body.isEnd)
      rw [Happening.ofActions_append]
      exact (Framed.emission hb put).append (giveUp_framed (hb'.trans hb) _ _)
  | lose f before behind piece sent fault stopped flight body put failed =>
      have hb' := put ▸ Encoder.put_binding c.writer.encoder f.seq piece
      rw [Happening.ofActions_append]
      exact (Framed.emission hb put).append (giveUp_framed (hb'.trans hb) _ _)
  | breakOff f before behind fault stopped flight => exact giveUp_framed hb _ _

theorem Move.framed (ht : c.tracker.InOrder) (hb : c.writer.encoder.binding = .byStream)
    (hm : Move c x d) : Framed x := by
  cases hm with
  | idle e he => exact .ofQuiet (.ofIdle he)
  | enroll clock options request sink deadline room =>
      obtain ⟨closing, ha, hq⟩ := c.enroll_actions options request sink deadline
      rw [ha, Happening.ofActions_cons]
      exact .append (h := [_, _]) rfl (.ofActions hq)
  | receive stream part =>
      refine .ofSilent (fun y hy => ?_) (receive_handed ht stream part)
      rcases List.mem_cons.1 hy with rfl | hy
      · rfl
      · obtain ⟨a, ha, rfl⟩ := List.mem_map.1 hy
        rcases receive_actions ht stream part a ha with hq | ⟨sink, r, rfl⟩
        · exact Action.frame?_of_isQuiet hq
        · rfl
  | expire now => exact .ofActions (c.tracker.expire_quiet now)
  | write clock gone wrote => exact wrote.framed hb
  | refuse | wire | sink | feed | fire => rfl

theorem Reached.framed (hr : Reached h c) (hb : c.tracker.binding = .byStream) :
    Framed h ∧ c.writer.encoder.binding = .byStream := by
  induction hr with
  | fresh quiet ceiling encoder timer => exact ⟨.ofQuiet quiet, hb⟩
  | move hr hm ih =>
      obtain ⟨hframed, hencoder⟩ := ih (hm.sameSetup.binding.symm.trans hb)
      exact ⟨hframed.append (hm.framed hr.coherent.inOrder hencoder), hm.sameSetup.encoder.trans hencoder⟩

end Traffic

/-- The order that a stream imposes on its frames: streams are opened in rising order, each by its
headers, which come first and once. After the end of a stream on this side, or a failed frame, there
may be a reset, and nothing after that. -/
structure FramesInOrder (calls : List Call) : Prop where
  rising : (calls.filterMap Call.opens?).Pairwise (· < ·)
  opened : ∀ before call behind, calls = before ++ call :: behind → call.opens? = none →
    ∃ opening ∈ before, opening.opens? = call.stream?
  ordered : calls.Pairwise fun a b => a.stream? = b.stream? →
    b.opens? = none ∧ a.isReset = false ∧ (a.closes = true → b.isReset = true)

namespace Handed

variable {x y : Handed}

theorem call_stream? (x : Handed) : x.call.stream? = some (streamOf x.seq) := by
  unfold call
  split <;> rfl

theorem call_opens? (x : Handed) : x.call.opens? = x.opens?.map streamOf := by
  unfold call opens?
  split <;> simp_all [Call.opens?, Piece.isHeaders]

theorem call_isReset (x : Handed) : x.call.isReset = true ↔ x.piece = .reset := by
  unfold call
  split <;> simp_all [Call.isReset]

theorem closes_of_call (h : x.call.closes = true) : x.closes = true := by
  unfold call at h
  unfold closes
  split at h <;> simp_all [Call.closes, Piece.isLast]

end Handed

theorem streamOf_lt {m n : Nat} (hm : HasStream m) (hn : HasStream n) (h : m < n) :
    streamOf m < streamOf n := by
  rw [UInt32.lt_iff_toNat_lt, streamOf_toNat hm, streamOf_toNat hn]
  have := hm.1
  omega

theorem streamOf_inj {m n : Nat} (hm : HasStream m) (hn : HasStream n) (h : streamOf m = streamOf n) :
    m = n := by
  have hm' := seqOf?_streamOf hm
  rw [h, seqOf?_streamOf hn] at hm'
  exact (Option.some.inj hm').symm

theorem mem_opened {l : List Handed} {seq : Nat} :
    seq ∈ opened l ↔ ∃ x ∈ l, x.piece.isHeaders = true ∧ x.seq = seq := by
  simp [opened, Handed.opens?]

theorem FrameOrder.frames {l : List Handed} (hl : FrameOrder l)
    (hrising : (HttpSession.opened l).Pairwise (· < ·)) (hstream : ∀ x ∈ l, HasStream x.seq) :
    FramesInOrder (l.map Handed.call) where
  rising := by
    have hmap : (l.map Handed.call).filterMap Call.opens? = (HttpSession.opened l).map streamOf := by
      rw [List.filterMap_map, HttpSession.opened, List.map_filterMap]
      exact List.filterMap_congr fun x _ => x.call_opens?
    have hopened : ∀ seq ∈ HttpSession.opened l, HasStream seq := by
      intro seq hm
      obtain ⟨x, hx, -, rfl⟩ := mem_opened.1 hm
      exact hstream x hx
    rw [hmap, List.pairwise_map]
    exact hrising.imp_of_mem fun hm hn => streamOf_lt (hopened _ hm) (hopened _ hn)
  opened before call behind hsplit hother := by
    obtain ⟨l₁, l₂, rfl, rfl, hcons⟩ := List.map_eq_append_iff.1 hsplit
    obtain ⟨y, l₃, rfl, rfl, rfl⟩ := List.map_eq_cons_iff.1 hcons
    have hy : y.piece.isHeaders = false := by
      simpa [y.call_opens?, Handed.opens?] using hother
    obtain ⟨z, hz, hheaders, hseq⟩ := mem_opened.1 (hl.opened y (by simp))
    rcases List.mem_append.1 hz with hz | hz
    · refine ⟨z.call, List.mem_map_of_mem hz, ?_⟩
      simp [z.call_opens?, Handed.opens?, hheaders, hseq, y.call_stream?]
    · rcases List.mem_cons.1 hz with rfl | hz
      · simp [hy] at hheaders
      · have hlater := (List.pairwise_cons.1 (List.pairwise_append.1 hl.ordered).2.1).1 z hz hseq.symm
        simp [hlater.1] at hheaders
  ordered := by
    rw [List.pairwise_map]
    refine hl.ordered.imp_of_mem fun {x y} hx hy hxy hsame => ?_
    rw [x.call_stream?, y.call_stream?] at hsame
    have hseq := streamOf_inj (hstream x hx) (hstream y hy) (Option.some.inj hsame)
    obtain ⟨hother, hreset, hclose⟩ := hxy hseq
    refine ⟨?_, ?_, fun hc => ?_⟩
    · simp [y.call_opens?, Handed.opens?, hother]
    · rw [Bool.eq_false_iff]
      exact mt x.call_isReset.1 hreset
    · exact y.call_isReset.2 (hclose (Handed.closes_of_call hc))

namespace Session

open Traffic (Reached)

variable {s : Session}

def IsMultiplexed (s : Session) : Prop := ∃ p, s.protocol = some p ∧ p.isMultiplex = true

theorem IsNew.multiplexed (hs : s.IsNew) {inputs : List Input} (hm : (s.after inputs).IsMultiplexed) :
    ∃ before rest c, s.history inputs = before ++ rest ∧ Reached before c ∧ Quiet rest
      ∧ c.tracker.binding = .byStream := by
  obtain ⟨before, rest, c, hall, hreached, hquiet, hspeaks⟩ := hs.reached inputs
  obtain ⟨p, hp, hmultiplex⟩ := hm
  refine ⟨before, rest, c, hall, hreached, hquiet, ?_⟩
  simpa [hmultiplex] using hspeaks p hp

theorem IsNew.multiplexed_lasts (hs : s.IsNew) {inputs : List Input}
    (hm : (s.after inputs).IsMultiplexed) (more : List Input) :
    (s.after (inputs ++ more)).IsMultiplexed := by
  obtain ⟨p, hp, hmultiplex⟩ := hm
  refine ⟨p, ?_, hmultiplex⟩
  induction more using List.reverseRecOn with
  | nil => rwa [List.append_nil]
  | append_singleton more i ih =>
      have hnegotiated : (s.after (inputs ++ more)).phase ≠ .negotiating := by
        intro hphase
        cases hs.stands (inputs ++ more) with
        | negotiating _ _ silent | failed _ silent => simp [ih] at silent
        | established c traffic =>
            rw [(traffic?_eq_some traffic).1] at hphase
            simp at hphase
        | closed c before rest phase =>
            rw [phase] at hphase
            simp at hphase
      rw [← List.append_assoc, after_append]
      exact (respond_protocol hnegotiated i).trans ih

theorem IsNew.framed (hs : s.IsNew) {inputs : List Input} (hm : (s.after inputs).IsMultiplexed) :
    Framed (s.history inputs) := by
  obtain ⟨before, rest, c, hall, hreached, hquiet, hb⟩ := hs.multiplexed hm
  exact hall ▸ (hreached.framed hb).1.append (.ofQuiet hquiet)

theorem IsNew.enrolled_of_handed (hs : s.IsNew) {inputs : List Input}
    (hm : (s.after inputs).IsMultiplexed) {x : Handed} (hx : x ∈ handed (s.history inputs)) :
    0 < x.seq ∧ ∃ sink, (x.seq, sink) ∈ enrolled (s.history inputs) := by
  obtain ⟨before, rest, c, hall, hreached, hquiet, hb⟩ := hs.multiplexed hm
  rw [hall, handed_append, hquiet.handed, List.append_nil] at hx
  have hstreamed := hreached.streamed hb
  obtain ⟨hpos, hle⟩ := hstreamed.taken x.seq
    (List.mem_append_left _ (hstreamed.order.opened x hx))
  have hnumber : x.seq ∈ (enrolled before).map Prod.fst := by
    rw [hreached.coherent.numbered, List.mem_range'_1]
    omega
  obtain ⟨⟨seq, sink⟩, hmem, rfl⟩ := List.mem_map.1 hnumber
  exact ⟨hpos, sink, by simp [hall, hmem]⟩

theorem IsNew.hasStream (hs : s.IsNew) (bounded : s.ceiling ≤ maxDispatches) {inputs : List Input}
    (hm : (s.after inputs).IsMultiplexed) {x : Handed} (hx : x ∈ handed (s.history inputs)) :
    HasStream x.seq := by
  obtain ⟨hpos, sink, hmem⟩ := hs.enrolled_of_handed hm hx
  have hle := hs.enrolled_le inputs _ hmem
  have hbound : maxDispatches < 1 <<< 31 := by decide
  exact ⟨hpos, Nat.lt_of_le_of_lt (Nat.le_trans hle bounded) hbound⟩

/-- Every frame of a session over HTTP/2 is a piece of a request that was taken, on the stream that
the number of the request gives, and the frames keep the order of HTTP/2. -/
theorem frames_inOrder (hs : s.IsNew) (bounded : s.ceiling ≤ maxDispatches) (inputs : List Input)
    (multiplexed : (s.after inputs).IsMultiplexed) :
    FramesInOrder (frames (s.history inputs))
      ∧ frames (s.history inputs) = (handed (s.history inputs)).map Handed.call
      ∧ ∀ x ∈ handed (s.history inputs), (∃ sink, (x.seq, sink) ∈ enrolled (s.history inputs))
        ∧ (streamOf x.seq).toNat = 2 * x.seq - 1 := by
  have hstream : ∀ x ∈ handed (s.history inputs), HasStream x.seq := fun x hx =>
    hs.hasStream bounded multiplexed hx
  obtain ⟨before, rest, c, hall, hreached, hquiet, hb⟩ := hs.multiplexed multiplexed
  have hframed := hs.framed multiplexed
  have hsame : handed (s.history inputs) = handed before := by
    simp [hall, hquiet.handed]
  have hstreamed := hreached.streamed hb
  have hrising := (List.pairwise_append.1 hstreamed.rising).1
  refine ⟨?_, hframed, fun x hx => ⟨(hs.enrolled_of_handed multiplexed hx).2, ?_⟩⟩
  · rw [hframed]
    rw [← hsame] at hrising
    exact (hsame ▸ hstreamed.order).frames hrising hstream
  · exact streamOf_toNat (hstream x hx)

def uploads : List Input :=
  [.negotiated .new true .h2,
    .dispatch ⟨0, 0, fun _ => false⟩ { Options.default with maxLength := 1 }
      { Request.bare with body := ⟨0, [.data (ascii "a")], false, false⟩ } 7,
    .dispatch ⟨0, 0, fun _ => false⟩ .default .bare 8, turn,
    .response (some 1) (.head ⟨200, .empty⟩), .response (some 1) (.data (ascii "xy")),
    .feed 0 [.data (ascii "b")] (some true), turn]

theorem frames_inOrder_uploads :
    (blank 2).ceiling ≤ maxDispatches ∧ ((blank 2).after uploads).IsMultiplexed
      ∧ FramesInOrder (frames ((blank 2).history uploads))
      ∧ (frames ((blank 2).history uploads)).map Call.stream? = [some 1, some 3, some 1, some 1] := by
  have bounded : (blank 2).ceiling ≤ maxDispatches := by decide
  have multiplexed : ((blank 2).after uploads).IsMultiplexed := ⟨.h2, by decide +kernel, rfl⟩
  exact ⟨bounded, multiplexed, (frames_inOrder (blank_isNew 2) bounded uploads multiplexed).1,
    by decide +kernel⟩

end Session

end HttpSession
