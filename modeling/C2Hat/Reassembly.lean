import Mathlib.Data.List.Forall2
import C2Hat.Codec
import C2Hat.Receive

/-!
# Reassembling frames

The stream of a connection is the concatenation of the frames that were sent, and
`SSL_read` cuts it wherever it likes.  The receive functions zero the buffer in
front of every read, so a frame whose end has not arrived ends at the padding: it
is taken for a complete one, and its remainder is dropped with the next read.  The
stream is read correctly exactly when no cut falls inside the text of a frame.

## Main definitions

* `Frame`, `stream` — what is sent.
* `Reassembles` — the messages read are those of the frames.
* `CutAtFrames` — the cuts that do no harm.

## Main results

* `reassembles_iff` — **reassembly works exactly for these cuts**, and for frames
  that the decoder accepts.
-/

namespace C2Hat

open Clib

/-- A protocol frame: a recognised command with its content, and a NUL. -/
structure Frame where
  /-- The text, without the NUL. -/
  text : CStr
  /-- `Message_getType` knows the command. -/
  recognised : (Message.getType text.bytes).1 ≠ .null
  /-- The frame is not longer than the buffer it was written to. -/
  fits : text.bytes.length + 1 ≤ kBufferSize

/-- The bytes of a frame. -/
def Frame.bytes (f : Frame) : Bytes := f.text.bytes ++ [0]

/-- The bytes of a connection. -/
def stream (frames : List Frame) : Bytes := (frames.map Frame.bytes).flatten

@[simp] theorem stream_nil : stream [] = [] := rfl

theorem stream_cons (f : Frame) (fs : List Frame) :
    stream (f :: fs) = f.text.bytes ++ 0 :: stream fs := by
  simp [stream, Frame.bytes]

theorem stream_append (fs fs' : List Frame) : stream (fs ++ fs') = stream fs ++ stream fs' := by
  simp [stream]

/-- The messages of the frames, each with the bytes it was read from. -/
def Received (frames : List Frame) (out : List (CStr × C2HMessage)) : Prop :=
  List.Forall₂ (fun f r => r.1 = f.text ∧ C2HMessage.parse f.text = .ok (some r.2)) frames out

/-- Receiving from a new buffer until the stream is used up yields the messages of
the frames: none is lost, split, merged or duplicated. -/
def Reassembles (recv : ReceiveFunction) (frames : List Frame) (chunks : List Bytes) : Prop :=
  ∃ out, session recv .zeroed chunks = .ok out ∧ Received frames out

/-- The NUL of the last frame, when it is still to come. -/
def pending (cut : Bool) : Bytes := if cut then [0] else []

/-- The chunks end with frames: behind the NUL, or in front of it.  In the latter
case the chunk must not fill the buffer, since it is the padding that ends the
frame.  `cut` says whether the chunk before was of the latter kind. -/
inductive CutAtFrames : Bool → List Bytes → List Frame → Prop
  | nil : CutAtFrames false [] []
  | behind {cut : Bool} {c : Bytes} {cs : List Bytes} {fs fs' : List Frame}
      (hc : c = pending cut ++ stream fs) (hcs : CutAtFrames false cs fs') :
      CutAtFrames cut (c :: cs) (fs ++ fs')
  | inFront {cut : Bool} {c : Bytes} {cs : List Bytes} {fs fs' : List Frame} (hfs : fs ≠ [])
      (hc : c ++ [0] = pending cut ++ stream fs) (hlen : c.length < kMessageBufferSize)
      (hcs : CutAtFrames true cs fs') : CutAtFrames cut (c :: cs) (fs ++ fs')

/-! ### Frames -/

theorem Frame.head_slash (f : Frame) : f.text.bytes.head? = some slash := by
  obtain ⟨type, command, rest, hsplits⟩ := exists_splits f.recognised
  exact hsplits.head_slash

theorem Frame.exists_parse_iff (f : Frame) :
    (∃ m, C2HMessage.parse f.text = .ok (some m)) ↔
      ¬ BareTag f.text.bytes ∧ ¬ FullTag f.text.bytes := by
  obtain ⟨type, command, rest, hsplits⟩ := exists_splits f.recognised
  rw [C2Hat.exists_parse_iff hsplits, Decodable]
  exact ⟨fun h => ⟨h.1, h.2.1⟩, fun h => ⟨h.1, h.2, not_overlong (Nat.le_of_succ_le f.fits)⟩⟩

/-- A frame ends with a byte of its text and the NUL. -/
theorem Frame.exists_last (f : Frame) : ∃ s x, f.text.bytes = s ++ [x] ∧ x ≠ 0 := by
  rcases List.eq_nil_or_concat f.text.bytes with h | ⟨s, x, h⟩
  · have := f.head_slash
    rw [h] at this
    cases this
  · refine ⟨s, x, by simpa using h, fun hx => f.text.nulFree ?_⟩
    rw [h, hx]
    simp

theorem length_le_length_stream (fs : List Frame) : fs.length ≤ (stream fs).length := by
  induction fs with
  | nil => simp
  | cons f fs ih =>
    rw [stream_cons, List.length_append, List.length_cons, List.length_cons]
    omega

theorem weight_pending (cut : Bool) : weight (pending cut) = 0 := by cases cut <;> rfl

theorem weight_stream_received {frames : List Frame} {out : List (CStr × C2HMessage)}
    (h : Received frames out) : weight (stream frames) = size out := by
  induction h with
  | nil => rfl
  | cons hr _ ih =>
    rw [stream_cons, weight_append, weight_cstr, ← hr.1]
    simp [size, weight] at ih ⊢
    omega

/-- The decoder accepts the frames that are not bare tags, and whose users fit. -/
theorem exists_received {frames : List Frame}
    (h : ∀ f ∈ frames, ¬ BareTag f.text.bytes ∧ ¬ FullTag f.text.bytes) :
    ∃ out, Received frames out := by
  induction frames with
  | nil => exact ⟨[], .nil⟩
  | cons f fs ih =>
    obtain ⟨m, hm⟩ := f.exists_parse_iff.mpr (h f (List.mem_cons_self ..))
    obtain ⟨out, hout⟩ := ih fun g hg => h g (List.mem_cons_of_mem _ hg)
    exact ⟨(f.text, m) :: out, .cons ⟨rfl, hm⟩ hout⟩

theorem accepted_of_received {frames : List Frame} {out : List (CStr × C2HMessage)}
    (h : Received frames out) :
    ∀ f ∈ frames, ¬ BareTag f.text.bytes ∧ ¬ FullTag f.text.bytes := by
  induction h with
  | nil => simp
  | cons hr _ ih =>
    rw [List.forall_mem_cons]
    exact ⟨(Frame.exists_parse_iff _).mp ⟨_, hr.2⟩, ih⟩

theorem received_append {fs fs' : List Frame} {out : List (CStr × C2HMessage)}
    (h : Received (fs ++ fs') out) :
    ∃ out₁ out₂, out = out₁ ++ out₂ ∧ Received fs out₁ ∧ Received fs' out₂ := by
  refine ⟨_, _, (List.take_append_drop fs.length out).symm, ?_, ?_⟩
  · exact (List.forall₂_take_append out fs fs' h.flip).flip
  · exact (List.forall₂_drop_append out fs fs' h.flip).flip

theorem received_append_right {frames : List Frame} {out₁ out₂ : List (CStr × C2HMessage)}
    (h : Received frames (out₁ ++ out₂)) :
    ∃ fs fs', frames = fs ++ fs' ∧ Received fs out₁ ∧ Received fs' out₂ :=
  ⟨_, _, (List.take_append_drop out₁.length frames).symm,
    List.forall₂_take_append frames out₁ out₂ h, List.forall₂_drop_append frames out₁ out₂ h⟩

/-! ### Whole frames are read -/

/-- Frames that are all in the buffer are taken out one after the other. -/
theorem drain_frames {frames : List Frame} {out : List (CStr × C2HMessage)}
    (h : Received frames out) {b : MessageBuffer} {p q fuel : ℕ}
    (hview : b.view = List.replicate p 0 ++ (stream frames ++ List.replicate q 0))
    (hfuel : frames.length < fuel) : drain fuel b = .ok (out, .zeroed) := by
  induction h generalizing b p q fuel with
  | nil =>
    obtain ⟨fuel, rfl⟩ := Nat.exists_eq_succ_of_ne_zero (Nat.ne_of_gt hfuel)
    have hslash : slash ∉ b.view := by
      rw [hview, stream_nil, List.nil_append, List.mem_append, not_or]
      exact ⟨slash_not_mem_zeros p, slash_not_mem_zeros q⟩
    rw [drain, C2HMessage.getFrame, get_none hslash]
    rfl
  | @cons f r fs out hr hrest ih =>
    obtain ⟨fuel, rfl⟩ := Nat.exists_eq_succ_of_ne_zero (Nat.ne_of_gt (Nat.zero_lt_of_lt hfuel))
    rw [stream_cons, List.append_assoc, List.cons_append] at hview
    obtain ⟨b', hget, hleft⟩ := get_frame hview (slash_not_mem_zeros p) f.head_slash
    have hdrain : drain fuel b' = .ok (out, .zeroed) := by
      have hlen : fs.length < fuel := by simpa using hfuel
      rcases hleft with hleft | ⟨hnil, rfl⟩
      · exact ih (p := 0) (q := q) hleft hlen
      · -- the last frame filled the buffer
        have hfs : stream fs = [] := (List.append_eq_nil_iff.mp hnil).1
        refine ih (p := 0) (q := kMessageBufferSize) ?_ hlen
        rw [hfs]
        rfl
    rw [drain, C2HMessage.getFrame, hget]
    simp only [Except.bind, hr.2, Except.map, Option.map_some, hdrain]
    rw [← hr.1]

/-- A chunk that was read into a new buffer is all there is in it. -/
theorem view_chunk {c : Bytes} (hpos : 1 ≤ c.length) (hle : c.length ≤ kMessageBufferSize) :
    (({ MessageBuffer.zeroed with start := some 0 } : MessageBuffer).write 0 c).view =
      c ++ List.replicate (kMessageBufferSize - c.length) 0 := by
  simpa using view_receivePrepare_write receivePrepare_zeroed hpos hle

/-- Draining a chunk that was read into a new buffer, when the padded chunk consists
of whole frames. -/
theorem drain_chunk {fs : List Frame} {out : List (CStr × C2HMessage)} (h : Received fs out)
    {cut : Bool} {c : Bytes} {q : ℕ}
    (hc : c ++ List.replicate (kMessageBufferSize - c.length) 0 =
      pending cut ++ (stream fs ++ List.replicate q 0))
    (hpos : 1 ≤ c.length) (hle : c.length ≤ kMessageBufferSize) :
    drain drainFuel (({ MessageBuffer.zeroed with start := some 0 } : MessageBuffer).write 0 c) =
      .ok (out, .zeroed) := by
  have hview := view_chunk hpos hle
  rw [hc] at hview
  have hpending : pending cut = List.replicate (if cut then 1 else 0) 0 := by
    cases cut <;> rfl
  rw [hpending] at hview
  refine drain_frames h hview ?_
  have hlen := congrArg List.length hc
  have := length_le_length_stream fs
  rw [List.length_append, List.length_append, List.length_append, List.length_replicate] at hlen
  rw [drainFuel]
  omega

/-- Both kinds of harmless chunk, seen in the padded buffer. -/
theorem padded_behind {cut : Bool} {c : Bytes} {fs : List Frame}
    (hc : c = pending cut ++ stream fs) (n : ℕ) :
    c ++ List.replicate n 0 = pending cut ++ (stream fs ++ List.replicate n 0) := by
  rw [hc, List.append_assoc]

theorem padded_inFront {cut : Bool} {c : Bytes} {fs : List Frame}
    (hc : c ++ [0] = pending cut ++ stream fs) {n : ℕ} (hn : 0 < n) :
    c ++ List.replicate n 0 = pending cut ++ (stream fs ++ List.replicate (n - 1) 0) := by
  obtain ⟨n, rfl⟩ := Nat.exists_eq_succ_of_ne_zero (Nat.ne_of_gt hn)
  rw [← List.append_assoc, ← hc, List.replicate_succ, List.append_assoc]
  rfl

/-- One round of a session over whole frames. -/
theorem session_chunk {recv : ReceiveFunction}
    (hrecv : recv = Server.receive ∨ recv = Client.receive) {fs : List Frame}
    {out : List (CStr × C2HMessage)} (h : Received fs out) {cut : Bool} {c : Bytes} {q : ℕ}
    (hc : c ++ List.replicate (kMessageBufferSize - c.length) 0 =
      pending cut ++ (stream fs ++ List.replicate q 0))
    {cs : List Bytes} (hread : Readable .zeroed (c :: cs)) :
    session recv .zeroed (c :: cs) = (session recv .zeroed cs).map (out ++ ·) ∧
      Readable .zeroed cs := by
  obtain ⟨b', n, hprep, hpos, hle, hnext⟩ := hread
  rw [receivePrepare_zeroed] at hprep
  cases hprep
  have hdrain := drain_chunk h hc hpos hle
  refine ⟨?_, hnext _ _ hdrain⟩
  rw [session_cons hrecv receivePrepare_zeroed hpos]
  simp only [Option.getD_some, hdrain, Except.bind]

/-- **Chunks that end with frames are reassembled.** -/
theorem session_of_cutAtFrames {recv : ReceiveFunction}
    (hrecv : recv = Server.receive ∨ recv = Client.receive) {cut : Bool} {chunks : List Bytes}
    {frames : List Frame} (hcut : CutAtFrames cut chunks frames)
    (hread : Readable .zeroed chunks) {out : List (CStr × C2HMessage)}
    (h : Received frames out) : session recv .zeroed chunks = .ok out := by
  induction hcut generalizing out with
  | nil => cases h; rfl
  | behind hc _ ih =>
    obtain ⟨out₁, out₂, rfl, h₁, h₂⟩ := received_append h
    obtain ⟨hsession, hread'⟩ := session_chunk hrecv h₁ (padded_behind hc _) hread
    rw [hsession, ih hread' h₂]
    rfl
  | inFront _ hc hlen _ ih =>
    obtain ⟨out₁, out₂, rfl, h₁, h₂⟩ := received_append h
    obtain ⟨hsession, hread'⟩ := session_chunk hrecv h₁
      (padded_inFront hc (Nat.sub_pos_of_lt hlen)) hread
    rw [hsession, ih hread' h₂]
    rfl

/-! ### Only these cuts work -/

/-- Two ways to cut a string with the same bytes other than NUL in front differ by
NULs. -/
theorem append_eq_of_weight_eq {s t u v : Bytes} (h : s ++ t = u ++ v)
    (hweight : weight s = weight u) :
    (∃ k, s = u ++ List.replicate k 0 ∧ v = List.replicate k 0 ++ t) ∨
      ∃ k, u = s ++ List.replicate k 0 := by
  have zeros : ∀ {w : Bytes}, weight w = 0 → w = List.replicate w.length 0 := fun hw =>
    List.eq_replicate_iff.mpr ⟨rfl, fun c hc => eq_zero_of_weight_eq_zero hw hc⟩
  rcases List.append_eq_append_iff.mp h with ⟨w, hu, -⟩ | ⟨w, hs, hv⟩
  · rw [hu, weight_append] at hweight
    have hw := zeros (by omega : weight w = 0)
    exact Or.inr ⟨w.length, by rw [← hw, hu]⟩
  · rw [hs, weight_append] at hweight
    have hw := zeros (by omega : weight w = 0)
    exact Or.inl ⟨w.length, by rw [← hw, hs], by rw [← hw, hv]⟩

/-- No NUL stands in front of a frame. -/
theorem stream_eq_zeros_append {fs : List Frame} {k : ℕ} {t : Bytes}
    (h : stream fs = List.replicate k 0 ++ t) : k = 0 := by
  cases k with
  | zero => rfl
  | succ k =>
    cases fs with
    | nil => simp [List.replicate_succ] at h
    | cons f fs =>
      have hhead := f.head_slash
      obtain ⟨x, hx⟩ := List.head?_eq_some_iff.mp hhead
      rw [stream_cons, hx, List.replicate_succ, List.cons_append, List.cons_append] at h
      exact absurd (List.cons.inj h).1 (by decide)

/-- One NUL stands behind a frame. -/
theorem append_zeros_eq_stream {p c : Bytes} {fs : List Frame} {k : ℕ} (hfs : fs ≠ [])
    (h : p ++ stream fs = c ++ List.replicate k 0) :
    k ≤ 1 ∧ (k = 1 → ∃ s x, c = s ++ [x] ∧ x ≠ 0) := by
  obtain ⟨fs, f, rfl⟩ := (List.eq_nil_or_concat fs).resolve_left hfs
  obtain ⟨s, x, htext, hx⟩ := f.exists_last
  have hend : p ++ stream (fs.concat f) = (p ++ stream fs ++ s ++ [x]) ++ [0] := by
    rw [List.concat_eq_append, stream_append, stream_cons, htext]
    simp
  rw [hend] at h
  match k with
  | 0 => exact ⟨by omega, fun h => by omega⟩
  | 1 => exact ⟨le_rfl, fun _ => ⟨_, x, (List.append_inj' h rfl).1.symm, hx⟩⟩
  | k + 2 =>
    rw [List.replicate_succ', ← List.append_assoc, List.replicate_succ', ← List.append_assoc] at h
    have h' := (List.append_inj' (List.append_inj' h rfl).1 rfl).2
    exact absurd (by simpa using h') hx

/-- By weight, a chunk holds exactly the text of the frames that are taken out of it. -/
theorem weight_chunk {recv : ReceiveFunction}
    (hrecv : recv = Server.receive ∨ recv = Client.receive) {cut : Bool} {c : Bytes}
    {cs : List Bytes} {fs fs' : List Frame} {out₁ out₂ : List (CStr × C2HMessage)}
    {b : MessageBuffer} (hstream : c ++ cs.flatten = pending cut ++ stream (fs ++ fs'))
    (hpos : 1 ≤ c.length) (hle : c.length ≤ kMessageBufferSize)
    (hd : drain drainFuel (({ MessageBuffer.zeroed with start := some 0 } :
      MessageBuffer).write 0 c) = .ok (out₁, b))
    (hread : Readable b cs) (hout₂ : session recv b cs = .ok out₂)
    (h₁ : Received fs out₁) (h₂ : Received fs' out₂) :
    weight c = weight (pending cut ++ stream fs) := by
  have hw₁ := (size_drain_le hd).1
  rw [view_chunk hpos hle, weight_append, weight_zeros, Nat.add_zero,
    ← weight_stream_received h₁] at hw₁
  have hw₂ := size_session_le hrecv hread hout₂
  rw [← weight_stream_received h₂] at hw₂
  have hw := congrArg weight hstream
  rw [stream_append, weight_append, weight_append, weight_append, weight_pending] at hw
  rw [weight_append, weight_pending]
  omega

/-- A chunk without a NUL at its end, which is used up, leaves room in the buffer: a full one
would have to end with a NUL. -/
theorem length_chunk_lt {c : Bytes} {fs : List Frame} {out : List (CStr × C2HMessage)}
    {b : MessageBuffer} (hpos : 1 ≤ c.length) (hle : c.length ≤ kMessageBufferSize)
    (hd : drain drainFuel (({ MessageBuffer.zeroed with start := some 0 } :
      MessageBuffer).write 0 c) = .ok (out, b))
    (h : Received fs out) (hweight : weight c = weight (stream fs)) {s : Bytes} {x : UInt8}
    (hlast : c = s ++ [x]) (hx : x ≠ 0) : c.length < kMessageBufferSize := by
  have hview := view_chunk hpos hle
  refine lt_of_le_of_ne hle fun hfull => hx ?_
  refine (size_drain_le hd).2 ?_ s x ?_
  · rw [hview, weight_append, weight_zeros, ← weight_stream_received h]
    omega
  · rw [hview, hfull, Nat.sub_self, List.replicate_zero, List.append_nil]
    exact hlast

/-- **A session that reads the frames cut the stream at frames.** -/
theorem cutAtFrames_of_session {recv : ReceiveFunction}
    (hrecv : recv = Server.receive ∨ recv = Client.receive) {cut : Bool} {chunks : List Bytes}
    {frames : List Frame} (hstream : chunks.flatten = pending cut ++ stream frames)
    (hread : Readable .zeroed chunks) {out : List (CStr × C2HMessage)}
    (h : Received frames out) (hsession : session recv .zeroed chunks = .ok out) :
    CutAtFrames cut chunks frames := by
  induction chunks generalizing cut frames out with
  | nil =>
    have hnil := List.append_eq_nil_iff.mp hstream.symm
    cases cut with
    | true => simp [pending] at hnil
    | false =>
      cases frames with
      | nil => exact .nil
      | cons f fs => simp [stream_cons] at hnil
  | cons c cs ih =>
    obtain ⟨b', n, hprep, hpos, hle, hnext⟩ := hread
    rw [session_cons hrecv hprep hpos] at hsession
    have hprep' := hprep
    rw [receivePrepare_zeroed] at hprep'
    cases hprep'
    cases hd : drain drainFuel (({ MessageBuffer.zeroed with start := some 0 } :
        MessageBuffer).write 0 c) with
    | error e => simp only [Option.getD_some, hd] at hsession; cases hsession
    | ok r =>
      obtain ⟨out₁, b⟩ := r
      simp only [Option.getD_some, hd, Except.bind] at hsession
      obtain ⟨out₂, hout₂, rfl⟩ := map_eq_ok.mp hsession
      obtain ⟨fs, fs', rfl, h₁, h₂⟩ := received_append_right h
      rw [List.flatten_cons] at hstream
      have hweight := weight_chunk hrecv hstream hpos hle hd (hnext _ _ hd) hout₂ h₁ h₂
      -- what is left of the session starts from a new buffer again
      have hrest : ∀ {cut' : Bool} {q : ℕ},
          c ++ List.replicate (kMessageBufferSize - c.length) 0 =
            pending cut ++ (stream fs ++ List.replicate q 0) →
          cs.flatten = pending cut' ++ stream fs' → CutAtFrames cut' cs fs' := by
        intro cut' q hc hcs
        have heq := hd.symm.trans (drain_chunk h₁ hc hpos hle)
        simp only [Except.ok.injEq, Prod.mk.injEq] at heq
        obtain ⟨-, rfl⟩ := heq
        exact ih hcs (hnext _ _ hd) h₂ hout₂
      have hbehind : c = pending cut ++ stream fs → cs.flatten = stream fs' →
          CutAtFrames cut (c :: cs) (fs ++ fs') := fun hc hcs =>
        .behind hc (hrest (padded_behind hc _) hcs)
      rw [stream_append, ← List.append_assoc] at hstream
      rcases append_eq_of_weight_eq hstream hweight with ⟨k, hc, hcs⟩ | ⟨k, hc⟩
      · obtain rfl := stream_eq_zeros_append hcs
        exact hbehind (by simpa using hc) hcs.symm
      · rw [hc, List.append_assoc] at hstream
        have hcs := List.append_cancel_left hstream
        by_cases hk : k = 0
        · subst hk
          exact hbehind (by simpa using hc.symm) hcs
        · have hfs : fs ≠ [] := by
            rintro rfl
            have hlen := congrArg List.length hc
            have : (pending cut).length ≤ 1 := by cases cut <;> decide
            rw [stream_nil, List.append_nil, List.length_append, List.length_replicate] at hlen
            omega
          obtain ⟨hk1, hlast⟩ := append_zeros_eq_stream hfs hc
          obtain rfl : k = 1 := by omega
          obtain ⟨s, x, rfl, hx⟩ := hlast rfl
          have htext : weight (s ++ [x]) = weight (stream fs) := by
            rw [hweight, weight_append, weight_pending, Nat.zero_add]
          have hlen := length_chunk_lt hpos hle hd h₁ htext rfl hx
          exact .inFront hfs hc.symm hlen
            (hrest (padded_inFront hc.symm (Nat.sub_pos_of_lt hlen)) hcs)

/-- **When streams are reassembled**: exactly when every read ends with a frame,
behind its NUL or (in a read that does not fill the buffer) right in front of it,
and the decoder can read the frames. -/
theorem reassembles_iff {recv : ReceiveFunction}
    (hrecv : recv = Server.receive ∨ recv = Client.receive) {frames : List Frame}
    {chunks : List Bytes} (hstream : chunks.flatten = stream frames)
    (hread : Readable .zeroed chunks) :
    Reassembles recv frames chunks ↔
      CutAtFrames false chunks frames ∧
        ∀ f ∈ frames, ¬ BareTag f.text.bytes ∧ ¬ FullTag f.text.bytes := by
  constructor
  · rintro ⟨out, hsession, h⟩
    exact ⟨cutAtFrames_of_session hrecv hstream hread h hsession, accepted_of_received h⟩
  · rintro ⟨hcut, haccepted⟩
    obtain ⟨out, h⟩ := exists_received haccepted
    exact ⟨out, session_of_cutAtFrames hrecv hcut hread h, h⟩

/-- Two frames, read in two pieces that meet in front of the first NUL. -/
theorem reassembles_inFront :
    Reassembles Server.receive
      [⟨str "/msg hi", by decide, by decide⟩, ⟨str "/quit", by decide, by decide⟩]
      [ascii "/msg hi", 0 :: ascii "/quit" ++ [0]] := by
  refine (reassembles_iff (Or.inl rfl) (by decide) ?_).mpr ⟨?_, ?_⟩
  · refine .cons [(str "/msg hi", ⟨.msg, str "hi", CStr.empty⟩)] .zeroed receivePrepare_zeroed
      (by decide) (by decide) (by decide +kernel) ?_
    exact .cons [(str "/quit", ⟨.quit, CStr.empty, CStr.empty⟩)] .zeroed receivePrepare_zeroed
      (by decide) (by decide) (by decide +kernel) trivial
  · exact @CutAtFrames.inFront false _ _ [_] [_] (by simp) (by decide) (by decide)
      (@CutAtFrames.behind true _ _ [_] [] (by decide) .nil)
  · intro f hf
    rw [← f.exists_parse_iff]
    rcases List.mem_cons.mp hf with rfl | hf
    · exact ⟨⟨.msg, str "hi", CStr.empty⟩, by decide +kernel⟩
    · rw [List.mem_singleton.mp hf]
      exact ⟨⟨.quit, CStr.empty, CStr.empty⟩, by decide +kernel⟩

/-- A frame read in two pieces arrives as its first piece, and the second is lost. -/
theorem not_reassembles_split :
    [ascii "/msg h", ascii "i" ++ [0]].flatten =
        stream [⟨str "/msg hi", by decide, by decide⟩] ∧
      Readable .zeroed [ascii "/msg h", ascii "i" ++ [0]] ∧
      C2HMessage.parse (str "/msg hi") = .ok (some ⟨.msg, str "hi", CStr.empty⟩) ∧
      ∀ recv, recv = Server.receive ∨ recv = Client.receive →
        session recv .zeroed [ascii "/msg h", ascii "i" ++ [0]] =
          .ok [(str "/msg h", ⟨.msg, str "h", CStr.empty⟩)] ∧
        ¬ Reassembles recv [⟨str "/msg hi", by decide, by decide⟩]
          [ascii "/msg h", ascii "i" ++ [0]] := by
  have hsession : ∀ recv, recv = Server.receive ∨ recv = Client.receive →
      session recv .zeroed [ascii "/msg h", ascii "i" ++ [0]] =
        .ok [(str "/msg h", ⟨.msg, str "h", CStr.empty⟩)] := by
    rintro recv (rfl | rfl)
    · decide +kernel
    · decide +kernel
  refine ⟨by decide, ?_, by decide +kernel, fun recv hrecv => ⟨hsession recv hrecv, ?_⟩⟩
  · refine .cons [(str "/msg h", ⟨.msg, str "h", CStr.empty⟩)] .zeroed receivePrepare_zeroed
      (by decide) (by decide) (by decide +kernel) ?_
    exact .cons [] .zeroed receivePrepare_zeroed (by decide) (by decide) (by decide +kernel) trivial
  · rintro ⟨out, hout, h⟩
    rw [hsession recv hrecv] at hout
    cases hout
    exact absurd (List.forall₂_cons.mp h).1.1 (by decide)

end C2Hat
