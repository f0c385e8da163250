import Pdcm.Library.Framing
import Pdcm.Library.Runs
import Pdcm.Ipc.Frame

/-!
# The frame decoder

`FrameDecoder::append` against a reference that reads length-prefixed frames from the whole
stream. The decoder's buffer is the rest at which the reference waits, and the decoder is
poisoned once the reference has met a bad length field, so the chunks in which a stream
arrives do not matter. A stream of encoded frames is read back frame by frame, and whatever
was read encodes to the bytes it was read from.
-/

namespace Pdcm.Ipc

open Library List Framing

variable {maxFrameBytes : ℕ} {stream : List UInt8} {frame : Frame}

/-! ### The reference parse -/

/-- What stands at the head of a stream under a frame limit. -/
def frameHead (maxFrameBytes : ℕ) (stream : List UInt8) : Head Frame Status :=
  if stream.length < 4 then .incomplete
  else
    let frameSize := (readU32 stream 0).toNat
    if frameSize < frameHeaderBytes then
      .malformed ⟨.invalidArgument, "frame length is smaller than header"⟩
    else if maxFrameBytes < frameSize then
      .malformed ⟨.resourceExhausted, "frame length exceeds configured maximum"⟩
    else if stream.length < frameSize then .incomplete
    else .item (decodeFrame (stream.take frameSize)) frameSize

theorem readU32_append {bytes : List UInt8} (h : 4 ≤ bytes.length) (more : List UInt8) :
    readU32 (bytes ++ more) 0 = readU32 bytes 0 := by
  have hget {i : ℕ} (hi : i < 4) : (bytes ++ more).getD i 0 = bytes.getD i 0 := by
    rw [getD_eq_getElem?_getD, getD_eq_getElem?_getD,
      getElem?_append_left (by omega)]
  simp only [readU32, hget (show 0 < 4 by omega), hget (show 0 + 1 < 4 by omega),
    hget (show 0 + 2 < 4 by omega), hget (show 0 + 3 < 4 by omega)]

/-- A frame that was found whole: its length field holds its size, which is within the
limits. -/
structure WholeFrame (maxFrameBytes : ℕ) (stream : List UInt8) (frame : Frame) (size : ℕ) :
    Prop where
  field_eq : (readU32 stream 0).toNat = size
  header_le : frameHeaderBytes ≤ size
  le_max : size ≤ maxFrameBytes
  le_length : size ≤ stream.length
  frame_eq : frame = decodeFrame (stream.take size)

theorem frameHead_item {size : ℕ} :
    frameHead maxFrameBytes stream = .item frame size ↔
      WholeFrame maxFrameBytes stream frame size := by
  have hhe : frameHeaderBytes = 20 := rfl
  unfold frameHead
  dsimp only
  constructor
  · intro h
    split_ifs at h with hle hsm hla hwh
    cases h
    exact ⟨rfl, by omega, by omega, by omega, rfl⟩
  · rintro ⟨rfl, hsm, hla, hwh, rfl⟩
    rw [if_neg (by omega), if_neg (by omega), if_neg (by omega), if_neg (by omega)]

theorem not_ok_of_malformed {st : Status}
    (h : frameHead maxFrameBytes stream = .malformed st) : st.ok = false := by
  unfold frameHead at h
  dsimp only at h
  split_ifs at h
  · cases h
    rfl
  · cases h
    rfl

theorem length_of_incomplete (hmax : frameHeaderBytes ≤ maxFrameBytes)
    (h : frameHead maxFrameBytes stream = .incomplete) :
    stream.length < maxFrameBytes ∧ stream.length < 2 ^ 32 := by
  have hhe : frameHeaderBytes = 20 := rfl
  have hwo := (readU32 stream 0).toNat_lt
  unfold frameHead at h
  dsimp only at h
  split_ifs at h with hle hsm hla hwh
  · omega
  · omega

theorem frameHead_append (more : List UInt8) (h : frameHead maxFrameBytes stream ≠ .incomplete) :
    frameHead maxFrameBytes (stream ++ more) = frameHead maxFrameBytes stream := by
  unfold frameHead at h ⊢
  dsimp only at h ⊢
  by_cases hle : stream.length < 4
  · rw [if_pos hle] at h
    exact absurd rfl h
  have hlo : ¬(stream ++ more).length < 4 := by
    rw [length_append]
    omega
  rw [if_neg hlo, readU32_append (by omega)]
  split_ifs at h ⊢ with hsm hla hmo hwh hwh
  · rfl
  · rfl
  · exact absurd rfl h
  · rw [length_append] at hmo
    omega
  · exact absurd rfl h
  · rw [take_append_of_le_length (by omega)]

/-- Frames in front of each other in a byte stream. -/
def framing (maxFrameBytes : ℕ) : Framing UInt8 Frame Status where
  head := frameHead maxFrameBytes
  size_pos := fun h => lt_of_lt_of_le (by decide) (frameHead_item.mp h).header_le
  size_le := fun h => (frameHead_item.mp h).le_length
  head_append := frameHead_append

/-- Reads length-prefixed frames from a whole stream until an incomplete frame or a bad
length field. -/
def referenceParse (maxFrameBytes : ℕ) (stream : List UInt8) : Parsed UInt8 Frame Status :=
  (framing maxFrameBytes).parse stream

/-- A length field below the header size or above the limit has been received in full. -/
def BadLength (maxFrameBytes : ℕ) (stream : List UInt8) : Prop :=
  ∃ error, (referenceParse maxFrameBytes stream).ending = .malformed error

/-! ### The decoder -/

structure FrameDecoder where
  maxFrameBytes : ℕ
  buffer : List UInt8 := []
  poisoned : Bool := false
  deriving DecidableEq, Repr

/-- What an `append` call leaves: the decoder, the frames it pushed and its status. -/
structure Appended where
  decoder : FrameDecoder
  frames : List Frame := []
  status : Status
  deriving DecidableEq, Repr

/-- The loop of `append` from a position in the buffer on, with the frames pushed so far:
how much was consumed, or the status it failed with. Every frame takes at least its header,
so the length of the buffer is fuel enough. -/
def decodeLoop (maxFrameBytes : ℕ) (buffer : List UInt8) :
    ℕ → ℕ → List Frame → List Frame × Except Status ℕ
  | 0, consumed, frames => (frames, .ok consumed)
  | fuel + 1, consumed, frames =>
    if buffer.length - consumed < 4 then (frames, .ok consumed)
    else
      let current := buffer.drop consumed
      let frameSize := (readU32 current 0).toNat
      if frameSize < frameHeaderBytes then
        (frames, .error ⟨.invalidArgument, "frame length is smaller than header"⟩)
      else if maxFrameBytes < frameSize then
        (frames, .error ⟨.resourceExhausted, "frame length exceeds configured maximum"⟩)
      else if buffer.length - consumed < frameSize then (frames, .ok consumed)
      else
        decodeLoop maxFrameBytes buffer fuel (consumed + frameSize)
          (frames ++ [decodeFrame (current.take frameSize)])

/-- Twice the frame limit, as far as `std::size_t` goes. -/
def bufferLimit (maxFrameBytes : ℕ) : ℕ :=
  if sizeMax / 2 < maxFrameBytes then sizeMax else maxFrameBytes * 2

namespace FrameDecoder

variable (d : FrameDecoder)

def fail : FrameDecoder := { d with buffer := [], poisoned := true }

def reset : FrameDecoder := { d with buffer := [], poisoned := false }

def bufferedBytes : ℕ := d.buffer.length

def append (data : List UInt8) : Appended :=
  if d.poisoned then
    { decoder := d, status := ⟨.invalidArgument, "frame decoder is poisoned"⟩ }
  else if data.length = 0 then { decoder := d, status := .success }
  else if d.maxFrameBytes < frameHeaderBytes ∨ d.maxFrameBytes < data.length ∨
      d.maxFrameBytes < d.buffer.length ∨
      bufferLimit d.maxFrameBytes - d.buffer.length < data.length then
    { decoder := d.fail
      status := ⟨.resourceExhausted, "decoder buffer exceeds configured maximum"⟩ }
  else
    let buffer := d.buffer ++ data
    match decodeLoop d.maxFrameBytes buffer (buffer.length + 1) 0 [] with
    | (frames, .error status) => { decoder := d.fail, frames := frames, status := status }
    | (frames, .ok consumed) =>
      { decoder := { d with buffer := buffer.drop consumed }, frames := frames, status := .success }

end FrameDecoder

/-! ### One call against the reference -/

/-- The loop reads what the reference reads from the same position. -/
theorem decodeLoop_eq (maxFrameBytes : ℕ) (buf : List UInt8) (fuel consumed : ℕ)
    (frames : List Frame) (hco : consumed ≤ buf.length)
    (hfu : buf.length - consumed < fuel) :
    (decodeLoop maxFrameBytes buf fuel consumed frames).1 =
        frames ++ (referenceParse maxFrameBytes (buf.drop consumed)).items ∧
      match (referenceParse maxFrameBytes (buf.drop consumed)).ending with
      | .malformed st =>
        (decodeLoop maxFrameBytes buf fuel consumed frames).2 = .error st
      | .waiting rest =>
        ∃ n, (decodeLoop maxFrameBytes buf fuel consumed frames).2 = .ok n ∧
          buf.drop n = rest := by
  induction fuel generalizing consumed frames with
  | zero => omega
  | succ fuel ih =>
    have hhea : frameHeaderBytes = 20 := rfl
    have hlen : (buf.drop consumed).length = buf.length - consumed := length_drop
    cases hhe : frameHead maxFrameBytes (buf.drop consumed) with
    | incomplete =>
      have hlo : decodeLoop maxFrameBytes buf (fuel + 1) consumed frames =
          (frames, .ok consumed) := by
        unfold frameHead at hhe
        simp only [hlen] at hhe
        simp only [decodeLoop]
        split_ifs at hhe ⊢ <;> rfl
      rw [referenceParse, parse_incomplete hhe, hlo]
      exact ⟨(append_nil _).symm, consumed, rfl, rfl⟩
    | malformed st =>
      have hlo : decodeLoop maxFrameBytes buf (fuel + 1) consumed frames = (frames, .error st) := by
        unfold frameHead at hhe
        simp only [hlen] at hhe
        simp only [decodeLoop]
        split_ifs at hhe ⊢ <;> cases hhe <;> rfl
      rw [referenceParse, parse_malformed hhe, hlo]
      exact ⟨(append_nil _).symm, rfl⟩
    | item frame size =>
      have hwh := frameHead_item.mp hhe
      have hsi := hwh.header_le
      have hle := hwh.le_length
      have hmax := hwh.le_max
      have hlo : decodeLoop maxFrameBytes buf (fuel + 1) consumed frames =
          decodeLoop maxFrameBytes buf fuel (consumed + size) (frames ++ [frame]) := by
        simp only [decodeLoop, hwh.field_eq, hwh.frame_eq]
        rw [if_neg (by omega), if_neg (by omega), if_neg (by omega), if_neg (by omega)]
      obtain ⟨hfr, hen⟩ := ih (consumed + size) (frames ++ [frame]) (by omega) (by omega)
      rw [referenceParse, parse_item hhe, hlo, drop_drop]
      refine ⟨?_, hen⟩
      rw [hfr, append_assoc]
      rfl

namespace FrameDecoder

/-- What `append` does with a chunk for which there is room behind an undecided buffer. -/
theorem append_parse {d : FrameDecoder} {data : List UInt8} (hpo : d.poisoned = false)
    (hhe : frameHead d.maxFrameBytes d.buffer = .incomplete)
    (hhea : frameHeaderBytes ≤ d.maxFrameBytes) (hch : data.length ≤ d.maxFrameBytes)
    (hro : d.buffer.length + data.length ≤ bufferLimit d.maxFrameBytes) :
    (d.append data).frames = (referenceParse d.maxFrameBytes (d.buffer ++ data)).items ∧
      match (referenceParse d.maxFrameBytes (d.buffer ++ data)).ending with
      | .malformed st => (d.append data).decoder = d.fail ∧ (d.append data).status = st
      | .waiting rest =>
        (d.append data).decoder = { d with buffer := rest } ∧
          (d.append data).status = .success := by
  have hbu := (length_of_incomplete hhea hhe).1
  obtain ⟨hfr, hen⟩ := decodeLoop_eq d.maxFrameBytes (d.buffer ++ data)
    ((d.buffer ++ data).length + 1) 0 [] (Nat.zero_le _) (by omega)
  rw [drop_zero] at hfr hen
  unfold append
  rw [if_neg (by simp [hpo])]
  by_cases hem : data.length = 0
  · rw [eq_nil_of_length_eq_zero hem, append_nil, referenceParse,
      parse_incomplete hhe]
    exact ⟨rfl, rfl, rfl⟩
  rw [if_neg hem, if_neg (by omega)]
  dsimp only
  generalize decodeLoop d.maxFrameBytes (d.buffer ++ data) ((d.buffer ++ data).length + 1) 0 [] =
    loop at hfr hen ⊢
  obtain ⟨frames, out⟩ := loop
  cases hend : (referenceParse d.maxFrameBytes (d.buffer ++ data)).ending with
  | malformed st =>
    simp only [hend] at hen
    subst hen
    exact ⟨hfr, rfl, rfl⟩
  | waiting rest =>
    simp only [hend] at hen
    obtain ⟨n, rfl, hre⟩ := hen
    refine ⟨hfr, ?_, rfl⟩
    rw [← hre]

end FrameDecoder

/-! ### Streams in chunks -/

/-- A decoder and the frames all its calls have pushed. -/
structure Fed where
  decoder : FrameDecoder
  frames : List Frame := []
  deriving DecidableEq, Repr

open FrameDecoder

namespace Fed

def receive (fed : Fed) (chunk : List UInt8) : Fed where
  decoder := (fed.decoder.append chunk).decoder
  frames := fed.frames ++ (fed.decoder.append chunk).frames

/-- The decoder stands where the reference stands in the stream received so far. -/
structure Reads (maxFrameBytes : ℕ) (fed : Fed) (stream : List UInt8) : Prop where
  limit_eq : fed.decoder.maxFrameBytes = maxFrameBytes
  frames_eq : fed.frames = (referenceParse maxFrameBytes stream).items
  state_eq :
    match (referenceParse maxFrameBytes stream).ending with
    | .malformed _ => fed.decoder.poisoned = true ∧ fed.decoder.buffer = []
    | .waiting rest => fed.decoder.poisoned = false ∧ fed.decoder.buffer = rest

variable {fed : Fed}

theorem Reads.poisoned_iff (h : Reads maxFrameBytes fed stream) :
    fed.decoder.poisoned = true ↔ BadLength maxFrameBytes stream := by
  have hst := h.state_eq
  unfold BadLength
  cases hen : (referenceParse maxFrameBytes stream).ending with
  | malformed st =>
    simp only [hen] at hst
    exact ⟨fun _ => ⟨st, rfl⟩, fun _ => hst.1⟩
  | waiting rest =>
    simp only [hen] at hst
    exact ⟨fun hp => by simp [hst.1] at hp, fun ⟨_, he⟩ => by cases he⟩

theorem Reads.buffered_lt (h : Reads maxFrameBytes fed stream)
    (hmax : frameHeaderBytes ≤ maxFrameBytes) :
    fed.decoder.buffer.length < maxFrameBytes ∧ fed.decoder.buffer.length < 2 ^ 32 := by
  have hhe : frameHeaderBytes = 20 := rfl
  have hst := h.state_eq
  cases hen : (referenceParse maxFrameBytes stream).ending with
  | malformed st =>
    simp only [hen] at hst
    rw [hst.2, length_nil]
    omega
  | waiting rest =>
    simp only [hen] at hst
    rw [hst.2]
    exact length_of_incomplete hmax (head_of_waiting hen)

theorem reads_nil (maxFrameBytes : ℕ) : Reads maxFrameBytes ⟨{ maxFrameBytes }, []⟩ [] := by
  have hpa : referenceParse maxFrameBytes [] = ⟨[], .waiting []⟩ := parse_incomplete rfl
  refine ⟨rfl, ?_, ?_⟩
  · rw [hpa]
  · exact ⟨rfl, rfl⟩

/-- A chunk the buffer has room for moves the decoder as far as the reference. It fails
exactly when a bad length field has been received by then. -/
theorem Reads.receive (h : Reads maxFrameBytes fed stream) {chunk : List UInt8}
    (hmax : frameHeaderBytes ≤ maxFrameBytes) (hch : chunk.length ≤ maxFrameBytes)
    (hro : fed.decoder.buffer.length + chunk.length ≤ bufferLimit maxFrameBytes) :
    Reads maxFrameBytes (fed.receive chunk) (stream ++ chunk) ∧
      ((fed.decoder.append chunk).status.ok = false ↔
        BadLength maxFrameBytes (stream ++ chunk)) := by
  have hst := h.state_eq
  cases hen : (referenceParse maxFrameBytes stream).ending with
  | malformed status =>
    -- a poisoned decoder takes nothing more, and neither does the reference
    simp only [hen] at hst
    have hap : fed.decoder.append chunk =
        { decoder := fed.decoder, status := ⟨.invalidArgument, "frame decoder is poisoned"⟩ } := by
      simp [append, hst.1]
    have hpa : referenceParse maxFrameBytes (stream ++ chunk) =
        referenceParse maxFrameBytes stream := parse_append_of_malformed hen chunk
    refine ⟨⟨?_, ?_, ?_⟩, ?_⟩
    · rw [Fed.receive, hap]
      exact h.limit_eq
    · rw [Fed.receive, hap, hpa, append_nil]
      exact h.frames_eq
    · rw [hpa, hen, Fed.receive, hap]
      exact hst
    · rw [hap, BadLength, hpa, hen]
      exact ⟨fun _ => ⟨status, rfl⟩, fun _ => rfl⟩
  | waiting rest =>
    simp only [hen] at hst
    obtain ⟨hli, hfr, -⟩ := h
    obtain ⟨⟨limit, buf, poisoned⟩, pushed⟩ := fed
    obtain ⟨rfl, rfl⟩ := hst
    subst hli
    dsimp only at hfr
    have hpa : referenceParse limit (stream ++ chunk) =
        ⟨(referenceParse limit stream).items ++ (referenceParse limit (buf ++ chunk)).items,
          (referenceParse limit (buf ++ chunk)).ending⟩ :=
      parse_append_of_waiting hen chunk
    obtain ⟨hpu, hne⟩ := append_parse rfl (head_of_waiting hen) hmax hch hro
    have hall : pushed ++ (append ⟨limit, buf, false⟩ chunk).frames =
        (referenceParse limit (stream ++ chunk)).items := by
      rw [hpa, hpu, hfr]
    cases hend : (referenceParse limit (buf ++ chunk)).ending with
    | malformed status =>
      simp only [hend] at hne
      obtain ⟨rest, hhe⟩ := head_of_malformed hend
      refine ⟨⟨?_, hall, ?_⟩, ?_⟩
      · rw [Fed.receive, hne.1]
        rfl
      · rw [hpa, hend, Fed.receive, hne.1]
        exact ⟨rfl, rfl⟩
      · rw [hne.2, BadLength, hpa, hend]
        exact ⟨fun _ => ⟨status, rfl⟩, fun _ => not_ok_of_malformed hhe⟩
    | waiting rest =>
      simp only [hend] at hne
      refine ⟨⟨?_, hall, ?_⟩, ?_⟩
      · rw [Fed.receive, hne.1]
      · rw [hpa, hend, Fed.receive, hne.1]
        exact ⟨rfl, rfl⟩
      · rw [hne.2, BadLength, hpa, hend]
        simp [Status.ok]

/-- A decoder that got chunks of at most the frame limit has read what the reference
reads. -/
theorem reads_run (hmax : frameHeaderBytes ≤ maxFrameBytes) (hli : maxFrameBytes ≤ sizeMax / 2)
    (chunks : List (List UInt8)) (hch : ∀ chunk ∈ chunks, chunk.length ≤ maxFrameBytes) :
    Reads maxFrameBytes (runFrom receive ⟨{ maxFrameBytes }, []⟩ chunks) chunks.flatten := by
  induction chunks using reverseRecOn with
  | nil => exact reads_nil maxFrameBytes
  | append_singleton chunks chunk ih =>
    have hre := ih fun c hc => hch c (by simp [hc])
    have hchu := hch chunk (by simp)
    have hbu := (hre.buffered_lt hmax).1
    have hro : bufferLimit maxFrameBytes = maxFrameBytes * 2 := by
      rw [bufferLimit, if_neg (not_lt.mpr hli)]
    rw [runFrom_append, flatten_append, flatten_singleton]
    exact (hre.receive hmax hchu (by omega)).1

end Fed

/-- In every run of `append` calls on a new decoder, with any chunks of at most the frame
limit: the frames pushed so far are those of the reference parse of the bytes received so
far, a call fails and poisons the decoder exactly when a bad length field has been received,
after which nothing more is pushed until `reset` makes the decoder a new one, and less than
the limit is buffered. -/
theorem append_eq_referenceParse {maxFrameBytes : ℕ} (hmax : 20 ≤ maxFrameBytes)
    (hlimit : maxFrameBytes ≤ sizeMax / 2) (chunks : List (List UInt8)) (chunk : List UInt8)
    (hchunks : ∀ c ∈ chunks ++ [chunk], c.length ≤ maxFrameBytes) :
    let before := runFrom Fed.receive ⟨{ maxFrameBytes }, []⟩ chunks
    let after := before.decoder.append chunk
    before.frames = (referenceParse maxFrameBytes chunks.flatten).items ∧
      before.frames ++ after.frames =
        (referenceParse maxFrameBytes (chunks ++ [chunk]).flatten).items ∧
      (after.status.ok = false ↔ BadLength maxFrameBytes (chunks ++ [chunk]).flatten) ∧
      (after.decoder.poisoned = true ↔ BadLength maxFrameBytes (chunks ++ [chunk]).flatten) ∧
      (before.decoder.poisoned = true → after.frames = [] ∧ after.decoder = before.decoder) ∧
      after.decoder.reset = { maxFrameBytes } ∧
      before.decoder.bufferedBytes < maxFrameBytes ∧
      after.decoder.bufferedBytes < maxFrameBytes := by
  intro before after
  have hbefore : Fed.Reads maxFrameBytes before chunks.flatten :=
    Fed.reads_run hmax hlimit chunks fun c hc => hchunks c (by simp [hc])
  have hbuffer := (hbefore.buffered_lt hmax).1
  have hchunk := hchunks chunk (by simp)
  have hroom : bufferLimit maxFrameBytes = maxFrameBytes * 2 := by
    rw [bufferLimit, if_neg (not_lt.mpr hlimit)]
  obtain ⟨hafter, hfailed⟩ := hbefore.receive hmax hchunk (by omega)
  rw [flatten_append, flatten_singleton]
  refine ⟨hbefore.frames_eq, hafter.frames_eq, hfailed, hafter.poisoned_iff, ?_, ?_, hbuffer,
    (hafter.buffered_lt hmax).1⟩
  · intro hpoisoned
    have happend : after =
        { decoder := before.decoder, status := ⟨.invalidArgument, "frame decoder is poisoned"⟩ } :=
      if_pos hpoisoned
    rw [happend]
    exact ⟨rfl, rfl⟩
  · rw [reset, show after.decoder.maxFrameBytes = maxFrameBytes from hafter.limit_eq]

/-- Two frames of 20 bytes in chunks that cut the second one inside its length field. -/
theorem append_eq_referenceParse_split :
    let frame : List UInt8 := ({} : Frame).layout
    let before := runFrom Fed.receive ⟨{ maxFrameBytes := 24 }, []⟩ [frame ++ frame.take 2]
    before.frames = (referenceParse 24 [frame ++ frame.take 2].flatten).items ∧
      before.decoder.bufferedBytes < 24 := by
  have h := @append_eq_referenceParse 24 (by decide) (by decide)
    [({} : Frame).layout ++ ({} : Frame).layout.take 2] [] (by decide)
  exact ⟨h.1, h.2.2.2.2.2.2.1⟩

/-! ### Round trips -/

/-- The encodings of a list of frames. -/
def Encodes (maxFrameBytes : ℕ) (frames : List Frame) (encodings : List (List UInt8)) : Prop :=
  List.Forall₂ (fun frame bytes => encodeFrame frame maxFrameBytes = .ok bytes) frames encodings

/-- A piece of a stream is read as the frame it is the encoding of. -/
theorem spells_iff_encodeFrame {bytes : List UInt8} :
    (framing maxFrameBytes).Spells frame bytes ↔ encodeFrame frame maxFrameBytes = .ok bytes := by
  change frameHead maxFrameBytes bytes = .item frame bytes.length ↔ _
  rw [frameHead_item, encodeFrame_eq_ok]
  constructor
  · rintro ⟨hfi, hhe, hmax, -, rfl⟩
    rw [take_length]
    have hla := layout_decodeFrame hhe hfi
    have hsi : (decodeFrame bytes).size = bytes.length := by
      rw [← Frame.length_layout, hla]
    refine ⟨⟨by omega, ?_⟩, hla.symm⟩
    rw [hsi, ← hfi]
    exact (readU32 bytes 0).toNat_lt
  · rintro ⟨⟨hmax, hwo⟩, rfl⟩
    have hle : 20 ≤ frame.layout.length := by
      rw [Frame.length_layout]
      exact Nat.le_add_right _ _
    refine ⟨?_, hle, frame.length_layout ▸ hmax, le_rfl, ?_⟩
    · rw [toNat_readU32 (by omega), (field_layout frame).1, BigEndian.value_bytes hwo,
        Frame.length_layout]
    · rw [take_length, decodeFrame_layout]

theorem spells_of_head {size : ℕ} (h : (framing maxFrameBytes).head stream = .item frame size) :
    (framing maxFrameBytes).Spells frame (stream.take size) := by
  obtain ⟨hfi, hhe, hmax, hle, hfr⟩ := frameHead_item.mp h
  have hlen : (stream.take size).length = size := length_take_of_le hle
  have hsh : readU32 (stream.take size) 0 = readU32 stream 0 := by
    have hhe' : frameHeaderBytes = 20 := rfl
    rw [← readU32_append (by omega) (stream.drop size), take_append_drop]
  refine frameHead_item.mpr ⟨?_, by omega, by omega, le_rfl, ?_⟩
  · rw [hsh, hfi, hlen]
  · rw [take_length, hfr]

theorem referenceParse_encodes {frames : List Frame} {encodings : List (List UInt8)}
    (h : Encodes maxFrameBytes frames encodings) :
    referenceParse maxFrameBytes encodings.flatten = ⟨frames, .waiting []⟩ := by
  have hpi : List.Forall₂ (framing maxFrameBytes).Spells frames encodings :=
    h.imp fun _ _ => spells_iff_encodeFrame.mpr
  have hnil : (framing maxFrameBytes).parse [] = ⟨[], .waiting []⟩ := parse_incomplete rfl
  have hpa := parse_pieces hpi []
  rwa [append_nil, hnil, append_nil] at hpa

namespace FrameDecoder

theorem append_limit (d : FrameDecoder) (data : List UInt8) :
    (d.append data).decoder.maxFrameBytes = d.maxFrameBytes := by
  unfold append
  dsimp only
  split_ifs
  · rfl
  · rfl
  · rfl
  · generalize decodeLoop d.maxFrameBytes (d.buffer ++ data) _ 0 [] = loop
    obtain ⟨frames, out⟩ := loop
    cases out with
    | error st => rfl
    | ok used => rfl

/-- A call fails before it reads anything, or there is room for its chunk. -/
theorem append_overflow_or_room {d : FrameDecoder} {data : List UInt8}
    (hpo : d.poisoned = false) (hda : data ≠ []) :
    d.append data =
        { decoder := d.fail
          status := ⟨.resourceExhausted, "decoder buffer exceeds configured maximum"⟩ } ∨
      frameHeaderBytes ≤ d.maxFrameBytes ∧ data.length ≤ d.maxFrameBytes ∧
        d.buffer.length + data.length ≤ bufferLimit d.maxFrameBytes := by
  have hle : data.length ≠ 0 := fun h => hda (eq_nil_of_length_eq_zero h)
  by_cases hfu : d.maxFrameBytes < frameHeaderBytes ∨ d.maxFrameBytes < data.length ∨
      d.maxFrameBytes < d.buffer.length ∨
      bufferLimit d.maxFrameBytes - d.buffer.length < data.length
  · left
    rw [append, if_neg (by simp [hpo]), if_neg hle, if_pos hfu]
  · right
    omega

end FrameDecoder

namespace Fed

/-- The decoder has read what the reference reads from a front of the stream, and while it
is not poisoned that front is all of it. -/
def ReadsFront (maxFrameBytes : ℕ) (fed : Fed) (stream : List UInt8) : Prop :=
  ∃ taken rest, stream = taken ++ rest ∧
    fed.frames = (referenceParse maxFrameBytes taken).items ∧
    (fed.decoder.poisoned = false → rest = [] ∧ Reads maxFrameBytes fed taken)

theorem ReadsFront.receive {fed : Fed} (h : ReadsFront maxFrameBytes fed stream)
    (chunk : List UInt8) : ReadsFront maxFrameBytes (fed.receive chunk) (stream ++ chunk) := by
  obtain ⟨taken, rest, rfl, hfr, hre⟩ := h
  cases hpo : fed.decoder.poisoned with
  | true =>
    have hsa : fed.receive chunk = fed := by
      simp [Fed.receive, append, hpo]
    refine ⟨taken, rest ++ chunk, append_assoc .., ?_, ?_⟩
    · rw [hsa, hfr]
    · rw [hsa, hpo]
      intro hfa
      cases hfa
  | false =>
    obtain ⟨rfl, hall⟩ := hre hpo
    rw [append_nil]
    by_cases hch : chunk = []
    · have hsa : fed.receive chunk = fed := by
        simp [Fed.receive, append, hpo, hch]
      rw [hsa, hch]
      exact ⟨taken, [], rfl, hfr, fun _ => ⟨rfl, hall⟩⟩
    · rcases append_overflow_or_room hpo hch with
        hfail | ⟨hmax, hle, hro⟩
      · refine ⟨taken, chunk, rfl, ?_, ?_⟩
        · rw [Fed.receive, hfail, append_nil, hfr]
        · rw [Fed.receive, hfail]
          intro hfa
          cases hfa
      · rw [hall.limit_eq] at hmax hle hro
        have hne := (hall.receive hmax hle hro).1
        exact ⟨taken ++ chunk, [], (append_nil _).symm, hne.frames_eq, fun _ => ⟨rfl, hne⟩⟩

theorem readsFront_run (maxFrameBytes : ℕ) (chunks : List (List UInt8)) :
    ReadsFront maxFrameBytes (runFrom receive ⟨{ maxFrameBytes }, []⟩ chunks) chunks.flatten := by
  induction chunks using reverseRecOn with
  | nil => exact ⟨[], [], rfl, (reads_nil maxFrameBytes).frames_eq, fun _ => ⟨rfl, reads_nil _⟩⟩
  | append_singleton chunks chunk ih =>
    rw [runFrom_append, flatten_append, flatten_singleton]
    exact ih.receive chunk

end Fed

/-- Frames that encode under the limit come out of a new decoder as they went in, in whatever
chunks of at most the limit their encodings arrive, and nothing stays buffered. Whatever a
decoder pushed, from any chunks, encodes to the bytes at the front of the stream. -/
theorem encodeFrame_round_trip {maxFrameBytes : ℕ} (hmax : 20 ≤ maxFrameBytes)
    (hlimit : maxFrameBytes ≤ sizeMax / 2) :
    (∀ frames encodings chunks, Encodes maxFrameBytes frames encodings →
      chunks.flatten = encodings.flatten → (∀ chunk ∈ chunks, chunk.length ≤ maxFrameBytes) →
      runFrom Fed.receive ⟨{ maxFrameBytes }, []⟩ chunks = ⟨{ maxFrameBytes }, frames⟩) ∧
    ∀ chunks, ∃ encodings rest,
      Encodes maxFrameBytes (runFrom Fed.receive ⟨{ maxFrameBytes }, []⟩ chunks).frames encodings ∧
        chunks.flatten = encodings.flatten ++ rest := by
  constructor
  · intro frames encodings chunks hencodes hflatten hchunks
    have hreads := Fed.reads_run hmax hlimit chunks hchunks
    generalize runFrom Fed.receive ⟨{ maxFrameBytes }, []⟩ chunks = fed at hreads ⊢
    obtain ⟨⟨limit, buffer, poisoned⟩, pushed⟩ := fed
    obtain ⟨hsame, hframes, hstate⟩ := hreads
    rw [hflatten, referenceParse_encodes hencodes] at hframes hstate
    dsimp only at hsame hframes hstate
    rw [hsame, hframes, hstate.1, hstate.2]
  · intro chunks
    obtain ⟨taken, rest, hstream, hframes, -⟩ := Fed.readsFront_run maxFrameBytes chunks
    obtain ⟨encodings, left, rfl, hspelled⟩ :=
      (framing maxFrameBytes).pieces_of_parse spells_of_head taken
    rw [hstream, hframes]
    exact ⟨encodings, left ++ rest, hspelled.imp fun _ _ => spells_iff_encodeFrame.mp,
      append_assoc ..⟩

/-- Two frames, the second with a payload, in chunks that do not end where a frame does. -/
theorem encodeFrame_round_trip_two :
    let first : Frame := {}
    let second : Frame := { requestId := 7, payload := [1, 2, 3] }
    let stream := first.layout ++ second.layout
    runFrom Fed.receive ⟨{ maxFrameBytes := 24 }, []⟩ [stream.take 22, stream.drop 22] =
      ⟨{ maxFrameBytes := 24 }, [first, second]⟩ := by
  intro first second stream
  have hencodes : Encodes 24 [first, second] [first.layout, second.layout] :=
    .cons (encodeFrame_eq_ok.mpr ⟨by unfold Frame.Fits; decide, rfl⟩)
      (.cons (encodeFrame_eq_ok.mpr ⟨by unfold Frame.Fits; decide, rfl⟩) .nil)
  refine (@encodeFrame_round_trip 24 (by decide) (by decide)).1
    [first, second] [first.layout, second.layout] [stream.take 22, stream.drop 22] hencodes ?_ ?_
  · simp [stream]
  · decide

end Pdcm.Ipc
