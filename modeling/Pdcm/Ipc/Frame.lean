import Pdcm.Library.BigEndian
import Pdcm.Common.Observation

/-!
# Frames of the local protocol

`ipc/frame.hpp` and `ipc/frame.cpp`: the header fields with their big-endian codecs,
`encodeFrame`, and the decoder that collects received bytes until they hold whole frames.
Byte arrays are lists; the out parameters of the source are results, so they are never
null.
-/

namespace Pdcm.Ipc

open Library List BigEndian

variable {offset : ℕ}

/-- The largest `std::size_t`. -/
def sizeMax : ℕ := 2 ^ 64 - 1

def protocolMajor : UInt16 := 1

def protocolMinor : UInt16 := 0

def frameHeaderBytes : ℕ := 20

/-- A scoped enumeration over 16 bits. The decoder casts whatever it read, so every value
of the underlying type occurs. -/
structure MessageType where
  value : UInt16
  deriving DecidableEq, Repr

namespace MessageType

def helloRequest : MessageType := ⟨1⟩
def helloResponse : MessageType := ⟨2⟩
def errorResponse : MessageType := ⟨3⟩
def entityListRequest : MessageType := ⟨6⟩
def entityListResponse : MessageType := ⟨7⟩
def capabilityQueryRequest : MessageType := ⟨8⟩
def capabilityQueryResponse : MessageType := ⟨9⟩
def healthQueryRequest : MessageType := ⟨10⟩
def healthQueryResponse : MessageType := ⟨11⟩

end MessageType

structure Frame where
  protocolMajor : UInt16 := Ipc.protocolMajor
  protocolMinor : UInt16 := Ipc.protocolMinor
  messageType : MessageType := .errorResponse
  flags : UInt16 := 0
  requestId : UInt64 := 0
  payload : List UInt8 := []
  deriving DecidableEq, Repr

/-! ### Integer fields -/

def writeU16 (bytes : List UInt8) (offset : ℕ) (value : UInt16) : List UInt8 :=
  (bytes.set offset (value >>> 8).toUInt8).set (offset + 1) value.toUInt8

def writeU32 (bytes : List UInt8) (offset : ℕ) (value : UInt32) : List UInt8 :=
  (((bytes.set offset (value >>> 24).toUInt8).set (offset + 1) (value >>> 16).toUInt8).set
    (offset + 2) (value >>> 8).toUInt8).set (offset + 3) value.toUInt8

def writeU64 (bytes : List UInt8) (offset : ℕ) (value : UInt64) : List UInt8 :=
  (List.range 8).foldl (fun bytes index =>
      bytes.set (offset + index) (value >>> UInt64.ofNat ((7 - index) * 8)).toUInt8) bytes

def readU16 (bytes : List UInt8) (offset : ℕ) : UInt16 :=
  ((bytes.getD offset 0).toUInt16 <<< 8) ||| (bytes.getD (offset + 1) 0).toUInt16

def readU32 (bytes : List UInt8) (offset : ℕ) : UInt32 :=
  ((bytes.getD offset 0).toUInt32 <<< 24) ||| ((bytes.getD (offset + 1) 0).toUInt32 <<< 16) |||
    ((bytes.getD (offset + 2) 0).toUInt32 <<< 8) ||| (bytes.getD (offset + 3) 0).toUInt32

def readU64 (bytes : List UInt8) (offset : ℕ) : UInt64 :=
  (List.range 8).foldl
    (fun value index => (value <<< 8) ||| (bytes.getD (offset + index) 0).toUInt64) 0

/-- `std::copy` to a position in the output. -/
def copyAt (bytes : List UInt8) (offset : ℕ) (source : List UInt8) : List UInt8 :=
  bytes.take offset ++ source ++ bytes.drop (offset + source.length)

/-- The bytes of a field. -/
def field (bytes : List UInt8) (offset width : ℕ) : List UInt8 := (bytes.drop offset).take width

theorem field_succ {bytes : List UInt8} {k : ℕ} (h : offset + k < bytes.length) :
    field bytes offset (k + 1) = field bytes offset k ++ [bytes.getD (offset + k) 0] := by
  have hget : (bytes.drop offset)[k]? = some (bytes.getD (offset + k) 0) := by
    rw [getElem?_drop, getD_eq_getElem?_getD,
      getElem?_eq_getElem h, Option.getD_some]
  rw [field, field, take_add_one, hget, Option.toList_some]

theorem length_field {bytes : List UInt8} {width : ℕ} (h : offset + width ≤ bytes.length) :
    (field bytes offset width).length = width := by
  rw [field, length_take, length_drop]
  omega

theorem toNat_readU16 {bytes : List UInt8} (h : offset + 2 ≤ bytes.length) :
    (readU16 bytes offset).toNat = value (field bytes offset 2) := by
  rw [field_succ (by omega), field_succ (by omega), readU16, toNat_u16]
  rfl

theorem toNat_readU32 {bytes : List UInt8} (h : offset + 4 ≤ bytes.length) :
    (readU32 bytes offset).toNat = value (field bytes offset 4) := by
  rw [field_succ (by omega), field_succ (by omega), field_succ (by omega), field_succ (by omega),
    readU32, toNat_u32]
  rfl

theorem toNat_readU64_loop {bytes : List UInt8} {k : ℕ} (hk : k ≤ 8)
    (h : offset + k ≤ bytes.length) :
    ((range k).foldl (fun (value : UInt64) index =>
        (value <<< 8) ||| (bytes.getD (offset + index) 0).toUInt64) 0).toNat =
      value (field bytes offset k) := by
  induction k with
  | zero => rfl
  | succ k ih =>
    have hre := ih (by omega) (by omega)
    have hro : value (field bytes offset k) < 2 ^ 56 := by
      have hlt := value_lt (field bytes offset k)
      have hpow : 256 ^ k ≤ 256 ^ 7 := Nat.pow_le_pow_right (by omega) (by omega)
      rw [length_field (by omega)] at hlt
      omega
    rw [range_succ, foldl_append, foldl_cons, foldl_nil,
      toNat_u64_push _ (hre ▸ hro), hre, field_succ (by omega),
      value_concat]

theorem toNat_readU64 {bytes : List UInt8} (h : offset + 8 ≤ bytes.length) :
    (readU64 bytes offset).toNat = value (field bytes offset 8) :=
  toNat_readU64_loop le_rfl h

@[simp] theorem length_writeU16 (bytes : List UInt8) (offset : ℕ) (value : UInt16) :
    (writeU16 bytes offset value).length = bytes.length := by
  simp [writeU16]

@[simp] theorem length_writeU32 (bytes : List UInt8) (offset : ℕ) (value : UInt32) :
    (writeU32 bytes offset value).length = bytes.length := by
  simp [writeU32]

@[simp] theorem length_writeU64 (bytes : List UInt8) (offset : ℕ) (value : UInt64) :
    (writeU64 bytes offset value).length = bytes.length := by
  simp [writeU64, range_succ]

/-! ### Encoding -/

def encodeFrame (frame : Frame) (maxFrameBytes : ℕ) : Except Status (List UInt8) :=
  if maxFrameBytes < frameHeaderBytes ∨ 2 ^ 32 - 1 - frameHeaderBytes < frame.payload.length then
    .error ⟨.invalidArgument, "invalid frame size limit"⟩
  else
    let frameSize := frameHeaderBytes + frame.payload.length
    if maxFrameBytes < frameSize then
      .error ⟨.resourceExhausted, "frame exceeds configured maximum"⟩
    else
      let output := List.replicate frameSize 0
      let output := writeU32 output 0 (UInt32.ofNat frameSize)
      let output := writeU16 output 4 frame.protocolMajor
      let output := writeU16 output 6 frame.protocolMinor
      let output := writeU16 output 8 frame.messageType.value
      let output := writeU16 output 10 frame.flags
      let output := writeU64 output 12 frame.requestId
      .ok (copyAt output frameHeaderBytes frame.payload)

/-- The frame that the bytes from its length field to its last payload byte spell. -/
def decodeFrame (bytes : List UInt8) : Frame where
  protocolMajor := readU16 bytes 4
  protocolMinor := readU16 bytes 6
  messageType := ⟨readU16 bytes 8⟩
  flags := readU16 bytes 10
  requestId := readU64 bytes 12
  payload := bytes.drop frameHeaderBytes

namespace Frame

variable (f : Frame)

def size : ℕ := frameHeaderBytes + f.payload.length

/-- The layout of a frame: its fields one after the other. -/
def layout : List UInt8 :=
  BigEndian.bytes 4 f.size ++ BigEndian.bytes 2 f.protocolMajor.toNat ++
    BigEndian.bytes 2 f.protocolMinor.toNat ++ BigEndian.bytes 2 f.messageType.value.toNat ++
    BigEndian.bytes 2 f.flags.toNat ++ BigEndian.bytes 8 f.requestId.toNat ++ f.payload

/-- The frames a limit lets through: those whose size fits the limit and its own field. -/
def Fits (maxFrameBytes : ℕ) : Prop := f.size ≤ maxFrameBytes ∧ f.size < 2 ^ 32

@[simp] theorem length_layout : f.layout.length = f.size := by
  simp only [layout, length_append, length_bytes, size, frameHeaderBytes]

end Frame

/-- All offsets are constants, so the writes into the zeroed header can be carried out. -/
theorem header_writes (frame : Frame) (n : UInt32) :
    (writeU64 (writeU16 (writeU16 (writeU16 (writeU16 (writeU32
      (replicate (frameHeaderBytes + frame.payload.length) 0) 0 n) 4 frame.protocolMajor) 6
      frame.protocolMinor) 8 frame.messageType.value) 10 frame.flags) 12
      frame.requestId).take frameHeaderBytes =
    bytes 4 n.toNat ++ bytes 2 frame.protocolMajor.toNat ++
      bytes 2 frame.protocolMinor.toNat ++
      bytes 2 frame.messageType.value.toNat ++ bytes 2 frame.flags.toNat ++
      bytes 8 frame.requestId.toNat := by
  rw [replicate_add, bytes_u32, bytes_u16, bytes_u16,
    bytes_u16, bytes_u16, bytes_u64]
  simp [writeU16, writeU32, writeU64, frameHeaderBytes, range_succ]

/-- Exactly the frames that fit are encoded, to their layout. -/
theorem encodeFrame_eq_ok {frame : Frame} {maxFrameBytes : ℕ} {bytes : List UInt8} :
    encodeFrame frame maxFrameBytes = .ok bytes ↔
      frame.Fits maxFrameBytes ∧ bytes = frame.layout := by
  have hhe : frameHeaderBytes = 20 := rfl
  have hsi : frame.size = frameHeaderBytes + frame.payload.length := rfl
  unfold encodeFrame
  dsimp only
  split_ifs with hli hmax
  · constructor
    · rintro ⟨⟩
    · rintro ⟨⟨hfi, hwo⟩, -⟩
      omega
  · constructor
    · rintro ⟨⟩
    · rintro ⟨⟨hfi, -⟩, -⟩
      omega
  have hfi : frame.Fits maxFrameBytes := ⟨by omega, by omega⟩
  have hwo : (UInt32.ofNat (frameHeaderBytes + frame.payload.length)).toNat = frame.size :=
    UInt32.toNat_ofNat_of_lt' hfi.2
  rw [Except.ok.injEq, copyAt, drop_eq_nil_of_le (by simp), append_nil, header_writes, hwo]
  exact ⟨fun hby => ⟨hfi, hby.symm⟩, fun h => h.2.symm⟩

/-! ### Decoding one frame -/

theorem field_layout (f : Frame) :
    field f.layout 0 4 = bytes 4 f.size ∧
      field f.layout 4 2 = bytes 2 f.protocolMajor.toNat ∧
      field f.layout 6 2 = bytes 2 f.protocolMinor.toNat ∧
      field f.layout 8 2 = bytes 2 f.messageType.value.toNat ∧
      field f.layout 10 2 = bytes 2 f.flags.toNat ∧
      field f.layout 12 8 = bytes 8 f.requestId.toNat := by
  simp [field, Frame.layout, drop_append, drop_bytes]

theorem decodeFrame_layout (f : Frame) : decodeFrame f.layout = f := by
  obtain ⟨-, hma, hmi, hty, hfl, hid⟩ := field_layout f
  have hle : 20 ≤ f.layout.length := by
    rw [Frame.length_layout]
    exact Nat.le_add_right _ _
  have hre {offset : ℕ} {v : UInt16} (h : offset + 2 ≤ 20)
      (hfi : field f.layout offset 2 = bytes 2 v.toNat) :
      readU16 f.layout offset = v := by
    rw [← UInt16.toNat_inj, toNat_readU16 (by omega), hfi, value_bytes v.toNat_lt]
  have hrea : readU64 f.layout 12 = f.requestId := by
    rw [← UInt64.toNat_inj, toNat_readU64 (by omega), hid,
      value_bytes f.requestId.toNat_lt]
  have hpa : f.layout.drop frameHeaderBytes = f.payload := by
    simp [Frame.layout, frameHeaderBytes, drop_append, drop_bytes]
  rw [decodeFrame, hre (by omega) hma, hre (by omega) hmi, hre (by omega) hty,
    hre (by omega) hfl, hrea, hpa]

theorem field_append_drop (bytes : List UInt8) (offset width : ℕ) :
    field bytes offset width ++ bytes.drop (offset + width) = bytes.drop offset := by
  rw [field, ← drop_drop, take_append_drop]

/-- Bytes that start with their own number are the layout of the frame they spell. -/
theorem layout_decodeFrame {bytes : List UInt8} (hhe : frameHeaderBytes ≤ bytes.length)
    (hsi : (readU32 bytes 0).toNat = bytes.length) : (decodeFrame bytes).layout = bytes := by
  have hle : 20 ≤ bytes.length := hhe
  have hde : (decodeFrame bytes).size = bytes.length := by
    simp only [Frame.size, decodeFrame, length_drop]
    omega
  have hwi {offset width : ℕ} (h : offset + width ≤ 20) :
      BigEndian.bytes width (value (field bytes offset width)) =
        field bytes offset width := by
    have hfi := bytes_value (field bytes offset width)
    rwa [length_field (by omega)] at hfi
  rw [Frame.layout, hde, ← hsi]
  simp only [decodeFrame, toNat_readU16 (show 4 + 2 ≤ bytes.length by omega),
    toNat_readU16 (show 6 + 2 ≤ bytes.length by omega),
    toNat_readU16 (show 8 + 2 ≤ bytes.length by omega),
    toNat_readU16 (show 10 + 2 ≤ bytes.length by omega),
    toNat_readU32 (show 0 + 4 ≤ bytes.length by omega),
    toNat_readU64 (show 12 + 8 ≤ bytes.length by omega)]
  rw [hwi (by omega), hwi (by omega), hwi (by omega), hwi (by omega),
    hwi (by omega), hwi (by omega)]
  simp only [append_assoc]
  -- the fields stand one behind the other, so they join up from the back
  rw [show frameHeaderBytes = 12 + 8 from rfl, field_append_drop, field_append_drop bytes 10 2,
    field_append_drop bytes 8 2, field_append_drop bytes 6 2, field_append_drop bytes 4 2,
    field_append_drop bytes 0 4, drop_zero]

end Pdcm.Ipc
