import Pdcm.Client.StandaloneBackend
import Pdcm.Ipc.FrameDecoder

/-!
# Exchanges over the socket

A standalone backend and a daemon at the two ends of one socket. `exchangeLocked` writes its
request in pieces and then reads with a decoder of its own until it has a frame; the bytes
that a call has taken off the socket are gone with its decoder when it returns. The daemon
answers the requests it can read, in their order and whenever it likes. What the socket and
the clock do is an argument of the step.

While a call is in progress its link is `Open` with a list of answers still to be read and a
list of requests still to be answered, if it was so when the call began: `Turn` says what one
step can make of these lists.
-/

namespace Pdcm.Client

open Ipc Library List Framing
open RequestRouter (responseFrame)

variable {maxFrameBytes : ℕ} {stream rest : List UInt8} {frame : Frame} {frames : List Frame}
  {decoder : FrameDecoder}

/-- The size of the buffer that `readOneFrame` passes to `recv`. -/
def responseBufferBytes : ℕ := 4096

/-- A call of `exchangeLocked` whose request was encoded. -/
structure ExchangeCall where
  request : Frame
  expected : MessageType
  deriving DecidableEq, Repr

/-- Where the caller that holds the lock stands: in `writeAll` with the bytes that are still
to be sent, or in `readOneFrame` with its decoder. -/
inductive CallPhase where
  | idle
  | writing (call : ExchangeCall) (rest : List UInt8)
  | reading (call : ExchangeCall) (decoder : FrameDecoder)
  deriving DecidableEq, Repr

namespace CallPhase

def call? : CallPhase → Option ExchangeCall
  | idle => none
  | writing call _ => some call
  | reading call _ => some call

def unsent : CallPhase → List UInt8
  | writing _ rest => rest
  | _ => []

/-- What the call has read without finding a whole frame. -/
def undecided : CallPhase → List UInt8
  | reading _ decoder => decoder.buffer
  | _ => []

end CallPhase

/-- A request as the daemon read it, and the frame that it encoded as its answer. -/
structure Answer where
  request : Frame
  response : Frame
  deriving DecidableEq, Repr

/-- The result of a call, with the frame that the call sends unless a check refuses it. -/
structure Returned where
  request : Frame
  result : Except Status Frame
  deriving DecidableEq

/-- The backend, the bytes on the socket in both directions, and what happened so far: the
requests that were encoded, the answers and the results of the calls. No step reads the last
three. -/
structure Link where
  backend : StandaloneBackend
  serverMaxFrameBytes : ℕ
  phase : CallPhase := .idle
  toDaemon : List UInt8 := []
  toClient : List UInt8 := []
  sent : List Frame := []
  answered : List Answer := []
  returned : List Returned := []
  deriving DecidableEq

inductive LinkEvent where
  | exchange (type : MessageType) (payload : List UInt8) (expected : MessageType)
  /-- `send` takes some bytes. -/
  | send (n : ℕ)
  /-- `recv` delivers some bytes. -/
  | receive (n : ℕ)
  /-- The deadline expires, or a socket call fails. -/
  | fail (status : Status)
  /-- The daemon answers the next request it can read. -/
  | answer (type : MessageType) (payload : List UInt8)

/-- The status of a wait that reached its deadline. -/
def deadlineExpired : Status := ⟨.timeout, "local IPC deadline expired"⟩

namespace Link

/-- The link of a backend that has just been started. -/
def start (backend : StandaloneBackend) (serverMaxFrameBytes : ℕ) : Link :=
  { backend := backend, serverMaxFrameBytes := serverMaxFrameBytes }

/-- No call is in progress and nothing is on the socket. -/
structure Rests (link : Link) : Prop where
  idle : link.phase = .idle
  toDaemon : link.toDaemon = []
  toClient : link.toClient = []

variable (link : Link)

def finish (request : Frame) (result : Except Status Frame) : Link :=
  { link with phase := .idle, returned := link.returned ++ [⟨request, result⟩] }

/-- `exchangeLocked` has used up an id and enters `writeAll`. -/
def sending (request : Frame) (expected : MessageType) (bytes : List UInt8) : Link :=
  { link with
    backend := { link.backend with nextRequestId := link.backend.nextRequestId + 1 }
    phase := .writing ⟨request, expected⟩ bytes
    sent := link.sent ++ [request] }

/-- `exchangeLocked` up to its first socket call. -/
def exchange (type : MessageType) (payload : List UInt8) (expected : MessageType) :
    Link :=
  let b := link.backend
  let request := b.requestFrame type payload
  if ¬b.started ∨ b.closed ∨ ¬b.connected then
    link.finish request (.error ⟨.unavailable, "standalone backend is disconnected"⟩)
  else if b.nextRequestId = 0 then
    link.finish request (.error ⟨.resourceExhausted, "standalone request ID space is exhausted"⟩)
  else
    match encodeFrame request b.maxFrameBytes with
    | .error status =>
      { link with backend := { b with nextRequestId := b.nextRequestId + 1 } }.finish request
        (.error status)
    | .ok bytes => link.sending request expected bytes

/-- One `send` of `writeAll`. Behind the last byte `readOneFrame` makes a new decoder. -/
def writeAll (call : ExchangeCall) (rest : List UInt8) (n : ℕ) : Link :=
  if 0 < n ∧ n ≤ rest.length then
    { link with
      toDaemon := link.toDaemon ++ rest.take n
      phase :=
        if n < rest.length then .writing call (rest.drop n)
        else .reading call { maxFrameBytes := link.backend.maxFrameBytes } }
  else link

/-- One `recv` of `readOneFrame`, and the checks of a frame that it completes. -/
def readOneFrame (protobuf : Protobuf) (link : Link) (call : ExchangeCall) (decoder : FrameDecoder)
    (n : ℕ) : Link :=
  if 0 < n ∧ n ≤ responseBufferBytes ∧ n ≤ link.toClient.length then
    let next := { link with toClient := link.toClient.drop n }
    let appended := decoder.append (link.toClient.take n)
    if ¬appended.status.ok then next.finish call.request (.error appended.status)
    else
      match appended.frames with
      | [] => { next with phase := .reading call appended.decoder }
      | [frame] =>
        next.finish call.request
          (link.backend.checkEnvelope protobuf call.request.requestId call.expected frame)
      | _ =>
        next.finish call.request (.error ⟨.invalidArgument, "unexpected coalesced response frames"⟩)
  else link

def answer (type : MessageType) (payload : List UInt8) : Link :=
  match frameHead link.serverMaxFrameBytes link.toDaemon with
  | .item request size =>
    let response := responseFrame request type payload
    match encodeFrame response link.serverMaxFrameBytes with
    | .ok bytes =>
      { link with
        toDaemon := link.toDaemon.drop size
        toClient := link.toClient ++ bytes
        answered := link.answered ++ [⟨request, response⟩] }
    | .error _ => link
  | _ => link

/-- Only one caller holds the lock: a new exchange waits until the phase is idle. -/
def step (protobuf : Protobuf) (link : Link) (event : LinkEvent) : Link :=
  match event, link.phase with
  | .exchange type payload expected, .idle => link.exchange type payload expected
  | .send n, .writing call rest => link.writeAll call rest n
  | .receive n, .reading call decoder => link.readOneFrame protobuf call decoder n
  | .fail status, .writing call _ => link.finish call.request (.error status)
  | .fail status, .reading call _ => link.finish call.request (.error status)
  | .answer type payload, _ => link.answer type payload
  | _, _ => link

def run (protobuf : Protobuf) (link : Link) (events : List LinkEvent) : Link :=
  runFrom (step protobuf) link events

end Link

/-! ### Frames one after the other -/

def layouts (frames : List Frame) : List UInt8 := (frames.map Frame.layout).flatten

/-- A whole frame at the head of such a stream, or of a front of it, is the first frame. -/
theorem frames_of_frameHead (hsi : ∀ frame ∈ frames, frame.size < 2 ^ 32)
    (hst : stream ++ rest = layouts frames) {size : ℕ}
    (hhe : frameHead maxFrameBytes stream = .item frame size) :
    ∃ more, frames = frame :: more ∧ stream.drop size ++ rest = layouts more := by
  have hle := (frameHead_item.mp hhe).le_length
  have hall : frameHead maxFrameBytes (layouts frames) = .item frame size := by
    rw [← hst, frameHead_append rest (by simp [hhe]), hhe]
  cases frames with
  | nil => cases hall
  | cons first more =>
    have hwh := frameHead_item.mp hall
    have hla : layouts (first :: more) = first.layout ++ layouts more := rfl
    have hhea : 20 ≤ first.layout.length := by
      rw [Frame.length_layout]
      exact Nat.le_add_right _ _
    -- the length field decides, also for a frame that is too large to be read
    have hfi : (readU32 (layouts (first :: more)) 0).toNat = first.size := by
      rw [hla, readU32_append (by omega), toNat_readU32 (by omega), (field_layout first).1,
        BigEndian.value_bytes (hsi first mem_cons_self)]
    have hfir : size = first.size := hwh.field_eq.symm.trans hfi
    have hsp : (framing maxFrameBytes).Spells first first.layout :=
      spells_iff_encodeFrame.mpr (encodeFrame_eq_ok.mpr
        ⟨⟨hfir ▸ hwh.le_max, hsi first mem_cons_self⟩, rfl⟩)
    have hit : frameHead maxFrameBytes (layouts (first :: more)) =
        .item first first.layout.length := by
      have hpi : frameHead maxFrameBytes first.layout = .item first first.layout.length := hsp
      rw [hla, frameHead_append _ (by simp [hpi]), hpi]
    rw [hit] at hall
    cases hall
    refine ⟨more, rfl, ?_⟩
    rw [← drop_append_of_le_length hle, hst, hla, drop_left]

/-- From a front of such a stream a decoder reads some of the first frames. -/
theorem referenceParse_isPrefix (hsi : ∀ frame ∈ frames, frame.size < 2 ^ 32)
    (hst : stream ++ rest = layouts frames) :
    (referenceParse maxFrameBytes stream).items <+: frames := by
  unfold referenceParse
  induction stream using (framing maxFrameBytes).parse_induction generalizing frames with
  | incomplete stream hhe =>
    rw [parse_incomplete hhe]
    exact nil_prefix
  | malformed stream error hhe =>
    rw [parse_malformed hhe]
    exact nil_prefix
  | item stream frame size hhe ih =>
    obtain ⟨more, rfl, hmo⟩ := frames_of_frameHead hsi hst hhe
    rw [parse_item hhe]
    exact cons_prefix_cons.mpr
      ⟨rfl, ih (fun f hf => hsi f (mem_cons_of_mem frame hf)) hmo⟩

/-- A frame that fits is read when its last byte has come, and not before. -/
theorem frameHead_layout (hfi : frame.Fits maxFrameBytes) (hst : stream ++ rest = frame.layout) :
    frameHead maxFrameBytes stream =
      if rest = [] then .item frame stream.length else .incomplete := by
  have hsp : frameHead maxFrameBytes frame.layout = .item frame frame.layout.length :=
    spells_iff_encodeFrame.mpr (encodeFrame_eq_ok.mpr ⟨hfi, rfl⟩)
  split_ifs with hre
  · rw [hre, append_nil] at hst
    rw [hst, hsp]
  cases hhe : frameHead maxFrameBytes stream with
  | incomplete => rfl
  | malformed error =>
    have hall := frameHead_append rest (by simp [hhe] : frameHead maxFrameBytes stream ≠ _)
    rw [hst, hsp, hhe] at hall
    cases hall
  | item first size =>
    have hone : stream ++ rest = layouts [frame] := by simpa [layouts] using hst
    obtain ⟨more, hco, hmo⟩ := frames_of_frameHead (by simpa using hfi.2) hone hhe
    cases hco
    exact absurd (append_eq_nil_iff.mp hmo).2 hre

/-- A decoder that waits before an undecided buffer. -/
structure Waits (maxFrameBytes : ℕ) (decoder : FrameDecoder) : Prop where
  limit_eq : decoder.maxFrameBytes = maxFrameBytes
  sound : decoder.poisoned = false
  head_eq : frameHead maxFrameBytes decoder.buffer = .incomplete

/-- A call that succeeds pushes what the reference reads, and without a frame the decoder
waits again. -/
theorem Waits.append {data : List UInt8} (h : Waits maxFrameBytes decoder) (hda : data ≠ [])
    (hok : (decoder.append data).status.ok = true) :
    (decoder.append data).frames =
        (referenceParse maxFrameBytes (decoder.buffer ++ data)).items ∧
      ((decoder.append data).frames = [] →
        Waits maxFrameBytes (decoder.append data).decoder ∧
          (decoder.append data).decoder.buffer = decoder.buffer ++ data) := by
  obtain ⟨rfl, hso, hhe⟩ := h
  rcases FrameDecoder.append_overflow_or_room hso hda with hfu | ⟨hmax, hch, hro⟩
  · rw [hfu] at hok
    cases hok
  obtain ⟨hfr, hne⟩ := FrameDecoder.append_parse hso hhe hmax hch hro
  refine ⟨hfr, fun hno => ?_⟩
  rw [hfr] at hno
  cases hall : frameHead decoder.maxFrameBytes (decoder.buffer ++ data) with
  | incomplete =>
    rw [referenceParse, parse_incomplete hall] at hne
    rw [hne.1]
    exact ⟨⟨rfl, hso, hall⟩, rfl⟩
  | malformed error =>
    rw [referenceParse, parse_malformed hall] at hne
    rw [hne.2, not_ok_of_malformed hall] at hok
    cases hok
  | item frame size =>
    rw [referenceParse, parse_item hall] at hno
    cases hno

theorem Waits.append_of_fits {data : List UInt8} (h : Waits maxFrameBytes decoder)
    (hfi : frame.Fits maxFrameBytes) (hst : decoder.buffer ++ data ++ rest = frame.layout) :
    (decoder.append data).status.ok = true ∧
      (decoder.append data).frames = if rest = [] then [frame] else [] := by
  obtain ⟨rfl, hso, hhe⟩ := h
  have hhea : frameHeaderBytes ≤ frame.size := Nat.le_add_right _ _
  have hle : decoder.buffer.length + data.length ≤ frame.size := by
    rw [← Frame.length_layout, ← hst, length_append, length_append]
    omega
  obtain ⟨hmax, hwo⟩ := hfi
  have hro : frame.size ≤ bufferLimit decoder.maxFrameBytes := by
    unfold bufferLimit sizeMax
    split_ifs
    · omega
    · omega
  obtain ⟨hfr, hne⟩ :=
    FrameDecoder.append_parse hso hhe (by omega) (by omega) (hle.trans hro)
  have hall := frameHead_layout ⟨hmax, hwo⟩ hst
  rw [hfr]
  split_ifs at hall ⊢ with hre
  · have hpa : referenceParse decoder.maxFrameBytes (decoder.buffer ++ data) =
        ⟨[frame], .waiting []⟩ := by
      rw [referenceParse, parse_item hall, drop_length, parse_incomplete rfl]
    rw [hpa] at hne ⊢
    refine ⟨?_, rfl⟩
    rw [hne.2]
    rfl
  · have hpa : referenceParse decoder.maxFrameBytes (decoder.buffer ++ data) =
        ⟨[], .waiting (decoder.buffer ++ data)⟩ := parse_incomplete hall
    rw [hpa] at hne ⊢
    refine ⟨?_, rfl⟩
    rw [hne.2]
    rfl

/-! ### One step of a call in progress -/

/-- What a step can do while a call is in progress. -/
inductive Moves (protobuf : Protobuf) (call : ExchangeCall) (link : Link) : LinkEvent → Link → Prop
  | stays {event : LinkEvent} : Moves protobuf call link event link
  | sends {rest : List UInt8} {n : ℕ} (hphase : link.phase = .writing call rest)
      (hlt : n < rest.length) :
      Moves protobuf call link (.send n)
        { link with
          toDaemon := link.toDaemon ++ rest.take n
          phase := .writing call (rest.drop n) }
  | sendsAll {rest : List UInt8} (hphase : link.phase = .writing call rest) :
      Moves protobuf call link (.send rest.length)
        { link with
          toDaemon := link.toDaemon ++ rest
          phase := .reading call { maxFrameBytes := link.backend.maxFrameBytes } }
  | fails (status : Status) :
      Moves protobuf call link (.fail status) (link.finish call.request (.error status))
  | receives {decoder : FrameDecoder} {n : ℕ} (hphase : link.phase = .reading call decoder)
      (hdata : link.toClient.take n ≠ []) :
      Moves protobuf call link (.receive n) (link.readOneFrame protobuf call decoder n)
  | answers {request : Frame} {size : ℕ} {type : MessageType} {payload : List UInt8}
      (hhead : frameHead link.serverMaxFrameBytes link.toDaemon = .item request size)
      (hfits : (responseFrame request type payload).Fits link.serverMaxFrameBytes) :
      Moves protobuf call link (.answer type payload)
        { link with
          toDaemon := link.toDaemon.drop size
          toClient := link.toClient ++ (responseFrame request type payload).layout
          answered :=
            link.answered ++ [⟨request, responseFrame request type payload⟩] }

namespace Link

variable {protobuf : Protobuf} {call : ExchangeCall} {link : Link}

theorem writeAll_moves (hph : link.phase = .writing call rest) (n : ℕ) :
    Moves protobuf call link (.send n) (link.writeAll call rest n) := by
  unfold writeAll
  split_ifs with hn hlt
  · exact .sends hph hlt
  · obtain rfl : n = rest.length := by omega
    rw [take_length]
    exact .sendsAll hph
  · exact .stays

theorem answer_moves (type : MessageType) (pl : List UInt8) :
    Moves protobuf call link (.answer type pl) (link.answer type pl) := by
  unfold answer
  split
  next req size hhe =>
    dsimp only
    split
    next bytes hby =>
      obtain ⟨hfi, rfl⟩ := encodeFrame_eq_ok.mp hby
      exact .answers hhe hfi
    next => exact .stays
  next => exact .stays

theorem readOneFrame_moves {decoder : FrameDecoder} (hph : link.phase = .reading call decoder)
    (n : ℕ) :
    Moves protobuf call link (.receive n) (link.readOneFrame protobuf call decoder n) := by
  by_cases hda : link.toClient.take n = []
  · have hst : link.readOneFrame protobuf call decoder n = link := by
      refine if_neg ?_
      have hle : (link.toClient.take n).length = 0 := by rw [hda, length_nil]
      rw [length_take] at hle
      omega
    rw [hst]
    exact .stays
  · exact .receives hph hda

theorem step_moves (hca : link.phase.call? = some call) (event : LinkEvent) :
    Moves protobuf call link event (link.step protobuf event) := by
  cases hph : link.phase with
  | idle =>
    rw [hph] at hca
    cases hca
  | writing cur rest =>
    rw [hph] at hca
    cases hca
    cases event with
    | send n =>
      simp only [step, hph]
      exact writeAll_moves hph n
    | fail st =>
      simp only [step, hph]
      exact .fails st
    | answer type pl =>
      exact answer_moves type pl
    | exchange type pl expected | receive n =>
      simp only [step, hph]
      exact .stays
  | reading cur decoder =>
    rw [hph] at hca
    cases hca
    cases event with
    | receive n =>
      simp only [step, hph]
      exact readOneFrame_moves hph n
    | fail st =>
      simp only [step, hph]
      exact .fails st
    | answer type pl =>
      exact answer_moves type pl
    | exchange type pl expected | send n =>
      simp only [step, hph]
      exact .stays

end Link

/-- A call is in progress, and what is on the socket stands at frame boundaries: together
with what the call has still to send the daemon gets `requests`, and together with what the
call has read the client gets the responses of `pending`. -/
structure Open (call : ExchangeCall) (link : Link) (pending : List Answer) (requests : List Frame) :
    Prop where
  call_eq : link.phase.call? = some call
  toDaemon_eq : link.toDaemon ++ link.phase.unsent = layouts requests
  toClient_eq : link.phase.undecided ++ link.toClient = layouts (pending.map Answer.response)
  waits : ∀ decoder, link.phase = .reading call decoder →
    Waits link.backend.maxFrameBytes decoder
  requests_size : ∀ request ∈ requests, request.size < 2 ^ 32
  pending_size : ∀ answer ∈ pending, answer.response.size < 2 ^ 32

/-- What one step makes of an open link: the call goes on, with or without one more answer,
or it returns with the first pending answer or with an error. If one frame that fits is all
that is pending, there is an error only when a socket call failed, and nothing is left behind
otherwise. -/
inductive Turn (protobuf : Protobuf) (call : ExchangeCall) (link : Link) (pending : List Answer)
    (requests : List Frame) : LinkEvent → Link → Prop
  | goesOn {event : LinkEvent} {next : Link} (hopen : Open call next pending requests)
      (hbackend : next.backend = link.backend) (hanswered : next.answered = link.answered)
      (hreturned : next.returned = link.returned) :
      Turn protobuf call link pending requests event next
  | answers {type : MessageType} {payload : List UInt8} {next : Link} {request : Frame}
      {rest : List Frame} {response : Frame} (hrequests : requests = request :: rest)
      (hresponse : response = responseFrame request type payload)
      (hopen : Open call next (pending ++ [⟨request, response⟩]) rest)
      (hbackend : next.backend = link.backend)
      (hanswered : next.answered = link.answered ++ [⟨request, response⟩])
      (hreturned : next.returned = link.returned) :
      Turn protobuf call link pending requests (.answer type payload) next
  | returns {event : LinkEvent} {next : Link} {first : Answer} {rest : List Answer}
      (hpending : pending = first :: rest) (hanswered : next.answered = link.answered)
      (hreturned : next.returned = link.returned ++ [⟨call.request,
        link.backend.checkEnvelope protobuf call.request.requestId call.expected first.response⟩])
      (hbackend : next.backend = link.backend)
      (hrests : pending = [first] → first.response.Fits link.backend.maxFrameBytes →
        requests = [] → next.Rests) :
      Turn protobuf call link pending requests event next
  | fails {status : Status} {next : Link} (hanswered : next.answered = link.answered)
      (hreturned : next.returned = link.returned ++ [⟨call.request, .error status⟩]) :
      Turn protobuf call link pending requests (.fail status) next
  | rejects {event : LinkEvent} {next : Link} {status : Status} (hpending : pending ≠ [])
      (hunfit : ∀ answer, pending = [answer] →
        ¬answer.response.Fits link.backend.maxFrameBytes)
      (hanswered : next.answered = link.answered)
      (hreturned : next.returned = link.returned ++ [⟨call.request, .error status⟩]) :
      Turn protobuf call link pending requests event next

theorem open_sending {link : Link} {pending : List Answer} {requests : List Frame}
    {req : Frame} {exp : MessageType} (hda : link.toDaemon = layouts requests)
    (hcl : link.toClient = layouts (pending.map Answer.response))
    (hre : ∀ r ∈ requests ++ [req], r.size < 2 ^ 32)
    (hpe : ∀ answer ∈ pending, answer.response.size < 2 ^ 32) :
    Open ⟨req, exp⟩ (link.sending req exp req.layout) pending (requests ++ [req]) := by
  refine ⟨rfl, ?_, hcl, nofun, hre, hpe⟩
  rw [layouts, map_append, flatten_append, ← layouts, ← hda]
  simp [Link.sending, CallPhase.unsent]

namespace Open

variable {protobuf : Protobuf} {call : ExchangeCall} {link : Link} {pending : List Answer}
  {requests : List Frame}

section

variable (h : Open call link pending requests)

include h

theorem head_undecided :
    frameHead link.backend.maxFrameBytes link.phase.undecided = .incomplete := by
  have hca := h.call_eq
  have hwa := h.waits
  cases hph : link.phase with
  | idle => rfl
  | writing cur rest => rfl
  | reading cur decoder =>
    rw [hph] at hca
    cases hca
    exact (hwa decoder hph).head_eq

theorem answers {req : Frame} {size : ℕ} {type : MessageType} {pl : List UInt8}
    (hhe : frameHead link.serverMaxFrameBytes link.toDaemon = .item req size)
    (hfi : (responseFrame req type pl).Fits link.serverMaxFrameBytes) :
    Turn protobuf call link pending requests (.answer type pl)
      { link with
        toDaemon := link.toDaemon.drop size
        toClient := link.toClient ++ (responseFrame req type pl).layout
        answered :=
          link.answered ++ [⟨req, responseFrame req type pl⟩] } := by
  obtain ⟨more, rfl, hmo⟩ := frames_of_frameHead h.requests_size h.toDaemon_eq hhe
  refine .answers rfl rfl ⟨h.call_eq, hmo, ?_, h.waits, ?_, ?_⟩ rfl rfl rfl
  · rw [← append_assoc, h.toClient_eq, map_append]
    simp [layouts]
  · intro r hr
    exact h.requests_size r (mem_cons_of_mem req hr)
  · intro a ha
    rcases mem_append.mp ha with ha | ha
    · exact h.pending_size a ha
    · rw [mem_singleton.mp ha]
      exact hfi.2

/-- The bytes that `recv` delivers stand between those the call has and those it leaves. -/
theorem stream_eq (hph : link.phase = .reading call decoder) (n : ℕ) :
    decoder.buffer ++ link.toClient.take n ++ link.toClient.drop n =
      layouts (pending.map Answer.response) := by
  rw [append_assoc, take_append_drop, ← h.toClient_eq, hph]
  rfl

theorem frames_isPrefix {n : ℕ}
    (hph : link.phase = .reading call decoder) (hda : link.toClient.take n ≠ [])
    (hok : (decoder.append (link.toClient.take n)).status.ok = true) :
    (decoder.append (link.toClient.take n)).frames <+: pending.map Answer.response := by
  rw [((h.waits decoder hph).append hda hok).1]
  refine referenceParse_isPrefix ?_ (h.stream_eq hph n)
  intro frame hfr
  obtain ⟨answer, han, rfl⟩ := mem_map.mp hfr
  exact h.pending_size answer han

end

theorem append_of_single {answer : Answer} (h : Open call link [answer] requests)
    (hfi : answer.response.Fits link.backend.maxFrameBytes)
    (hph : link.phase = .reading call decoder) (n : ℕ) :
    (decoder.append (link.toClient.take n)).status.ok = true ∧
      (decoder.append (link.toClient.take n)).frames =
        if link.toClient.drop n = [] then [answer.response] else [] := by
  refine (h.waits decoder hph).append_of_fits hfi ?_
  rw [h.stream_eq hph n]
  simp [layouts]

theorem receives (h : Open call link pending requests) {n : ℕ}
    (hph : link.phase = .reading call decoder) (hdat : link.toClient.take n ≠ []) :
    Turn protobuf call link pending requests (.receive n)
      (link.readOneFrame protobuf call decoder n) := by
  have hpe : pending ≠ [] := by
    rintro rfl
    have hem := (append_eq_nil_iff.mp (h.stream_eq hph n)).1
    exact hdat (append_eq_nil_iff.mp hem).2
  unfold Link.readOneFrame
  split
  next =>
    dsimp only
    split
    next hok =>
      refine .rejects hpe ?_ rfl rfl
      rintro answer rfl hfi
      exact hok (h.append_of_single hfi hph n).1
    next hok =>
      have hfro := h.frames_isPrefix hph hdat (not_not.mp hok)
      split
      next hnil =>
        obtain ⟨hwa, hbu⟩ :=
          ((h.waits decoder hph).append hdat (not_not.mp hok)).2 hnil
        have hca := h.call_eq
        have hda := h.toDaemon_eq
        rw [hph] at hca hda
        refine .goesOn ⟨hca, hda, ?_, ?_, h.requests_size, h.pending_size⟩ rfl rfl rfl
        · rw [← h.stream_eq hph n, ← hbu]
          rfl
        · rintro _ ⟨⟩
          exact hwa
      next frame hfra =>
        rw [hfra] at hfro
        obtain ⟨first, rest, rfl⟩ := exists_cons_of_ne_nil hpe
        obtain ⟨rfl, -⟩ := cons_prefix_cons.mp hfro
        refine .returns rfl rfl rfl rfl ?_
        rintro hsi hfi rfl
        obtain ⟨-, rfl⟩ := List.cons.inj hsi
        have hda := h.toDaemon_eq
        have hla := (h.append_of_single hfi hph n).2
        rw [hfra] at hla
        refine ⟨rfl, (append_eq_nil_iff.mp hda).1, ?_⟩
        -- with bytes left there would be no frame yet
        by_cases hle : link.toClient.drop n = []
        · exact hle
        · rw [if_neg hle] at hla
          cases hla
      next hno hnot =>
        refine .rejects hpe ?_ rfl rfl
        rintro answer rfl hfi
        have hfr := (h.append_of_single hfi hph n).2
        split_ifs at hfr
        · exact hnot answer.response hfr
        · exact hno hfr
  next => exact .goesOn h rfl rfl rfl

theorem moves (h : Open call link pending requests) {event : LinkEvent} {next : Link}
    (hmo : Moves protobuf call link event next) :
    Turn protobuf call link pending requests event next := by
  cases hmo with
  | stays => exact .goesOn h rfl rfl rfl
  | @sends rest n hph hlt =>
    obtain ⟨hca, hda, hcl, -, hre, hans⟩ := h
    rw [hph] at hda hcl
    refine .goesOn ⟨rfl, ?_, hcl, nofun, hre, hans⟩ rfl rfl rfl
    rw [← hda, append_assoc]
    exact congrArg _ (take_append_drop n rest)
  | @sendsAll rest hph =>
    obtain ⟨hca, hda, hcl, -, hre, hans⟩ := h
    rw [hph] at hda hcl
    refine .goesOn ⟨rfl, ?_, hcl, ?_, hre, hans⟩ rfl rfl rfl
    · rw [← hda]
      exact append_nil _
    · rintro _ ⟨⟩
      exact ⟨rfl, rfl, rfl⟩
  | fails st => exact .fails rfl rfl
  | receives hph hdat => exact h.receives hph hdat
  | answers hhe hfi => exact h.answers hhe hfi

end Open
end Pdcm.Client
