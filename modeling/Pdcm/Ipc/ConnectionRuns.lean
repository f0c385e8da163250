import Pdcm.Ipc.Connection

/-!
# What holds along the life of a connection

The decoder of a connection has read what the reference parse reads from the chunks it got,
so a connection gives up on its input exactly when a bad length field or a chunk above the
frame limit arrived. The flag with which a handler ends a connection is final as long as no
`recv` call completes two frames; when one does, the second frame is handled after all.
-/

namespace Pdcm.Ipc

open Library List LocalApiServer Connection Phase

variable {maxFrameBytes : ℕ}

namespace Connection

/-- The decoder of a connection that has not failed stands where the reference stands in
what was received. -/
structure Framed (maxFrameBytes : ℕ) (c : Connection) : Prop where
  limit_eq : c.decoder.maxFrameBytes = maxFrameBytes
  reads : c.log.decodeFailed = false → c.decoder.poisoned = false ∧
    ∃ frames, Fed.Reads maxFrameBytes ⟨c.decoder, frames⟩ c.log.chunks.flatten
  stopped : c.log.decodeFailed = true → c.phase = .leaving ∨ c.phase = .done

variable {c c' : Connection}

theorem framed_start (limits : ResourceLimits) (peer : PeerIdentity) (now : ℤ) :
    Framed limits.maxFrameBytes (start limits peer now) := by
  refine ⟨rfl, ?_, ?_⟩
  · intro _
    exact ⟨rfl, [], Fed.reads_nil limits.maxFrameBytes⟩
  · intro hfa
    cases hfa

theorem Framed.not_failed (h : Framed maxFrameBytes c) (hle : c.phase ≠ .leaving)
    (hdo : c.phase ≠ .done) : c.log.decodeFailed = false := by
  cases hfa : c.log.decodeFailed with
  | false => rfl
  | true =>
    rcases h.stopped hfa with hph | hph
    · exact absurd hph hle
    · exact absurd hph hdo

theorem respond_frame (maxFrameBytes : ℕ) (c : Connection) (frame resp : Frame) (close : Bool)
    (pend : List Frame) (wr : Bool) :
    (c.respond maxFrameBytes frame resp close pend wr).decoder = c.decoder ∧
      (c.respond maxFrameBytes frame resp close pend wr).log =
        { c.log with handled := c.log.handled ++ [⟨frame, resp, close⟩] } ∧
      ((c.respond maxFrameBytes frame resp close pend wr).phase = .serving pend ∧
          (c.respond maxFrameBytes frame resp close pend wr).closeConnection = close ∨
        (c.respond maxFrameBytes frame resp close pend wr).phase = .serving [] ∧
          (c.respond maxFrameBytes frame resp close pend wr).closeConnection = true) := by
  unfold respond
  cases encodeFrame resp maxFrameBytes with
  | error st => exact ⟨rfl, rfl, .inr ⟨rfl, rfl⟩⟩
  | ok bytes =>
    cases wr with
    | false => exact ⟨rfl, rfl, .inr ⟨rfl, rfl⟩⟩
    | true => exact ⟨rfl, rfl, .inl ⟨rfl, rfl⟩⟩

theorem Moves.input (h : Moves maxFrameBytes c c') :
    (∃ chunk, c.phase = .serving [] ∧ c.closeConnection = false ∧ c' = c.receive chunk) ∨
      c'.decoder = c.decoder ∧ c'.log.chunks = c.log.chunks ∧
        c'.log.decodeFailed = c.log.decodeFailed ∧
        (c.phase = .leaving ∨ c.phase = .done → c'.phase = .leaving ∨ c'.phase = .done) := by
  cases h with
  | stay => exact .inr ⟨rfl, rfl, rfl, id⟩
  | leave hph => exact .inr ⟨rfl, rfl, rfl, fun _ => .inl rfl⟩
  | receive hph hop chunk => exact .inl ⟨chunk, hph, hop, rfl⟩
  | @request frame pend hph resp close wr =>
    obtain ⟨hdec, hlog, -⟩ := respond_frame maxFrameBytes c frame resp close pend wr
    refine .inr ⟨hdec, ?_, ?_, ?_⟩
    · rw [hlog]
    · rw [hlog]
    · simp [hph]
  | enter hph prog => exact .inr ⟨rfl, rfl, rfl, by simp [hph]⟩
  | negotiate hph next created => exact .inr ⟨rfl, rfl, rfl, by simp [hph]⟩
  | @finish frame prog pend hph res wr =>
    obtain ⟨hdec, hlog, -⟩ := respond_frame maxFrameBytes (c.withHandshake res) frame
      res.response res.closeConnection pend wr
    refine .inr ⟨hdec, ?_, ?_, ?_⟩
    · rw [finishHandshake, hlog]
      rfl
    · rw [finishHandshake, hlog]
      rfl
    · simp [hph]
  | close hph => exact .inr ⟨rfl, rfl, rfl, fun _ => .inr rfl⟩

/-- A chunk is refused, or the decoder reads on with the reference. -/
theorem Framed.append (h : Framed maxFrameBytes c) (hph : c.phase = .serving []) (chunk : Chunk) :
    (c.decoder.append chunk.bytes).status.ok = false ∨
      (c.decoder.append chunk.bytes).decoder.poisoned = false ∧
        ∃ frames, Fed.Reads maxFrameBytes ⟨c.decoder, frames⟩ c.log.chunks.flatten ∧
          Fed.Reads maxFrameBytes (Fed.receive ⟨c.decoder, frames⟩ chunk.bytes)
            (c.log.chunks.flatten ++ chunk.bytes) := by
  obtain ⟨hpo, frames, hre⟩ :=
    h.reads (h.not_failed (by simp [hph]) (by simp [hph]))
  have hch : chunk.bytes ≠ [] := ne_nil_of_length_pos chunk.length_pos
  rcases FrameDecoder.append_overflow_or_room hpo hch with
    hfail | ⟨hmax, hle, hro⟩
  · left
    rw [hfail]
    rfl
  · rw [h.limit_eq] at hmax hle hro
    obtain ⟨hne, hfa⟩ := hre.receive hmax hle hro
    cases hok : (c.decoder.append chunk.bytes).status.ok with
    | false => exact .inl rfl
    | true =>
      right
      refine ⟨?_, frames, hre, hne⟩
      cases hbad : (c.decoder.append chunk.bytes).decoder.poisoned with
      | false => rfl
      | true =>
        have hnot := hfa.mpr (hne.poisoned_iff.mp hbad)
        rw [hok] at hnot
        cases hnot

theorem Framed.receive (h : Framed maxFrameBytes c) (hph : c.phase = .serving [])
    (chunk : Chunk) : Framed maxFrameBytes (c.receive chunk) := by
  have hfl : (c.receive chunk).log.chunks.flatten = c.log.chunks.flatten ++ chunk.bytes := by
    rw [Connection.receive, flatten_append, flatten_singleton]
  have hli : (c.decoder.append chunk.bytes).decoder.maxFrameBytes = maxFrameBytes := by
    rw [FrameDecoder.append_limit, h.limit_eq]
  rcases h.append hph chunk with hfa | ⟨hpo, frames, -, hne⟩
  · refine ⟨hli, ?_, ?_⟩
    · intro hok
      simp [Connection.receive, hfa] at hok
    · intro _
      left
      simp [Connection.receive, hfa]
  · refine ⟨hli, ?_, ?_⟩
    · intro _
      rw [hfl]
      exact ⟨hpo, _, hne⟩
    · intro hfa
      simp only [Connection.receive, Bool.not_eq_true'] at hfa
      left
      simp [Connection.receive, hfa]

theorem Framed.moves (h : Framed maxFrameBytes c) (hmo : Moves maxFrameBytes c c') :
    Framed maxFrameBytes c' := by
  rcases hmo.input with ⟨chunk, hph, -, rfl⟩ | ⟨hdec, hch, hfa, hph⟩
  · exact h.receive hph chunk
  · refine ⟨?_, ?_, ?_⟩
    · rw [hdec, h.limit_eq]
    · rw [hfa, hdec, hch]
      exact h.reads
    · rw [hfa]
      exact fun hf => hph (h.stopped hf)

/-! ### Rejected input -/

/-- A connection gives up on its input exactly when a bad length field or a chunk above the
frame limit arrived. -/
def RejectsBadInput (maxFrameBytes : ℕ) (c : Connection) : Prop :=
  c.log.decodeFailed = true ↔
    BadLength maxFrameBytes c.log.chunks.flatten ∨
      ∃ bytes ∈ c.log.chunks, maxFrameBytes < bytes.length

theorem rejectsBadInput_start (limits : ResourceLimits) (peer : PeerIdentity) (now : ℤ) :
    RejectsBadInput limits.maxFrameBytes (start limits peer now) := by
  have hnil := (Fed.reads_nil limits.maxFrameBytes).poisoned_iff
  constructor
  · intro hfa
    cases hfa
  · rintro (hbad | ⟨bytes, hmem, -⟩)
    · exact hnil.mpr hbad
    · cases hmem

/-- Whatever fits the receive buffer and the frame limit fits behind an undecided frame. -/
theorem room_behind_buffer {buffered recv : ℕ} (hbu : buffered < maxFrameBytes)
    (hwo : buffered < 2 ^ 32) (hre : recv ≤ maxFrameBytes)
    (hch : recv ≤ receiveBufferBytes) : buffered + recv ≤ bufferLimit maxFrameBytes := by
  have hbuf : receiveBufferBytes = 4096 := rfl
  have hsi : sizeMax = 2 ^ 64 - 1 := rfl
  unfold bufferLimit
  split_ifs with hla
  · omega
  · omega

theorem RejectsBadInput.receive (h : RejectsBadInput maxFrameBytes c)
    (hfr : Framed maxFrameBytes c) (hmax : frameHeaderBytes ≤ maxFrameBytes)
    (hph : c.phase = .serving []) (chunk : Chunk) :
    RejectsBadInput maxFrameBytes (c.receive chunk) := by
  have hnot := hfr.not_failed (by simp [hph]) (by simp [hph])
  have hsm : ∀ bytes ∈ c.log.chunks, bytes.length ≤ maxFrameBytes := by
    intro bytes hmem
    by_contra hla
    have hfa := h.mpr (.inr ⟨bytes, hmem, not_le.mp hla⟩)
    rw [hnot] at hfa
    cases hfa
  obtain ⟨hpo, frames, hre⟩ := hfr.reads hnot
  have hfl : (c.receive chunk).log.chunks.flatten = c.log.chunks.flatten ++ chunk.bytes := by
    rw [Connection.receive, flatten_append, flatten_singleton]
  have hfa : (c.receive chunk).log.decodeFailed = true ↔
      (c.decoder.append chunk.bytes).status.ok = false := by
    simp [Connection.receive]
  unfold RejectsBadInput
  rw [hfa, hfl]
  by_cases hla : maxFrameBytes < chunk.bytes.length
  · -- the chunk alone is above the limit, so the call fails before it reads anything
    have hfu := FrameDecoder.append_overflow_or_room hpo
      (ne_nil_of_length_pos chunk.length_pos)
    rcases hfu with hfai | ⟨-, hle, -⟩
    · rw [hfai]
      refine ⟨fun _ => .inr ⟨chunk.bytes, ?_, hla⟩, fun _ => rfl⟩
      simp [Connection.receive]
    · rw [hfr.limit_eq] at hle
      omega
  · obtain ⟨hbu, hwo⟩ := hre.buffered_lt hmax
    have hro := room_behind_buffer hbu hwo (not_lt.mp hla) chunk.length_le
    rw [(hre.receive hmax (not_lt.mp hla) hro).2]
    constructor
    · exact .inl
    · rintro (hbad | ⟨bytes, hmem, hby⟩)
      · exact hbad
      · simp only [Connection.receive, mem_append, mem_singleton] at hmem
        rcases hmem with hold | rfl
        · exact absurd hby (not_lt.mpr (hsm bytes hold))
        · exact absurd hby hla

theorem RejectsBadInput.moves (h : RejectsBadInput maxFrameBytes c)
    (hfr : Framed maxFrameBytes c) (hmax : frameHeaderBytes ≤ maxFrameBytes)
    (hmo : Moves maxFrameBytes c c') : RejectsBadInput maxFrameBytes c' := by
  rcases hmo.input with ⟨chunk, hph, -, rfl⟩ | ⟨-, hch, hfa, -⟩
  · exact h.receive hfr hmax hph chunk
  · unfold RejectsBadInput
    rw [hfa, hch]
    exact h

end Connection

/-- Under a valid configuration, a connection that is sent encoded frames gives up on its
input exactly when one `recv` call delivers more than the frame limit. -/
theorem decodeFailed_iff_large_chunk (protobuf : Protobuf) {config : RuntimeConfig}
    (hvalid : config.validate.ok = true) (core : ServiceCore) (events : List ServerEvent)
    {c : Connection}
    (hc : c ∈ ((LocalApiServer.start config.limits core).run protobuf events).connections)
    {frames : List Frame} {encodings : List (List UInt8)}
    (hencodes : Encodes config.limits.maxFrameBytes frames encodings)
    (hstream : c.log.chunks.flatten <+: encodings.flatten) :
    c.log.decodeFailed = true ↔
      ∃ bytes ∈ c.log.chunks, config.limits.maxFrameBytes < bytes.length := by
  have hmax := RuntimeConfig.maxFrameBytes_of_validate hvalid
  -- every connection has rejected its input exactly when it was bad or came in such a chunk
  obtain ⟨-, hrejects⟩ := run_connections
    (P := fun c => c.Framed config.limits.maxFrameBytes ∧
      c.RejectsBadInput config.limits.maxFrameBytes)
    (fun peer now => ⟨framed_start config.limits peer now,
      rejectsBadInput_start config.limits peer now⟩)
    (fun _ _ ⟨hfr, hre⟩ hmo => ⟨hfr.moves hmo, hre.moves hfr hmax hmo⟩) events c hc
  have hgood : ¬BadLength config.limits.maxFrameBytes c.log.chunks.flatten := by
    rintro ⟨error, hbad⟩
    obtain ⟨rest, hrest⟩ := hstream
    have hparse := referenceParse_encodes hencodes
    have hsame : referenceParse config.limits.maxFrameBytes (c.log.chunks.flatten ++ rest) =
        referenceParse config.limits.maxFrameBytes c.log.chunks.flatten :=
      Framing.parse_append_of_malformed hbad rest
    rw [← hrest, hsame] at hparse
    rw [hparse] at hbad
    cases hbad
  exact .trans hrejects (or_iff_right hgood)

namespace Daemon

/-- A hello of process 7 and the bytes protobuf writes for it. -/
def hello : LocalV1.HelloRequest where
  protocolMajor := 1
  clientLibraryVersion := "1"
  processId := 7
  nonce := List.replicate 16 0

def helloBytes : List UInt8 :=
  [0x08, 0x01, 0x1a, 0x01, 0x31, 0x20, 0x07, 0x2a, 0x10] ++ List.replicate 16 0

/-- Protobuf as far as the hello above; nothing else parses. -/
def protobuf : Protobuf where
  helloRequest := ⟨fun bytes => if bytes = helloBytes then some hello else none, fun _ => []⟩
  helloResponse := ⟨fun _ => none, fun _ => []⟩
  errorResponse := ⟨fun _ => none, fun _ => []⟩
  entityListRequest := ⟨fun _ => none, fun _ => []⟩
  entityListResponse := ⟨fun _ => none, fun _ => []⟩
  capabilityQueryRequest := ⟨fun _ => none, fun _ => []⟩
  capabilityQueryResponse := ⟨fun _ => none, fun _ => []⟩
  healthQueryRequest := ⟨fun _ => none, fun _ => []⟩
  healthQueryResponse := ⟨fun _ => none, fun _ => []⟩

def core : ServiceCore where
  snapshot := { state := .ready, providerState := .ready }
  entities := fun _ => {}
  capabilities := fun _ => {}
  health := fun _ => {}

def peer : PeerIdentity := { userId := 1000, groupId := 1000, processId := 7 }

def helloFrame : Frame := { messageType := .helloRequest, requestId := 1, payload := helloBytes }

/-- A request that comes before the hello. -/
def earlyFrame : Frame := { messageType := .entityListRequest, requestId := 1 }

/-- One `recv` call that delivers the given frames together. -/
def together (frames : List Frame) (hpos : 0 < (frames.map Frame.layout).flatten.length)
    (hle : (frames.map Frame.layout).flatten.length ≤ receiveBufferBytes) : ServerEvent :=
  .thread 0 { polled := .received ⟨(frames.map Frame.layout).flatten, hpos, hle⟩ }

/-- A new connection after its first `recv` call delivered one hello frame. -/
def greeted (limits : ResourceLimits) : Connection :=
  (start limits peer 0).receive ⟨helloFrame.layout, by decide, by decide⟩

end Daemon

open Daemon in
/-- With a limit of 64 bytes, two hello frames of 45 bytes each are accepted one by one and
refused when a `recv` call delivers them together. -/
theorem wellFormed_rejected :
    let config : RuntimeConfig := { target := .fpga, limits := { maxFrameBytes := 64 } }
    let server := (LocalApiServer.start config.limits core).run protobuf
      [.accept peer 0, together [helloFrame, helloFrame] (by decide) (by decide)]
    config.validate.ok = true ∧ encodeFrame helloFrame 64 = .ok helloFrame.layout ∧
      server.connections.map (·.log.chunks.flatten) = [helloFrame.layout ++ helloFrame.layout] ∧
      server.connections.map (·.log.decodeFailed) = [true] := by
  decide +kernel

open Daemon in
/-- Under the same limit one hello frame in a `recv` call of its own is accepted. -/
theorem decodeFailed_iff_large_chunk_single :
    let limits : ResourceLimits := { maxFrameBytes := 64 }
    (greeted limits).log.decodeFailed = true ↔
      ∃ bytes ∈ (greeted limits).log.chunks, 64 < bytes.length := by
  intro limits
  have hencodes : Encodes 64 [helloFrame] [helloFrame.layout] :=
    .cons (encodeFrame_eq_ok.mpr ⟨by unfold Frame.Fits; decide, rfl⟩) .nil
  have hmem : greeted limits ∈ ((LocalApiServer.start limits core).run protobuf
      [.accept peer 0, together [helloFrame] (by decide) (by decide)]).connections :=
    mem_singleton.mpr rfl
  exact @decodeFailed_iff_large_chunk protobuf { target := .fpga, limits := limits } (by decide)
    core _ (greeted limits) hmem [helloFrame] [helloFrame.layout] hencodes
    (prefix_refl _)

/-! ### The end of a connection -/

/-- Every `recv` call completes at most one frame. -/
def OneFrameEach (maxFrameBytes : ℕ) (chunks : List (List UInt8)) : Prop :=
  Along (fun stream chunk => stream ++ chunk)
    (fun stream chunk => (referenceParse maxFrameBytes (stream ++ chunk)).items.length ≤
      (referenceParse maxFrameBytes stream).items.length + 1) [] chunks

/-- How many decoded frames a connection has not finished. -/
def Phase.outstanding : Phase → ℕ
  | serving pending => pending.length
  | handshaking _ _ pending => pending.length + 1
  | leaving => 0
  | done => 0

/-- The decoded frames that are still to be handled. -/
def Phase.frames : Phase → List Frame
  | serving pending => pending
  | handshaking frame _ pending => frame :: pending
  | _ => []

namespace Connection

/-- A handler has asked to close the connection. -/
def CloseAsked (c : Connection) : Prop := ∃ handled ∈ c.log.handled, handled.closeConnection = true

/-- The loop is over, or the next test of its condition ends it. -/
def Closing (c : Connection) : Prop :=
  c.phase = .leaving ∨ c.phase = .done ∨ c.phase = .serving [] ∧ c.closeConnection = true

variable {c c' : Connection}

/-- A closing connection handles nothing more and creates no session. -/
theorem Closing.moves (h : c.Closing) (hmo : Moves maxFrameBytes c c') :
    c'.Closing ∧ c'.log = c.log := by
  cases hmo with
  | stay => exact ⟨h, rfl⟩
  | leave hph => exact ⟨.inl rfl, rfl⟩
  | receive hph hop chunk => simp [Closing, hph, hop] at h
  | request hph resp close wr => simp [Closing, hph] at h
  | enter hph prog => simp [Closing, hph] at h
  | negotiate hph next created => simp [Closing, hph] at h
  | finish hph res wr => simp [Closing, hph] at h
  | close hph => exact ⟨.inr (.inl rfl), rfl⟩

theorem Closing.step (h : c.Closing) (pb : Protobuf) (limits : ResourceLimits)
    (running : Bool) (core : ServiceCore) (sessions : SessionManager) (around : Surroundings) :
    (c.step pb limits running core sessions around).2.phase = .leaving ∨
      (c.step pb limits running core sessions around).2.phase = .done := by
  rcases h with hph | hph | ⟨hph, hcl⟩
  · right
    simp only [Connection.step, hph]
  · right
    simp only [Connection.step, hph]
  · left
    simp [Connection.step, hph, iterate, hcl, leave]

/-- What was handled and what is still to be handled are the frames of the input. A connection
that closes has handled the first of them. -/
def InOrder (maxFrameBytes : ℕ) (c : Connection) : Prop :=
  let frames := (referenceParse maxFrameBytes c.log.chunks.flatten).items
  c.log.handled.map Handled.frame ++ c.phase.frames = frames ∨
    c.Closing ∧ c.log.handled.map Handled.frame <+: frames

theorem InOrder.respond {frame : Frame} {pend : List Frame}
    (h : c.log.handled.map Handled.frame ++ frame :: pend =
      (referenceParse maxFrameBytes c.log.chunks.flatten).items) (resp : Frame) (close wr : Bool) :
    InOrder maxFrameBytes (c.respond maxFrameBytes frame resp close pend wr) := by
  obtain ⟨-, hlog, ⟨hph, -⟩ | ⟨hph, hcl⟩⟩ :=
    respond_frame maxFrameBytes c frame resp close pend wr
  · left
    simpa [hlog, hph, frames] using h
  · refine .inr ⟨.inr (.inr ⟨hph, hcl⟩), pend, ?_⟩
    simpa [hlog] using h

theorem InOrder.moves (h : InOrder maxFrameBytes c) (hfr : Framed maxFrameBytes c)
    (hmo : Moves maxFrameBytes c c') : InOrder maxFrameBytes c' := by
  rcases h with hall | ⟨hcl, hfi⟩
  · cases hmo with
    | stay => exact .inl hall
    | request hph resp close wr =>
      rw [hph] at hall
      exact .respond hall resp close wr
    | finish hph res wr =>
      rw [hph] at hall
      exact .respond (c := c.withHandshake res) hall _ _ wr
    | leave hph | enter hph | negotiate hph | close hph =>
      rw [hph] at hall
      exact .inl hall
    | receive hph hop chunk =>
      rw [hph, frames, append_nil] at hall
      obtain ⟨rest, -, hpa⟩ := (framing maxFrameBytes).parse_stops c.log.chunks.flatten
      simp only [InOrder, Closing, Connection.receive, flatten_append, flatten_singleton, hall]
      split_ifs with hok
      · rcases hfr.append hph chunk with hfa | ⟨-, frames, hre, hne⟩
        · cases hok.symm.trans hfa
        · exact .inl ((congrArg (· ++ _) hre.frames_eq.symm).trans hne.frames_eq)
      · rw [referenceParse, referenceParse, hpa]
        exact .inr ⟨.inl rfl, prefix_append _ _⟩
  · obtain ⟨hcl', hlog⟩ := hcl.moves hmo
    exact .inr ⟨hcl', hlog ▸ hfi⟩

/-- Each connection handles the frames that its client sent, once each and in their order,
however `recv` cuts them and whatever the other threads do. -/
theorem run_inOrder (protobuf : Protobuf) (limits : ResourceLimits) (core : ServiceCore)
    (events : List ServerEvent) :
    ((LocalApiServer.start limits core).run protobuf events).connections.Forall
      (InOrder limits.maxFrameBytes) := by
  refine forall_iff_forall_mem.mpr fun c hc => (run_connections (P := fun c =>
    c.Framed limits.maxFrameBytes ∧ c.InOrder limits.maxFrameBytes) ?_ ?_ events c hc).2
  · intro peer now
    exact ⟨framed_start limits peer now, .inl (Fed.reads_nil _).frames_eq⟩
  · rintro a b ⟨hframed, hordered⟩ hmove
    exact ⟨hframed.moves hmove, hordered.moves hframed hmove⟩

/-- As long as no `recv` call completes two frames, a connection that was asked to close is
closing. -/
def Orderly (maxFrameBytes : ℕ) (c : Connection) : Prop :=
  OneFrameEach maxFrameBytes c.log.chunks →
    c.phase.outstanding ≤ 1 ∧ (c.CloseAsked → c.Closing)

theorem orderly_start (limits : ResourceLimits) (peer : PeerIdentity) (now : ℤ) :
    Orderly limits.maxFrameBytes (start limits peer now) := by
  intro _
  refine ⟨Nat.zero_le 1, ?_⟩
  rintro ⟨han, hmem, -⟩
  cases hmem

theorem runFrom_append_flatten (stream : List UInt8) (chunks : List (List UInt8)) :
    runFrom (fun stream chunk : List UInt8 => stream ++ chunk) stream chunks =
      stream ++ chunks.flatten := by
  induction chunks generalizing stream with
  | nil => exact (append_nil stream).symm
  | cons first rest ih => rw [runFrom_cons, ih, flatten_cons, append_assoc]

theorem Orderly.receive (h : Orderly maxFrameBytes c) (hfr : Framed maxFrameBytes c)
    (hph : c.phase = .serving []) (hop : c.closeConnection = false) (chunk : Chunk) :
    Orderly maxFrameBytes (c.receive chunk) := by
  intro hone
  obtain ⟨hbe, hla, -⟩ := along_append.mp hone
  rw [runFrom_append_flatten, nil_append] at hla
  obtain ⟨-, hcl⟩ := h hbe
  have hnot : ¬c.CloseAsked := by
    intro has
    simpa [Closing, hph, hop] using hcl has
  refine ⟨?_, fun has => absurd has hnot⟩
  rcases hfr.append hph chunk with hfa | ⟨-, frames, hre, hne⟩
  · simp [Connection.receive, hfa, outstanding]
  · have hfra : frames = (referenceParse maxFrameBytes c.log.chunks.flatten).items :=
      hre.frames_eq
    have hmo : frames ++ (c.decoder.append chunk.bytes).frames =
        (referenceParse maxFrameBytes (c.log.chunks.flatten ++ chunk.bytes)).items :=
      hne.frames_eq
    rw [← hmo, ← hfra, length_append] at hla
    simp only [Connection.receive]
    split_ifs with hok
    · simp only [outstanding]
      omega
    · exact Nat.zero_le 1

/-- Serving the only outstanding frame leaves none behind. -/
theorem Orderly.respond (hone : c.phase.outstanding ≤ 1) (has : ¬c.CloseAsked)
    {frame : Frame} {pend : List Frame} (hpe : c.phase.outstanding = pend.length + 1)
    (resp : Frame) (close wr : Bool) :
    (c.respond maxFrameBytes frame resp close pend wr).phase.outstanding ≤ 1 ∧
      ((c.respond maxFrameBytes frame resp close pend wr).CloseAsked →
        (c.respond maxFrameBytes frame resp close pend wr).Closing) := by
  have hnil : pend = [] := eq_nil_of_length_eq_zero (by omega)
  subst hnil
  obtain ⟨-, hlog, ⟨hph, hcl⟩ | ⟨hph, hcl⟩⟩ :=
    respond_frame maxFrameBytes c frame resp close [] wr
  · refine ⟨by simp [hph, outstanding], ?_⟩
    rintro ⟨han, hmem, htr⟩
    rw [hlog, mem_append, mem_singleton] at hmem
    rcases hmem with hold | rfl
    · exact absurd ⟨han, hold, htr⟩ has
    · exact .inr (.inr ⟨hph, hcl.trans htr⟩)
  · exact ⟨by simp [hph, outstanding], fun _ => .inr (.inr ⟨hph, hcl⟩)⟩

theorem Orderly.moves (h : Orderly maxFrameBytes c) (hfr : Framed maxFrameBytes c)
    (hmo : Moves maxFrameBytes c c') : Orderly maxFrameBytes c' := by
  cases hmo with
  | stay => exact h
  | leave hph => exact fun _ => ⟨Nat.zero_le 1, fun _ => .inl rfl⟩
  | receive hph hop chunk => exact h.receive hfr hph hop chunk
  | @request frame pend hph resp close wr =>
    intro hone
    obtain ⟨-, hlog, -⟩ := respond_frame maxFrameBytes c frame resp close pend wr
    rw [hlog] at hone
    obtain ⟨hle, hcl⟩ := h hone
    have hnot : ¬c.CloseAsked := by
      intro has
      simpa [Closing, hph] using hcl has
    exact respond hle hnot (by simp [hph, outstanding]) resp close wr
  | enter hph prog =>
    intro hone
    obtain ⟨hle, hcl⟩ := h hone
    rw [hph] at hle
    refine ⟨hle, fun has => ?_⟩
    simpa [Closing, hph] using hcl has
  | negotiate hph next created =>
    intro hone
    obtain ⟨hle, hcl⟩ := h hone
    rw [hph] at hle
    refine ⟨hle, fun has => ?_⟩
    simpa [Closing, hph] using hcl has
  | @finish frame prog pend hph res wr =>
    intro hone
    obtain ⟨-, hlog, -⟩ := respond_frame maxFrameBytes (c.withHandshake res) frame
      res.response res.closeConnection pend wr
    rw [finishHandshake, hlog] at hone
    obtain ⟨hle, hcl⟩ := h hone
    have hnot : ¬c.CloseAsked := by
      intro has
      simpa [Closing, hph] using hcl has
    exact respond (c := c.withHandshake res) hle hnot
      (by simp [withHandshake, hph, outstanding]) res.response
      res.closeConnection wr
  | close hph => exact fun _ => ⟨Nat.zero_le 1, fun _ => .inr (.inl rfl)⟩

end Connection

/-- On a connection whose `recv` calls completed at most one frame each, a handler that asked
to close had the last word: whatever happens on the server afterwards, no further frame of
the connection is passed to a handler, no session is created for it, and the next step of
its thread is behind the loop. -/
theorem closeConnection_final (protobuf : Protobuf) (limits : ResourceLimits)
    (core : ServiceCore) (events more : List ServerEvent) {index : ℕ} {c : Connection}
    (hc : ((LocalApiServer.start limits core).run protobuf events).connections[index]? = some c)
    (hone : OneFrameEach limits.maxFrameBytes c.log.chunks) (hasked : c.CloseAsked) :
    ∃ c', ((LocalApiServer.start limits core).run protobuf (events ++ more)).connections[index]? =
        some c' ∧
      c'.log.handled = c.log.handled ∧ c'.log.created = c.log.created ∧ c'.Closing ∧
      ∀ running core sessions around,
        (c'.step protobuf limits running core sessions around).2.phase = .leaving ∨
          (c'.step protobuf limits running core sessions around).2.phase = .done := by
  have hinvariant : c.Framed limits.maxFrameBytes ∧ c.Orderly limits.maxFrameBytes := by
    refine run_connections (P := fun c =>
      c.Framed limits.maxFrameBytes ∧ c.Orderly limits.maxFrameBytes) ?_ ?_ events c
      (mem_of_getElem? hc)
    · intro peer now
      exact ⟨framed_start limits peer now, orderly_start limits peer now⟩
    · rintro a b ⟨hframed, horderly⟩ hmove
      exact ⟨hframed.moves hmove, horderly.moves hframed hmove⟩
  have hclosing : c.Closing := (hinvariant.2 hone).2 hasked
  -- nothing a closing connection does changes its log
  obtain ⟨c', hc', hkept⟩ := run_moves
    (R := fun a b : Connection => a.Closing → b.Closing ∧ b.log = a.log)
    (fun a ha => ⟨ha, rfl⟩)
    (fun a b d hab hbd ha => by
      obtain ⟨hb, hlog⟩ := hab ha
      obtain ⟨hd, hlog'⟩ := hbd hb
      exact ⟨hd, hlog'.trans hlog⟩)
    (fun a b hmove ha => ha.moves hmove) more hc
  obtain ⟨hclosing', hlog⟩ := hkept hclosing
  refine ⟨c', ?_, ?_, ?_, hclosing', ?_⟩
  · rw [run, runFrom_append]
    exact hc'
  · rw [hlog]
  · rw [hlog]
  · intro running core sessions around
    exact hclosing'.step protobuf limits running core sessions around

open Daemon in
/-- A request before the hello and the hello arrive in one `recv` call. The first is refused
with the flag to close; the hello behind it is handled all the same, gets a session, clears
the flag and leaves the connection open. -/
theorem closeConnection_overruled :
    let server := (LocalApiServer.start {} core).run protobuf
      [.accept peer 0, together [earlyFrame, helloFrame] (by decide) (by decide), .thread 0 {},
        .thread 0 {}, .thread 0 {}, .thread 0 {}, .thread 0 {}, .thread 0 {}, .thread 0 {}]
    server.connections.map (fun c => c.log.handled.map (·.closeConnection)) = [[true, false]] ∧
      server.connections.map (·.log.created) = [[1]] ∧ server.sessions.size = 1 ∧
      server.connections.map (fun c => (c.closeConnection, c.handshakeComplete)) =
        [(false, true)] := by
  decide +kernel

open Daemon in
/-- The same request in a `recv` call of its own: the hello that follows is never handled. -/
theorem closeConnection_final_refused :
    let events := [.accept peer 0, together [earlyFrame] (by decide) (by decide), .thread 0 {},
      .thread 0 {}]
    let more := [together [helloFrame] (by decide) (by decide), .thread 0 {}, .thread 0 {}]
    ∃ c ∈ ((LocalApiServer.start {} core).run protobuf events).connections, c.CloseAsked ∧
      ∃ c' ∈ ((LocalApiServer.start {} core).run protobuf (events ++ more)).connections,
        c'.log.handled = c.log.handled ∧ c'.log.created = c.log.created ∧ c'.Closing := by
  intro events more
  have hlogs : ((LocalApiServer.start {} core).run protobuf events).connections.map (·.log) =
      [{ chunks := [earlyFrame.layout]
         handled := [⟨earlyFrame, errorFrame protobuf 1 .invalidArgument
            "EXPECTED_HELLO", true⟩] }] := by
    decide +kernel
  obtain ⟨c, hconnections, hlog⟩ := map_eq_singleton_iff.mp hlogs
  have hc : ((LocalApiServer.start {} core).run protobuf events).connections[0]? = some c := by
    rw [hconnections]
    rfl
  have hone : OneFrameEach ({} : ResourceLimits).maxFrameBytes c.log.chunks := by
    rw [hlog]
    unfold OneFrameEach
    decide +kernel
  have hasked : c.CloseAsked := by
    rw [Connection.CloseAsked, hlog]
    exact ⟨_, mem_singleton_self _, rfl⟩
  obtain ⟨c', hc', hhandled, hcreated, hclosing, -⟩ :=
    closeConnection_final protobuf {} core events more hc hone hasked
  exact ⟨c, mem_of_getElem? hc, hasked, c', mem_of_getElem? hc', hhandled, hcreated,
    hclosing⟩

end Pdcm.Ipc
