import Pdcm.Client.SocketExchange
import Pdcm.Ipc.ConnectionRuns

/-!
# Which answer an exchange returns

An exchange reads from wherever the socket stands. It returns its own answer when nothing was
left on the socket by the calls before it, and when it begins at a frame boundary it never
takes another answer for its own, since no two requests have one id. A call that ran into its
deadline leaves the rest of its answer behind, so both conditions can fail: the next call
reads the late answer and rejects it, or it starts inside a payload and takes a frame that
stands there for its answer.
-/

namespace Pdcm.Client

open List

open Ipc Library

/-! ### The beginning of a call -/

/-- What `exchangeLocked` has done when it makes its first socket call, or returns without
one. -/
inductive Begins (link : Link) (type : MessageType) (payload : List UInt8)
    (expected : MessageType) : Link → Prop
  | refuses (status : Status) :
      Begins link type payload expected
        (link.finish (link.backend.requestFrame type payload) (.error status))
  | unencodable (hid : link.backend.nextRequestId ≠ 0) (status : Status) :
      Begins link type payload expected
        (Link.finish
          { link with
            backend := { link.backend with nextRequestId := link.backend.nextRequestId + 1 } }
          (link.backend.requestFrame type payload) (.error status))
  | sends (hid : link.backend.nextRequestId ≠ 0)
      (hfits : (link.backend.requestFrame type payload).Fits link.backend.maxFrameBytes)
      (hexchange : ∀ protobuf transport,
        (link.backend.exchangeLocked protobuf transport type payload expected).2 =
          (transport (link.backend.requestFrame type payload)).bind
            (link.backend.checkEnvelope protobuf link.backend.nextRequestId expected)) :
      Begins link type payload expected
        (link.sending (link.backend.requestFrame type payload) expected
          (link.backend.requestFrame type payload).layout)

theorem Link.exchange_begins (link : Link) (type : MessageType) (pl : List UInt8)
    (exp : MessageType) :
    Begins link type pl exp (link.exchange type pl exp) := by
  unfold exchange
  dsimp only
  split
  next => exact .refuses _
  next hre =>
    split
    next => exact .refuses _
    next hid =>
      split
      next st hen => exact .unencodable hid st
      next bytes hen =>
        obtain ⟨hfi, rfl⟩ := encodeFrame_eq_ok.mp hen
        refine .sends hid hfi ?_
        intro protobuf transport
        unfold StandaloneBackend.exchangeLocked
        rw [if_neg hre, if_neg hid]
        simp only [hen]
        cases transport (link.backend.requestFrame type pl) with
        | error st => rfl
        | ok resp => rfl

theorem Link.step_cases (protobuf : Protobuf) (link : Link) (event : LinkEvent) :
    (∃ type pl exp, Begins link type pl exp (link.step protobuf event)) ∨
      ∃ call, Moves protobuf call link event (link.step protobuf event) := by
  cases hph : link.phase with
  | idle =>
    -- there is no call, so any will do
    have hca : ExchangeCall := ⟨{}, .errorResponse⟩
    cases event with
    | exchange type pl exp =>
      simp only [step, hph]
      exact .inl ⟨type, pl, exp, link.exchange_begins type pl exp⟩
    | answer type pl => exact .inr ⟨hca, answer_moves type pl⟩
    | send n | receive n | fail status =>
      simp only [step, hph]
      exact .inr ⟨hca, .stays⟩
  | writing call rest => exact .inr ⟨call, step_moves (by rw [hph]; rfl) event⟩
  | reading call dec => exact .inr ⟨call, step_moves (by rw [hph]; rfl) event⟩

/-! ### Logs -/

theorem Link.readOneFrame_log (protobuf : Protobuf) (link : Link) (call : ExchangeCall)
    (dec : FrameDecoder) (n : ℕ) :
    (link.readOneFrame protobuf call dec n).backend = link.backend ∧
      (link.readOneFrame protobuf call dec n).sent = link.sent ∧
      (link.readOneFrame protobuf call dec n).answered = link.answered ∧
      link.returned <+: (link.readOneFrame protobuf call dec n).returned := by
  unfold readOneFrame
  split
  next =>
    dsimp only
    split
    next => exact ⟨rfl, rfl, rfl, prefix_append _ _⟩
    next =>
      split
      next => exact ⟨rfl, rfl, rfl, prefix_rfl⟩
      next => exact ⟨rfl, rfl, rfl, prefix_append _ _⟩
      next => exact ⟨rfl, rfl, rfl, prefix_append _ _⟩
  next => exact ⟨rfl, rfl, rfl, prefix_rfl⟩

/-- Answers and results are only added. -/
structure Extends (link next : Link) : Prop where
  answered : link.answered <+: next.answered
  returned : link.returned <+: next.returned

namespace Extends

theorem refl (link : Link) : Extends link link := ⟨prefix_rfl, prefix_rfl⟩

theorem finish (link : Link) (request : Frame) (res : Except Status Frame) :
    Extends link (link.finish request res) :=
  ⟨prefix_rfl, prefix_append _ _⟩

theorem moves {protobuf : Protobuf} {call : ExchangeCall} {link next : Link} {event : LinkEvent}
    (h : Moves protobuf call link event next) : Extends link next := by
  cases h with
  | stays => exact refl link
  | sends hph hlt => exact ⟨prefix_rfl, prefix_rfl⟩
  | sendsAll hph => exact ⟨prefix_rfl, prefix_rfl⟩
  | fails st => exact finish link call.request _
  | @receives dec n hph hda =>
    obtain ⟨-, -, hans, hret⟩ := link.readOneFrame_log protobuf call dec n
    exact ⟨hans ▸ prefix_rfl, hret⟩
  | answers hhe hfi => exact ⟨prefix_append _ _, prefix_rfl⟩

theorem begins {link next : Link} {type exp : MessageType} {pl : List UInt8}
    (h : Begins link type pl exp next) : Extends link next := by
  cases h with
  | refuses st => exact finish link _ _
  | unencodable hid st => exact ⟨prefix_rfl, prefix_append _ _⟩
  | sends hid hfi hex => exact ⟨prefix_rfl, prefix_rfl⟩

theorem step (protobuf : Protobuf) (link : Link) (event : LinkEvent) :
    Extends link (link.step protobuf event) := by
  rcases link.step_cases protobuf event with ⟨_, _, _, hbe⟩ | ⟨_, hmo⟩
  · exact begins hbe
  · exact moves hmo

end Extends

theorem get_of_isPrefix {α : Type} {log longer : List α} (h : log <+: longer) {i : ℕ} {entry : α}
    (hget : log[i]? = some entry) : longer[i]? = some entry := by
  obtain ⟨more, rfl⟩ := h
  rw [getElem?_append_left (List.getElem?_eq_some_iff.mp hget).1, hget]

/-! ### Calls that begin on an empty socket -/

/-- No socket call fails, and the daemon's answers are within the frame limit of the client. -/
def Steady (link : Link) : LinkEvent → Prop
  | .fail _ => False
  | .answer _ payload => frameHeaderBytes + payload.length ≤ link.backend.maxFrameBytes
  | _ => True

instance decidableSteady (link : Link) : (event : LinkEvent) → Decidable (Steady link event)
  | .fail _ => inferInstanceAs (Decidable False)
  | .answer _ _ => inferInstanceAs (Decidable (_ ≤ _))
  | .exchange _ _ _ => inferInstanceAs (Decidable True)
  | .send _ => inferInstanceAs (Decidable True)
  | .receive _ => inferInstanceAs (Decidable True)

/-- An open link on which nothing but the call's own request and its answer is left. -/
structure Alone (call : ExchangeCall) (link : Link) (pending : List Answer)
    (requests : List Frame) : Prop where
  isOpen : Open call link pending requests
  own : pending.map Answer.request ++ requests = [call.request]
  fits : ∀ answer ∈ pending, answer.response.Fits link.backend.maxFrameBytes

/-- What a steady step makes of such a link: the call goes on, maybe with its answer, or it
returns with it and leaves nothing behind. -/
inductive AloneTurn (protobuf : Protobuf) (call : ExchangeCall) (link : Link)
    (pending : List Answer) (next : Link) : Prop
  | goesOn {more : List Answer} {requests : List Frame}
      (halone : Alone call next (pending ++ more) requests)
      (hbackend : next.backend = link.backend) (hanswered : next.answered = link.answered ++ more)
      (hreturned : next.returned = link.returned)
  | returns {answer : Answer} (hpending : pending = [answer])
      (hrequest : answer.request = call.request) (hrests : next.Rests)
      (hanswered : next.answered = link.answered)
      (hreturned : next.returned = link.returned ++ [⟨call.request,
        link.backend.checkEnvelope protobuf call.request.requestId call.expected answer.response⟩])

namespace Alone

variable {call : ExchangeCall} {link : Link} {pending : List Answer} {requests : List Frame}

theorem pending_eq (h : Alone call link pending requests) (hpe : pending ≠ []) :
    ∃ answer, pending = [answer] ∧ answer.request = call.request ∧ requests = [] := by
  obtain ⟨answer, rest, rfl⟩ := exists_cons_of_ne_nil hpe
  obtain ⟨hreq, hres⟩ := List.cons.inj h.own
  obtain ⟨hla, hre⟩ := append_eq_nil_iff.mp hres
  rw [map_eq_nil_iff.mp hla]
  exact ⟨answer, rfl, hreq, hre⟩

theorem step (protobuf : Protobuf) (h : Alone call link pending requests) {event : LinkEvent}
    (hst : Steady link event) :
    AloneTurn protobuf call link pending (link.step protobuf event) := by
  have hmo : Moves protobuf call link event (link.step protobuf event) :=
    Link.step_moves h.isOpen.call_eq event
  have htu := h.isOpen.moves hmo
  generalize link.step protobuf event = next at htu ⊢
  cases htu with
  | goesOn hop hba hans hret =>
    have hal : Alone call next (pending ++ []) requests := by
      rw [append_nil]
      exact ⟨hop, h.own, hba ▸ h.fits⟩
    exact .goesOn hal hba (hans.trans (append_nil _).symm) hret
  | @answers type payload _ request rest response hre hresp hop hba hans
      hret =>
    -- the request is its own, so there was no answer before
    have hfi : pending = [] := by
      by_contra hpe
      obtain ⟨-, -, -, hno⟩ := h.pending_eq hpe
      rw [hno] at hre
      cases hre
    subst hfi hre
    refine .goesOn ⟨hop, h.own, ?_⟩ hba hans hret
    intro answer han
    rw [mem_singleton.mp han, hba, hresp]
    exact ⟨hst, hresp ▸ hop.pending_size ⟨request, response⟩ mem_cons_self⟩
  | @returns _ _ first rest hpe hans hret hba hres =>
    obtain ⟨answer, rfl, hreq, hno⟩ := h.pending_eq (hpe ▸ cons_ne_nil first rest)
    obtain ⟨rfl, -⟩ := List.cons.inj hpe
    exact .returns rfl hreq (hres rfl (h.fits answer mem_cons_self) hno) hans hret
  | fails hans hret => exact hst.elim
  | rejects hpe hun hans hret =>
    obtain ⟨answer, rfl, -, -⟩ := h.pending_eq hpe
    exact absurd (h.fits answer mem_cons_self) (hun answer rfl)

/-- The call in which a link that rests sends its request is alone. -/
theorem of_rests (hre : link.Rests) {request : Frame} {exp : MessageType}
    (hfi : request.Fits link.backend.maxFrameBytes) :
    Alone ⟨request, exp⟩ (link.sending request exp request.layout) [] [request] := by
  have hda : link.toDaemon = layouts [] := hre.toDaemon
  have hsi : ∀ r ∈ [] ++ [request], r.size < 2 ^ 32 := by simpa using hfi.2
  exact ⟨open_sending hda hre.toClient hsi nofun, rfl, nofun⟩

end Alone

/-- The link rests or a call on it is alone. -/
inductive InStep (link : Link) : Prop
  | rests (hrests : link.Rests)
  | inProgress {call : ExchangeCall} {pending : List Answer} {requests : List Frame}
      (halone : Alone call link pending requests)

theorem InStep.step {protobuf : Protobuf} {link : Link} (h : InStep link) {event : LinkEvent}
    (hst : Steady link event) : InStep (link.step protobuf event) := by
  cases h with
  | inProgress hal =>
    cases hal.step protobuf hst with
    | goesOn hal' hba hans hret => exact .inProgress hal'
    | returns hpe hreq hre hans hret => exact .rests hre
  | rests hre =>
    cases event with
    | exchange type pl exp =>
      have hbe := link.exchange_begins type pl exp
      simp only [Link.step, hre.idle]
      generalize link.exchange type pl exp = next at hbe ⊢
      cases hbe with
      | refuses st => exact .rests ⟨rfl, hre.toDaemon, hre.toClient⟩
      | unencodable hid st => exact .rests ⟨rfl, hre.toDaemon, hre.toClient⟩
      | sends hid hfi hex => exact .inProgress (Alone.of_rests hre hfi)
    | answer type pl =>
      -- there is no request to answer
      simp only [Link.step, Link.answer, hre.toDaemon]
      exact .rests hre
    | send n | receive n | fail st =>
      simp only [Link.step, hre.idle]
      exact .rests hre

/-- As long as no socket call fails, every call leaves the socket empty. -/
theorem run_rests (protobuf : Protobuf) {link : Link} (hre : link.Rests)
    {events : List LinkEvent} (hst : Along (Link.step protobuf) Steady link events)
    (hid : (link.run protobuf events).phase = .idle) : (link.run protobuf events).Rests := by
  have haf : InStep (link.run protobuf events) :=
    invariant_along (I := InStep) (fun _ _ h hev => h.step hev) (.rests hre) hst
  cases haf with
  | rests hre' => exact hre'
  | inProgress hal =>
    have hca := hal.isOpen.call_eq
    rw [hid] at hca
    cases hca

/-- The link is steady while the call with number `n` is in progress. -/
def Undisturbed (n : ℕ) (link : Link) (event : LinkEvent) : Prop :=
  link.returned.length = n → Steady link event

instance decidableUndisturbed (n : ℕ) (link : Link) (event : LinkEvent) :
    Decidable (Undisturbed n link event) :=
  inferInstanceAs (Decidable (_ → _))

/-- Where a call stands that began on an empty socket: it is alone, or it has returned with
its own answer. -/
inductive Attends (protobuf : Protobuf) (call : ExchangeCall) (backend : StandaloneBackend)
    (answered : List Answer) (returned : List Returned) (link : Link) : Prop
  | inProgress {pending : List Answer} {requests : List Frame}
      (halone : Alone call link pending requests) (hbackend : link.backend = backend)
      (hanswered : link.answered = answered ++ pending) (hreturned : link.returned = returned)
  | done {answer : Answer} (hrequest : answer.request = call.request)
      (hanswered : link.answered[answered.length]? = some answer)
      (hreturned : link.returned[returned.length]? = some ⟨call.request,
        backend.checkEnvelope protobuf call.request.requestId call.expected answer.response⟩)

namespace Attends

variable {protobuf : Protobuf} {call : ExchangeCall} {backend : StandaloneBackend}
  {answered : List Answer} {returned : List Returned} {link : Link}

section

variable (h : Attends protobuf call backend answered returned link)

include h

theorem step {event : LinkEvent} (hqu : Undisturbed returned.length link event) :
    Attends protobuf call backend answered returned (link.step protobuf event) := by
  have hext := Extends.step protobuf link event
  cases h with
  | done hreq hans hret =>
    exact .done hreq (get_of_isPrefix hext.answered hans) (get_of_isPrefix hext.returned hret)
  | inProgress hal hba hans hret =>
    subst hba hret
    cases hal.step protobuf (hqu rfl) with
    | goesOn hal' hba' hans' hret' =>
      refine .inProgress hal' hba' ?_ hret'
      rw [hans', hans, append_assoc]
    | returns hpe hreq hre hans' hret' =>
      refine .done hreq ?_ ?_
      · rw [hans', hans, hpe, getElem?_concat_length]
      · rw [hret', getElem?_concat_length]

theorem run {events : List LinkEvent}
    (hqu : Along (Link.step protobuf) (Undisturbed returned.length) link events) :
    Attends protobuf call backend answered returned (link.run protobuf events) := by
  exact invariant_along (fun _ _ hli hev => hli.step hev) h hqu

theorem returned_of_read {answer : Answer} (han : link.answered[answered.length]? = some answer)
    (hre : link.toClient = []) :
    answer.request = call.request ∧
      link.returned[returned.length]? = some ⟨call.request,
        backend.checkEnvelope protobuf call.request.requestId call.expected answer.response⟩ := by
  cases h with
  | done hreq hans hret =>
    rw [hans] at han
    cases han
    exact ⟨hreq, hret⟩
  | @inProgress pending requests hal hba hans hret =>
    have hpe : pending ≠ [] := by
      rintro rfl
      rw [hans, append_nil, getElem?_eq_none le_rfl] at han
      cases han
    obtain ⟨own, rfl, -, -⟩ := hal.pending_eq hpe
    -- the whole answer would stand in the buffer of a decoder that waits for more
    have hla : link.phase.undecided ++ [] = own.response.layout := by
      rw [← hre, hal.isOpen.toClient_eq]
      simp [layouts]
    have hhe := frameHead_layout (hal.fits own mem_cons_self) hla
    rw [hal.isOpen.head_undecided] at hhe
    cases hhe

theorem returned_own {r : Returned} (hget : link.returned[returned.length]? = some r) :
    ∃ resp, link.answered[answered.length]? = some ⟨call.request, resp⟩ ∧
      r = ⟨call.request,
        backend.checkEnvelope protobuf call.request.requestId call.expected resp⟩ := by
  cases h with
  | inProgress hal hba hans hret =>
    rw [hret, getElem?_eq_none le_rfl] at hget
    cases hget
  | @done answer hreq hans hret =>
    rw [hret] at hget
    cases hget
    refine ⟨answer.response, ?_, rfl⟩
    rw [hans, ← hreq]

end

/-- A call that begins on an empty socket and is sent attends to its own answer. -/
theorem of_rests (protobuf : Protobuf) (hre : link.Rests) {type exp : MessageType}
    {pl : List UInt8} (hse : (link.exchange type pl exp).phase ≠ .idle) :
    Attends protobuf ⟨link.backend.requestFrame type pl, exp⟩
        { link.backend with nextRequestId := link.backend.nextRequestId + 1 } link.answered
        link.returned (link.exchange type pl exp) ∧
      ∀ response, (link.backend.exchangeLocked protobuf (fun _ => .ok response) type pl
          exp).2 =
        link.backend.checkEnvelope protobuf link.backend.nextRequestId exp response := by
  have hbe := link.exchange_begins type pl exp
  generalize link.exchange type pl exp = next at hbe hse ⊢
  cases hbe with
  | refuses st => exact absurd rfl hse
  | unencodable hid st => exact absurd rfl hse
  | sends hid hfi hex =>
    refine ⟨?_, fun response => hex protobuf _⟩
    exact .inProgress (.of_rests hre hfi) rfl (append_nil _).symm rfl

end Attends

/-- An exchange that begins when nothing of earlier calls is on the socket returns its own
answer: it returns nothing else unless one of its socket calls fails, and it has returned
when the daemon's answer to it was read to the end, in whatever pieces it came. -/
theorem run_returns_own_answer (protobuf : Protobuf) {link : Link} (hrests : link.Rests)
    (type : MessageType) (payload : List UInt8) (expected : MessageType)
    (hsent : (link.exchange type payload expected).phase ≠ .idle) (events : List LinkEvent)
    (hquiet : Along (Link.step protobuf) (Undisturbed link.returned.length)
      (link.exchange type payload expected) events) :
    let request := link.backend.requestFrame type payload
    let result := fun response =>
      (link.backend.exchangeLocked protobuf (fun _ => .ok response) type payload expected).2
    let after := link.run protobuf (.exchange type payload expected :: events)
    (∀ returned, after.returned[link.returned.length]? = some returned →
        ∃ response, after.answered[link.answered.length]? = some ⟨request, response⟩ ∧
          returned = ⟨request, result response⟩) ∧
      ∀ answer, after.answered[link.answered.length]? = some answer → after.toClient = [] →
        answer.request = request ∧
          after.returned[link.returned.length]? = some ⟨request, result answer.response⟩ := by
  intro request result after
  obtain ⟨hbegun, hresult⟩ := Attends.of_rests protobuf hrests hsent
  have hafter : Attends protobuf ⟨request, expected⟩
      { link.backend with nextRequestId := link.backend.nextRequestId + 1 } link.answered
      link.returned after := by
    have hbegins : after = (link.exchange type payload expected).run protobuf events := by
      simp only [after, Link.run, runFrom_cons, Link.step, hrests.idle]
    rw [hbegins]
    exact hbegun.run hquiet
  constructor
  · intro returned hget
    obtain ⟨response, hanswered, hreturned⟩ := hafter.returned_own hget
    refine ⟨response, hanswered, ?_⟩
    rw [hreturned]
    exact congrArg _ (hresult response).symm
  · intro answer hanswer hread
    obtain ⟨hrequest, hreturned⟩ := hafter.returned_of_read hanswer hread
    refine ⟨hrequest, ?_⟩
    rw [hreturned]
    exact congrArg (fun r => some (Returned.mk request r)) (hresult answer.response).symm

open RequestRouter

namespace SharedSocket

open Daemon

def backend : StandaloneBackend :=
  { started := true, connected := true, protocolMajor := 1, maxFrameBytes := 64 }

/-- A request in two pieces and its answer in three. -/
def pieces : List LinkEvent :=
  [.send 5, .send 15, .answer .entityListResponse [1], .receive 3, .receive 17, .receive 1]

theorem run_rests_pieces :
    ((Link.start backend 64).run protobuf
      (.exchange .entityListRequest [] .entityListResponse :: pieces)).Rests :=
  run_rests protobuf ⟨rfl, rfl, rfl⟩ (by decide +kernel) (by decide +kernel)

theorem run_returns_own_answer_pieces :
    let request := backend.requestFrame .entityListRequest []
    let after := (Link.start backend 64).run protobuf
      (.exchange .entityListRequest [] .entityListResponse :: pieces)
    after.returned[0]? = some ⟨request,
      (backend.exchangeLocked protobuf
        (fun _ => .ok (responseFrame request .entityListResponse [1]))
        .entityListRequest [] .entityListResponse).2⟩ := by
  have hrests : (Link.start backend 64).Rests := ⟨rfl, rfl, rfl⟩
  have h := run_returns_own_answer protobuf hrests .entityListRequest [] .entityListResponse
    (by decide) pieces (by decide +kernel)
  intro request after
  exact (h.2 ⟨request, responseFrame request .entityListResponse [1]⟩
    (by decide +kernel) (by decide +kernel)).2

/-- The deadline of the first call expires before the daemon answers. -/
def late : List LinkEvent :=
  [.exchange .entityListRequest [] .entityListResponse, .send 20, .fail deadlineExpired,
    .answer .entityListResponse [1]]

/-- The second request is answered before the second call reads. -/
def inTime : List LinkEvent := [.send 20, .answer .capabilityQueryResponse [2], .receive 21]

/-- The daemon has answered both requests correctly and in order, and no socket call of the
second exchange fails; still it reads the late answer to the first request and returns an
error. -/
theorem own_answer_missed :
    let before := (Link.start backend 64).run protobuf late
    let request := before.backend.requestFrame .capabilityQueryRequest []
    let response := responseFrame request .capabilityQueryResponse [2]
    let after := before.run protobuf
      (.exchange .capabilityQueryRequest [] .capabilityQueryResponse :: inTime)
    before.phase = .idle ∧
      Along (Link.step protobuf) (Undisturbed 1)
        (before.exchange .capabilityQueryRequest [] .capabilityQueryResponse) inTime ∧
      after.answered[1]? = some ⟨request, response⟩ ∧
      (before.backend.exchangeLocked protobuf (fun _ => .ok response) .capabilityQueryRequest []
        .capabilityQueryResponse).2 = .ok response ∧
      after.returned = [⟨backend.requestFrame .entityListRequest [], .error deadlineExpired⟩,
        ⟨request, .error ⟨.internal, "local daemon response envelope mismatch"⟩⟩] := by
  decide +kernel

end SharedSocket

/-! ### Calls that begin at a frame boundary -/

/-- Ids are given out in increasing order, and an answer has the id of its request. -/
structure Numbered (link : Link) : Prop where
  sent_lt : ∀ request ∈ link.sent, link.backend.nextRequestId ≠ 0 →
    request.requestId < link.backend.nextRequestId
  sent_size : ∀ request ∈ link.sent, request.size < 2 ^ 32
  answered_id : ∀ answer ∈ link.answered, answer.response.requestId = answer.request.requestId
  answered_size : ∀ answer ∈ link.answered, answer.response.size < 2 ^ 32

theorem lt_next_id {id next : UInt64} (hle : id ≤ next) (hne : next + 1 ≠ 0) : id < next + 1 := by
  have hsu : (next + 1).toNat = (next.toNat + 1) % 2 ^ 64 := UInt64.toNat_add next 1
  have hpos : (next + 1).toNat ≠ 0 := fun h => hne (UInt64.toNat_inj.mp h)
  have hlt := next.toNat_lt
  rw [UInt64.le_iff_toNat_le] at hle
  rw [UInt64.lt_iff_toNat_lt]
  omega

namespace Numbered

variable {protobuf : Protobuf} {link next : Link}

theorem moves (h : Numbered link) {call : ExchangeCall} {event : LinkEvent}
    (hmo : Moves protobuf call link event next) : Numbered next := by
  cases hmo with
  | stays => exact h
  | sends hph hlt => exact ⟨h.sent_lt, h.sent_size, h.answered_id, h.answered_size⟩
  | sendsAll hph => exact ⟨h.sent_lt, h.sent_size, h.answered_id, h.answered_size⟩
  | fails st => exact ⟨h.sent_lt, h.sent_size, h.answered_id, h.answered_size⟩
  | @receives dec n hph hda =>
    obtain ⟨hba, hse, hans, -⟩ := link.readOneFrame_log protobuf call dec n
    refine ⟨?_, ?_, ?_, ?_⟩
    · rw [hba, hse]
      exact h.sent_lt
    · rw [hse]
      exact h.sent_size
    · rw [hans]
      exact h.answered_id
    · rw [hans]
      exact h.answered_size
  | answers hhe hfi =>
    refine ⟨h.sent_lt, h.sent_size, ?_, ?_⟩
    · exact forall_mem_append.mpr ⟨h.answered_id, forall_mem_singleton.mpr rfl⟩
    · exact forall_mem_append.mpr ⟨h.answered_size, forall_mem_singleton.mpr hfi.2⟩

theorem begins (h : Numbered link) {type exp : MessageType} {pl : List UInt8}
    (hbe : Begins link type pl exp next) : Numbered next := by
  cases hbe with
  | refuses st => exact ⟨h.sent_lt, h.sent_size, h.answered_id, h.answered_size⟩
  | unencodable hid st =>
    refine ⟨?_, h.sent_size, h.answered_id, h.answered_size⟩
    intro request hreq hne
    exact lt_next_id (UInt64.le_of_lt (h.sent_lt request hreq hid)) hne
  | sends hid hfi hex =>
    refine ⟨?_, ?_, h.answered_id, h.answered_size⟩
    · intro request hreq hne
      rcases mem_append.mp hreq with hold | hnew
      · exact lt_next_id (UInt64.le_of_lt (h.sent_lt request hold hid)) hne
      · rw [mem_singleton.mp hnew]
        exact lt_next_id (UInt64.le_refl _) hne
    · exact forall_mem_append.mpr ⟨h.sent_size, forall_mem_singleton.mpr hfi.2⟩

theorem step (h : Numbered link) (event : LinkEvent) : Numbered (link.step protobuf event) := by
  rcases link.step_cases protobuf event with ⟨_, _, _, hbe⟩ | ⟨_, hmo⟩
  · exact h.begins hbe
  · exact h.moves hmo

end Numbered

/-- What is on the socket are whole requests of the client and whole answers to such
requests. -/
def Link.AtBoundary (link : Link) : Prop :=
  ∃ (pending : List Answer) (requests : List Frame), link.toDaemon = layouts requests ∧
    link.toClient = layouts (pending.map Answer.response) ∧
    (∀ answer ∈ pending, answer ∈ link.answered ∧ answer.request ∈ link.sent) ∧
    ∀ request ∈ requests, request ∈ link.sent

/-- Where a call stands that began at a frame boundary: only its own answer has its id among
those it can still read, or it has returned, with a frame only if that is its answer. -/
inductive Genuine (request : Frame) (n : ℕ) (link : Link) : Prop
  | inProgress {call : ExchangeCall} {pending : List Answer} {requests : List Frame}
      (hrequest : call.request = request) (hopen : Open call link pending requests)
      (hpending : ∀ answer ∈ pending, answer ∈ link.answered ∧
        (answer.response.requestId = request.requestId → answer.request = request))
      (hrequests : ∀ r ∈ requests, r.requestId = request.requestId → r = request)
      (hreturned : link.returned.length = n)
  | done {returned : Returned} (hreturned : link.returned[n]? = some returned)
      (hrequest : returned.request = request)
      (hgenuine : ∀ frame, returned.result = .ok frame → ⟨request, frame⟩ ∈ link.answered)

namespace Genuine

variable {protobuf : Protobuf} {request : Frame} {n : ℕ} {link : Link}

theorem of_error {next : Link} (hle : link.returned.length = n) {st : Status}
    (hret : next.returned = link.returned ++ [⟨request, .error st⟩]) :
    Genuine request n next := by
  have hget : next.returned[n]? = some ⟨request, .error st⟩ := by
    rw [hret, ← hle, getElem?_concat_length]
  exact .done hget rfl nofun

theorem step (h : Genuine request n link) (event : LinkEvent) :
    Genuine request n (link.step protobuf event) := by
  have hext := Extends.step protobuf link event
  cases h with
  | done hret hreq hge =>
    exact .done (get_of_isPrefix hext.returned hret) hreq
      fun frame hfr => hext.answered.subset (hge frame hfr)
  | @inProgress call pending requests hreq hop hpe hre hret =>
    have hmo : Moves protobuf call link event (link.step protobuf event) :=
      Link.step_moves hop.call_eq event
    have htu := hop.moves hmo
    generalize link.step protobuf event = next at htu hext ⊢
    subst hreq
    cases htu with
    | goesOn hop' hba hans' hret' =>
      refine .inProgress rfl hop' ?_ hre (hret'.symm ▸ hret)
      rw [hans']
      exact hpe
    | @answers type payload _ answeredRequest rest response hco hresp hop' hba hans'
        hret' =>
      subst hco
      refine .inProgress rfl hop' ?_ ?_ (hret'.symm ▸ hret)
      · intro answer han
        rw [hans']
        rcases mem_append.mp han with hold | hnew
        · exact ⟨mem_append_left _ (hpe answer hold).1, (hpe answer hold).2⟩
        · refine ⟨mem_append_right _ hnew, ?_⟩
          rw [mem_singleton.mp hnew, hresp]
          exact hre answeredRequest mem_cons_self
      · intro r hr
        exact hre r (mem_cons_of_mem answeredRequest hr)
    | @returns _ _ first rest hco hans' hret' hba hres =>
      subst hco
      obtain ⟨hfi, hown⟩ := hpe first mem_cons_self
      have hget : next.returned[n]? = some ⟨call.request, link.backend.checkEnvelope protobuf
          call.request.requestId call.expected first.response⟩ := by
        rw [hret', ← hret, getElem?_concat_length]
      refine .done hget rfl ?_
      intro frame hfr
      -- the check compared the ids
      obtain ⟨rfl, -, hid⟩ := StandaloneBackend.checkEnvelope_ok hfr
      rw [← hown hid, hans']
      exact hfi
    | fails hans' hret' => exact of_error hret hret'
    | rejects hnil hun hans' hret' => exact of_error hret hret'

theorem of_atBoundary (hnu : Numbered link) (hbo : link.AtBoundary)
    (type : MessageType) (pl : List UInt8) (exp : MessageType) :
    Genuine (link.backend.requestFrame type pl) link.returned.length
      (link.exchange type pl exp) := by
  have hbe := link.exchange_begins type pl exp
  generalize link.exchange type pl exp = next at hbe ⊢
  cases hbe with
  | refuses st => exact of_error rfl rfl
  | unencodable hid st => exact of_error rfl rfl
  | sends hid hfi hex =>
    obtain ⟨pending, requests, hda, hcl, hpe, hre⟩ := hbo
    -- no request that was sent before has the id of this one
    have hfr : ∀ r ∈ link.sent, r.requestId ≠ (link.backend.requestFrame type pl).requestId :=
      fun r hr => UInt64.ne_of_lt (hnu.sent_lt r hr hid)
    refine .inProgress rfl (open_sending hda hcl ?_ ?_) ?_ ?_ rfl
    · exact forall_mem_append.mpr ⟨fun r hr => hnu.sent_size r (hre r hr),
        forall_mem_singleton.mpr hfi.2⟩
    · intro answer han
      exact hnu.answered_size answer (hpe answer han).1
    · intro answer han
      obtain ⟨hmem, hse⟩ := hpe answer han
      refine ⟨hmem, fun hid' => ?_⟩
      rw [hnu.answered_id answer hmem] at hid'
      exact absurd hid' (hfr answer.request hse)
    · intro r hr hid'
      rcases mem_append.mp hr with hold | hnew
      · exact absurd hid' (hfr r (hre r hold))
      · exact mem_singleton.mp hnew

end Genuine

/-- Whenever an exchange that begins at a frame boundary returns a frame, the daemon encoded
that frame as its answer to the request of the exchange, whatever the payloads, the pieces,
the delays and the deadlines before and after. -/
theorem run_returns_genuine (protobuf : Protobuf) (backend : StandaloneBackend)
    (serverMaxFrameBytes : ℕ) (before events : List LinkEvent) (type : MessageType)
    (payload : List UInt8) (expected : MessageType) :
    let link := (Link.start backend serverMaxFrameBytes).run protobuf before
    let request := link.backend.requestFrame type payload
    let after := link.run protobuf (.exchange type payload expected :: events)
    link.phase = .idle → link.AtBoundary →
      ∀ returned, after.returned[link.returned.length]? = some returned →
        returned.request = request ∧
          ∀ frame, returned.result = .ok frame → ⟨request, frame⟩ ∈ after.answered := by
  intro link request after hidle hboundary returned hget
  have hafter : Genuine request link.returned.length after := by
    have hbegins : after = (link.exchange type payload expected).run protobuf events := by
      simp only [after, Link.run, runFrom_cons, Link.step, hidle]
    rw [hbegins]
    have hstart : Numbered (.start backend serverMaxFrameBytes) :=
      ⟨forall_mem_nil _, forall_mem_nil _, forall_mem_nil _, forall_mem_nil _⟩
    have hnumbered : Numbered link :=
      invariant_run (fun _ event h => h.step event) hstart before
    exact invariant_run (fun _ event h => h.step event)
      (.of_atBoundary hnumbered hboundary type payload expected) events
  cases hafter with
  | inProgress hrequest hopen hpending hrequests hreturned =>
    rw [← hreturned, getElem?_eq_none le_rfl] at hget
    cases hget
  | done hreturned hrequest hgenuine =>
    rw [hreturned] at hget
    cases hget
    exact ⟨hrequest, hgenuine⟩

namespace SharedSocket

open Daemon

/-- The deadline of the first call expires before anything is sent. -/
def unsent : List LinkEvent :=
  [.exchange .entityListRequest [] .entityListResponse, .fail deadlineExpired]

theorem run_returns_genuine_unsent :
    let before := (Link.start backend 64).run protobuf unsent
    let request := before.backend.requestFrame .entityListRequest []
    let after := before.run protobuf (.exchange .entityListRequest [] .entityListResponse :: pieces)
    ∃ frame, after.returned[1]? = some ⟨request, .ok frame⟩ ∧
      ⟨request, frame⟩ ∈ after.answered := by
  intro before request after
  have hidle : before.phase = .idle := by decide +kernel
  have hboundary : before.AtBoundary := ⟨[], [], by decide +kernel, by decide +kernel, nofun, nofun⟩
  have hreturned : after.returned[1]? = some
      ⟨request, .ok (responseFrame request .entityListResponse [1])⟩ := by
    decide +kernel
  have h := run_returns_genuine protobuf backend 64 unsent pieces .entityListRequest []
    .entityListResponse hidle hboundary _ hreturned
  exact ⟨_, hreturned, h.2 _ rfl⟩

/-- A frame with the id of the second request, inside the payload of the first answer. -/
def forged : Frame :=
  { protocolMajor := 1, messageType := .capabilityQueryResponse, requestId := 3, payload := [7] }

/-- The first call has read the header of its answer when its deadline expires. -/
def cut : List LinkEvent :=
  [.exchange .entityListRequest [] .entityListResponse, .send 20,
    .answer .entityListResponse forged.layout, .receive 20, .fail deadlineExpired]

/-- The second call begins inside the payload of the first answer and returns the frame that
it finds there. -/
theorem payload_taken_for_answer :
    let before := (Link.start backend 64).run protobuf cut
    let request := before.backend.requestFrame .capabilityQueryRequest []
    let after := before.run protobuf
      (.exchange .capabilityQueryRequest [] .capabilityQueryResponse :: inTime)
    before.phase = .idle ∧
      after.answered = [
        ⟨backend.requestFrame .entityListRequest [],
          responseFrame (backend.requestFrame .entityListRequest [])
            .entityListResponse forged.layout⟩,
        ⟨request, responseFrame request .capabilityQueryResponse [2]⟩] ∧
      after.returned[1]? = some ⟨request, .ok forged⟩ ∧
      ⟨request, forged⟩ ∉ after.answered := by
  decide +kernel

end SharedSocket
end Pdcm.Client
