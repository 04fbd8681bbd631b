import Citizen.HttpServer.Connection

open Bits Transition

namespace net

/-- A body with what `phr_decode_chunked` makes of it: the payload of its first bytes, and the decoder after them.
The body ends where the decoder finds its end, whatever follows. -/
structure ChunkedBody {D : Type*} (phr : Picohttpparser D) where
  bytes : List Byte
  chunks : List (List Byte)
  decoded : Nat → List Byte
  state : Nat → D
  state_zero : state 0 = phr.decoder
  decoded_zero : decoded 0 = []
  decoded_length : decoded bytes.length = chunks.flatten
  nonempty : bytes ≠ []
  /-- It decodes in place, and counts the bytes. -/
  partly : ∀ n m, n ≤ m → m < bytes.length → ∃ data requestSize,
    phr.phr_decode_chunked (state n) ((bytes.take m).drop n) = .incomplete (state m) data requestSize ∧
      data.length = m - n ∧ requestSize ≤ data.length ∧ decoded m = decoded n ++ data.take requestSize
  whole : ∀ n < bytes.length, ∀ more, phr.phr_decode_chunked (state n) (bytes.drop n ++ more) = .done more.length

namespace ChunkedBody

variable {D : Type*} {phr : Picohttpparser D}

/-- The payloads of the chunks. -/
def payload (body : ChunkedBody phr) : List Byte := body.chunks.flatten

end ChunkedBody

namespace HttpConnection

variable {D : Type*} {phr : Picohttpparser D} {body : ChunkedBody phr} {rest : List Byte} {i : Nat}
  {c c' : HttpConnection D} {empty : Bool}

/-- Nothing of the body has been given to the request yet. -/
def AwaitsBody (exchanges : List HttpExchange) (i : Nat) : Prop :=
  ∃ exchange, exchanges[i]? = some exchange ∧ exchange.given = [] ∧ exchange.pendingData = none

/-- The connection has read the head of the request, and the body comes next. -/
structure Expects (body : ChunkedBody phr) (rest : List Byte) (i : Nat) (c : HttpConnection D) : Prop where
  readState : c.readState = .chunked
  invalid : c.invalid = false
  closed : c.closed = false
  request : c.request = some i
  awaits : AwaitsBody c.exchanges i
  requestData : c.requestData = []
  lastLength : c.lastLength = 0
  decoder : c.decoder = phr.decoder
  bytes : c.readBuffer ++ c.undelivered = body.bytes ++ rest

/-- The turns of the loop come before the whole body, or are those of wake-ups. -/
def Before (body : ChunkedBody phr) (c : HttpConnection D) (action : Action) : Prop :=
  action = .iterate → c.callback = some false → c.readBuffer.length < body.bytes.length

/-- The request has got its payload, or has it for a data handler, and the next request starts with the byte after
it. -/
structure BodyArrived (body : ChunkedBody phr) (rest : List Byte) (i : Nat) (c : HttpConnection D) : Prop where
  readState : c.readState = .request
  bytes : c.readBuffer ++ c.undelivered = rest
  given : ∃ exchange, c.exchanges[i]? = some exchange ∧
    (exchange.given = [body.payload] ∨ exchange.pendingData = some body.payload)

/-- The body is read: the decoder has been at the first bytes, as many as are in `requestData`. -/
structure Receives (body : ChunkedBody phr) (rest : List Byte) (i : Nat) (c : HttpConnection D) : Prop where
  readState : c.readState = .chunked
  invalid : c.invalid = false
  request : c.request = some i
  awaits : AwaitsBody c.exchanges i
  before : c.requestData.length < body.bytes.length
  read : c.requestData.length ≤ c.readBuffer.length
  lastLength : c.lastLength = (body.decoded c.requestData.length).length
  decoded : c.requestData.take c.lastLength = body.decoded c.requestData.length
  decoder : c.decoder = body.state c.requestData.length
  bytes : c.readBuffer ++ c.undelivered = body.bytes ++ rest

theorem Expects.receives (h : c.Expects body rest i) : Receives body rest i c := by
  have hlength : c.requestData.length = 0 := by
    rw [h.requestData, List.length_nil]
  refine ⟨h.readState, h.invalid, h.request, h.awaits, ?_, ?_, ?_, ?_, ?_, h.bytes⟩
  · rw [hlength]
    exact List.length_pos_iff.2 body.nonempty
  · rw [hlength]
    exact Nat.zero_le _
  · rw [hlength, body.decoded_zero]
    exact h.lastLength
  · rw [hlength, body.decoded_zero, h.requestData, List.take_nil]
  · rw [hlength, body.state_zero]
    exact h.decoder

/-- A read or a wake-up brings bytes to the buffer, or the stream is told to close. -/
theorem Receives.readCallback (h : Receives body rest i c) {data : List Byte} (pings : Nat)
    (hdata : data <+: c.undelivered) :
    ({ c with undelivered := c.undelivered.drop data.length, pings }.readCallback data).closing = true ∨
      Receives body rest i ({ c with undelivered := c.undelivered.drop data.length, pings }.readCallback data) := by
  have hinvalid : ¬ c.invalid = true := by
    rw [h.invalid]
    decide
  unfold HttpConnection.readCallback
  rw [if_neg hinvalid]
  split
  · exact .inl rfl
  · obtain ⟨more, hmore⟩ := hdata
    refine .inr ⟨h.readState, h.invalid, h.request, h.awaits, h.before, ?_, h.lastLength, h.decoded, h.decoder, ?_⟩
    · have hread := h.read
      dsimp only
      rw [List.length_append]
      omega
    · have hbytes := h.bytes
      dsimp only
      rw [← hmore, List.drop_left, ← hbytes, ← hmore, List.append_assoc]

theorem Receives.lastLength_le (h : Receives body rest i c) : c.lastLength ≤ c.requestData.length := by
  have hlength := congrArg List.length h.decoded
  have hlast := h.lastLength
  rw [List.length_take] at hlength
  omega

/-- A turn of the loop before the whole body has come. -/
theorem Receives.partly (h : Receives body rest i c) (hbefore : c.readBuffer.length < body.bytes.length) :
    Receives body rest i (c.readChunked phr false) := by
  have hread := h.read
  have hbytes := h.bytes
  have hlast := h.lastLength
  have hdecoded := h.decoded
  have hbuffer : c.readBuffer = body.bytes.take c.readBuffer.length := by
    have htake := congrArg (List.take c.readBuffer.length) hbytes
    rwa [List.take_left, List.take_append_of_le_length (Nat.le_of_lt hbefore)] at htake
  have hle := h.lastLength_le
  obtain ⟨data, requestSize, hdecode, hdata, hsize, hmore⟩ :=
    body.partly c.requestData.length c.readBuffer.length hread hbefore
  have hadded : (c.readBuffer.drop c.requestData.length).length = c.readBuffer.length - c.requestData.length :=
    List.length_drop
  rw [← hbuffer, ← h.decoder] at hdecode
  have hcall : c.readChunked phr false = { c with
      requestData := (c.requestData ++ List.replicate (c.readBuffer.length - c.requestData.length) 0).take
        c.lastLength ++ data ++ (c.requestData ++ List.replicate (c.readBuffer.length - c.requestData.length) 0).drop
          (c.lastLength + (c.readBuffer.length - c.requestData.length))
      decoder := body.state c.readBuffer.length
      lastLength := c.lastLength + requestSize
      callback := none } := by
    unfold readChunked
    rw [if_neg Bool.false_ne_true]
    dsimp only
    rw [hdecode, hadded]
  have htake : (c.requestData ++ List.replicate (c.readBuffer.length - c.requestData.length) 0).take c.lastLength =
      body.decoded c.requestData.length := by
    rw [List.take_append_of_le_length hle, hdecoded]
  rw [hcall, htake]
  have hlength : (body.decoded c.requestData.length ++ data ++
      (c.requestData ++ List.replicate (c.readBuffer.length - c.requestData.length) 0).drop
        (c.lastLength + (c.readBuffer.length - c.requestData.length))).length = c.readBuffer.length := by
    rw [List.length_append, List.length_append, List.length_drop, List.length_append, List.length_replicate]
    omega
  refine ⟨h.readState, h.invalid, h.request, h.awaits, ?_, ?_, ?_, ?_, ?_, hbytes⟩
  · dsimp only
    rw [hlength]
    exact hbefore
  · dsimp only
    rw [hlength]
  · dsimp only
    rw [hlength, hmore, List.length_append, List.length_take]
    omega
  · dsimp only
    rw [hlength, hmore, hlast, List.append_assoc, List.take_length_add_append, List.take_append_of_le_length hsize]
  · dsimp only
    rw [hlength]

/-- The turn of the loop with the whole body. -/
theorem Receives.whole (h : Receives body rest i c) (hwhole : body.bytes.length ≤ c.readBuffer.length) :
    BodyArrived body rest i (c.readChunked phr false) ↔
      (c.exchanges[i]?.any HttpExchange.dataHandler = true ∧ body.decoded c.requestData.length = body.payload) := by
  have hbytes := h.bytes
  obtain ⟨more, hmore⟩ : body.bytes <+: c.readBuffer :=
    List.prefix_of_prefix_length_le (List.prefix_append _ _) ⟨_, hbytes⟩ hwhole
  obtain ⟨exchange, hexchange, hgiven, hpending⟩ := h.awaits
  have hrest : more ++ c.undelivered = rest := by
    rw [← hmore, List.append_assoc] at hbytes
    exact List.append_cancel_left hbytes
  have hcall : c.readChunked phr false = { c with
      exchanges := c.exchanges.modify i fun exchange => exchange.readChunks (body.decoded c.requestData.length)
      readBuffer := more
      requestData := []
      readState := .request
      lastLength := 0
      callback := continueIf (!more.isEmpty) false } := by
    have hread := h.before
    have hadded : c.readBuffer.drop c.requestData.length = body.bytes.drop c.requestData.length ++ more := by
      rw [← hmore, List.drop_append_of_le_length (Nat.le_of_lt hread)]
    have hdecode := body.whole c.requestData.length hread more
    rw [← h.decoder, ← hadded] at hdecode
    have hleft : c.readBuffer.drop (c.readBuffer.length - more.length) = more := by
      rw [← hmore, List.length_append, Nat.add_sub_cancel, List.drop_left]
    have hle := h.lastLength_le
    unfold readChunked
    rw [if_neg Bool.false_ne_true]
    dsimp only
    rw [hdecode]
    dsimp only
    rw [hleft, List.take_append_of_le_length hle, h.decoded, updateRequest, h.request]
  have hnew : (c.exchanges.modify i fun exchange => exchange.readChunks (body.decoded c.requestData.length))[i]? =
      some (exchange.readChunks (body.decoded c.requestData.length)) := by
    rw [List.getElem?_modify_eq, hexchange]
    rfl
  rw [hcall, hexchange, Option.any_some]
  constructor
  · rintro ⟨-, -, exchange', hexchange', harrived⟩
    rw [hnew] at hexchange'
    cases hexchange'
    unfold HttpExchange.readChunks at harrived
    cases hhandler : exchange.dataHandler with
    | true =>
      rw [hhandler, if_pos rfl, hgiven, hpending] at harrived
      simpa using harrived
    | false =>
      rw [hhandler, if_neg Bool.false_ne_true, hgiven, hpending] at harrived
      simp at harrived
  · rintro ⟨hhandler, hpayload⟩
    refine ⟨rfl, hrest, _, hnew, .inl ?_⟩
    rw [HttpExchange.readChunks, if_pos hhandler, hgiven, hpayload]
    rfl

/-- What holds from the head of the request to the whole body. A stream that is closed does not read. -/
def ReadsBody (body : ChunkedBody phr) (rest : List Byte) (i : Nat) (c : HttpConnection D) : Prop :=
  c.closing = true ∨ (c.closed = true ∧ c.callback = none) ∨ (c.closed = false ∧ Receives body rest i c)

/-- What is done to a request keeps it waiting. -/
theorem AwaitsBody.modify {exchanges : List HttpExchange} (h : AwaitsBody exchanges i)
    {f : HttpExchange → HttpExchange}
      (hf : ∀ exchange : HttpExchange, exchange.given = [] → exchange.pendingData = none → (f exchange).given = [] ∧
        (f exchange).pendingData = none) (j : Nat) : AwaitsBody (exchanges.modify j f) i := by
  obtain ⟨exchange, hexchange, hgiven, hpending⟩ := h
  by_cases hj : j = i
  · subst hj
    refine ⟨f exchange, ?_, hf exchange hgiven hpending⟩
    rw [List.getElem?_modify_eq, hexchange]
    rfl
  · refine ⟨exchange, ?_, hgiven, hpending⟩
    rw [List.getElem?_modify_ne _ _ hj]
    exact hexchange

theorem updateRequest_closing (c : HttpConnection D) (f : HttpExchange → HttpExchange) :
    (c.updateRequest f).closing = c.closing := by
  unfold updateRequest
  split <;> rfl

/-- A stream that has been told to close stays so. -/
theorem iterate_closing (hclosing : c.closing = true) (empty : Bool) : (c.iterate phr empty).closing = true := by
  unfold iterate
  split
  · exact hclosing
  split
  · unfold readRequest
    split
    · exact hclosing
    dsimp only
    split
    · split
      · unfold handleRequest
        dsimp only
        split
        · exact hclosing
        · split <;> exact hclosing
      · exact hclosing
    · rfl
    · exact hclosing
  · unfold readBody
    split
    · exact hclosing
    split
    · dsimp only
      rw [updateRequest_closing, hclosing]
    · exact hclosing
  · unfold readChunked
    split
    · exact hclosing
    dsimp only
    split
    · exact hclosing
    · rfl
    · dsimp only
      rw [updateRequest_closing, hclosing]

theorem readCallback_closing (hclosing : c.closing = true) (data : List Byte) :
    (c.readCallback data).closing = true := by
  unfold readCallback
  split
  · exact hclosing
  split
  · rfl
  · exact hclosing

theorem step_closing (hclosing : c.closing = true) {action : Action} (htake : step phr c action = some c') :
    c'.closing = true := by
  cases action with
  | read data =>
    obtain ⟨-, hread⟩ := Option.ite_none_right_eq_some.1 htake
    cases hread
    exact readCallback_closing (by exact hclosing) data
  | wakeUp =>
    obtain ⟨-, hwake⟩ := Option.ite_none_right_eq_some.1 htake
    cases hwake
    exact readCallback_closing (by exact hclosing) []
  | iterate =>
    obtain ⟨empty, -, rfl⟩ := Option.map_eq_some_iff.1 htake
    exact iterate_closing hclosing empty
  | endResponse i =>
    obtain ⟨-, hend⟩ := Option.ite_none_right_eq_some.1 htake
    cases hend
    exact hclosing
  | setDataHandler i =>
    obtain ⟨-, hset⟩ := Option.ite_none_right_eq_some.1 htake
    cases hset
    exact hclosing
  | close =>
    obtain ⟨-, hclose⟩ := Option.ite_none_right_eq_some.1 htake
    cases hclose
    exact hclosing

theorem iterate_chunked (hinvalid : c.invalid = false) (hstate : c.readState = .chunked) (empty : Bool) :
    c.iterate phr empty = c.readChunked phr empty := by
  unfold iterate
  rw [if_neg (by rw [hinvalid]; decide), hstate]

@[simp] theorem closed_readCallback (c : HttpConnection D) (data : List Byte) :
    (c.readCallback data).closed = c.closed := by
  unfold readCallback
  split
  · rfl
  · split <;> rfl

@[simp] theorem closed_readChunked (phr : Picohttpparser D) (c : HttpConnection D) (empty : Bool) :
    (c.readChunked phr empty).closed = c.closed := by
  unfold readChunked
  split
  · rfl
  dsimp only
  split
  · rfl
  · rfl
  · unfold updateRequest
    dsimp only
    split <;> rfl

/-- A turn of the loop for a wake-up. -/
theorem Receives.skip (h : Receives body rest i c) : Receives body rest i (c.readChunked phr true) := by
  unfold readChunked
  rw [if_pos rfl]
  exact ⟨h.readState, h.invalid, h.request, h.awaits, h.before, h.read, h.lastLength, h.decoded, h.decoder, h.bytes⟩

/-- What is done to the requests meanwhile. -/
theorem Receives.modify (h : Receives body rest i c) {f : HttpExchange → HttpExchange} {j pings : Nat} {blocked : Bool}
    (hf : ∀ exchange : HttpExchange, exchange.given = [] → exchange.pendingData = none →
      (f exchange).given = [] ∧ (f exchange).pendingData = none) :
    Receives body rest i { c with exchanges := c.exchanges.modify j f, blocked, pings } :=
  ⟨h.readState, h.invalid, h.request, h.awaits.modify hf j, h.before, h.read, h.lastLength, h.decoded,
    h.decoder, h.bytes⟩

theorem ReadsBody.step (h : ReadsBody body rest i c) {action : Action} (hbefore : Before body c action)
    (htake : HttpConnection.step phr c action = some c') : ReadsBody body rest i c' := by
  obtain hclosing | ⟨hclosed, hidle⟩ | ⟨hopen, hreceives⟩ := h
  · exact .inl (step_closing hclosing htake)
  · refine .inr (.inl ?_)
    cases action with
    | read data =>
      obtain ⟨⟨-, hopen, -⟩, -⟩ := Option.ite_none_right_eq_some.1 htake
      rw [hclosed] at hopen
      cases hopen
    | wakeUp =>
      obtain ⟨⟨-, hopen, -⟩, -⟩ := Option.ite_none_right_eq_some.1 htake
      rw [hclosed] at hopen
      cases hopen
    | iterate =>
      obtain ⟨empty, hcallback, -⟩ := Option.map_eq_some_iff.1 htake
      rw [hidle] at hcallback
      cases hcallback
    | endResponse i =>
      obtain ⟨-, hend⟩ := Option.ite_none_right_eq_some.1 htake
      cases hend
      exact ⟨hclosed, hidle⟩
    | setDataHandler i =>
      obtain ⟨-, hset⟩ := Option.ite_none_right_eq_some.1 htake
      cases hset
      exact ⟨hclosed, hidle⟩
    | close =>
      obtain ⟨⟨-, hopen, -⟩, -⟩ := Option.ite_none_right_eq_some.1 htake
      rw [hclosed] at hopen
      cases hopen
  · cases action with
    | read data =>
      obtain ⟨⟨-, -, -, hdata⟩, hread⟩ := Option.ite_none_right_eq_some.1 htake
      cases hread
      obtain hclosing | hnext := hreceives.readCallback c.pings hdata
      · exact .inl hclosing
      · refine .inr (.inr ⟨?_, hnext⟩)
        rw [closed_readCallback]
        exact hopen
    | wakeUp =>
      obtain ⟨-, hwake⟩ := Option.ite_none_right_eq_some.1 htake
      cases hwake
      obtain hclosing | hnext := hreceives.readCallback (c.pings - 1) List.nil_prefix
      · exact .inl hclosing
      · refine .inr (.inr ⟨?_, hnext⟩)
        rw [closed_readCallback]
        exact hopen
    | iterate =>
      obtain ⟨empty, hcallback, rfl⟩ := Option.map_eq_some_iff.1 htake
      rw [iterate_chunked hreceives.invalid hreceives.readState]
      refine .inr (.inr ⟨(closed_readChunked phr c empty).trans hopen, ?_⟩)
      cases empty with
      | false => exact hreceives.partly (hbefore rfl hcallback)
      | true => exact hreceives.skip
    | endResponse j =>
      obtain ⟨-, hend⟩ := Option.ite_none_right_eq_some.1 htake
      cases hend
      refine .inr (.inr ⟨hopen, hreceives.modify fun exchange hgiven hpending => ⟨hgiven, hpending⟩⟩)
    | setDataHandler j =>
      obtain ⟨-, hset⟩ := Option.ite_none_right_eq_some.1 htake
      cases hset
      refine .inr (.inr ⟨hopen, hreceives.modify fun exchange hgiven hpending => ?_⟩)
      rw [HttpExchange.setDataHandler, hpending]
      exact ⟨hgiven, rfl⟩
    | close =>
      obtain ⟨⟨hidle, -⟩, hclose⟩ := Option.ite_none_right_eq_some.1 htake
      cases hclose
      exact .inr (.inl ⟨rfl, hidle⟩)

/-- From the head of a request on, in any run up to a turn of the loop with the whole body in the buffer: that turn
gives the payload to the request and leaves what is behind the body, if and only if it is that of a read, there
is a data handler, and the turns before it have decoded the payload already. -/
theorem chunkedBody_iff {c₀ : HttpConnection D} (hstart : c₀.Expects body rest i) {actions : List Action}
    (hrun : Run (step phr) (Before body) c₀ actions c) (hopen : c.closing = false)
    (hcallback : c.callback = some empty)
    (hwhole : body.bytes.length ≤ c.readBuffer.length) :
    BodyArrived body rest i (c.iterate phr empty) ↔
      (empty = false ∧ c.exchanges[i]?.any HttpExchange.dataHandler = true ∧
        body.decoded c.requestData.length = body.payload) := by
  have hreading : ReadsBody body rest i c :=
    hrun.invariant (ReadsBody body rest i) (.inr (.inr ⟨hstart.closed, hstart.receives⟩)) fun h hok htake =>
      h.step hok htake
  have hreceives : Receives body rest i c := by
    obtain hclosing | ⟨-, hidle⟩ | ⟨-, hreceives⟩ := hreading
    · rw [hopen] at hclosing
      cases hclosing
    · rw [hcallback] at hidle
      cases hidle
    · exact hreceives
  rw [iterate_chunked hreceives.invalid hreceives.readState]
  cases empty with
  | false =>
    rw [hreceives.whole hwhole]
    exact (and_iff_right rfl).symm
  | true =>
    refine iff_of_false (fun harrived => ?_) (fun h => nomatch h.1)
    have hstate := harrived.readState
    rw [hreceives.skip.readState] at hstate
    cases hstate

instance decidableBefore (body : ChunkedBody phr) (c : HttpConnection D) (action : Action) :
    Decidable (Before body c action) :=
  inferInstanceAs (Decidable (_ → _ → _))

/-- A chunk of two bytes, and the last chunk. -/
def sampleChunks : List Byte := chars "2\r\nhi\r\n0\r\n\r\n"

def sampleDecoded (n : Nat) : List Byte := ((sampleChunks.take n).drop 3).take 2

/-- A decoder for this body. Its state is the number of bytes. -/
def sampleDecoder : Picohttpparser Nat where
  phr_parse_request _ _ := .incomplete
  phr_decode_chunked n data :=
    let decoded := (sampleDecoded (n + data.length)).drop (sampleDecoded n).length
    if n + data.length < sampleChunks.length then
      .incomplete (n + data.length) (decoded ++ data.drop decoded.length) decoded.length
    else .done (n + data.length - sampleChunks.length)
  decoder := 0

theorem sampleDecoded_append : ∀ m < 12, ∀ n ≤ m, ((sampleDecoded m).drop (sampleDecoded n).length).length ≤ m - n ∧
    sampleDecoded m = sampleDecoded n ++ (sampleDecoded m).drop (sampleDecoded n).length := by decide

def sampleBody : ChunkedBody sampleDecoder where
  bytes := sampleChunks
  chunks := [chars "hi"]
  decoded := sampleDecoded
  state n := n
  state_zero := rfl
  decoded_zero := rfl
  decoded_length := by decide
  nonempty := by decide
  partly n m hn hm := by
    obtain ⟨hle, happend⟩ := sampleDecoded_append m hm n hn
    have hlength : ((sampleChunks.take m).drop n).length = m - n := by
      rw [List.length_drop, List.length_take, Nat.min_eq_left (Nat.le_of_lt hm)]
    have hsum : n + (m - n) = m := Nat.add_sub_cancel' hn
    generalize hnew : (sampleDecoded m).drop (sampleDecoded n).length = new at hle happend
    refine ⟨new ++ ((sampleChunks.take m).drop n).drop new.length, new.length, ?_, ?_, ?_, ?_⟩
    · simp only [sampleDecoder, hlength, hsum, hnew]
      rw [if_pos hm]
    · rw [List.length_append, List.length_drop, hlength]
      omega
    · rw [List.length_append]
      exact Nat.le_add_right _ _
    · rw [List.take_left]
      exact happend
  whole n hn more := by
    have hlength : n + (sampleChunks.drop n ++ more).length = sampleChunks.length + more.length := by
      rw [List.length_append, List.length_drop]
      omega
    simp only [sampleDecoder, hlength]
    rw [if_neg (by omega), Nat.add_sub_cancel_left]

def sampleUpload : HttpRequest where
  httpVersionMinor := 1
  requestMethod := chars "POST"
  path := chars "/"
  headerList := [(chars "Transfer-Encoding", chars "chunked")]

/-- A connection that expects this body, with a data handler for it. -/
def sampleExpecting : HttpConnection Nat where
  readState := .chunked
  decoder := 0
  request := some 0
  contentLength := -1
  exchanges := [{ request := sampleUpload, disableKeepAlive := false, dataHandler := true }]
  undelivered := sampleChunks

theorem sampleExpecting_expects : sampleExpecting.Expects sampleBody [] 0 :=
  ⟨rfl, rfl, rfl, rfl, ⟨_, rfl, rfl, rfl⟩, rfl, rfl, rfl, rfl⟩

/-- The last chunk comes by itself. -/
theorem chunkedBody_sample : ∃ actions c, Run (step sampleDecoder) (Before sampleBody) sampleExpecting actions c ∧
    BodyArrived sampleBody [] 0 (c.iterate sampleDecoder false) := by
  have hend : (exec (fun c a => if decide (Before sampleBody c a) then step sampleDecoder c a
      else none) sampleExpecting [.read (chars "2\r\nhi\r\n"), .iterate, .read (chars "0\r\n\r\n")]).any
        (fun c => decide (c.closing = false ∧ c.callback = some false ∧ sampleChunks.length ≤ c.readBuffer.length ∧
        c.exchanges[0]?.any HttpExchange.dataHandler = true ∧
        sampleBody.decoded c.requestData.length = sampleBody.payload)) = true := by decide
  obtain ⟨c, hrun, htest⟩ := exists_checked (fun _ _ => of_decide_eq_true) hend
  obtain ⟨hopen, hcallback, hwhole, hhandler, hdecoded⟩ := of_decide_eq_true htest
  exact ⟨_, c, hrun, (chunkedBody_iff sampleExpecting_expects hrun hopen hcallback hwhole).2 ⟨rfl, hhandler, hdecoded⟩⟩

/-- The body comes in one read, and its data handler gets nothing. -/
theorem oneRead_loses : ∃ c, Run (step sampleDecoder) (Before sampleBody) sampleExpecting [.read sampleChunks] c ∧
    c.closing = false ∧ c.callback = some false ∧ ¬ BodyArrived sampleBody [] 0 (c.iterate sampleDecoder false) ∧
    (c.iterate sampleDecoder false).exchanges.map HttpExchange.given = [[[]]] := by
  have hend : (exec (fun c a => if decide (Before sampleBody c a) then step sampleDecoder c a
      else none) sampleExpecting [.read sampleChunks]).any
        (fun c => decide ((c.closing = false ∧ c.callback = some false) ∧
          (c.iterate sampleDecoder false).exchanges.map HttpExchange.given = [[[]]] ∧
        (c.iterate sampleDecoder false).exchanges.map HttpExchange.pendingData = [none])) = true := by decide
  obtain ⟨c, hrun, htest⟩ := exists_checked (fun _ _ => of_decide_eq_true) hend
  obtain ⟨⟨hopen, hcallback⟩, hgiven, hpending⟩ := of_decide_eq_true htest
  refine ⟨c, hrun, hopen, hcallback, fun harrived => ?_, hgiven⟩
  obtain ⟨exchange, hexchange, hgot⟩ := harrived.given
  have hmap := congrArg (fun l : List (List (List Byte)) => l[0]?) hgiven
  have hmap' := congrArg (fun l : List (Option (List Byte)) => l[0]?) hpending
  rw [List.getElem?_map, hexchange] at hmap hmap'
  obtain hgot | hgot := hgot
  · rw [Option.map_some, hgot] at hmap
    revert hmap
    decide
  · rw [Option.map_some, hgot] at hmap'
    revert hmap'
    decide

/-- The turn of the loop that finds the head of the request brings the connection there. -/
theorem handleRequest_expects {size : Nat} {request : HttpRequest} (hinvalid : c.invalid = false)
    (hclosed : c.closed = false) (hdata : c.requestData = []) (hlength : ¬ 0 < request.contentLength)
    (hchunked : request.chunked = true)
    (hbytes : c.readBuffer.drop size ++ c.undelivered = body.bytes ++ rest) :
    (c.handleRequest phr empty size request).Expects body rest c.exchanges.length := by
  unfold handleRequest
  dsimp only
  rw [if_neg hlength, if_pos hchunked]
  refine ⟨rfl, hinvalid, hclosed, rfl, ⟨_, List.getElem?_concat_length, rfl, rfl⟩, hdata, rfl, rfl, hbytes⟩

end HttpConnection

end net
