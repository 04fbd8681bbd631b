import Citizen.HttpServer.Basic
import Citizen.Lib.Transition

open Bits

namespace net

inductive HttpConnectionReadState
  | request
  | body
  | chunked
  deriving DecidableEq

/-- `HttpConnectionData` and `HttpState`, with the requests given to the handlers, and the tasks of the stream. -/
structure HttpConnection (D : Type*) where
  readState : HttpConnectionReadState := .request
  readBuffer : List Byte := []
  requestData : List Byte := []
  lastLength : Nat := 0
  decoder : D
  /-- The place of the request in `exchanges`. -/
  request : Option Nat := none
  contentLength : Int := 0
  pipelineLength : Nat := 0
  invalid : Bool := false
  blocked : Bool := false
  exchanges : List HttpExchange := []
  /-- The read callback is running, and whether its data is empty. -/
  callback : Option Bool := none
  /-- The wake-ups that are scheduled. -/
  pings : Nat := 0
  /-- `Close` has been called on the stream, without a response. -/
  closing : Bool := false
  closed : Bool := false
  /-- The bytes that the client has sent and the stream has not read. -/
  undelivered : List Byte

namespace HttpConnection

variable {D : Type*}

def limit : Nat := 1024 * 1024 * 5

/-- The read callback, up to its loop. -/
def readCallback (c : HttpConnection D) (data : List Byte) : HttpConnection D :=
  if c.invalid then c
  else if limit < c.readBuffer.length + data.length then
    { c with readBuffer := c.readBuffer ++ List.replicate data.length 0, closing := true }
  else { c with readBuffer := c.readBuffer ++ data, callback := some data.isEmpty }

/-- The loop goes on while `continueProcessing` holds. -/
def continueIf (continueProcessing empty : Bool) : Option Bool := if continueProcessing then some empty else none

/-- The parser is not called without data. -/
def parse (phr : Picohttpparser D) (c : HttpConnection D) : ParseResult :=
  if c.readBuffer = [] then .incomplete else phr.phr_parse_request c.readBuffer c.lastLength

/-- A request that was parsed is given to the handlers. `HasEnded` is false: an `Http1Response` never sets
`m_ended`. -/
def handleRequest (phr : Picohttpparser D) (c : HttpConnection D) (empty : Bool) (size : Nat) (request : HttpRequest) :
    HttpConnection D :=
  let readBuffer := c.readBuffer.drop size
  let c := { c with
    readBuffer
    lastLength := 0
    blocked := true
    request := some c.exchanges.length
    exchanges := c.exchanges ++ [{ request, disableKeepAlive := decide (10 < c.pipelineLength) }]
    callback := continueIf (!readBuffer.isEmpty) empty }
  if 0 < request.contentLength then { c with contentLength := request.contentLength, readState := .body }
  else if request.chunked then { c with contentLength := -1, readState := .chunked, decoder := phr.decoder }
  else c

/-- The loop in `ReadStateRequest`. -/
def readRequest (phr : Picohttpparser D) (c : HttpConnection D) (empty : Bool) : HttpConnection D :=
  if c.blocked then { c with callback := none }
  else
    let result := c.parse phr
    let c := { c with pipelineLength := c.pipelineLength + 1 }
    match result with
    | .request size request => if 0 < size then c.handleRequest phr empty size request else c
    | .error => { c with invalid := true, closing := true, callback := none }
    | .incomplete => { c with lastLength := c.readBuffer.length, callback := none }

/-- The request that is being read gets its body. -/
def updateRequest (c : HttpConnection D) (f : HttpExchange → HttpExchange) : HttpConnection D :=
  match c.request with
  | some i => { c with exchanges := c.exchanges.modify i f }
  | none => c

/-- The loop in `ReadStateBody`. -/
def readBody (c : HttpConnection D) (empty : Bool) : HttpConnection D :=
  if empty then { c with callback := none }
  else if c.contentLength.toNat ≤ c.readBuffer.length then
    let requestData := c.readBuffer.take c.contentLength.toNat
    let readBuffer := c.readBuffer.drop c.contentLength.toNat
    { c.updateRequest fun exchange => exchange.readBody requestData with
      readBuffer
      readState := .request
      callback := continueIf (!readBuffer.isEmpty) empty }
  else { c with callback := none }

/-- The loop in `ReadStateChunked`. -/
def readChunked (phr : Picohttpparser D) (c : HttpConnection D) (empty : Bool) : HttpConnection D :=
  if empty then { c with callback := none }
  else
    let added := c.readBuffer.drop c.requestData.length
    let requestData := c.requestData ++ List.replicate added.length 0
    match phr.phr_decode_chunked c.decoder added with
    | .incomplete decoder data requestSize =>
      { c with
        requestData := requestData.take c.lastLength ++ data ++ requestData.drop (c.lastLength + added.length)
        decoder
        lastLength := c.lastLength + requestSize
        callback := none }
    | .error => { c with invalid := true, closing := true, callback := none }
    | .done left =>
      let readBuffer := c.readBuffer.drop (c.readBuffer.length - left)
      { c.updateRequest fun exchange => exchange.readChunks (requestData.take c.lastLength) with
        readBuffer
        requestData := []
        readState := .request
        lastLength := 0
        callback := continueIf (!readBuffer.isEmpty) empty }

/-- The loop once. -/
def iterate (phr : Picohttpparser D) (c : HttpConnection D) (empty : Bool) : HttpConnection D :=
  if c.invalid then { c with callback := none }
  else
    match c.readState with
    | .request => c.readRequest phr empty
    | .body => c.readBody empty
    | .chunked => c.readChunked phr empty

/-- `Http1Response::End`. The stream clears `ping` when it closes. -/
def endResponse (c : HttpConnection D) (i : Nat) : HttpConnection D :=
  { c with
    exchanges := c.exchanges.modify i .endResponse
    blocked := false
    pings := if c.blocked ∧ ¬ c.closed then c.pings + 1 else c.pings }

def setDataHandler (c : HttpConnection D) (i : Nat) : HttpConnection D :=
  { c with exchanges := c.exchanges.modify i .setDataHandler }

/-- The stream closes after `Close`, or after the end of a response that says so. -/
def Closes (c : HttpConnection D) : Prop := c.closing = true ∨ ∃ exchange ∈ c.exchanges, exchange.ended ∧
    exchange.closes

instance (c : HttpConnection D) : Decidable c.Closes := inferInstanceAs (Decidable (_ ∨ _))

/-- What happens on a connection. The handlers of a request, and their calls of `End` and `SetDataHandler`, come
after the turn of the loop that calls them and before any other. -/
inductive Action
  | read (data : List Byte)
  | wakeUp
  | iterate
  | endResponse (i : Nat)
  | setDataHandler (i : Nat)
  | close
  deriving DecidableEq

/-- A step of a connection whose read callbacks are not empty, and whose responses are ended once each. -/
def step (phr : Picohttpparser D) (c : HttpConnection D) : Action → Option (HttpConnection D)
  | .read data =>
    if c.callback = none ∧ c.closed = false ∧ data ≠ [] ∧ data <+: c.undelivered then
      some ({ c with undelivered := c.undelivered.drop data.length }.readCallback data)
    else none
  | .wakeUp =>
    if c.callback = none ∧ c.closed = false ∧ 0 < c.pings then some ({ c with pings := c.pings - 1 }.readCallback [])
    else none
  | .iterate => c.callback.map fun empty => c.iterate phr empty
  | .endResponse i => if (c.exchanges[i]?).any fun exchange => !exchange.ended then some (c.endResponse i) else none
  | .setDataHandler i => if i < c.exchanges.length then some (c.setDataHandler i) else none
  | .close =>
    if c.callback = none ∧ c.closed = false ∧ c.Closes then some { c with closed := true, request := none } else none

/-- A connection whose client is going to send these bytes. -/
def start (phr : Picohttpparser D) (stream : List Byte) : HttpConnection D :=
  { decoder := phr.decoder, undelivered := stream }

/-- Every response has ended and nothing more is going to be read: all bytes have been, or the stream is closed. -/
def Settled (c : HttpConnection D) : Prop :=
  c.callback = none ∧ (c.closed = true ∨ c.undelivered = [] ∧ c.pings = 0) ∧
    ∀ exchange ∈ c.exchanges, exchange.ended = true

instance (c : HttpConnection D) : Decidable c.Settled := inferInstanceAs (Decidable (_ ∧ _ ∧ _))

/-- What a parse finds can be handled in time: the parses that found nothing have not brought the counter to 10
before the requests have, and after the last read no wake-up finds a request with all of a body. -/
def InTime (c : HttpConnection D) : ParseResult → Prop
  | .request size request =>
    (c.pipelineLength < 10 ∨ 10 ≤ c.exchanges.length ∨ request.closes = true) ∧
      (c.callback = some true → c.undelivered = [] → 0 < request.contentLength →
        c.readBuffer.length < size + request.contentLength.toNat)
  | _ => True

instance (c : HttpConnection D) : (result : ParseResult) → Decidable (c.InTime result)
  | .request _ _ => inferInstanceAs (Decidable (_ ∧ _))
  | .incomplete => .isTrue trivial
  | .error => .isTrue trivial

/-- The loop parses in time, and the stream closes when nothing is left to handle. -/
def Orderly (phr : Picohttpparser D) (c : HttpConnection D) (action : Action) : Prop :=
  (action = .iterate → c.readState = .request → c.blocked = false → c.InTime (c.parse phr)) ∧
    (action = .close → c.undelivered = [] ∧ c.readBuffer = [])

instance (phr : Picohttpparser D) (c : HttpConnection D) (action : Action) : Decidable (c.Orderly phr action) :=
  inferInstanceAs (Decidable (_ ∧ _))

end HttpConnection

end net
