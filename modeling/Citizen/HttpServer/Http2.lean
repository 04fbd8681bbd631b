import Citizen.HttpServer.Basic
import Citizen.Lib.Transition

open Bits Transition

namespace net

/-- A request that was passed to the handlers, with its response. -/
structure Http2Exchange extends HttpExchange where
  /-- `End` has been called on the response. It sets `m_ended` at once, or in a callback that it schedules. -/
  answered : Bool := false
  deriving DecidableEq

/-- What a handler does to the request and the response in `HandleRequest`. -/
inductive Effect
  | setDataHandler
  /-- `End`. It sets `m_ended` at once if `performInline` holds, as `CloseSocket` does. -/
  | endResponse (performInline : Bool)
  deriving DecidableEq

/-- A call of `HandleRequest`, and what it returns. -/
structure HandlerResult where
  effects : List Effect
  handled : Bool
  deriving DecidableEq

namespace Http2Exchange

/-- What `on_frame_recv` makes of a request. -/
def ofRequest (request : HttpRequest) : Http2Exchange := { request, disableKeepAlive := false }

/-- `SetDataHandler` with a handler. -/
def setDataHandler (exchange : Http2Exchange) : Http2Exchange :=
  { exchange with toHttpExchange := exchange.toHttpExchange.setDataHandler }

def endResponse (exchange : Http2Exchange) (performInline : Bool) : Http2Exchange :=
  { exchange with answered := true, ended := exchange.ended || performInline }

/-- The callback that `End` scheduled. -/
def scheduledEnd (exchange : Http2Exchange) : Http2Exchange :=
    { exchange with ended := exchange.ended || exchange.answered }

/-- The whole body is there: a data handler gets it, or `SetPendingData` keeps it. -/
def readBody (exchange : Http2Exchange) (body : List Byte) : Http2Exchange :=
  { exchange with toHttpExchange := exchange.toHttpExchange.readBody body }

def apply (exchange : Http2Exchange) : Effect → Http2Exchange
  | .setDataHandler => exchange.setDataHandler
  | .endResponse performInline => exchange.endResponse performInline

/-- The handlers, up to one that handles the request or ends the response. -/
def handleRequest (exchange : Http2Exchange) : List HandlerResult → Http2Exchange
  | [] => exchange
  | result :: results =>
    let exchange := result.effects.foldl apply exchange
    if result.handled || exchange.ended then exchange else exchange.handleRequest results

end Http2Exchange

namespace h2

/-- The frames that can end a stream. -/
inductive FrameType
  | headers | data
  deriving DecidableEq

/-- What nghttp2 has received on a stream. -/
structure Stream where
  /-- The bytes of the DATA frames. -/
  data : List Byte := []
  /-- The frame that came with END_STREAM. -/
  ended : Option FrameType := none
  closed : Bool := false
  deriving DecidableEq

/-- `HttpRequestData`. A request and its response are referred to by their number among those of the stream. -/
structure HttpRequestData where
  headers : List (List Byte × List Byte)
  body : List Byte := []
  httpReq : Option Nat := none
  httpResp : Option Nat := none
  deriving DecidableEq

/-- The request that the headers of a stream make. Its version is 2.0. -/
def HttpRequestData.request (req : HttpRequestData) : HttpRequest :=
  req.headers.foldl (fun (request : HttpRequest) (name, value) =>
    if name.headD 0 ≠ 58 then { request with headerList := request.headerList ++ [(name, value)] }
    else if name = chars ":authority" then { request with headerList := request.headerList ++ [(chars "host", value)] }
    else if name = chars ":method" then { request with requestMethod := value }
    else if name = chars ":path" then { request with path := value }
    else request) { httpVersionMinor := 0, requestMethod := [], path := [], headerList := [] }

/-- A stream of the connection, with its user data and the requests that were passed to the handlers. -/
structure StreamState where
  stream : Option Stream := none
  userData : Option HttpRequestData := none
  exchanges : List Http2Exchange := []
  deriving DecidableEq

/-- What nghttp2 reports of a stream, and what the handlers do later. -/
inductive Event
  /-- A HEADERS frame with its fields, and what the handlers would do with the request. -/
  | headers (fields : List (List Byte × List Byte)) (endStream : Bool) (results : List HandlerResult)
  /-- A part of the bytes of a DATA frame. -/
  | dataChunk (data : List Byte)
  /-- The end of a DATA frame. -/
  | data (endStream : Bool)
  /-- RST_STREAM, or the end of both sides. -/
  | close
  | setDataHandler (i : Nat)
  | endResponse (i : Nat) (performInline : Bool)
  | scheduledEnd (i : Nat)
  deriving DecidableEq

namespace StreamState

variable (s : StreamState)

/-- `on_begin_headers` and `on_header`, which leave trailers alone. nghttp2 passes on a first HEADERS frame, and one
more, with END_STREAM. -/
def onHeaders (fields : List (List Byte × List Byte)) (endStream : Bool) : Option StreamState :=
  let ended := if endStream then some FrameType.headers else none
  match s.stream with
  | none => some { s with stream := some { ended }, userData := some { headers := fields } }
  | some stream =>
    if stream.closed = false ∧ stream.ended = none ∧ endStream
      then some { s with stream := some { stream with ended } }
    else none

/-- `on_frame_recv` of a HEADERS frame. -/
def onHeadersRecv (results : List HandlerResult) : StreamState :=
  match s.userData with
  | none => s
  | some req =>
    let exchange := (Http2Exchange.ofRequest req.request).handleRequest results
    let number := s.exchanges.length
    { s with
      userData := some { req with
        httpResp := some number
        httpReq := if exchange.ended then req.httpReq else some number }
      exchanges := s.exchanges ++ [exchange] }

/-- `on_data_chunk_recv`. -/
def onDataChunk (data : List Byte) : Option StreamState :=
  match s.stream with
  | none => none
  | some stream =>
    if stream.closed = false ∧ stream.ended = none then
      some { s with
        stream := some { stream with data := stream.data ++ data }
        userData := s.userData.map fun req => { req with body := req.body ++ data } }
    else none

/-- `on_frame_recv` of a DATA frame with END_STREAM. It reads the user data without a check. -/
def onEndStream : Option StreamState :=
  match s.userData with
  | none => none
  | some req =>
    match req.httpReq with
    | none => some s
    | some i => some { s with exchanges := s.exchanges.modify i (·.readBody req.body) }

/-- A DATA frame ends. -/
def onData (endStream : Bool) : Option StreamState :=
  match s.stream with
  | none => none
  | some stream =>
    if stream.closed = false ∧ stream.ended = none then
      if endStream then
        StreamState.onEndStream { s with stream := some { stream with ended := some .data } }
      else some s
    else none

/-- `on_stream_close`. -/
def onStreamClose : Option StreamState :=
  match s.stream with
  | none => none
  | some stream =>
    if stream.closed then none else some { s with stream := some { stream with closed := true }, userData := none }

/-- An event of the stream. -/
def step : Event → Option StreamState
  | .headers fields endStream results => (s.onHeaders fields endStream).map (·.onHeadersRecv results)
  | .dataChunk data => s.onDataChunk data
  | .data endStream => s.onData endStream
  | .close => s.onStreamClose
  | .setDataHandler i => some { s with exchanges := s.exchanges.modify i .setDataHandler }
  | .endResponse i performInline => some { s with exchanges := s.exchanges.modify i (·.endResponse performInline) }
  | .scheduledEnd i => some { s with exchanges := s.exchanges.modify i .scheduledEnd }

/-- The data handler of a request is called only with the bytes of its stream, once, after the client has ended the
stream, and it has been called then if the request is not answered. -/
def Served (stream : Stream) (exchange : Http2Exchange) : Prop :=
  (exchange.given ≠ [] → exchange.listens ∧ stream.ended.isSome ∧ exchange.given = [stream.data]) ∧
    (exchange.answered = false → exchange.listens → stream.ended.isSome → exchange.given = [stream.data])

instance (stream : Stream) (exchange : Http2Exchange) : Decidable (Served stream exchange) :=
  inferInstanceAs (Decidable (_ ∧ _))

/-- The request of a stream is passed to the handlers once, and served. -/
def Handled : Prop :=
  match s.stream with
  | none => s.exchanges = []
  | some stream => s.exchanges.length = 1 ∧ ∀ exchange ∈ s.exchanges, Served stream exchange

instance : Decidable s.Handled :=
  match h : s.stream with
  | none => decidable_of_iff (s.exchanges = []) (by rw [Handled, h])
  | some stream =>
    let _ := List.decidableBAll (Served stream) s.exchanges
    decidable_of_iff (s.exchanges.length = 1 ∧ ∀ exchange ∈ s.exchanges, Served stream exchange) (by rw [Handled, h])

/-- An event that the callbacks deal with as they should: there are no trailers, and where the HEADERS frame ends
the stream, no data handler is set on the request while it is unanswered. -/
def Allowed : Event → Prop
  | .headers fields endStream results => s.stream = none ∧
    (endStream →
      let exchange := (Http2Exchange.ofRequest (HttpRequestData.request { headers := fields })).handleRequest results
      exchange.listens → exchange.answered)
  | .setDataHandler i => ∀ exchange, s.exchanges[i]? = some exchange →
    (s.stream.bind Stream.ended) ≠ some .headers ∨ exchange.answered
  | _ => True

end StreamState

end h2

end net
