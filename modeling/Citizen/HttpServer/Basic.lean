import Citizen.Lib.Bits

open Bits

namespace net

/-- The characters of a string literal. -/
def chars (s : String) : List Byte := s.toList.map fun c => BitVec.ofNat 8 c.toNat

/-- `ToLower`, and `tolower` in the C locale. -/
def toLower (c : Byte) : Byte := if 65 ≤ c.toNat ∧ c.toNat ≤ 90 then c + 32 else c

/-- `_strnicmp` finds no difference in the first `n` characters. Both strings end in a zero. -/
def strnicmp : List Byte → List Byte → Nat → Bool
  | _, _, 0 => true
  | left, right, n + 1 =>
    let a := left.headD 0
    toLower a == toLower (right.headD 0) && (a == 0 || strnicmp left.tail right.tail n)

/-- `atoi`. -/
def atoi (s : List Byte) : Int :=
  let s := s.dropWhile fun c => c.toNat = 32 ∨ (9 ≤ c.toNat ∧ c.toNat ≤ 13)
  let negative := s.head? = some 45
  let digits := (if negative ∨ s.head? = some 43 then s.tail else s).takeWhile fun c => 48 ≤ c.toNat ∧ c.toNat ≤ 57
  let value : Nat := digits.foldl (fun n c => 10 * n + (c.toNat - 48)) 0
  if negative then -value else value

/-- What an `HttpRequest` is made from. The major version is 1. -/
structure HttpRequest where
  httpVersionMinor : Nat
  requestMethod : List Byte
  path : List Byte
  headerList : List (List Byte × List Byte)
  deriving DecidableEq

namespace HttpRequest

/-- `GetHeader`: the first header of that name, in the order of insertion. -/
def getHeader (request : HttpRequest) (key default : List Byte) : List Byte :=
  ((request.headerList.find? fun header => header.1.map toLower == key.map toLower).map Prod.snd).getD default

def contentLength (request : HttpRequest) : Int := atoi (request.getHeader (chars "content-length") (chars "0"))

def chunked (request : HttpRequest) : Bool := request.getHeader (chars "transfer-encoding") [] == chars "chunked"

/-- The client does not ask to keep the connection. -/
def closes (request : HttpRequest) : Bool :=
  let requestConnection := request.getHeader (chars "connection") (chars "keep-alive")
  !strnicmp requestConnection (chars "keep-alive") requestConnection.length

end HttpRequest

/-- A request with its response. -/
structure HttpExchange where
  request : HttpRequest
  disableKeepAlive : Bool
  /-- `End` has been called on the response. -/
  ended : Bool := false
  /-- `SetDataHandler` has been called on the request. -/
  listens : Bool := false
  dataHandler : Bool := false
  pendingData : Option (List Byte) := none
  /-- What data handlers have been called with. -/
  given : List (List Byte) := []
  deriving DecidableEq

namespace HttpExchange

/-- The `Connection` header that `WriteHead` sends is `close`, and `End` closes the stream. -/
def closes (exchange : HttpExchange) : Bool := exchange.request.closes || exchange.disableKeepAlive

/-- `End`, as far as the response goes. -/
def endResponse (exchange : HttpExchange) : HttpExchange := { exchange with ended := true }

/-- `SetDataHandler` with a handler. -/
def setDataHandler (exchange : HttpExchange) : HttpExchange :=
  match exchange.pendingData with
  | some data => { exchange with listens := true, pendingData := none, given := exchange.given ++ [data] }
  | none => { exchange with listens := true, dataHandler := true }

/-- A body for the data handler, or for one that is set later. -/
def readBody (exchange : HttpExchange) (requestData : List Byte) : HttpExchange :=
  if exchange.dataHandler then { exchange with dataHandler := false, given := exchange.given ++ [requestData] }
  else { exchange with pendingData := some requestData }

/-- A body that was sent in chunks. -/
def readChunks (exchange : HttpExchange) (requestData : List Byte) : HttpExchange :=
  if exchange.dataHandler then { exchange with dataHandler := false, given := exchange.given ++ [requestData] }
  else exchange

end HttpExchange

/-- What `phr_parse_request` finds: -2, -1, or a request and the number of its bytes. -/
inductive ParseResult
  | incomplete
  | error
  | request (size : Nat) (request : HttpRequest)
  deriving DecidableEq

/-- What `phr_decode_chunked` finds: -2, -1, or the number of bytes that follow. It decodes in place and counts the
bytes. -/
inductive ChunkResult (D : Type*)
  | incomplete (decoder : D) (data : List Byte) (requestSize : Nat)
  | error
  | done (left : Nat)

/-- picohttpparser, with a type for its `phr_chunked_decoder`. -/
structure Picohttpparser (D : Type*) where
  phr_parse_request : List Byte → Nat → ParseResult
  phr_decode_chunked : D → List Byte → ChunkResult D
  /-- The decoder that the code starts with. -/
  decoder : D

/-- The bytes that a parse is told to have seen are an incomplete request. -/
def SeenIncomplete {D : Type*} (phr : Picohttpparser D) (buffer : List Byte) (lastLength : Nat) : Prop :=
  lastLength ≤ buffer.length ∧
    (lastLength = 0 ∨ phr.phr_parse_request (buffer.take lastLength) 0 = .incomplete)

theorem SeenIncomplete.append {D : Type*} {phr : Picohttpparser D} {buffer : List Byte} {lastLength : Nat}
    (h : SeenIncomplete phr buffer lastLength) (more : List Byte) :
    SeenIncomplete phr (buffer ++ more) lastLength := by
  obtain ⟨hle, hseen⟩ := h
  refine ⟨?_, ?_⟩
  · rw [List.length_append]
    omega
  · rw [List.take_append_of_le_length hle]
    exact hseen

/-- A parse does not depend on how much was seen by one that was incomplete. -/
structure Picohttpparser.Lawful {D : Type*} (phr : Picohttpparser D) : Prop where
  incremental : ∀ buffer lastLength, SeenIncomplete phr buffer lastLength →
    phr.phr_parse_request buffer 0 ≠ .error →
    phr.phr_parse_request buffer lastLength = phr.phr_parse_request buffer 0

/-- The bytes of a request, with the body that its `Content-Length` announces. -/
structure PipelinedRequest {D : Type*} (phr : Picohttpparser D) where
  head : List Byte
  request : HttpRequest
  body : List Byte
  /-- The head is a request, whatever follows it. -/
  parsed : ∀ more, phr.phr_parse_request (head ++ more) 0 = .request head.length request
  /-- A part of it is an incomplete one. -/
  partly : ∀ n < head.length, phr.phr_parse_request (head.take n) 0 = .incomplete
  nonempty : head ≠ []
  length : request.contentLength.toNat = body.length
  unchunked : body = [] → request.chunked = false

namespace PipelinedRequest

variable {D : Type*} {phr : Picohttpparser D}

def bytes (unit : PipelinedRequest phr) : List Byte := unit.head ++ unit.body

/-- The bytes of pipelined requests. -/
def stream (units : List (PipelinedRequest phr)) : List Byte := units.flatMap bytes

@[simp] theorem stream_nil : stream ([] : List (PipelinedRequest phr)) = [] := rfl

@[simp] theorem stream_cons (unit : PipelinedRequest phr) (units : List (PipelinedRequest phr)) :
    stream (unit :: units) = unit.head ++ (unit.body ++ stream units) := by
  rw [stream, List.flatMap_cons, bytes, List.append_assoc]
  rfl

theorem contentLength_pos {unit : PipelinedRequest phr} : 0 < unit.request.contentLength ↔ unit.body ≠ [] := by
  rw [← List.length_pos_iff, ← unit.length]
  omega

theorem head_pos (unit : PipelinedRequest phr) : 0 < unit.head.length := List.length_pos_iff.mpr unit.nonempty

end PipelinedRequest

end net
