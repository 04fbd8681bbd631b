import Citizen.HttpServer.Basic
import Citizen.Lib.Chunked

open Bits Chunked

namespace net

/-- What `HeaderComparator` compares of a name. Characters are signed. -/
def headerKey (name : List Byte) : List Int := name.map fun c => (toLower c).toInt

/-- A header with its value. -/
abbrev Field := List Byte × List Byte

theorem sorted_nil : ([] : List Field).Pairwise fun before after => headerKey before.1 ≤ headerKey after.1 := .nil

/-- The fields are in the order of their names, those of one name in the order of insertion. -/
structure HeaderMap where
  fields : List Field := []
  sorted : fields.Pairwise fun before after => headerKey before.1 ≤ headerKey after.1 := by exact sorted_nil

namespace HeaderMap

def insertField (field : Field) : List Field → List Field
  | [] => [field]
  | next :: fields =>
    if headerKey field.1 < headerKey next.1 then field :: next :: fields else next :: insertField field fields

theorem mem_insertField {field field' : Field} {fields : List Field} :
    field' ∈ insertField field fields ↔ field' = field ∨ field' ∈ fields := by
  induction fields with
  | nil => exact List.mem_singleton.trans (or_iff_left List.not_mem_nil).symm
  | cons next fields ih =>
    rw [insertField]
    split
    · exact List.mem_cons
    · rw [List.mem_cons, ih, List.mem_cons]
      exact or_left_comm

theorem sorted_insertField {field : Field} {fields : List Field}
    (h : fields.Pairwise fun before after => headerKey before.1 ≤ headerKey after.1) :
    (insertField field fields).Pairwise fun before after => headerKey before.1 ≤ headerKey after.1 := by
  induction fields with
  | nil => exact List.pairwise_singleton _ _
  | cons next fields ih =>
    obtain ⟨hnext, hrest⟩ := List.pairwise_cons.mp h
    rw [insertField]
    split
    · rename_i hlt
      refine List.pairwise_cons.mpr ⟨fun after hafter => ?_, h⟩
      obtain rfl | hafter := List.mem_cons.mp hafter
      · exact le_of_lt hlt
      · exact le_trans (le_of_lt hlt) (hnext after hafter)
    · rename_i hle
      refine List.pairwise_cons.mpr ⟨fun after hafter => ?_, ih hrest⟩
      obtain rfl | hafter := mem_insertField.mp hafter
      · exact le_of_not_gt hle
      · exact hnext after hafter

def insert (m : HeaderMap) (field : Field) : HeaderMap := ⟨insertField field m.fields, sorted_insertField m.sorted⟩

def erase (m : HeaderMap) (name : List Byte) : HeaderMap :=
  ⟨m.fields.filter fun field => headerKey field.1 ≠ headerKey name, m.sorted.filter _⟩

def find (m : HeaderMap) (name : List Byte) : Option (List Byte) :=
  (m.fields.find? fun field => headerKey field.1 = headerKey name).map Prod.snd

/-- `SetHeader`. -/
def set (m : HeaderMap) (name : List Byte) (values : List (List Byte)) : HeaderMap :=
  values.foldl (fun m value => m.insert (name, value)) (m.erase name)

end HeaderMap

/-- `std::to_string`. -/
def toText (n : Int) : List Byte := if n < 0 then 45 :: numeral 10 n.natAbs else numeral 10 n.natAbs

/-- `find` of a text in another one is not `npos`. -/
def contains (text part : List Byte) : Bool := text.tails.any part.isPrefixOf

/-- `httpStatuses`. -/
def httpStatuses : List (Int × String) :=
  [(100, "Continue"), (101, "Switching Protocols"), (200, "OK"), (201, "Created"), (202, "Accepted"),
    (203, "Non-Authoritative Information"), (204, "No Content"), (205, "Reset Content"), (206, "Partial Content"),
    (300, "Multiple Choices"), (301, "Moved Permanently"), (302, "Found"), (303, "See Other"), (304, "Not Modified"),
    (305, "Use Proxy"), (307, "Temporary Redirect"), (400, "Bad Request"), (401, "Unauthorized"),
      (402, "Payment Required"),
    (403, "Forbidden"), (404, "Not Found"), (405, "Method Not Allowed"), (406, "Not Acceptable"),
    (407, "Proxy Authentication Required"), (408, "Request Time-out"), (409, "Conflict"), (410, "Gone"),
    (411, "Length Required"), (412, "Precondition Failed"), (413, "Request Entity Too Large"),
    (414, "Request-URI Too Large"), (415, "Unsupported Media Type"), (416, "Requested Range not Satisfiable"),
    (417, "Expectation Failed"), (422, "Unprocessable Entity"), (429, "Too Many Requests"),
      (500, "Internal Server Error"),
    (501, "Not Implemented"), (502, "Bad Gateway"), (503, "Service Unavailable"), (504, "Gateway Time-out"),
    (505, "HTTP Version not Supported")]

def getStatusMessage (statusCode : Int) : List Byte :=
  ((httpStatuses.find? (·.1 = statusCode)).map fun status => chars status.2).getD []

/-- The head of a response. -/
structure Head where
  statusCode : Int
  statusMessage : List Byte
  fields : List Field

def Head.text (head : Head) : List Byte :=
  chars "HTTP/1.1 " ++ toText head.statusCode ++ [32] ++ head.statusMessage ++ crlf ++
    (head.fields.flatMap fun field => field.1 ++ [58, 32] ++ field.2 ++ crlf) ++ crlf

/-- A text without a line break. -/
def OneLine (text : List Byte) : Prop := ¬ crlf <:+: text

instance (text : List Byte) : Decidable (OneLine text) := inferInstanceAs (Decidable ¬ crlf <:+: text)

/-- What a response is made for: the request, and the time of the head as `std::put_time` puts it in the `Date`
field. -/
structure Http1Context where
  request : HttpRequest
  disableKeepAlive : Bool
  date : List Byte
  oneLine_date : OneLine date := by decide

/-- The closing of the stream is there for the record. -/
structure Http1Response where
  statusCode : Int := 200
  headerList : HeaderMap := {}
  sentHeaders : Bool := false
  sentWriteHead : Bool := false
  chunked : Bool := false
  closeConnection : Bool := false
  clientStream : List Byte := []
  closed : Bool := false

/-- The body may not be chunked. -/
def Http1Context.unchunked (context : Http1Context) (headerList : HeaderMap) : Bool :=
  context.request.httpVersionMinor = 0 || contains (context.request.getHeader (chars "host") [])
    (chars "rockstargames.com") || contains ((headerList.find (chars "transfer-encoding")).getD []) (chars "identity")

/-- The client or the server wants the connection closed. -/
def Http1Context.closes (context : Http1Context) : Bool := context.request.closes || context.disableKeepAlive

namespace Http1Response

variable (context : Http1Context) (r : Http1Response)

def beforeWriteHead (length : Nat) : Http1Response :=
  if r.sentWriteHead then r
  else if context.unchunked r.headerList then
    let headerList := if (r.headerList.find (chars "content-length")).isNone then
      r.headerList.set (chars "Content-Length") [numeral 10 length] else r.headerList
    { r with sentWriteHead := true, headerList := headerList.erase (chars "transfer-encoding") }
  else
    { r with
      sentWriteHead := true
      headerList := (r.headerList.set (chars "Transfer-Encoding") [chars "chunked"]).erase (chars "content-length")
      chunked := true }

/-- The explicit map takes the place of the headers that were set. -/
def writeHead (statusCode : Int) (statusMessage : List Byte) (headers : HeaderMap) : Http1Response :=
  if r.sentHeaders then r
  else
    let r := r.beforeWriteHead context 0
    let usedHeaders := if headers.fields = [] then r.headerList else headers
    let head : Head := {
      statusCode
      statusMessage := if statusMessage = [] then getStatusMessage statusCode else statusMessage
      fields :=
        (if (usedHeaders.find (chars "date")).isNone then [(chars "Date", context.date)] else []) ++
          (chars "Connection", if context.closes then chars "close" else chars "keep-alive") :: usedHeaders.fields }
    { r with
      sentHeaders := true
      closeConnection := r.closeConnection || context.closes
      clientStream := r.clientStream ++ head.text }

/-- What is written to the stream for some data. -/
def encoded (data : List Byte) : List Byte := if r.chunked then if data = [] then [] else chunk data else data

def writeOut (data : List Byte) : Http1Response := { r with clientStream := r.clientStream ++ r.encoded data }

def write (data : List Byte) : Http1Response :=
  let r := r.beforeWriteHead context data.length
  let r := if r.sentHeaders then r else r.writeHead context r.statusCode [] {}
  r.writeOut data

def endResponse : Http1Response :=
  { r with
    clientStream := r.clientStream ++ if r.chunked then lastChunk else []
    closed := r.closeConnection }

end Http1Response

/-- What a handler does to its response before it ends it. -/
inductive Call
  | setHeader (name : List Byte) (values : List (List Byte))
  | setStatusCode (statusCode : Int)
  | writeHead (statusCode : Int) (statusMessage : List Byte) (headers : HeaderMap)
  | write (data : List Byte)

def Http1Response.call (context : Http1Context) (r : Http1Response) : Call → Http1Response
  | .setHeader name values => { r with headerList := r.headerList.set name values }
  | .setStatusCode statusCode => { r with statusCode }
  | .writeHead statusCode statusMessage headers => r.writeHead context statusCode statusMessage headers
  | .write data => r.write context data

def Http1Response.run (context : Http1Context) (r : Http1Response) (calls : List Call) : Http1Response :=
  calls.foldl (Http1Response.call context) r

/-- The data that calls write. -/
def Call.data : Call → List Byte
  | .write data => data
  | _ => []

/-- How a recipient finds the end of a body. -/
inductive Framing
  | chunked
  | length (n : Nat)
  | untilClose
  | invalid
  deriving DecidableEq

/-- The elements of a value, which is a list. -/
def listElements (value : List Byte) : List (List Byte) :=
  let blank := fun c : Byte => decide (c = 32 ∨ c = 9)
  (value.splitOn 44).map fun element => ((element.dropWhile blank).reverse.dropWhile blank).reverse

/-- The elements of all fields of a name. -/
def elements (fields : List Field) (name : List Byte) : List (List Byte) :=
  (fields.filter fun field => headerKey field.1 = headerKey name).flatMap fun field => listElements field.2

/-- Lengths that are all the same. -/
def lengthFraming : List (List Byte) → Framing
  | [] => .untilClose
  | length :: lengths =>
    if ∀ other ∈ lengths, readNumeral 10 other = readNumeral 10 length then
      ((readNumeral 10 length).map Framing.length).getD .invalid
    else .invalid

/-- A transfer coding counts more than a length. -/
def framing (fields : List Field) : Framing :=
  match ((elements fields (chars "transfer-encoding")).filter (· ≠ [])).getLast? with
  | some coding => if coding.map toLower = chars "chunked" then .chunked else .untilClose
  | none => lengthFraming (elements fields (chars "content-length"))

/-- The body of a response with these fields, if what follows them is all of it. -/
def readBody (fields : List Field) (closed : Bool) (payload : List Byte) : Option (List Byte) :=
  match framing fields with
  | .chunked => decode payload
  | .length n => if payload.length = n then some payload else none
  | .untilClose =>
    if closed ∧ chars "close" ∈ (elements fields (chars "connection")).map (·.map toLower) then some payload else none
  | .invalid => none

/-- A character of a token. -/
def tokenChar (c : Byte) : Bool :=
  decide (48 ≤ c.toNat ∧ c.toNat ≤ 57 ∨ 65 ≤ c.toNat ∧ c.toNat ≤ 90 ∨ 97 ≤ c.toNat ∧ c.toNat ≤ 122) ||
    (chars "!#$%&'*+-.^_|~").contains c || c == 96

/-- A name that a field can have. -/
def Token (name : List Byte) : Prop := name ≠ [] ∧ ∀ c ∈ name, tokenChar c = true

instance (name : List Byte) : Decidable (Token name) :=
  inferInstanceAs (Decidable (name ≠ [] ∧ ∀ c ∈ name, tokenChar c = true))

/-- The field of a line: its name, a colon, and its value with the blanks around it. -/
def readField (line : List Byte) : Option Field :=
  let name := line.takeWhile (· ≠ 58)
  if Token name ∧ name.length < line.length then some (name, line.drop (name.length + 1)) else none

/-- The fields of the lines up to an empty one, and what follows it. -/
def readFields : Nat → List Byte → Option (List Field × List Byte)
  | 0, _ => none
  | fuel + 1, input =>
    (readLine input).bind fun (line, rest) =>
      if line = [] then some ([], rest)
      else (readField line).bind fun field =>
        (readFields fuel rest).map fun (fields, payload) => (field :: fields, payload)

/-- The body of the response that a stream has, if it has one and nothing else. -/
def readResponse (closed : Bool) (stream : List Byte) : Option (List Byte) :=
  (readLine stream).bind fun (statusLine, rest) =>
    if (chars "HTTP/1.1 ").isPrefixOf statusLine then
      (readFields (rest.length + 1) rest).bind fun (fields, payload) => readBody fields closed payload
    else none

/-- The bytes that have been written form a response, with the data for its body. -/
def Http1Response.WellFramed (r : Http1Response) (data : List Byte) : Prop :=
  readResponse r.closed r.clientStream = some data

end net
