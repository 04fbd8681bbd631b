import Citizen.HttpServer.Arrival

open Bits Transition

namespace net

namespace HttpConnection

open PipelinedRequest

variable {D : Type*} {phr : Picohttpparser D} {unit : PipelinedRequest phr} {units : List (PipelinedRequest phr)}
  {c c' : HttpConnection D} {listens : Nat → Bool}

/-- The loop of the one read, before these requests. -/
structure Reading (listens : Nat → Bool) (units : List (PipelinedRequest phr)) (c : HttpConnection D) : Prop where
  readState : c.readState = .request
  readBuffer : c.readBuffer = stream units
  callback : c.callback = continueIf (!c.readBuffer.isEmpty) false
  lastLength : c.lastLength = 0
  pipelineLength : c.pipelineLength = c.exchanges.length
  invalid : c.invalid = false
  blocked : c.blocked = false
  closed : c.closed = false
  undelivered : c.undelivered = []
  ended : ∀ exchange ∈ c.exchanges, exchange.ended = true
  listening : ∀ (i : Nat) (exchange : HttpExchange), c.exchanges[i]? = some exchange → exchange.listens = listens i

/-- The actions read nothing but the whole of a stream. -/
def ReadsOnly (stream : List Byte) (actions : List Action) : Prop := ∀ data, Action.read data ∈ actions → data = stream

theorem modify_concat (exchanges : List HttpExchange) (exchange : HttpExchange) (f : HttpExchange → HttpExchange) :
    (exchanges ++ [exchange]).modify exchanges.length f = exchanges ++ [f exchange] := by
  apply List.ext_getElem?
  intro i
  rw [List.getElem?_modify, List.getElem?_append, List.getElem?_append]
  rcases Nat.lt_trichotomy i exchanges.length with hlt | rfl | hgt
  · simp [hlt, show exchanges.length ≠ i by omega]
  · simp
  · simp [show ¬ i < exchanges.length
      by omega, show exchanges.length ≠ i by omega, show i - exchanges.length ≠ 0 by omega]

/-- What has become of a request whose handler ends its response at once. -/
def answered (unit : PipelinedRequest phr) (n : Nat) (listens : Bool) : HttpExchange where
  request := unit.request
  disableKeepAlive := decide (10 < n + 1)
  ended := true
  listens
  dataHandler := listens

/-- The connection after the turn of the loop that gives a request to such a handler. -/
def answer (unit : PipelinedRequest phr) (more : List Byte) (listens : Bool) (c : HttpConnection D) :
    HttpConnection D :=
  { c with
    readBuffer := more
    pipelineLength := c.pipelineLength + 1
    request := some c.exchanges.length
    exchanges := c.exchanges ++ [answered unit c.exchanges.length listens]
    callback := continueIf (!more.isEmpty) false
    pings := c.pings + 1
    contentLength := if unit.body = [] then c.contentLength else unit.request.contentLength
    readState := if unit.body = [] then .request else .body }

/-- The connection after that turn, before the handler does anything. -/
def handled (unit : PipelinedRequest phr) (more : List Byte) (c : HttpConnection D) : HttpConnection D :=
  { c with
    readBuffer := more
    pipelineLength := c.pipelineLength + 1
    lastLength := 0
    blocked := true
    request := some c.exchanges.length
    exchanges := c.exchanges ++ [{ request := unit.request, disableKeepAlive := decide (10 < c.pipelineLength + 1) }]
    callback := continueIf (!more.isEmpty) false
    contentLength := if unit.body = [] then c.contentLength else unit.request.contentLength
    readState := if unit.body = [] then .request else .body }

theorem handleRequest_eq {more : List Byte} (hstate : c.readState = .request)
    (hdrop : c.readBuffer.drop unit.head.length = more) :
    { c with pipelineLength := c.pipelineLength + 1 }.handleRequest phr false unit.head.length unit.request =
      c.handled unit more := by
  unfold handleRequest handled
  dsimp only
  rw [hdrop]
  by_cases hbody : unit.body = []
  · rw [if_neg (by simpa [contentLength_pos] using hbody), if_neg (by simp [unit.unchunked hbody]), if_pos hbody,
      if_pos hbody, hstate]
  · rw [if_pos (contentLength_pos.mpr hbody), if_neg hbody, if_neg hbody]

/-- The handler of a request listens for a body or not, and ends the response. -/
theorem handled_answer (more : List Byte) (l : Bool) (hcount : c.pipelineLength = c.exchanges.length)
    (hlast : c.lastLength = 0) (hblocked : c.blocked = false) (hopen : c.closed = false) :
    ∃ actions, Run (step phr) (Orderly phr) (c.handled unit more) actions (c.answer unit more l) ∧
      ∀ data, Action.read data ∉ actions := by
  have hlistens : ∃ actions, Run (step phr) (Orderly phr) (c.handled unit more) actions
      { c.handled unit more with
        exchanges := c.exchanges ++ [{ answered unit c.exchanges.length l with ended := false }] } ∧
      ∀ data, Action.read data ∉ actions := by
    cases l with
    | false =>
      refine ⟨[], ?_, by simp⟩
      have hsame : c.handled unit more = { c.handled unit more with
          exchanges := c.exchanges ++ [{ answered unit c.exchanges.length false with ended := false }] } := by
        rw [handled, hcount]
        rfl
      exact hsame ▸ .nil _
    | true =>
      refine ⟨[.setDataHandler c.exchanges.length], .cons (by simp [Orderly]) ?_ (.nil _), by simp⟩
      rw [step, if_pos (by simp [handled]), setDataHandler, handled]
      dsimp only
      rw [modify_concat, hcount]
      rfl
  obtain ⟨actions, hrun, hreads⟩ := hlistens
  refine ⟨actions ++ [.endResponse c.exchanges.length], hrun.snoc (by simp [Orderly]) ?_, by simpa using hreads⟩
  rw [step, if_pos (by simp [answered]), endResponse]
  dsimp only
  rw [modify_concat]
  simp [answer, handled, hlast, hblocked, hopen, HttpExchange.endResponse, answered]

/-- The turn of the loop that parses a request, and the calls of its handler. -/
theorem Reading.answer (h : Reading listens (unit :: units) c) (l : Bool) :
    ∃ actions, Run (step phr) (Orderly phr) c actions (c.answer unit (unit.body ++ stream units) l) ∧
      ∀ data, Action.read data ∉ actions := by
  have hbuffer : c.readBuffer = unit.head ++ (unit.body ++ stream units) := by rw [h.readBuffer, stream_cons]
  have hnonempty : c.readBuffer ≠ [] := by
    rw [hbuffer]
    exact fun hnil => unit.nonempty (List.append_eq_nil_iff.mp hnil).1
  have hcallback : c.callback = some false := by
    rw [h.callback]
    simp [continueIf, hnonempty]
  have hparse : c.parse phr = .request unit.head.length unit.request := by
    rw [parse, if_neg hnonempty, hbuffer, h.lastLength]
    exact unit.parsed _
  have horderly : Orderly phr c .iterate := by
    refine ⟨fun _ _ _ => ?_, fun hclose => by cases hclose⟩
    rw [hparse]
    refine ⟨?_, fun hempty => by simp [hcallback] at hempty⟩
    rw [h.pipelineLength]
    omega
  have hdrop : c.readBuffer.drop unit.head.length = unit.body ++ stream units := by rw [hbuffer, List.drop_left]
  have hstep : c.step phr .iterate = some (c.handled unit (unit.body ++ stream units)) := by
    rw [step, hcallback, Option.map_some, iterate, if_neg (by simp [h.invalid]), h.readState]
    dsimp only
    rw [readRequest, if_neg (by simp [h.blocked]), hparse]
    dsimp only
    rw [if_pos unit.head_pos, handleRequest_eq h.readState hdrop]
  obtain ⟨actions, hrun, hreads⟩ :=
    handled_answer (unit.body ++ stream units) l h.pipelineLength h.lastLength h.blocked h.closed
  exact ⟨.iterate :: actions, .cons horderly hstep hrun, by simpa using hreads⟩

/-- The connection after the turn of the loop that reads the body. -/
theorem answer_body {more : List Byte} {l : Bool} (hvalid : c.invalid = false) (hbody : unit.body ≠ []) :
    (c.answer unit (unit.body ++ more) l).step phr .iterate = some { c.answer unit more l with
      exchanges := c.exchanges ++ [(answered unit c.exchanges.length l).readBody unit.body]
      readState := .request } := by
  have hcallback : (c.answer unit (unit.body ++ more) l).callback = some false := by
    simp [HttpConnection.answer, continueIf, hbody]
  rw [step, hcallback, Option.map_some, iterate, if_neg (by simp [HttpConnection.answer, hvalid])]
  have hstate : (c.answer unit (unit.body ++ more) l).readState = .body := if_neg hbody
  rw [hstate]
  dsimp only
  have hcontent : (c.answer unit (unit.body ++ more) l).contentLength.toNat = unit.body.length := by
    simp [HttpConnection.answer, hbody, unit.length]
  have hbuffer : (c.answer unit (unit.body ++ more) l).readBuffer = unit.body ++ more := rfl
  rw [readBody, if_neg (by simp), hcontent, hbuffer, if_pos (by simp), List.take_left, List.drop_left]
  dsimp only
  rw [updateRequest_eq (show (c.answer unit (unit.body ++ more) l).request = some c.exchanges.length from rfl)]
  simp [HttpConnection.answer, modify_concat, hbody]

/-- One request of the one read. -/
theorem Reading.next (h : Reading listens (unit :: units) c) :
    ∃ actions c', Run (step phr) (Orderly phr) c actions c' ∧ (∀ data, Action.read data ∉ actions) ∧
      Reading listens units c' := by
  obtain ⟨actions, hrun, hreads⟩ := h.answer (listens c.exchanges.length)
  have hlisten : ∀ exchange : HttpExchange, exchange.listens = listens c.exchanges.length →
      ∀ (i : Nat) (exchange' : HttpExchange), (c.exchanges ++ [exchange])[i]? = some exchange' →
        exchange'.listens = listens i := by
    intro exchange hexchange i exchange' hi
    rw [List.getElem?_append] at hi
    split at hi
    · exact h.listening i exchange' hi
    · obtain ⟨hlt, rfl⟩ := List.getElem?_eq_some_iff.mp hi
      rw [List.length_singleton] at hlt
      rw [List.getElem_singleton, hexchange, show i = c.exchanges.length by omega]
  by_cases hbody : unit.body = []
  · refine ⟨actions, _, hrun, hreads, ?_⟩
    rw [hbody, List.nil_append]
    exact {
      readState := if_pos hbody
      readBuffer := rfl
      callback := rfl
      lastLength := h.lastLength
      pipelineLength := by simp [HttpConnection.answer, h.pipelineLength]
      invalid := h.invalid
      blocked := h.blocked
      closed := h.closed
      undelivered := h.undelivered
      ended := by simpa [HttpConnection.answer, answered, or_imp, forall_and] using h.ended
      listening := hlisten _ rfl }
  · refine ⟨actions ++ [.iterate], _, hrun.snoc ?_ (answer_body h.invalid hbody), by simpa using hreads, ?_⟩
    · refine ⟨fun _ hrequest => ?_, fun hclose => by cases hclose⟩
      have hstate : (c.answer unit (unit.body ++ stream units) (listens c.exchanges.length)).readState = .body :=
        if_neg hbody
      rw [hstate] at hrequest
      cases hrequest
    · exact {
        readState := rfl
        readBuffer := rfl
        callback := rfl
        lastLength := h.lastLength
        pipelineLength := by simp [HttpConnection.answer, h.pipelineLength]
        invalid := h.invalid
        blocked := h.blocked
        closed := h.closed
        undelivered := h.undelivered
        ended := by simpa [answered, or_imp, forall_and] using h.ended
        listening := hlisten _ HttpExchange.readBody_listens }

theorem Reading.all (h : Reading listens units c) :
    ∃ actions c', Run (step phr) (Orderly phr) c actions c' ∧ (∀ data, Action.read data ∉ actions) ∧
      Reading listens ([] : List (PipelinedRequest phr)) c' := by
  induction units generalizing c with
  | nil => exact ⟨[], c, .nil c, by simp, h⟩
  | cons unit units ih =>
    obtain ⟨actions, c', hrun, hreads, hnext⟩ := h.next
    obtain ⟨actions', c'', hrun', hreads', hend⟩ := ih hnext
    refine ⟨actions ++ actions', c'', hrun.trans hrun', ?_, hend⟩
    intro data hdata
    exact (List.mem_append.mp hdata).elim (hreads data) (hreads' data)

/-- The wake-ups that are left find nothing. -/
theorem wakeUps (hidle : c.callback = none) (hstate : c.readState = .request) (hbuffer : c.readBuffer = [])
    (hvalid : c.invalid = false) (hblocked : c.blocked = false) (hopen : c.closed = false) :
    ∃ actions n m, Run (step phr) (Orderly phr) c actions { c with pings := 0, pipelineLength := n, lastLength := m } ∧
      ∀ data, Action.read data ∉ actions := by
  induction hpings : c.pings generalizing c with
  | zero =>
    refine ⟨[], c.pipelineLength, c.lastLength, ?_, by simp⟩
    rw [← hpings]
    exact .nil c
  | succ k ih =>
    let c₁ : HttpConnection D := { c with pings := k, callback := some true }
    let c₂ : HttpConnection D :=
      { c with pings := k, pipelineLength := c.pipelineLength + 1, lastLength := 0 }
    have hwake : c.step phr .wakeUp = some c₁ := by
      rw [step, if_pos ⟨hidle, hopen, by omega⟩, readCallback_eq (by exact hvalid) (by simp [hbuffer])]
      simp [c₁, hpings]
    have hparse : c₁.parse phr = .incomplete := if_pos hbuffer
    have hiterate : c₁.step phr .iterate = some c₂ := by
      rw [step, Option.map_some, iterate, if_neg (by simp [c₁, hvalid]), show c₁.readState = .request from hstate]
      dsimp only
      rw [readRequest, if_neg (by simp [c₁, hblocked]), hparse]
      simp [c₁, c₂, hbuffer, hidle]
    obtain ⟨actions, n, m, hrun, hreads⟩ :=
      @ih c₂ hidle hstate hbuffer hvalid hblocked hopen rfl
    refine ⟨.wakeUp :: .iterate :: actions, n, m, .cons (by simp [Orderly]) hwake (.cons ?_ hiterate hrun), ?_⟩
    · refine ⟨fun _ _ _ => ?_, fun hclose => by cases hclose⟩
      rw [hparse]
      trivial
    · simpa using hreads

/-- The whole stream in one read, with these handlers. -/
theorem oneRead (units : List (PipelinedRequest phr)) (listens : Nat → Bool) (hlimit : (stream units).length ≤ limit) :
    ∃ actions c, Run (step phr) (Orderly phr) (start phr (stream units)) actions c ∧ ReadsOnly (stream units) actions ∧
      c.Settled ∧ ∀ (i : Nat) (exchange : HttpExchange), c.exchanges[i]? = some exchange →
        exchange.listens = listens i := by
  have hread : ∃ actions c, Run (step phr) (Orderly phr) (start phr (stream units)) actions c ∧
      ReadsOnly (stream units) actions ∧ Reading listens units c := by
    by_cases hempty : stream units = []
    · refine ⟨[], _, .nil _, fun _ hdata => by simp at hdata, ?_⟩
      exact ⟨rfl, hempty.symm, rfl, rfl, rfl, rfl, rfl, rfl, hempty, by simp [start], by simp [start]⟩
    · have hstep : (start phr (stream units)).step phr (.read (stream units)) =
          some ({ start phr (stream units) with undelivered := (stream units).drop (stream units).length }.readCallback
            (stream units)) := if_pos ⟨rfl, rfl, hempty, List.prefix_rfl⟩
      refine ⟨[.read (stream units)], _, .cons (by simp [Orderly]) hstep (.nil _),
        fun _ hdata => by simpa using hdata, ?_⟩
      · rw [readCallback_eq rfl (by simpa [start] using hlimit)]
        refine ⟨rfl, rfl, ?_, rfl, rfl, rfl, rfl, rfl, ?_, by simp [start], by simp [start]⟩
        · simp [continueIf, start, hempty]
        · simp
  obtain ⟨actions, c, hrun, honly, hreading⟩ := hread
  obtain ⟨actions', c', hrun', hreads', hend⟩ := hreading.all
  have hidle : c'.callback = none := by
    rw [hend.callback, hend.readBuffer]
    rfl
  obtain ⟨actions'', n, m, hrun'', hreads''⟩ :=
    wakeUps hidle hend.readState hend.readBuffer hend.invalid hend.blocked hend.closed
  refine ⟨actions ++ (actions' ++ actions''), _, hrun.trans (hrun'.trans hrun''), ?_,
    ⟨hidle, .inr ⟨hend.undelivered, rfl⟩, hend.ended⟩, hend.listening⟩
  intro data hdata
  simp only [List.mem_append] at hdata
  rcases hdata with hdata | hdata | hdata
  · exact honly data hdata
  · exact absurd hdata (hreads' data)
  · exact absurd hdata (hreads'' data)

/-- In a run that parses in time, what the handlers have got is what they get when the stream arrives in one read,
and when it settles nothing is left in the buffer. -/
theorem run_asOneRead (hphr : phr.Lawful) (hlimit : (stream units).length ≤ limit) {actions : List Action}
    (hrun : Run (step phr) (Orderly phr) (start phr (stream units)) actions c) :
    ∃ actions' c', Run (step phr) (Orderly phr) (start phr (stream units)) actions' c' ∧
      ReadsOnly (stream units) actions' ∧ c'.Settled ∧ SameHandlers c c' ∧ c.Follows c' ∧
      (c.Settled → c.results = c'.results ∧ c.readBuffer = []) := by
  have harrived := run_arrived hphr hlimit hrun
  obtain ⟨actions', c', hrun', honly, hsettled', hlistens⟩ :=
    oneRead units (fun i => (c.exchanges[i]?).any HttpExchange.listens) hlimit
  have harrived' := run_arrived hphr hlimit hrun'
  have hhandlers : SameHandlers c c' := by
    intro i exchange exchange' hi hi'
    rw [hlistens i exchange' hi', hi]
    rfl
  refine ⟨actions', c', hrun', honly, hsettled', hhandlers, harrived.follows harrived' hsettled' hhandlers, ?_⟩
  intro hsettled
  exact ⟨harrived.results_eq harrived' hsettled hsettled' hhandlers, (harrived.settled hsettled).2.1⟩

/-- A parser for streams in which every request has this head. -/
def oneHead (head : List Byte) (request : HttpRequest) : Picohttpparser Unit where
  phr_parse_request buffer _ :=
    if head <+: buffer then .request head.length request else if buffer <+: head then .incomplete else .error
  phr_decode_chunked _ _ := .error
  decoder := ()

theorem oneHead_lawful (head : List Byte) (request : HttpRequest) : (oneHead head request).Lawful :=
    ⟨fun _ _ _ _ => rfl⟩

theorem oneHead_parsed (head : List Byte) (request : HttpRequest) (more : List Byte) :
    (oneHead head request).phr_parse_request (head ++ more) 0 = .request head.length request := by
  simp [oneHead]

theorem oneHead_partly {head : List Byte} (request : HttpRequest) {n : Nat} (hn : n < head.length) :
    (oneHead head request).phr_parse_request (head.take n) 0 = .incomplete := by
  have hshort : ¬ head <+: head.take n := by
    intro hbegins
    have hle := hbegins.length_le
    rw [List.length_take] at hle
    omega
  simp only [oneHead, if_neg hshort, if_pos (List.take_prefix n head)]

def samplePost : HttpRequest where
  httpVersionMinor := 1
  requestMethod := chars "POST"
  path := chars "/"
  headerList := [(chars "Content-Length", chars "2")]

def sampleHead : List Byte := chars "POST / HTTP/1.1\r\nContent-Length: 2\r\n\r\n"

def sampleParser : Picohttpparser Unit := oneHead sampleHead samplePost

/-- A request with a body of two bytes. -/
def sampleUnit : PipelinedRequest sampleParser where
  head := sampleHead
  request := samplePost
  body := chars "hi"
  parsed := oneHead_parsed _ _
  partly := fun _ hn => oneHead_partly _ hn
  nonempty := by decide
  length := by decide
  unchunked := by decide

/-- The head and the body arrive apart, and the response ends last. -/
theorem run_asOneRead_sample : ∃ actions c, Run (step sampleParser) (Orderly sampleParser)
    (start sampleParser (stream [sampleUnit])) actions c ∧ c.results = [(samplePost, false, [chars "hi"])] ∧
    ∃ actions' c', Run (step sampleParser) (Orderly sampleParser)
      (start sampleParser (stream [sampleUnit])) actions' c' ∧ ReadsOnly (stream [sampleUnit]) actions' ∧ c'.Settled ∧
        SameHandlers c c' ∧ c.Follows c' ∧
      (c.Settled → c.results = c'.results ∧ c.readBuffer = []) := by
  have hend : ((exec (fun c a => if decide (Orderly sampleParser c a) then step sampleParser c a else none)
      (start sampleParser (stream [sampleUnit])) [.read sampleHead, .iterate, .setDataHandler 0, .read (chars "hi"),
        .iterate, .endResponse 0, .wakeUp, .iterate]).any
      fun c => decide (c.results = [(samplePost, false, [chars "hi"])])) = true := by decide
  obtain ⟨c, hrun, hresults⟩ := exists_checked (fun _ _ h => of_decide_eq_true h) hend
  exact ⟨_, c, hrun, of_decide_eq_true hresults,
    run_asOneRead (oneHead_lawful _ _) (by decide) hrun⟩

/-- A request that arrives in eleven pieces closes its connection, and one that arrives in one does not. The body of
a second request stays in the buffer when a wake-up finds it there. -/
theorem run_cutUp :
    (∃ actions c, Run (step sampleParser) (fun _ _ => True) (start sampleParser (stream [sampleUnit])) actions c ∧
      c.Settled ∧ c.results = [(samplePost, true, [chars "hi"])]) ∧
    (∃ actions c, Run (step sampleParser) (fun _ _ => True) (start sampleParser (stream [sampleUnit])) actions c ∧
      ReadsOnly (stream [sampleUnit]) actions ∧ c.Settled ∧ c.results = [(samplePost, false, [chars "hi"])]) ∧
    ∃ actions c, Run (step sampleParser) (fun _ _ => True)
      (start sampleParser (stream [sampleUnit, sampleUnit])) actions c ∧
        ReadsOnly (stream [sampleUnit, sampleUnit]) actions ∧ c.Settled ∧ c.readBuffer = chars "hi" ∧
      c.results = [(samplePost, false, [chars "hi"]), (samplePost, false, [])] := by
  refine ⟨?_, ?_, ?_⟩
  · have hend : ((exec (step sampleParser) (start sampleParser (stream [sampleUnit]))
        ((sampleHead.take 10).flatMap (fun b => [.read [b], .iterate]) ++
          [.read (sampleHead.drop 10), .iterate, .setDataHandler 0, .read (chars "hi"), .iterate, .endResponse 0,
            .wakeUp, .iterate])).any
        fun c => decide (c.Settled ∧ c.results = [(samplePost, true, [chars "hi"])])) = true := by decide
    obtain ⟨c, hrun, hc⟩ := exists_run hend
    exact ⟨_, c, hrun, of_decide_eq_true hc⟩
  · have hend : ((exec (step sampleParser) (start sampleParser (stream [sampleUnit]))
        [.read (stream [sampleUnit]), .iterate, .setDataHandler 0, .iterate, .endResponse 0, .wakeUp, .iterate]).any
        fun c => decide (c.Settled ∧ c.results = [(samplePost, false, [chars "hi"])])) = true := by decide
    obtain ⟨c, hrun, hc⟩ := exists_run hend
    exact ⟨_, c, hrun, by simp [ReadsOnly], of_decide_eq_true hc⟩
  · have hend : ((exec (step sampleParser) (start sampleParser (stream [sampleUnit, sampleUnit]))
        [.read (stream [sampleUnit, sampleUnit]), .iterate, .setDataHandler 0, .iterate, .iterate, .endResponse 0,
          .wakeUp, .iterate, .setDataHandler 1, .iterate, .endResponse 1, .wakeUp, .iterate]).any
        fun c => decide (c.Settled ∧ c.readBuffer = chars "hi" ∧
          c.results = [(samplePost, false, [chars "hi"]), (samplePost, false, [])])) = true := by decide
    obtain ⟨c, hrun, hc⟩ := exists_run hend
    exact ⟨_, c, hrun, by simp [ReadsOnly], of_decide_eq_true hc⟩

end HttpConnection

end net
