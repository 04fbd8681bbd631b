import Citizen.HttpServer.Connection

open Bits Transition

namespace net

namespace HttpExchange

/-- The request has got this body, for the handler that listens or for one to come. No body is an empty one. -/
def Got (exchange : HttpExchange) (body : List Byte) : Prop :=
  if body = [] then exchange.pendingData = none ∧ exchange.given = [] ∧ exchange.dataHandler = exchange.listens
  else if exchange.listens then exchange.pendingData = none ∧ exchange.given = [body]
  else exchange.pendingData = some body ∧ exchange.given = [] ∧ exchange.dataHandler = false

variable {exchange : HttpExchange} {body : List Byte}

theorem Got.given (h : exchange.Got body) :
    exchange.given = if exchange.listens ∧ body ≠ [] then [body] else [] := by
  unfold Got at h
  split_ifs at h with hbody hlistens
  · rw [h.2.1, if_neg (fun h' => h'.2 hbody)]
  · rw [h.2, if_pos ⟨hlistens, hbody⟩]
  · rw [h.2.1, if_neg (fun h' => hlistens h'.1)]

theorem Got.setDataHandler (h : exchange.Got body) : exchange.setDataHandler.Got body := by
  unfold Got at h ⊢
  unfold HttpExchange.setDataHandler
  split_ifs at h with hbody hlistens
  · rw [if_pos hbody, h.1]
    exact ⟨rfl, h.2.1, rfl⟩
  · rw [if_neg hbody, h.1]
    exact (if_pos rfl).mpr ⟨rfl, h.2⟩
  · rw [if_neg hbody, h.1]
    simp [h.2.1]

theorem Got.readBody (h : exchange.Got []) (hbody : body ≠ []) : (exchange.readBody body).Got body := by
  rw [Got, if_pos rfl] at h
  obtain ⟨hpending, hgiven, hlistens⟩ := h
  unfold HttpExchange.readBody Got
  rw [if_neg hbody, hlistens]
  cases hl : exchange.listens
  · simp [hgiven]
  · simp [hgiven, hpending]

@[simp] theorem setDataHandler_request : exchange.setDataHandler.request = exchange.request := by
  unfold HttpExchange.setDataHandler
  split <;> rfl

@[simp] theorem setDataHandler_closes : exchange.setDataHandler.closes = exchange.closes := by
  unfold HttpExchange.setDataHandler
  split <;> rfl

@[simp] theorem setDataHandler_ended : exchange.setDataHandler.ended = exchange.ended := by
  unfold HttpExchange.setDataHandler
  split <;> rfl

@[simp] theorem readBody_request : (exchange.readBody body).request = exchange.request := by
  unfold HttpExchange.readBody
  split <;> rfl

@[simp] theorem readBody_closes : (exchange.readBody body).closes = exchange.closes := by
  unfold HttpExchange.readBody
  split <;> rfl

@[simp] theorem readBody_ended : (exchange.readBody body).ended = exchange.ended := by
  unfold HttpExchange.readBody
  split <;> rfl

@[simp] theorem readBody_listens : (exchange.readBody body).listens = exchange.listens := by
  unfold HttpExchange.readBody
  split <;> rfl

end HttpExchange

namespace HttpConnection

open PipelinedRequest

variable {D : Type*} {phr : Picohttpparser D} {units : List (PipelinedRequest phr)} {c : HttpConnection D}

/-- What the buffer and the bytes to come are, by the state of the connection. -/
def Awaits (units : List (PipelinedRequest phr)) (c : HttpConnection D) : Prop :=
  match c.readState with
  | .request =>
    SeenIncomplete phr c.readBuffer c.lastLength ∧
      c.readBuffer ++ c.undelivered = stream (units.drop c.exchanges.length)
  | .body =>
    ∃ unit i, units[i]? = some unit ∧ c.exchanges.length = i + 1 ∧ c.request = some i ∧ c.lastLength = 0 ∧
      unit.body ≠ [] ∧ c.contentLength.toNat = unit.body.length ∧
      c.readBuffer ++ c.undelivered = unit.body ++ stream (units.drop c.exchanges.length)
  | .chunked => False

/-- The body of request `i`, once all of it has been read. -/
def bodyRead (c : HttpConnection D) (i : Nat) (body : List Byte) : List Byte :=
  if c.readState = .body ∧ i + 1 = c.exchanges.length then [] else body

/-- The connection has handled the first requests of the stream, and will handle the others. -/
structure Arrived (units : List (PipelinedRequest phr)) (c : HttpConnection D) : Prop where
  valid : c.invalid = false
  counted : c.exchanges.length ≤ c.pipelineLength
  within : c.readBuffer.length + c.undelivered.length ≤ limit
  awaits : c.Awaits units
  handled : ∀ i exchange, c.exchanges[i]? = some exchange → ∃ unit, units[i]? = some unit ∧
    exchange.request = unit.request ∧ exchange.closes = (unit.request.closes || decide (10 ≤ i)) ∧
    exchange.Got (c.bodyRead i unit.body)
  unended : ∀ i exchange, c.exchanges[i]? = some exchange →
    (exchange.ended = false ↔ c.blocked = true ∧ i + 1 = c.exchanges.length)
  blocks : c.blocked = true → c.exchanges ≠ []
  /-- Between callbacks, a request that can be handled has a wake-up. -/
  woken : c.callback = none → c.readState = .request → c.blocked = false → c.pings = 0 →
    ∀ unit, units[c.exchanges.length]? = some unit → ¬ unit.head <+: c.readBuffer
  /-- A body that is being read has not arrived, but for one that the next turn or the next read takes. -/
  partly : c.callback ≠ some false → c.readState = .body → c.undelivered = [] →
    c.readBuffer.length < c.contentLength.toNat
  finished : c.closed = true → c.undelivered = [] ∧ c.readBuffer = []

theorem drop_of_getElem? {unit : PipelinedRequest phr} {i : Nat} (h : units[i]? = some unit) :
    units.drop i = unit :: units.drop (i + 1) := by
  obtain ⟨hi, rfl⟩ := List.getElem?_eq_some_iff.mp h
  exact List.drop_eq_getElem_cons hi

/-- A parse finds the next request once its head is in the buffer, and else none. -/
theorem parse_cases (hphr : phr.Lawful) (hseen : SeenIncomplete phr c.readBuffer c.lastLength)
    (hrest : c.readBuffer ++ c.undelivered = stream (units.drop c.exchanges.length)) :
    (c.parse phr = .incomplete ∧ SeenIncomplete phr c.readBuffer c.readBuffer.length ∧
      ∀ unit, units[c.exchanges.length]? = some unit → ¬ unit.head <+: c.readBuffer) ∨
    ∃ unit more, units[c.exchanges.length]? = some unit ∧ c.readBuffer = unit.head ++ more ∧
      c.parse phr = .request unit.head.length unit.request := by
  unfold parse
  by_cases hempty : c.readBuffer = []
  · left
    refine ⟨if_pos hempty, ⟨le_rfl, .inl (by rw [hempty, List.length_nil])⟩, fun unit _ hhead => unit.nonempty ?_⟩
    rw [hempty] at hhead
    exact List.prefix_nil.mp hhead
  rw [if_neg hempty]
  cases hunit : units[c.exchanges.length]? with
  | none =>
    rw [List.drop_eq_nil_of_le (List.getElem?_eq_none_iff.mp hunit)] at hrest
    exact absurd (List.append_eq_nil_iff.mp hrest).1 hempty
  | some unit =>
    rw [drop_of_getElem? hunit, stream_cons] at hrest
    by_cases hhead : unit.head <+: c.readBuffer
    · right
      obtain ⟨more, hmore⟩ := hhead
      have hparse : phr.phr_parse_request c.readBuffer 0 = .request unit.head.length unit.request := by
        rw [← hmore]
        exact unit.parsed more
      refine ⟨unit, more, rfl, hmore.symm, ?_⟩
      rw [hphr.incremental _ _ hseen (by simp [hparse]), hparse]
    · left
      have hshort : c.readBuffer.length < unit.head.length := by
        by_contra hlong
        exact hhead (List.prefix_of_prefix_length_le ⟨_, rfl⟩ ⟨_, hrest⟩ (by omega))
      have htake : c.readBuffer = unit.head.take c.readBuffer.length :=
        List.prefix_iff_eq_take.mp (List.prefix_of_prefix_length_le ⟨_, hrest⟩ ⟨_, rfl⟩ hshort.le)
      have hparse : phr.phr_parse_request c.readBuffer 0 = .incomplete := by
        rw [htake]
        exact unit.partly _ hshort
      refine ⟨?_, ⟨le_rfl, .inr (by rw [List.take_length, hparse])⟩, ?_⟩
      · rw [hphr.incremental _ _ hseen (by simp [hparse]), hparse]
      · intro unit' hunit'
        cases hunit'
        exact hhead

/-- The read callback takes its data into the buffer. -/
theorem readCallback_eq {data : List Byte} (hvalid : c.invalid = false)
    (hwithin : c.readBuffer.length + data.length ≤ limit) :
    c.readCallback data = { c with readBuffer := c.readBuffer ++ data, callback := some data.isEmpty } := by
  simp [readCallback, hvalid, Nat.not_lt.mpr hwithin]

theorem Arrived.start (hlimit : (stream units).length ≤ limit) : Arrived units (start phr (stream units)) where
  valid := rfl
  counted := Nat.zero_le _
  within := by simpa [HttpConnection.start] using hlimit
  awaits := ⟨⟨Nat.zero_le _, .inl rfl⟩, rfl⟩
  handled := by simp [HttpConnection.start]
  unended := by simp [HttpConnection.start]
  blocks := by simp [HttpConnection.start]
  woken := by
    intro _ _ _ _ unit _ hhead
    exact unit.nonempty (List.prefix_nil.mp hhead)
  partly := by simp [HttpConnection.start]
  finished := by simp [HttpConnection.start]

theorem Arrived.read (h : Arrived units c) {data : List Byte} (hopen : c.closed = false) (hdata : data ≠ [])
    (hbegins : data <+: c.undelivered) :
    Arrived units ({ c with undelivered := c.undelivered.drop data.length }.readCallback data) := by
  obtain ⟨later, hlater⟩ := hbegins
  have hundelivered : c.undelivered.drop data.length = later := by rw [← hlater, List.drop_left]
  have hwithin := h.within
  rw [← hlater, List.length_append] at hwithin
  rw [readCallback_eq (by exact h.valid) (by dsimp only; omega), hundelivered]
  refine ⟨h.valid, h.counted, ?_, ?_, h.handled, h.unended, h.blocks, by simp, ?_, by simp [hopen]⟩
  · dsimp only
    rw [List.length_append]
    omega
  · have hawaits := h.awaits
    unfold Awaits at hawaits ⊢
    dsimp only
    split at hawaits
    · exact ⟨hawaits.1.append data, by rw [List.append_assoc, hlater]; exact hawaits.2⟩
    · obtain ⟨unit, i, hunit, hlength, hrequest, hlast, hbody, hcontent, hrest⟩ := hawaits
      exact ⟨unit, i, hunit, hlength, hrequest, hlast, hbody, hcontent, by rw [List.append_assoc, hlater]; exact hrest⟩
    · exact hawaits
  · intro hcallback
    simp [hdata] at hcallback

theorem Arrived.wakeUp (h : Arrived units c) (hidle : c.callback = none) :
    Arrived units ({ c with pings := c.pings - 1 }.readCallback []) := by
  have hwithin : c.readBuffer.length + ([] : List Byte).length ≤ limit := (Nat.le_add_right _ _).trans h.within
  rw [readCallback_eq (by exact h.valid) (by exact hwithin)]
  simp only [List.append_nil]
  exact ⟨h.valid, h.counted, h.within, h.awaits, h.handled, h.unended, h.blocks,
    by simp, fun _ => h.partly (by simp [hidle]), h.finished⟩

/-- The callback ends, with nothing that it could have taken from the buffer. -/
theorem Arrived.stop (h : Arrived units c)
    (hrequest : c.readState = .request → c.blocked = true ∨
      ∀ unit, units[c.exchanges.length]? = some unit → ¬ unit.head <+: c.readBuffer)
    (hbody : c.readState = .body → c.undelivered = [] → c.readBuffer.length < c.contentLength.toNat) :
    Arrived units { c with callback := none } := by
  refine ⟨h.valid, h.counted, h.within, h.awaits, h.handled, h.unended, h.blocks, ?_, fun _ => hbody, h.finished⟩
  intro _ hstate hblocked _
  exact (hrequest hstate).resolve_left (by simpa using hblocked)

theorem continueIf_eq_none {readBuffer : List Byte} {empty : Bool}
    (h : continueIf (!readBuffer.isEmpty) empty = none) :
    readBuffer = [] := by
  simpa [continueIf] using h

theorem not_head_prefix_nil {unit : PipelinedRequest phr} {buffer : List Byte} (h : buffer = []) :
    ¬ unit.head <+: buffer := by
  intro hhead
  rw [h] at hhead
  exact unit.nonempty (List.prefix_nil.mp hhead)

theorem bodyRead_of_request (hstate : c.readState = .request) (i : Nat) (body : List Byte) :
    c.bodyRead i body = body := by
  simp [bodyRead, hstate]

theorem bodyRead_of_ne {i : Nat} (hi : i + 1 ≠ c.exchanges.length) (body : List Byte) : c.bodyRead i body = body := by
  simp [bodyRead, hi]

/-- A request that has just been given to the handlers has got no body. -/
theorem handled_concat {c' : HttpConnection D} (hstate : c.readState = .request)
    (hhandled : ∀ i exchange, c.exchanges[i]? = some exchange → ∃ unit, units[i]? = some unit ∧
      exchange.request = unit.request ∧ exchange.closes = (unit.request.closes || decide (10 ≤ i)) ∧
      exchange.Got (c.bodyRead i unit.body))
    {unit : PipelinedRequest phr} {disableKeepAlive : Bool} (hunit : units[c.exchanges.length]? = some unit)
    (hcloses : (unit.request.closes || disableKeepAlive) = (unit.request.closes || decide (10 ≤ c.exchanges.length)))
    (hexchanges : c'.exchanges = c.exchanges ++ [{ request := unit.request, disableKeepAlive }])
    (hbody : c'.readState = .body ∨ unit.body = []) (i : Nat) (exchange : HttpExchange)
    (hi : c'.exchanges[i]? = some exchange) :
    ∃ unit, units[i]? = some unit ∧ exchange.request = unit.request ∧
      exchange.closes = (unit.request.closes || decide (10 ≤ i)) ∧ exchange.Got (c'.bodyRead i unit.body) := by
  rw [hexchanges, List.getElem?_append] at hi
  split at hi
  · obtain ⟨unit', hunit', hrequest, hcloses', hgot⟩ := hhandled i exchange hi
    refine ⟨unit', hunit', hrequest, hcloses', ?_⟩
    rw [bodyRead_of_request hstate] at hgot
    rw [bodyRead_of_ne]
    · exact hgot
    · rw [hexchanges, List.length_append, List.length_singleton]
      omega
  · obtain ⟨hlt, hexchange⟩ := List.getElem?_eq_some_iff.mp hi
    have hlast : i = c.exchanges.length := by
      rw [List.length_singleton] at hlt
      omega
    subst hlast
    rw [List.getElem_singleton] at hexchange
    subst hexchange
    refine ⟨unit, hunit, rfl, hcloses, ?_⟩
    have hread : c'.bodyRead c.exchanges.length unit.body = [] := by
      unfold bodyRead
      split
      · rfl
      · rename_i hread
        exact hbody.resolve_left fun hstate' => hread ⟨hstate', by simp [hexchanges]⟩
    rw [hread, HttpExchange.Got, if_pos rfl]
    exact ⟨rfl, rfl, rfl⟩

/-- The response to a request that has just been given to the handlers is the one that has not ended. -/
theorem unended_concat {exchanges : List HttpExchange} {exchange : HttpExchange} (hexchange : exchange.ended = false)
    (hended : ∀ (i : Nat) (exchange : HttpExchange), exchanges[i]? = some exchange → exchange.ended = true) (i : Nat)
    (exchange' : HttpExchange)
    (hi : (exchanges ++ [exchange])[i]? = some exchange') :
    exchange'.ended = false ↔ true = true ∧ i + 1 = (exchanges ++ [exchange]).length := by
  rw [List.getElem?_append] at hi
  rw [List.length_append, List.length_singleton]
  split at hi
  · have hold := hended i exchange' hi
    simp only [hold, true_and]
    constructor
    · intro hfalse
      exact absurd hfalse (by simp)
    · omega
  · obtain ⟨hlt, heq⟩ := List.getElem?_eq_some_iff.mp hi
    rw [List.length_singleton] at hlt
    rw [List.getElem_singleton] at heq
    subst heq
    simp only [hexchange, true_and, true_iff]
    omega

/-- A request that is parsed in time is handled. -/
theorem Arrived.handleRequest (h : Arrived units c) {unit : PipelinedRequest phr} {more : List Byte} {empty : Bool}
    (hstate : c.readState = .request) (hblocked : c.blocked = false) (hcallback : c.callback = some empty)
    (hunit : units[c.exchanges.length]? = some unit) (hbuffer : c.readBuffer = unit.head ++ more)
    (hintime : c.InTime (.request unit.head.length unit.request)) :
    Arrived units
      ({ c with pipelineLength := c.pipelineLength + 1 }.handleRequest phr empty unit.head.length unit.request) := by
  have hopen : c.closed = false := by
    by_contra hclosed
    have hnil := (h.finished (by simpa using hclosed)).2
    rw [hbuffer] at hnil
    exact unit.nonempty (List.append_eq_nil_iff.mp hnil).1
  have hrest : more ++ c.undelivered = unit.body ++ stream (units.drop (c.exchanges.length + 1)) := by
    have hawaits := h.awaits
    simp only [Awaits, hstate] at hawaits
    have hall := hawaits.2
    rw [drop_of_getElem? hunit, stream_cons, hbuffer, List.append_assoc] at hall
    exact List.append_cancel_left hall
  have hcounted := h.counted
  have hwithin := h.within
  rw [hbuffer, List.length_append] at hwithin
  obtain ⟨htime, hwhole⟩ := hintime
  have hcloses : (unit.request.closes || decide (10 < c.pipelineLength + 1)) =
      (unit.request.closes || decide (10 ≤ c.exchanges.length)) := by
    rcases htime with hfew | hmany | hcloses
    · have hless : ¬ 10 ≤ c.exchanges.length := by omega
      simp [hless, Nat.not_lt.mpr (show c.pipelineLength + 1 ≤ 10 by omega)]
    · have hmore : 10 < c.pipelineLength + 1 := by omega
      simp [hmany, hmore]
    · simp [hcloses]
  have hended : ∀ (i : Nat) (exchange : HttpExchange), c.exchanges[i]? = some exchange → exchange.ended = true := by
    intro i exchange hi
    by_contra hne
    have hfalse := ((h.unended i exchange hi).mp (by simpa using hne)).1
    rw [hblocked] at hfalse
    cases hfalse
  have hdrop : c.readBuffer.drop unit.head.length = more := by rw [hbuffer, List.drop_left]
  unfold HttpConnection.handleRequest
  dsimp only
  rw [hdrop]
  by_cases hbody : unit.body = []
  · rw [if_neg (by simpa [contentLength_pos] using hbody), if_neg (by simp [unit.unchunked hbody])]
    refine ⟨h.valid, by simpa using hcounted, by dsimp only; omega, ?_,
      handled_concat hstate h.handled hunit hcloses rfl (.inr hbody), unended_concat rfl hended,
        by simp, ?_, ?_, by simp [hopen]⟩
    · simp only [Awaits, hstate]
      refine ⟨⟨Nat.zero_le _, .inl rfl⟩, ?_⟩
      rw [hrest, hbody, List.nil_append, List.length_append, List.length_singleton]
    · intro _ _ hunblocked
      cases hunblocked
    · intro _ hreading
      dsimp only at hreading
      rw [hstate] at hreading
      cases hreading
  · rw [if_pos (contentLength_pos.mpr hbody)]
    refine ⟨h.valid, by simpa using hcounted, by dsimp only; omega, ?_,
      handled_concat hstate h.handled hunit hcloses rfl (.inl rfl), unended_concat rfl hended,
        by simp, ?_, ?_, by simp [hopen]⟩
    · refine ⟨unit, c.exchanges.length, hunit, by simp, rfl, rfl, hbody, unit.length, ?_⟩
      rw [List.length_append, List.length_singleton]
      exact hrest
    · intro _ hrequest
      cases hrequest
    · intro hnot _ hundelivered
      dsimp only at hnot hundelivered ⊢
      cases hmore : more with
      | nil =>
        have hpos := contentLength_pos.mpr hbody
        rw [List.length_nil]
        omega
      | cons b rest =>
        have hempty : empty = true := by
          by_contra hfalse
          rw [hmore] at hnot
          simp [continueIf, hfalse] at hnot
        have hless := hwhole (by rw [hcallback, hempty]) hundelivered (contentLength_pos.mpr hbody)
        rw [hbuffer, List.length_append] at hless
        rw [← hmore]
        omega

/-- The loop once, before a request. -/
theorem Arrived.readRequest (hphr : phr.Lawful) (h : Arrived units c) {empty : Bool} (hstate : c.readState = .request)
    (hcallback : c.callback = some empty) (hintime : c.blocked = false → c.InTime (c.parse phr)) :
    Arrived units (c.readRequest phr empty) := by
  unfold HttpConnection.readRequest
  by_cases hblocked : c.blocked = true
  · rw [if_pos hblocked]
    exact h.stop (fun _ => .inl hblocked) (fun hbody => by simp [hstate] at hbody)
  · rw [if_neg hblocked]
    replace hblocked : c.blocked = false := by simpa using hblocked
    have hawaits := h.awaits
    simp only [Awaits, hstate] at hawaits
    obtain ⟨hnone, hseen, hheads⟩ | ⟨unit, more, hunit, hbuffer, hsome⟩ := parse_cases hphr hawaits.1 hawaits.2
    · rw [hnone]
      dsimp only
      refine ⟨h.valid, h.counted.trans (Nat.le_succ _), h.within, ?_, h.handled, h.unended, h.blocks, ?_,
        ?_, h.finished⟩
      · simp only [Awaits, hstate]
        exact ⟨hseen, hawaits.2⟩
      · intro _ _ _ _
        exact hheads
      · intro _ hbody
        dsimp only at hbody
        rw [hstate] at hbody
        cases hbody
    · have hhandled := h.handleRequest hstate hblocked hcallback hunit hbuffer (hsome ▸ hintime hblocked)
      rw [hsome]
      dsimp only
      rw [if_pos unit.head_pos]
      exact hhandled

theorem of_getElem?_modify {exchanges : List HttpExchange} {f : HttpExchange → HttpExchange} {i j : Nat}
    {exchange : HttpExchange} (h : (exchanges.modify i f)[j]? = some exchange) :
    ∃ old, exchanges[j]? = some old ∧ exchange = if i = j then f old else old := by
  rw [List.getElem?_modify] at h
  obtain ⟨old, hold, heq⟩ := Option.map_eq_some_iff.mp h
  exact ⟨old, hold, heq.symm⟩

theorem updateRequest_eq {i : Nat} (h : c.request = some i) (f : HttpExchange → HttpExchange) :
    c.updateRequest f = { c with exchanges := c.exchanges.modify i f } := by
  simp only [updateRequest, h]

/-- The loop once, before a body. -/
theorem Arrived.readBody (h : Arrived units c) {empty : Bool} (hstate : c.readState = .body)
    (hcallback : c.callback = some empty) : Arrived units (c.readBody empty) := by
  have hawaits := h.awaits
  simp only [Awaits, hstate] at hawaits
  obtain ⟨unit, i, hunit, hlength, hrequest, hlast, hbody, hcontent, hrest⟩ := hawaits
  unfold HttpConnection.readBody
  split_ifs with hempty hwhole
  · refine h.stop (fun hrequest' => by simp [hstate] at hrequest') fun _ => h.partly ?_ hstate
    rw [hcallback, hempty]
    simp
  · have htake : c.readBuffer.take c.contentLength.toNat = unit.body := by
      have hall := congrArg (List.take unit.body.length) hrest
      rw [List.take_left] at hall
      rw [hcontent] at hwhole ⊢
      rwa [List.take_append_of_le_length hwhole] at hall
    have hdrop : c.readBuffer.drop c.contentLength.toNat ++ c.undelivered =
      stream (units.drop c.exchanges.length) := by
      have hall := congrArg (List.drop unit.body.length) hrest
      rw [List.drop_left] at hall
      rw [hcontent] at hwhole ⊢
      rwa [List.drop_append_of_le_length hwhole] at hall
    have hwithin := h.within
    dsimp only
    rw [htake, updateRequest_eq hrequest]
    refine ⟨h.valid, by simpa using h.counted, ?_, ?_, ?_, ?_, by simpa using h.blocks, ?_, ?_, ?_⟩
    · dsimp only
      rw [List.length_drop]
      omega
    · simp only [Awaits, List.length_modify]
      exact ⟨⟨by rw [hlast]; exact Nat.zero_le _, .inl hlast⟩, hdrop⟩
    · intro j exchange hj
      obtain ⟨old, hold, rfl⟩ := of_getElem?_modify hj
      obtain ⟨unit', hunit', hreq, hcloses, hgot⟩ := h.handled j old hold
      by_cases hij : i = j
      · subst hij
        rw [hunit] at hunit'
        cases hunit'
        rw [bodyRead, if_pos ⟨hstate, hlength.symm⟩] at hgot
        refine ⟨unit, hunit, ?_⟩
        rw [if_pos rfl, bodyRead_of_request rfl, HttpExchange.readBody_request, HttpExchange.readBody_closes]
        exact ⟨hreq, hcloses, hgot.readBody hbody⟩
      · rw [bodyRead_of_ne (by omega)] at hgot
        refine ⟨unit', hunit', ?_⟩
        rw [if_neg hij, bodyRead_of_request rfl]
        exact ⟨hreq, hcloses, hgot⟩
    · intro j exchange hj
      obtain ⟨old, hold, rfl⟩ := of_getElem?_modify hj
      have hended : (if i = j then old.readBody unit.body else old).ended = old.ended := by
        split
        · exact HttpExchange.readBody_ended
        · rfl
      rw [hended, List.length_modify]
      exact h.unended j old hold
    · intro hstop _ _ _ unit' _
      exact not_head_prefix_nil (continueIf_eq_none hstop)
    · intro _ hreading
      cases hreading
    · intro hclosed
      obtain ⟨hundelivered, hbuffer⟩ := h.finished hclosed
      refine ⟨hundelivered, ?_⟩
      dsimp only
      rw [hbuffer, List.drop_nil]
  · exact h.stop (fun hrequest' => by simp [hstate] at hrequest') fun _ _ => by omega

/-- The loop once. -/
theorem Arrived.iterate (hphr : phr.Lawful) (h : Arrived units c) {empty : Bool} (hcallback : c.callback = some empty)
    (horderly : c.readState = .request → c.blocked = false → c.InTime (c.parse phr)) :
    Arrived units (c.iterate phr empty) := by
  unfold HttpConnection.iterate
  rw [if_neg (by simp [h.valid])]
  cases hstate : c.readState with
  | request => exact h.readRequest hphr hstate hcallback (horderly hstate)
  | body => exact h.readBody hstate hcallback
  | chunked =>
    have hawaits := h.awaits
    simp only [Awaits, hstate] at hawaits

theorem Arrived.endResponse (h : Arrived units c) {i : Nat} {exchange : HttpExchange}
    (hexchange : c.exchanges[i]? = some exchange) (hended : exchange.ended = false) :
    Arrived units (c.endResponse i) := by
  obtain ⟨hblocked, hlast⟩ := (h.unended i exchange hexchange).mp hended
  refine ⟨h.valid, by simpa [HttpConnection.endResponse] using h.counted, h.within, ?_, ?_, ?_, ?_, ?_, h.partly,
    h.finished⟩
  · have hawaits := h.awaits
    simpa only [Awaits, HttpConnection.endResponse, List.length_modify] using hawaits
  · intro j exchange' hj
    obtain ⟨old, hold, rfl⟩ := of_getElem?_modify hj
    obtain ⟨unit, hunit, hrequest, hcloses, hgot⟩ := h.handled j old hold
    refine ⟨unit, hunit, ?_⟩
    have hread : (c.endResponse i).bodyRead j unit.body = c.bodyRead j unit.body := by
      simp [bodyRead, HttpConnection.endResponse]
    rw [hread]
    split
    · exact ⟨hrequest, hcloses, hgot⟩
    · exact ⟨hrequest, hcloses, hgot⟩
  · intro j exchange' hj
    obtain ⟨old, hold, rfl⟩ := of_getElem?_modify hj
    have hothers : old.ended = false → i = j := fun hfalse => by
      have hj := ((h.unended j old hold).mp hfalse).2
      omega
    constructor
    · intro hfalse
      by_cases hij : i = j
      · rw [if_pos hij] at hfalse
        cases hfalse
      · rw [if_neg hij] at hfalse
        exact absurd (hothers hfalse) hij
    · rintro ⟨hunblocked, -⟩
      cases hunblocked
  · intro hunblocked
    cases hunblocked
  · intro _ _ _ hpings unit _
    by_cases hclosed : c.closed = true
    · exact not_head_prefix_nil (h.finished hclosed).2
    · simp [HttpConnection.endResponse, hblocked, hclosed] at hpings

theorem Arrived.setDataHandler (h : Arrived units c) (i : Nat) : Arrived units (c.setDataHandler i) := by
  refine ⟨h.valid, by simpa [HttpConnection.setDataHandler] using h.counted, h.within, ?_, ?_, ?_, ?_, ?_, h.partly,
    h.finished⟩
  · have hawaits := h.awaits
    simpa only [Awaits, HttpConnection.setDataHandler, List.length_modify] using hawaits
  · intro j exchange hj
    obtain ⟨old, hold, rfl⟩ := of_getElem?_modify hj
    obtain ⟨unit, hunit, hrequest, hcloses, hgot⟩ := h.handled j old hold
    refine ⟨unit, hunit, ?_⟩
    have hread : (c.setDataHandler i).bodyRead j unit.body = c.bodyRead j unit.body := by
      simp [bodyRead, HttpConnection.setDataHandler]
    rw [hread]
    split
    · rw [HttpExchange.setDataHandler_request, HttpExchange.setDataHandler_closes]
      exact ⟨hrequest, hcloses, hgot.setDataHandler⟩
    · exact ⟨hrequest, hcloses, hgot⟩
  · intro j exchange hj
    obtain ⟨old, hold, rfl⟩ := of_getElem?_modify hj
    have hended : (if i = j then old.setDataHandler else old).ended = old.ended := by
      split
      · exact HttpExchange.setDataHandler_ended
      · rfl
    rw [hended]
    simpa only [HttpConnection.setDataHandler, List.length_modify] using h.unended j old hold
  · simpa [HttpConnection.setDataHandler] using h.blocks
  · simpa only [HttpConnection.setDataHandler, List.length_modify] using h.woken

theorem Arrived.close (h : Arrived units c) (hdone : c.undelivered = [] ∧ c.readBuffer = []) :
    Arrived units { c with closed := true, request := none } := by
  refine ⟨h.valid, h.counted, h.within, ?_, h.handled, h.unended, h.blocks, h.woken, h.partly, fun _ => hdone⟩
  have hawaits := h.awaits
  unfold Awaits at hawaits ⊢
  dsimp only
  split at hawaits
  · exact hawaits
  · obtain ⟨unit, i, -, -, -, -, hbody, -, hrest⟩ := hawaits
    rw [hdone.1, hdone.2, List.append_nil] at hrest
    exact absurd (List.append_eq_nil_iff.mp hrest.symm).1 hbody
  · exact hawaits

/-- An orderly step keeps what has arrived in order. -/
theorem Arrived.step (hphr : phr.Lawful) (h : Arrived units c) {action : Action} {c' : HttpConnection D}
    (horderly : c.Orderly phr action) (hstep : c.step phr action = some c') : Arrived units c' := by
  cases action with
  | read data =>
    obtain ⟨⟨-, hopen, hdata, hbegins⟩, heq⟩ := Option.ite_none_right_eq_some.mp hstep
    cases heq
    exact h.read hopen hdata hbegins
  | wakeUp =>
    obtain ⟨⟨hidle, -⟩, heq⟩ := Option.ite_none_right_eq_some.mp hstep
    cases heq
    exact h.wakeUp hidle
  | iterate =>
    obtain ⟨empty, hcallback, rfl⟩ := Option.map_eq_some_iff.mp hstep
    exact h.iterate hphr hcallback (horderly.1 rfl)
  | endResponse i =>
    obtain ⟨hguard, heq⟩ := Option.ite_none_right_eq_some.mp hstep
    obtain ⟨exchange, hexchange, hended⟩ := (Option.any_eq_true _ _).mp hguard
    cases heq
    exact h.endResponse hexchange (by simpa using hended)
  | setDataHandler i =>
    obtain ⟨-, heq⟩ := Option.ite_none_right_eq_some.mp hstep
    cases heq
    exact h.setDataHandler i
  | close =>
    obtain ⟨-, heq⟩ := Option.ite_none_right_eq_some.mp hstep
    cases heq
    exact h.close (horderly.2 rfl)

theorem run_arrived (hphr : phr.Lawful) (hlimit : (stream units).length ≤ limit) {actions : List Action}
    (hrun : Run (step phr) (Orderly phr) (start phr (stream units)) actions c) : Arrived units c :=
  hrun.invariant (Arrived units) (.start hlimit) fun h horderly hstep => h.step hphr horderly hstep

theorem Arrived.length_le (h : Arrived units c) : c.exchanges.length ≤ units.length := by
  by_contra hmore
  obtain ⟨unit, hunit, -⟩ := h.handled units.length _ (List.getElem?_eq_getElem (by omega))
  rw [List.getElem?_eq_none le_rfl] at hunit
  cases hunit

/-- A connection that has settled has handled the whole stream. -/
theorem Arrived.settled (h : Arrived units c) (hsettled : c.Settled) :
    c.readState = .request ∧ c.readBuffer = [] ∧ c.exchanges.length = units.length := by
  obtain ⟨hidle, hread, hended⟩ := hsettled
  have hblocked : c.blocked = false := by
    by_contra hblocked
    replace hblocked : c.blocked = true := by simpa using hblocked
    have hpos := List.length_pos_iff.mpr (h.blocks hblocked)
    have hlast := List.getElem?_eq_getElem (show c.exchanges.length - 1 < c.exchanges.length by omega)
    have hfalse := (h.unended _ _ hlast).mpr ⟨hblocked, by omega⟩
    rw [hended _ (List.getElem_mem _)] at hfalse
    cases hfalse
  have hundelivered : c.undelivered = [] := by
    rcases hread with hclosed | ⟨hall, -⟩
    · exact (h.finished hclosed).1
    · exact hall
  have hheads : c.readState = .request →
      ∀ unit, units[c.exchanges.length]? = some unit → ¬ unit.head <+: c.readBuffer := by
    intro hstate unit hunit
    rcases hread with hclosed | ⟨-, hpings⟩
    · exact not_head_prefix_nil (h.finished hclosed).2
    · exact h.woken hidle hstate hblocked hpings unit hunit
  have hawaits := h.awaits
  have hle := h.length_le
  cases hstate : c.readState with
  | request =>
    simp only [Awaits, hstate, hundelivered, List.append_nil] at hawaits
    refine ⟨rfl, ?_⟩
    cases hunit : units[c.exchanges.length]? with
    | none =>
      have hge := List.getElem?_eq_none_iff.mp hunit
      rw [List.drop_eq_nil_of_le hge] at hawaits
      exact ⟨hawaits.2, by omega⟩
    | some unit =>
      rw [drop_of_getElem? hunit, stream_cons] at hawaits
      exact absurd ⟨_, hawaits.2.symm⟩ (hheads hstate unit hunit)
  | body =>
    simp only [Awaits, hstate, hundelivered, List.append_nil] at hawaits
    obtain ⟨unit, i, -, -, -, -, -, hcontent, hrest⟩ := hawaits
    have hless := h.partly (by simp [hidle]) hstate hundelivered
    rw [hrest, List.length_append] at hless
    omega
  | chunked => simp only [Awaits, hstate] at hawaits

/-- The requests and the responses, without what has become of the request object. -/
def results (c : HttpConnection D) : List (HttpRequest × Bool × List (List Byte)) :=
  c.exchanges.map fun exchange => (exchange.request, exchange.closes, exchange.given)

/-- What a connection has handled is what another has, up to bodies that have not been given yet. -/
def Follows (c c' : HttpConnection D) : Prop :=
  ∀ (i : Nat) (exchange : HttpExchange), c.exchanges[i]? = some exchange → ∃ exchange',
    c'.exchanges[i]? = some exchange' ∧ exchange.request = exchange'.request ∧ exchange.closes = exchange'.closes ∧
      exchange.given <+: exchange'.given

/-- The handlers of the same requests listen for bodies. -/
def SameHandlers (c c' : HttpConnection D) : Prop :=
  ∀ (i : Nat) (exchange exchange' : HttpExchange), c.exchanges[i]? = some exchange →
    c'.exchanges[i]? = some exchange' → exchange'.listens = exchange.listens

variable {c' : HttpConnection D}

/-- A connection handles what a settled one has. -/
theorem Arrived.follows (h : Arrived units c) (h' : Arrived units c') (hsettled : c'.Settled)
    (hhandlers : SameHandlers c c') : c.Follows c' := by
  intro i exchange hi
  obtain ⟨unit, hunit, hrequest, hcloses, hgot⟩ := h.handled i exchange hi
  obtain ⟨hstate, -, hlength⟩ := h'.settled hsettled
  obtain ⟨hlt, -⟩ := List.getElem?_eq_some_iff.mp hunit
  have hi' := List.getElem?_eq_getElem (show i < c'.exchanges.length by omega)
  obtain ⟨unit', hunit', hrequest', hcloses', hgot'⟩ := h'.handled i _ hi'
  rw [hunit] at hunit'
  cases hunit'
  refine ⟨_, hi', by rw [hrequest, hrequest'], by rw [hcloses, hcloses'], ?_⟩
  rw [hgot.given, hgot'.given, hhandlers i _ _ hi hi', bodyRead_of_request hstate]
  unfold bodyRead
  split
  · simp
  · exact List.prefix_rfl

/-- Two settled connections have handled the same. -/
theorem Arrived.results_eq (h : Arrived units c) (h' : Arrived units c') (hsettled : c.Settled)
    (hsettled' : c'.Settled) (hhandlers : SameHandlers c c') : c.results = c'.results := by
  obtain ⟨hstate, -, hlength⟩ := h.settled hsettled
  obtain ⟨hstate', -, hlength'⟩ := h'.settled hsettled'
  apply List.ext_getElem
  · simp only [results, List.length_map, hlength, hlength']
  · intro i hi hi'
    simp only [results, List.length_map] at hi hi'
    obtain ⟨unit, hunit, hrequest, hcloses, hgot⟩ := h.handled i _ (List.getElem?_eq_getElem hi)
    obtain ⟨unit', hunit', hrequest', hcloses', hgot'⟩ := h'.handled i _ (List.getElem?_eq_getElem hi')
    rw [hunit] at hunit'
    cases hunit'
    have hlistens := hhandlers i _ _ (List.getElem?_eq_getElem hi) (List.getElem?_eq_getElem hi')
    simp only [results, List.getElem_map, hrequest, hrequest', hcloses, hcloses', hgot.given, hgot'.given, hlistens,
      bodyRead_of_request hstate, bodyRead_of_request hstate']

end HttpConnection

end net
