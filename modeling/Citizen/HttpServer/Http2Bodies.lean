import Citizen.HttpServer.Http2

open Bits Transition

namespace net

namespace Http2Exchange

variable {exchange : Http2Exchange}

/-- No body has come yet. -/
structure Quiet (exchange : Http2Exchange) : Prop where
  given : exchange.given = []
  pendingData : exchange.pendingData = none
  dataHandler : exchange.dataHandler = exchange.listens

/-- The body has come: a data handler got it, or the first one that is set will. -/
def Delivered (body : List Byte) (exchange : Http2Exchange) : Prop :=
  if exchange.listens then exchange.given = [body] ∧ exchange.pendingData = none
  else exchange.given = [] ∧ exchange.pendingData = some body

theorem Quiet.setDataHandler (h : exchange.Quiet) : exchange.setDataHandler.Quiet := by
  obtain ⟨hgiven, hpending, -⟩ := h
  constructor
  · simp [Http2Exchange.setDataHandler, HttpExchange.setDataHandler, hpending, hgiven]
  · simp [Http2Exchange.setDataHandler, HttpExchange.setDataHandler, hpending]
  · simp [Http2Exchange.setDataHandler, HttpExchange.setDataHandler, hpending]

theorem Quiet.endResponse (h : exchange.Quiet) (performInline : Bool) : (exchange.endResponse performInline).Quiet :=
  ⟨h.given, h.pendingData, h.dataHandler⟩

theorem Quiet.scheduledEnd (h : exchange.Quiet) : exchange.scheduledEnd.Quiet :=
  ⟨h.given, h.pendingData, h.dataHandler⟩

theorem Quiet.readBody (h : exchange.Quiet) (body : List Byte) : (exchange.readBody body).Delivered body := by
  cases hlistens : exchange.listens with
  | true =>
    have hhandler : exchange.dataHandler = true := h.dataHandler.trans hlistens
    simp [Delivered, Http2Exchange.readBody, HttpExchange.readBody, hhandler, hlistens, h.given, h.pendingData]
  | false =>
    have hhandler : exchange.dataHandler = false := h.dataHandler.trans hlistens
    simp [Delivered, Http2Exchange.readBody, HttpExchange.readBody, hhandler, hlistens, h.given]

theorem Delivered.setDataHandler {body : List Byte} (h : exchange.Delivered body) :
    exchange.setDataHandler.Delivered body := by
  unfold Delivered at h
  split_ifs at h with hlistens
  · obtain ⟨hgiven, hpending⟩ := h
    simp [Delivered, Http2Exchange.setDataHandler, HttpExchange.setDataHandler, hgiven, hpending]
  · obtain ⟨hgiven, hpending⟩ := h
    simp [Delivered, Http2Exchange.setDataHandler, HttpExchange.setDataHandler, hgiven, hpending]

@[simp]
theorem listens_setDataHandler (exchange : Http2Exchange) : exchange.setDataHandler.listens = true := by
  unfold Http2Exchange.setDataHandler HttpExchange.setDataHandler
  cases exchange.pendingData <;> rfl

/-- A response that has ended is answered. -/
def Sound (exchange : Http2Exchange) : Prop := exchange.ended = true → exchange.answered = true

theorem Sound.setDataHandler (h : exchange.Sound) : exchange.setDataHandler.Sound := by
  unfold Sound Http2Exchange.setDataHandler HttpExchange.setDataHandler
  cases exchange.pendingData <;> exact h

theorem Sound.endResponse (performInline : Bool) : (exchange.endResponse performInline).Sound := fun _ => rfl

theorem Sound.scheduledEnd (h : exchange.Sound) : exchange.scheduledEnd.Sound := by
  intro hended
  rcases Bool.or_eq_true _ _ ▸ hended with hold | hanswered
  · exact h hold
  · exact hanswered

/-- The handlers leave a request as quiet as they find it. -/
theorem handleRequest_quiet (hquiet : exchange.Quiet) (hsound : exchange.Sound) (results : List HandlerResult) :
    (exchange.handleRequest results).Quiet ∧ (exchange.handleRequest results).Sound := by
  induction results generalizing exchange with
  | nil => exact ⟨hquiet, hsound⟩
  | cons result results ih =>
    have heffects : (result.effects.foldl apply exchange).Quiet ∧ (result.effects.foldl apply exchange).Sound := by
      refine List.foldlRecOn (motive := fun exchange : Http2Exchange => exchange.Quiet ∧ exchange.Sound) result.effects
        apply ⟨hquiet, hsound⟩ ?_
      rintro exchange ⟨hquiet, hsound⟩ effect -
      cases effect with
      | setDataHandler => exact ⟨hquiet.setDataHandler, hsound.setDataHandler⟩
      | endResponse performInline => exact ⟨hquiet.endResponse performInline, .endResponse performInline⟩
    unfold handleRequest
    dsimp only
    split_ifs
    · exact heffects
    · exact ih heffects.1 heffects.2

end Http2Exchange

namespace h2.StreamState

variable {s : StreamState}

/-- How far the only request of a stream is. -/
structure Tracks (s : StreamState) (stream : Stream) (exchange : Http2Exchange) : Prop where
  exchanges : s.exchanges = [exchange]
  sound : exchange.Sound
  quiet : stream.ended = none → exchange.Quiet
  headers : stream.ended = some .headers → exchange.Quiet ∧ (exchange.listens = true → exchange.answered = true)
  data : stream.ended = some .data → exchange.Delivered stream.data ∨ (exchange.Quiet ∧ exchange.answered = true)
  /-- The end of the body finds the request, unless it was answered at once. -/
  waiting : stream.closed = false → stream.ended = none → ∃ req, s.userData = some req ∧ req.body = stream.data ∧
    (req.httpReq = some 0 ∨ (req.httpReq = none ∧ exchange.answered = true))

/-- What the frames of a stream keep, as long as they are allowed. -/
def Inv (s : StreamState) : Prop :=
  match s.stream with
  | none => s.exchanges = []
  | some stream => ∃ exchange, Tracks s stream exchange

theorem Tracks.served {stream : Stream} {exchange : Http2Exchange} (h : Tracks s stream exchange) :
    Served stream exchange := by
  have hcalled : exchange.Quiet →
    (exchange.given ≠ [] → exchange.listens ∧ stream.ended.isSome ∧ exchange.given = [stream.data]) :=
    fun hquiet hgiven => absurd hquiet.given hgiven
  cases hended : stream.ended with
  | none => exact ⟨hcalled (h.quiet hended), fun _ _ hsome => by rw [hended] at hsome; cases hsome⟩
  | some type =>
    cases type with
    | headers =>
      obtain ⟨hquiet, hanswered⟩ := h.headers hended
      refine ⟨hcalled hquiet, fun hnot hlistens _ => ?_⟩
      rw [hanswered hlistens] at hnot
      cases hnot
    | data =>
      rcases h.data hended with hdelivered | ⟨hquiet, hanswered⟩
      · unfold Http2Exchange.Delivered at hdelivered
        split_ifs at hdelivered with hlistens
        · exact ⟨fun _ => ⟨hlistens, by rw [hended]; rfl, hdelivered.1⟩, fun _ _ _ => hdelivered.1⟩
        · exact ⟨fun hgiven => absurd hdelivered.1 hgiven, fun _ hlistens' => absurd hlistens' hlistens⟩
      · refine ⟨hcalled hquiet, fun hnot => ?_⟩
        rw [hanswered] at hnot
        cases hnot

theorem Inv.handled (h : Inv s) : s.Handled := by
  unfold Inv at h
  unfold Handled
  cases hstream : s.stream with
  | none => rwa [hstream] at h
  | some stream =>
    rw [hstream] at h
    obtain ⟨exchange, htracks⟩ := h
    dsimp only
    rw [htracks.exchanges]
    exact ⟨rfl, fun exchange' hmem => by rw [List.mem_singleton.mp hmem]; exact htracks.served⟩

/-- A change of a request that keeps how far it is. -/
structure Harmless (f : Http2Exchange → Http2Exchange) : Prop where
  sound : ∀ {exchange}, exchange.Sound → (f exchange).Sound
  quiet : ∀ {exchange}, exchange.Quiet → (f exchange).Quiet
  delivered : ∀ {exchange body}, exchange.Delivered body → (f exchange).Delivered body
  answered : ∀ {exchange}, exchange.answered = true → (f exchange).answered = true

/-- A request changes. Where HEADERS ended the stream, it must not get an idle data handler. -/
theorem Inv.modify (h : Inv s) {f : Http2Exchange → Http2Exchange} (hf : Harmless f) (i : Nat)
    (hheaders : ∀ exchange, s.exchanges[i]? = some exchange → s.stream.bind Stream.ended = some .headers →
      (exchange.listens = true → exchange.answered = true) → (f exchange).listens = true →
        (f exchange).answered = true) :
    Inv { s with exchanges := s.exchanges.modify i f } := by
  unfold Inv at h ⊢
  dsimp only
  cases hstream : s.stream with
  | none =>
    rw [hstream] at h
    dsimp only at h ⊢
    rw [h, List.modify_nil]
  | some stream =>
    rw [hstream] at h
    obtain ⟨exchange, htracks⟩ := h
    cases i with
    | succ i =>
      refine ⟨exchange, ?_, htracks.sound, htracks.quiet, htracks.headers, htracks.data, htracks.waiting⟩
      rw [htracks.exchanges, List.modify_succ_cons, List.modify_nil]
    | zero =>
      refine ⟨f exchange, ?_, hf.sound htracks.sound, fun hended => hf.quiet (htracks.quiet hended), ?_, ?_, ?_⟩
      · rw [htracks.exchanges, List.modify_zero_cons]
      · intro hended
        obtain ⟨hquiet, hanswered⟩ := htracks.headers hended
        refine ⟨hf.quiet hquiet, hheaders exchange (by rw [htracks.exchanges]; rfl) ?_ hanswered⟩
        rw [hstream]
        exact hended
      · intro hended
        rcases htracks.data hended with hdelivered | ⟨hquiet, hanswered⟩
        · exact .inl (hf.delivered hdelivered)
        · exact .inr ⟨hf.quiet hquiet, hf.answered hanswered⟩
      · intro hopen hended
        obtain ⟨req, hreq, hbody, hrequest⟩ := htracks.waiting hopen hended
        exact ⟨req, hreq, hbody, hrequest.imp_right fun hanswered => ⟨hanswered.1, hf.answered hanswered.2⟩⟩

theorem harmless_setDataHandler : Harmless Http2Exchange.setDataHandler where
  sound h := h.setDataHandler
  quiet h := h.setDataHandler
  delivered h := h.setDataHandler
  answered h := h

theorem harmless_endResponse (performInline : Bool) : Harmless (·.endResponse performInline) where
  sound _ := .endResponse performInline
  quiet h := h.endResponse performInline
  delivered h := h
  answered _ := rfl

theorem harmless_scheduledEnd : Harmless Http2Exchange.scheduledEnd where
  sound h := h.scheduledEnd
  quiet h := h.scheduledEnd
  delivered h := h
  answered h := h

/-- The request of a new stream, after its handlers. -/
theorem onHeadersRecv_new (hnew : s.exchanges = []) (fields : List (List Byte × List Byte)) (stream : Stream)
    (results : List HandlerResult) :
    let t := StreamState.onHeadersRecv { s with stream := some stream, userData := some { headers := fields } } results
    let exchange := (Http2Exchange.ofRequest (HttpRequestData.request { headers := fields })).handleRequest results
    t.stream = some stream ∧ t.exchanges = [exchange] ∧ exchange.Quiet ∧ exchange.Sound ∧
      ∃ req, t.userData = some req ∧ req.body = [] ∧
        (req.httpReq = some 0 ∨ (req.httpReq = none ∧ exchange.answered = true)) := by
  intro t exchange
  have hrequest : exchange.Quiet ∧ exchange.Sound :=
    Http2Exchange.handleRequest_quiet ⟨rfl, rfl, rfl⟩ (fun hended => by cases hended) results
  refine ⟨rfl, ?_, hrequest.1, hrequest.2, _, rfl, rfl, ?_⟩
  · show s.exchanges ++ [exchange] = [exchange]
    rw [hnew, List.nil_append]
  · show (if exchange.ended then none else some s.exchanges.length) = some 0 ∨ _
    rw [hnew]
    split_ifs with hend
    · exact .inr ⟨rfl, hrequest.2 hend⟩
    · exact .inl rfl

theorem Inv.dataChunk (h : Inv s) {data : List Byte} {t : StreamState}
    (htake : s.onDataChunk data = some t) : Inv t := by
  unfold Inv at h
  unfold onDataChunk at htake
  cases hstream : s.stream with
  | none =>
    rw [hstream] at htake
    cases htake
  | some stream =>
    rw [hstream] at h htake
    obtain ⟨exchange, htracks⟩ := h
    obtain ⟨⟨hopen, hended⟩, htake⟩ := Option.ite_none_right_eq_some.mp htake
    cases htake
    refine ⟨exchange, htracks.exchanges, htracks.sound, fun _ => htracks.quiet hended, ?_, ?_, ?_⟩
    · intro hheaders
      rw [hended] at hheaders
      cases hheaders
    · intro hdata
      rw [hended] at hdata
      cases hdata
    · intro _ _
      obtain ⟨req, hreq, hbody, hrequest⟩ := htracks.waiting hopen hended
      refine ⟨{ req with body := req.body ++ data }, by rw [hreq]; rfl, ?_, hrequest⟩
      rw [hbody]

/-- The end of the body reaches the request, or the request is answered. -/
theorem Inv.data (h : Inv s) {endStream : Bool} {t : StreamState} (htake : s.onData endStream = some t) : Inv t := by
  have hinv := h
  unfold Inv at h
  unfold onData at htake
  cases hstream : s.stream with
  | none =>
    rw [hstream] at htake
    cases htake
  | some stream =>
    rw [hstream] at h htake
    obtain ⟨exchange, htracks⟩ := h
    obtain ⟨⟨hopen, hended⟩, htake⟩ := Option.ite_none_right_eq_some.mp htake
    cases endStream with
    | false =>
      cases htake
      exact hinv
    | true =>
      obtain ⟨req, hreq, hbody, hrequest⟩ := htracks.waiting hopen hended
      rw [if_pos rfl, onEndStream, hreq] at htake
      dsimp only at htake
      rcases hrequest with hsome | ⟨hnone, hanswered⟩
      · rw [hsome] at htake
        cases htake
        have hdelivered := (htracks.quiet hended).readBody req.body
        refine ⟨exchange.readBody req.body, ?_, ?_, nofun, nofun, ?_, nofun⟩
        · rw [htracks.exchanges, List.modify_zero_cons]
        · have hsound := htracks.sound
          unfold Http2Exchange.Sound Http2Exchange.readBody HttpExchange.readBody
          split_ifs <;> exact hsound
        · rw [hbody] at hdelivered ⊢
          exact fun _ => .inl hdelivered
      · rw [hnone] at htake
        cases htake
        exact ⟨exchange, htracks.exchanges, htracks.sound, nofun, nofun,
          fun _ => .inr ⟨htracks.quiet hended, hanswered⟩, nofun⟩

theorem Inv.close (h : Inv s) {t : StreamState} (htake : s.onStreamClose = some t) : Inv t := by
  unfold Inv at h
  unfold onStreamClose at htake
  cases hstream : s.stream with
  | none =>
    rw [hstream] at htake
    cases htake
  | some stream =>
    rw [hstream] at h htake
    obtain ⟨exchange, htracks⟩ := h
    dsimp only at htake
    split_ifs at htake
    cases htake
    exact ⟨exchange, htracks.exchanges, htracks.sound, htracks.quiet, htracks.headers, htracks.data, nofun⟩

theorem Inv.headers (h : Inv s) {fields : List (List Byte × List Byte)} {endStream : Bool}
    {results : List HandlerResult} {t : StreamState} (hallowed : s.Allowed (.headers fields endStream results))
    (htake : s.step (.headers fields endStream results) = some t) : Inv t := by
  obtain ⟨hstream, hanswered⟩ := hallowed
  unfold Inv at h
  rw [step, onHeaders, hstream] at htake
  rw [hstream] at h
  cases htake
  obtain ⟨_, hexchanges, hquiet, hsound, hwaiting⟩ := onHeadersRecv_new h fields
    { ended := if endStream then some .headers else none } results
  refine ⟨_, hexchanges, hsound, fun _ => hquiet, fun hended => ⟨hquiet, ?_⟩, fun hdata => ?_, fun _ _ => hwaiting⟩
  · apply hanswered
    by_contra hnot
    rw [if_neg hnot] at hended
    cases hended
  · cases endStream <;> cases hdata

/-- An allowed event keeps the invariant. -/
theorem Inv.step (h : Inv s) {event : Event} {t : StreamState} (hallowed : s.Allowed event)
    (htake : s.step event = some t) : Inv t := by
  cases event with
  | headers fields endStream results => exact h.headers hallowed htake
  | dataChunk data => exact h.dataChunk htake
  | data endStream => exact h.data htake
  | close => exact h.close htake
  | setDataHandler i =>
    cases htake
    refine h.modify harmless_setDataHandler i fun exchange hexchange hended _ _ => ?_
    exact (hallowed exchange hexchange).resolve_left (not_not_intro hended)
  | endResponse i performInline =>
    cases htake
    exact h.modify (harmless_endResponse performInline) i fun _ _ _ _ _ => rfl
  | scheduledEnd i =>
    cases htake
    exact h.modify harmless_scheduledEnd i fun _ _ _ hanswered => hanswered

/-- After an event that is not allowed, the request is not handled as it should be. -/
theorem Inv.allowed (h : Inv s) {event : Event} {t : StreamState} (htake : s.step event = some t)
    (hhandled : t.Handled) :
    s.Allowed event := by
  cases event with
  | headers fields endStream results =>
    unfold Inv at h
    rw [StreamState.step, onHeaders] at htake
    cases hstream : s.stream with
    | none =>
      rw [hstream] at htake h
      cases htake
      obtain ⟨ht, hexchanges, hquiet, -, -⟩ := onHeadersRecv_new h fields
        { ended := if endStream then some .headers else none } results
      refine ⟨hstream, fun hend => ?_⟩
      intro exchange hlistens
      unfold Handled at hhandled
      rw [ht] at hhandled
      dsimp only at hhandled
      rw [hexchanges] at hhandled
      by_contra hnot
      have hgiven := (hhandled.2 exchange List.mem_cons_self).2 (by simpa using hnot) hlistens
        (by rw [if_pos hend]; rfl)
      rw [hquiet.given] at hgiven
      cases hgiven
    | some stream =>
      -- trailers make a second request
      rw [hstream] at htake h
      obtain ⟨exchange, htracks⟩ := h
      obtain ⟨s', hs', rfl⟩ := Option.map_eq_some_iff.mp htake
      obtain ⟨⟨hopen, hended, -⟩, hs'⟩ := Option.ite_none_right_eq_some.mp hs'
      cases hs'
      obtain ⟨req, hreq, -, -⟩ := htracks.waiting hopen hended
      rw [onHeadersRecv] at hhandled
      simp only [hreq, Handled, htracks.exchanges] at hhandled
      cases hhandled.1
  | setDataHandler i =>
    cases htake
    intro exchange hexchange
    by_contra hnot
    obtain ⟨hended, hunanswered⟩ := not_or.mp hnot
    rw [ne_eq, not_not] at hended
    obtain ⟨stream, hstream, hheaders⟩ := Option.bind_eq_some_iff.mp hended
    unfold Inv at h
    rw [hstream] at h
    obtain ⟨only, htracks⟩ := h
    unfold Handled at hhandled
    rw [hstream] at hhandled
    have hmem : exchange.setDataHandler ∈ s.exchanges.modify i .setDataHandler := by
      refine List.mem_of_getElem? (i := i) ?_
      rw [List.getElem?_modify_eq, hexchange]
      rfl
    have honly : exchange = only := by
      have hexchange' := List.mem_of_getElem? hexchange
      rw [htracks.exchanges] at hexchange'
      exact List.mem_singleton.mp hexchange'
    have hgiven := (hhandled.2 _ hmem).2 (by simpa [Http2Exchange.setDataHandler] using hunanswered)
      (Http2Exchange.listens_setDataHandler exchange) (by rw [hheaders]; rfl)
    rw [honly, (htracks.headers hheaders).1.setDataHandler.given] at hgiven
    cases hgiven
  | dataChunk data => trivial
  | data endStream => trivial
  | close => trivial
  | endResponse i performInline => trivial
  | scheduledEnd i => trivial

end h2.StreamState

namespace h2

/-- The streams of a connection, by their ids. -/
abbrev Connection := Nat → StreamState

namespace Connection

/-- An event of one of the streams. Its user data is that of the stream. -/
def step (connection : Connection) (event : Nat × Event) : Option Connection :=
  ((connection event.1).step event.2).map fun stream => Function.update connection event.1 stream

/-- Every request is handled. -/
def Handled (connection : Connection) : Prop := ∀ id, (connection id).Handled

/-- The step leads to a connection whose requests are all handled. -/
def KeepsHandled (connection : Connection) (event : Nat × Event) : Prop :=
  ∀ next, connection.step event = some next → next.Handled

def Allowed (connection : Connection) (event : Nat × Event) : Prop := (connection event.1).Allowed event.2

def Inv (connection : Connection) : Prop := ∀ id, (connection id).Inv

variable {connection next : Connection} {event : Nat × Event}

theorem Inv.step (h : connection.Inv) (hallowed : connection.Allowed event)
    (htake : connection.step event = some next) :
    next.Inv := by
  obtain ⟨stream, hstream, rfl⟩ := Option.map_eq_some_iff.mp htake
  intro id
  by_cases hid : id = event.1
  · rw [hid, Function.update_self]
    exact (h event.1).step hallowed hstream
  · rw [Function.update_of_ne hid]
    exact h id

theorem Inv.allowed (h : connection.Inv) (hkeeps : connection.KeepsHandled event)
    (htake : connection.step event = some next) :
    connection.Allowed event := by
  have hhandled := hkeeps next htake event.1
  obtain ⟨stream, hstream, rfl⟩ := Option.map_eq_some_iff.mp htake
  rw [Function.update_self] at hhandled
  exact (h event.1).allowed hstream hhandled

/-- The connection before the first frame. -/
def initial : Connection := fun _ => {}

theorem inv_initial : initial.Inv := fun _ => rfl

/-- In a run, the requests are handled after every step exactly when every step is allowed: no stream gets trailers,
and no data handler is left on an unanswered request whose HEADERS frame ended the stream. -/
theorem handled_iff (events : List (Nat × Event)) (connection : Connection) :
    Run step KeepsHandled initial events connection ↔ Run step Allowed initial events connection := by
  constructor
  · intro h
    refine h.upgrade Inv inv_initial ?_ ?_
    · exact fun hinv hkeeps htake => hinv.step (hinv.allowed hkeeps htake) htake
    · exact fun hinv hkeeps htake => hinv.allowed hkeeps htake
  · intro h
    refine h.upgrade Inv inv_initial (fun hinv hallowed htake => hinv.step hallowed htake) ?_
    intro connection event next hinv hallowed htake next' htake' id
    exact (hinv.step hallowed htake' id).handled

/-- Two streams whose frames come in turn. One body ends with an empty DATA frame, the other before its data handler
is set. -/
example : ((exec step initial [(1, .headers [] false [⟨[.setDataHandler], true⟩]),
    (3, .headers [] false [⟨[], false⟩, ⟨[], true⟩]), (1, .dataChunk (chars "a")), (3, .dataChunk (chars "b")),
      (1, .dataChunk (chars "c")), (1, .data false), (3, .data true),
    (1, .data true), (1, .endResponse 0 true), (1, .close), (3, .setDataHandler 0)]).map fun connection =>
      ((connection 1).exchanges.map (·.given), (connection 3).exchanges.map (·.given))) =
    some ([[chars "ac"]], [[chars "b"]]) := by decide +kernel

/-- A HEADERS frame ends the stream, and the data handler that is set for its empty body is not called. -/
theorem headersEnd_unserved : ¬ ∀ (events : List (Nat × Event)) (connection : Connection),
    Run step (fun _ _ => True) initial events connection → connection.Handled := by
  intro hall
  have hend : (exec step initial [(1, .headers [(chars ":method", chars "POST"), (chars ":path", chars "/client")] true
      [⟨[.setDataHandler], true⟩])]).any (fun connection => ¬ (connection 1).Handled) = true := by
    decide +kernel
  obtain ⟨connection, hrun, htest⟩ := exists_run hend
  exact of_decide_eq_true htest (hall _ connection hrun 1)

end Connection

end h2

end net
