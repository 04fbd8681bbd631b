import Citizen.HttpServer.Basic
import Citizen.Lib.Transition

open Bits Transition

namespace net

namespace ZeroCopyByteBuffer

/-- The `type` of an element. -/
inductive ElementType
  | string | vec | raw
  deriving DecidableEq

/-- An element of the queue, with the number of its completion callback. -/
structure Element where
  type : ElementType
  data : List Byte
  read : Nat := 0
  cb : Nat
  deriving DecidableEq

namespace Element

def advance (elem : Element) (len : Nat) : Element := { elem with read := elem.read + len }

def leftover (elem : Element) : Nat := elem.data.length - elem.read

end Element

/-- What `Take` fills in. -/
structure Taken where
  str : List Byte := []
  vec : List Byte := []
  raw : Option (List Byte) := none
  off : Nat := 0
  cb : Option Nat := none

/-- The bytes that `send_data_callback` writes, if it writes any. -/
def Taken.write (taken : Taken) (length : Nat) : Option (List Byte) :=
  let copy (data : List Byte) := if taken.off = 0 then data else (data.drop taken.off).take length
  if taken.str ≠ [] then some (copy taken.str)
  else if taken.vec ≠ [] then some (copy taken.vec)
  else taken.raw.map copy

/-- The loop of `Has`. -/
def hasFrom (len accounted : Nat) : List Element → Bool
  | [] => len ≤ accounted
  | elem :: elements =>
    let accounted := accounted + min (len - accounted) elem.leftover
    if len < accounted then true else hasFrom len accounted elements

end ZeroCopyByteBuffer

open ZeroCopyByteBuffer

structure ZeroCopyByteBuffer where
  elements : List Element := []
  deriving DecidableEq

namespace ZeroCopyByteBuffer

def push (buffer : ZeroCopyByteBuffer) (elem : Element) : ZeroCopyByteBuffer := ⟨buffer.elements ++ [elem]⟩

/-- `none` is -1: an element of type 2 has a length of its own only if it is not empty. -/
def peekLength (buffer : ZeroCopyByteBuffer) : Option Nat :=
  match buffer.elements with
  | [] => none
  | elem :: _ =>
    match elem.type with
    | .string | .vec => some (elem.data.length - elem.read)
    | .raw => if elem.data.length ≠ 0 then some (elem.data.length - elem.read) else none

def take (buffer : ZeroCopyByteBuffer) (length : Nat) : Option (Taken × ZeroCopyByteBuffer) :=
  match buffer.elements with
  | [] => none
  | elem :: elements =>
    if length < elem.leftover then
      some ({ raw := some ((elem.data.drop elem.read).take length) }, ⟨elem.advance length :: elements⟩)
    else
      let taken : Taken := { off := elem.read, cb := some elem.cb }
      match elem.type with
      | .string => some ({ taken with str := elem.data }, ⟨elements⟩)
      | .vec => some ({ taken with vec := elem.data }, ⟨elements⟩)
      | .raw => some ({ taken with raw := some elem.data }, ⟨elements⟩)

def has (buffer : ZeroCopyByteBuffer) (len : Nat) : Bool := hasFrom len 0 buffer.elements

end ZeroCopyByteBuffer

/-- A DATA frame as it was written: the length and the flag of its header, and the bytes after it. -/
structure DataFrame where
  length : Nat
  eof : Bool
  payload : List Byte
  deriving DecidableEq

/-- A response whose headers have been submitted, with what nghttp2 keeps of its stream. -/
structure Http2Response where
  buffer : ZeroCopyByteBuffer := {}
  ended : Bool := false
  /-- The read callback returned `NGHTTP2_ERR_DEFERRED`, and the data has not been resumed. -/
  deferred : Bool := false
  /-- The length and the flag of a frame that could not be sent yet. -/
  packed : Option (Nat × Bool) := none
  frames : List DataFrame := []
  /-- The completion callbacks that were passed to the TCP stream. -/
  handed : List Nat := []
  deriving DecidableEq

namespace Http2Response

inductive Event
  /-- The callback that `WriteOut` schedules. -/
  | writeOut (type : ElementType) (data : List Byte) (cb : Nat)
  /-- The callback that `End` schedules. -/
  | endResponse
  /-- nghttp2 has room for so many bytes. -/
  | ask (length : Nat)
  deriving DecidableEq

variable (s : Http2Response)

/-- nghttp2 was given the flag, and asks for no more data. -/
def finished : Bool := s.frames.any DataFrame.eof

def sent : List Byte := (s.frames.map DataFrame.payload).flatten

/-- What is queued, and has not been sent. -/
def remaining : List Byte := (s.buffer.elements.map fun elem => elem.data.drop elem.read).flatten

/-- The read callback: the length, and the flags EOF and NO_COPY. `none` is `NGHTTP2_ERR_DEFERRED`. -/
def readCallback (length : Nat) : Option (Nat × Bool × Bool) :=
  if s.buffer.elements = [] then (if s.ended then some (0, true, false) else none)
  else some (min (s.buffer.peekLength.getD (2 ^ 64 - 1)) length, s.ended, true)

def sendFrame (frame : DataFrame) : Http2Response := { s with packed := none, frames := s.frames ++ [frame] }

/-- `send_data_callback`, for a frame of which nghttp2 has made the header. It may put the frame off. -/
def sendDataCallback (length : Nat) (eof : Bool) : Http2Response :=
  if s.buffer.has length then
    match s.buffer.take length with
    | none => s.sendFrame ⟨length, eof, []⟩
    | some (taken, buffer) =>
      match taken.write length with
      | none => { s with buffer }.sendFrame ⟨length, eof, []⟩
      | some payload => { s with buffer, handed := s.handed ++ taken.cb.toList }.sendFrame ⟨length, eof, payload⟩
  else { s with packed := some (length, eof) }

/-- nghttp2 sends the frame that was put off, or asks for a new one. It sends a frame without NO_COPY itself. -/
def ask (length : Nat) : Http2Response :=
  match s.packed with
  | some (length, eof) => s.sendDataCallback length eof
  | none =>
    match s.readCallback length with
    | none => { s with deferred := true }
    | some (length, eof, noCopy) =>
      if noCopy then s.sendDataCallback length eof else s.sendFrame ⟨length, eof, []⟩

/-- A response is written to before it ends. The length of a frame has 24 bits. -/
def step : Event → Option Http2Response
  | .writeOut type data cb =>
    if s.ended then none else some { s with buffer := s.buffer.push { type, data, cb }, deferred := false }
  | .endResponse => if s.ended then none else some { s with ended := true, deferred := false }
  | .ask length =>
    if s.deferred ∨ s.finished ∨ length = 0 ∨ 2 ^ 24 ≤ length then none else some (s.ask length)

/-- The data and the completion callback of each write. -/
def writes : List Event → List (List Byte × Nat)
  | [] => []
  | .writeOut _ data cb :: events => (data, cb) :: writes events
  | .endResponse :: events => writes events
  | .ask _ :: events => writes events

/-- What was written arrives: what has been sent is a part of it in frames of the announced lengths, the flag is set
on the last frame only, sending goes on until there is nothing left, and no completion callback is lost. -/
structure Arrives (written : List (List Byte × Nat)) (s : Http2Response) : Prop where
  bytes : s.sent ++ s.remaining = (written.map Prod.fst).flatten
  announced : ∀ frame ∈ s.frames, frame.payload.length = frame.length
  last : ∀ frame ∈ s.frames.dropLast, frame.eof = false
  complete : s.finished = true → s.ended = true ∧ s.buffer.elements = []
  once : s.handed ++ s.buffer.elements.map Element.cb = written.map Prod.snd
  sends : ∀ length, 0 < length → length < 2 ^ 24 → s.remaining ≠ [] →
    ∃ t, s.step (.ask length) = some t ∧ s.sent.length < t.sent.length
  ends : ∀ length, 0 < length → length < 2 ^ 24 → s.ended = true → s.finished = false → s.remaining = [] →
    ∃ t, s.step (.ask length) = some t ∧ t.finished = true

/-- Nothing empty is written, and once the response has ended, nghttp2 asks for no less than what is left of one
element. -/
def Allowed (s : Http2Response) : Event → Prop
  | .writeOut _ data _ => data ≠ []
  | .endResponse => True
  | .ask length =>
    s.ended = true → s.buffer.elements = [] ∨ ∃ elem, s.buffer.elements = [elem] ∧ elem.leftover ≤ length

/-- What every allowed step keeps. The elements of the queue are never empty, so a frame is never put off. -/
structure Inv (written : List (List Byte × Nat)) (s : Http2Response) : Prop where
  bytes : s.sent ++ s.remaining = (written.map Prod.fst).flatten
  announced : ∀ frame ∈ s.frames, frame.payload.length = frame.length
  last : ∀ frame ∈ s.frames.dropLast, frame.eof = false
  complete : s.finished = true → s.ended = true ∧ s.buffer.elements = []
  once : s.handed ++ s.buffer.elements.map Element.cb = written.map Prod.snd
  fresh : ∀ elem ∈ s.buffer.elements, elem.read < elem.data.length
  packed : s.packed = none
  deferred : s.deferred = true → s.buffer.elements = [] ∧ s.ended = false

section

variable {s t : Http2Response} {written : List (List Byte × Nat)} {elem : Element} {elements : List Element}
  {n length : Nat}

@[simp] theorem sent_sendFrame (frame : DataFrame) : (s.sendFrame frame).sent = s.sent ++ frame.payload := by
  simp [sent, sendFrame]

@[simp] theorem finished_sendFrame (frame : DataFrame) : (s.sendFrame frame).finished = (s.finished || frame.eof) := by
  simp [finished, sendFrame]

theorem hasFrom_self (n : Nat) (elements : List Element) : hasFrom n n elements = true := by
  induction elements with
  | nil => simp [hasFrom]
  | cons elem elements ih => simp [hasFrom, ih]

/-- The queue has what its first element has. -/
theorem has_cons (helements : s.buffer.elements = elem :: elements) (hn : n ≤ elem.leftover) :
    s.buffer.has n = true := by
  rw [has, helements, hasFrom, Nat.zero_add, Nat.sub_zero, Nat.min_eq_left hn, if_neg (Nat.lt_irrefl n)]
  exact hasFrom_self n elements

theorem peekLength_cons (helements : s.buffer.elements = elem :: elements) (hfresh : elem.read < elem.data.length) :
    s.buffer.peekLength = some elem.leftover := by
  rw [peekLength, helements]
  have hne : elem.data.length ≠ 0 := by omega
  cases htype : elem.type <;> simp [hne, htype, Element.leftover]

/-- A part of an element is sent as a copy, and its callback is kept. -/
theorem sendDataCallback_part (helements : s.buffer.elements = elem :: elements) (eof : Bool)
    (hn : n < elem.leftover) :
    s.sendDataCallback n eof = { s with buffer := ⟨elem.advance n :: elements⟩ }.sendFrame
      ⟨n, eof, (elem.data.drop elem.read).take n⟩ := by
  have htake : s.buffer.take n =
      some ({ raw := some ((elem.data.drop elem.read).take n) }, ⟨elem.advance n :: elements⟩) := by
    rw [take, helements]
    exact if_pos hn
  rw [sendDataCallback, if_pos (has_cons helements hn.le), htake]
  simp [Taken.write]

/-- The rest of an element is sent, and its callback is passed on. -/
theorem sendDataCallback_rest (helements : s.buffer.elements = elem :: elements)
    (hfresh : elem.read < elem.data.length) (eof : Bool) : s.sendDataCallback elem.leftover eof =
      { s with buffer := ⟨elements⟩, handed := s.handed ++ [elem.cb] }.sendFrame
        ⟨elem.leftover, eof, elem.data.drop elem.read⟩ := by
  have hne : elem.data ≠ [] := by
    rintro hnil
    rw [hnil] at hfresh
    exact Nat.not_lt_zero _ hfresh
  have hcopy : (if elem.read = 0 then elem.data else (elem.data.drop elem.read).take elem.leftover) =
      elem.data.drop elem.read := by
    split
    next hread => rw [hread, List.drop_zero]
    next => rw [List.take_of_length_le (by rw [List.length_drop, Element.leftover])]
  rw [sendDataCallback, if_pos (has_cons helements le_rfl), take, helements]
  simp only [Nat.lt_irrefl, if_false]
  cases htype : elem.type <;> simp [Taken.write, hne, hcopy]

/-- With data in the queue, nghttp2 sends what its first element has, as far as there is room. -/
theorem Inv.ask_cons (hinv : Inv written s) (helements : s.buffer.elements = elem :: elements) :
    s.ask length = s.sendDataCallback (min elem.leftover length) s.ended := by
  have hfresh := hinv.fresh elem (by simp [helements])
  rw [ask, hinv.packed]
  simp [readCallback, helements, peekLength_cons helements hfresh]

theorem Inv.ask_nil (hinv : Inv written s) (helements : s.buffer.elements = []) :
    s.ask length = if s.ended then s.sendFrame ⟨0, true, []⟩ else { s with deferred := true } := by
  rw [ask, hinv.packed]
  cases hended : s.ended <;> simp [readCallback, helements, hended]

/-- A frame that takes what it holds from the front of the queue. -/
theorem Inv.sendFrame {frame : DataFrame} {buffer : ZeroCopyByteBuffer} {handed : List Nat} (hinv : Inv written s)
    (hopen : s.finished = false) (hbytes : frame.payload ++ { s with buffer }.remaining = s.remaining)
    (hlength : frame.payload.length = frame.length)
    (hcomplete : frame.eof = true → s.ended = true ∧ buffer.elements = [])
    (honce : handed ++ buffer.elements.map Element.cb = s.handed ++ s.buffer.elements.map Element.cb)
    (hfresh : ∀ elem ∈ buffer.elements, elem.read < elem.data.length)
    (hdeferred : s.deferred = true → buffer.elements = []) :
    Inv written ({ s with buffer, handed }.sendFrame frame) := by
  refine ⟨?_, fun frame' hmem => ?_, fun frame' hmem => ?_, fun hfinished => ?_, ?_, hfresh, rfl, fun h => ?_⟩
  · rw [← hinv.bytes, ← hbytes, sent_sendFrame, List.append_assoc]
    rfl
  · rcases List.mem_append.mp hmem with hmem | hmem
    · exact hinv.announced frame' hmem
    · obtain rfl := List.mem_singleton.mp hmem
      exact hlength
  · rw [Http2Response.sendFrame, List.dropLast_concat] at hmem
    simpa using List.any_eq_false.mp hopen frame' hmem
  · rw [finished_sendFrame] at hfinished
    change (s.finished || frame.eof) = true at hfinished
    rw [hopen, Bool.false_or] at hfinished
    exact hcomplete hfinished
  · exact honce.trans hinv.once
  · exact ⟨hdeferred h, (hinv.deferred h).2⟩

/-- An allowed frame keeps the invariant. -/
theorem Inv.ask (hinv : Inv written s) (hopen : s.finished = false) (hallowed : Allowed s (.ask length)) :
    Inv written (s.ask length) := by
  cases helements : s.buffer.elements with
  | nil =>
    rw [hinv.ask_nil helements]
    split
    next hended =>
      exact hinv.sendFrame hopen rfl rfl (fun _ => ⟨hended, helements⟩) rfl hinv.fresh fun _ => helements
    next hended =>
      exact { hinv with packed := hinv.packed, deferred := fun _ => ⟨helements, by simpa using hended⟩ }
  | cons elem elements =>
    have hfresh := hinv.fresh elem (by simp [helements])
    have hrest : ∀ e ∈ elements, e.read < e.data.length := fun e he => hinv.fresh e (by simp [helements, he])
    have hdeferred : s.deferred = true → False := fun h => by simpa [helements] using (hinv.deferred h).1
    rw [hinv.ask_cons helements]
    rcases Nat.lt_or_ge length elem.leftover with hpart | hall
    · rw [Nat.min_eq_right hpart.le, sendDataCallback_part helements _ hpart]
      rw [Element.leftover] at hpart
      refine hinv.sendFrame hopen ?_ ?_ (fun heof => ?_) ?_ ?_ fun h => (hdeferred h).elim
      · simp [remaining, helements, Element.advance, ← List.append_assoc, ← List.drop_drop]
      · simp
        omega
      · rcases hallowed heof with hnil | ⟨one, hone, hle⟩
        · simp [helements] at hnil
        · obtain ⟨rfl, -⟩ := List.cons.inj (helements.symm.trans hone)
          rw [Element.leftover] at hle
          omega
      · simp [helements, Element.advance]
      · exact List.forall_mem_cons.mpr ⟨by simp [Element.advance]; omega, hrest⟩
    · rw [Nat.min_eq_left hall, sendDataCallback_rest helements hfresh]
      refine hinv.sendFrame hopen ?_ ?_ (fun heof => ⟨heof, ?_⟩) ?_ hrest fun h => (hdeferred h).elim
      · simp [remaining, helements]
      · simp [Element.leftover]
      · rcases hallowed heof with hnil | ⟨one, hone, -⟩
        · simp [helements] at hnil
        · exact (List.cons.inj (helements.symm.trans hone)).2
      · simp [helements]

theorem Inv.writeOut (hinv : Inv written s) (hended : s.ended = false) (type : ElementType)
    {data : List Byte} (cb : Nat) (hdata : data ≠ []) :
    Inv (written ++ [(data, cb)]) { s with buffer := s.buffer.push { type, data, cb }, deferred := false } := by
  refine { hinv with
    bytes := ?_
    complete := fun hfinished => ?_
    once := ?_
    fresh := fun elem helem => ?_
    deferred := nofun }
  · have hbytes := hinv.bytes
    rw [List.map_append, List.flatten_append, ← hbytes]
    simp [sent, remaining, push]
  · have hdone := (hinv.complete hfinished).1
    rw [hended] at hdone
    cases hdone
  · rw [List.map_append, ← hinv.once]
    simp [push]
  · rcases List.mem_append.mp helem with helem | helem
    · exact hinv.fresh elem helem
    · obtain rfl := List.mem_singleton.mp helem
      exact List.length_pos_iff.mpr hdata

/-- An allowed step keeps the invariant, with what it writes. -/
theorem Inv.step {event : Event} (hinv : Inv written s) (hallowed : Allowed s event) (htake : s.step event = some t) :
    Inv (written ++ writes [event]) t := by
  cases event with
  | writeOut type data cb =>
    rw [Http2Response.step] at htake
    split at htake
    next => cases htake
    next hended =>
      obtain rfl := Option.some.inj htake
      exact hinv.writeOut (by simpa using hended) type cb hallowed
  | endResponse =>
    rw [Http2Response.step] at htake
    rw [writes, writes, List.append_nil]
    split at htake
    next => cases htake
    next hended =>
      obtain rfl := Option.some.inj htake
      exact { hinv with complete := fun hfinished => ⟨rfl, (hinv.complete hfinished).2⟩, deferred := nofun }
  | ask length =>
    rw [Http2Response.step] at htake
    rw [writes, writes, List.append_nil]
    split at htake
    next => cases htake
    next hroom =>
      obtain rfl := Option.some.inj htake
      exact hinv.ask (by simpa using fun h => hroom (.inr (.inl h))) hallowed

theorem writes_cons (event : Event) (events : List Event) :
    writes (event :: events) = writes [event] ++ writes events := by
  cases event <;> rfl

theorem Inv.run {events : List Event} (hrun : Run Http2Response.step Allowed s events t) (hinv : Inv written s) :
    Inv (written ++ writes events) t := by
  induction hrun generalizing written with
  | nil => simpa [writes] using hinv
  | cons hallowed htake _ ih =>
    rw [writes_cons, ← List.append_assoc]
    exact ih (hinv.step hallowed htake)

/-- Whatever room there is, the next frame has bytes of the queue. -/
theorem Inv.sends (hinv : Inv written s) (hlength : 0 < length) (hsmall : length < 2 ^ 24)
    (hremaining : s.remaining ≠ []) :
    ∃ t, s.step (.ask length) = some t ∧ s.sent.length < t.sent.length := by
  cases helements : s.buffer.elements with
  | nil => simp [remaining, helements] at hremaining
  | cons elem elements =>
    have hfresh := hinv.fresh elem (by simp [helements])
    have hdeferred : s.deferred = false := by
      by_contra h
      simpa [helements] using (hinv.deferred (by simpa using h)).1
    have hopen : s.finished = false := by
      by_contra h
      simpa [helements] using (hinv.complete (by simpa using h)).2
    refine ⟨s.ask length, ?_, ?_⟩
    · rw [Http2Response.step, if_neg]
      simp [hdeferred, hopen]
      omega
    · rw [hinv.ask_cons helements]
      rcases Nat.lt_or_ge length elem.leftover with hpart | hall
      · rw [Nat.min_eq_right hpart.le, sendDataCallback_part helements _ hpart]
        rw [sent_sendFrame, List.length_append, List.length_take, List.length_drop]
        change s.sent.length < s.sent.length + _
        omega
      · rw [Nat.min_eq_left hall, sendDataCallback_rest helements hfresh, sent_sendFrame, List.length_append,
          List.length_drop]
        change s.sent.length < s.sent.length + _
        omega

/-- Once everything has been sent, an empty frame ends the body. -/
theorem Inv.ends (hinv : Inv written s) (hlength : 0 < length) (hsmall : length < 2 ^ 24) (hended : s.ended = true)
    (hopen : s.finished = false) (hremaining : s.remaining = []) :
    ∃ t, s.step (.ask length) = some t ∧ t.finished = true := by
  have helements : s.buffer.elements = [] := by
    rw [List.eq_nil_iff_forall_not_mem]
    intro elem helem
    have hnil := List.flatten_eq_nil_iff.mp hremaining _ (List.mem_map_of_mem helem)
    have hfresh := hinv.fresh elem helem
    rw [List.drop_eq_nil_iff] at hnil
    omega
  have hdeferred : s.deferred = false := by
    by_contra h
    simpa [hended] using (hinv.deferred (by simpa using h)).2
  refine ⟨s.ask length, ?_, ?_⟩
  · rw [Http2Response.step, if_neg]
    simp [hdeferred, hopen]
    omega
  · rw [hinv.ask_nil helements, if_pos hended, finished_sendFrame, Bool.or_true]

theorem Inv.arrives (hinv : Inv written s) : Arrives written s where
  bytes := hinv.bytes
  announced := hinv.announced
  last := hinv.last
  complete := hinv.complete
  once := hinv.once
  sends := fun _ => hinv.sends
  ends := fun _ => hinv.ends

theorem inv_init : Inv [] {} := by
  constructor <;> simp [sent, remaining, finished]

/-- The body arrives where nghttp2 takes what is left of it at once when the response has ended. Until then it may
ask for as little as it likes. -/
theorem arrives_of_run {events : List Event} (hrun : Run step Allowed {} events t) : Arrives (writes events) t := by
  simpa using (Inv.run hrun inv_init).arrives

end

/-- A large buffer is sent in parts while the response is open, and a string after its end. -/
theorem arrives_parts : ∃ t, Run step Allowed {}
    [.writeOut .raw [1, 2, 3] 0, .ask 2, .ask 2, .ask 2, .writeOut .string [4] 1, .endResponse, .ask 2] t ∧
      Arrives [([1, 2, 3], 0), ([4], 1)] t := by
  have hrun : ∃ t, Run step Allowed {} [.writeOut .raw [1, 2, 3] 0, .ask 2, .ask 2, .ask 2, .writeOut .string [4] 1,
      .endResponse, .ask 2] t :=
    ⟨_, .cons nofun rfl (.cons nofun rfl (.cons nofun rfl (.cons nofun rfl (.cons nofun rfl (.cons trivial rfl
      (.cons (fun _ => .inr ⟨_, rfl, by decide⟩) rfl (.nil _)))))))⟩
  obtain ⟨t, hrun⟩ := hrun
  exact ⟨t, hrun, arrives_of_run hrun⟩

/-- The flag is set on the first part of a buffer, and the rest is never sent. -/
theorem not_arrives_ended : ¬ ∀ events t, Run step (fun _ _ => True) {} events t → Arrives (writes events) t := by
  intro h
  have hrun : ∃ t, Run step (fun _ _ => True) {} [.writeOut .raw [1, 2, 3] 0, .endResponse, .ask 2] t ∧
      t.finished = true ∧ t.buffer.elements ≠ [] :=
    ⟨_, .cons trivial rfl (.cons trivial rfl (.cons trivial rfl (.nil _))), rfl, nofun⟩
  obtain ⟨t, hrun, hfinished, hleft⟩ := hrun
  exact hleft ((h _ t hrun).complete hfinished).2

end Http2Response

end net
