import Citizen.HttpServer.Response

open Bits Chunked

namespace net

namespace HeaderMap

variable {m : HeaderMap} {field : Field} {fields : List Field} {name name' : List Byte}

/-- A new field comes after those of its name. -/
theorem insertField_filter_self (h : fields.Pairwise fun before after => headerKey before.1 ≤ headerKey after.1)
    (hkey : headerKey field.1 = headerKey name) :
    (insertField field fields).filter (fun field => headerKey field.1 = headerKey name) =
      fields.filter (fun field => headerKey field.1 = headerKey name) ++ [field] := by
  induction fields with
  | nil => rw [insertField, List.filter_cons_of_pos (by simpa using hkey), List.filter_nil, List.nil_append]
  | cons next fields ih =>
    obtain ⟨hnext, hrest⟩ := List.pairwise_cons.mp h
    rw [insertField]
    split
    · rename_i hlt
      have hlater : (next :: fields).filter (fun field => headerKey field.1 = headerKey name) = [] := by
        rw [List.filter_eq_nil_iff]
        intro after hafter heq
        have hkeys : headerKey after.1 = headerKey name := of_decide_eq_true heq
        rw [hkey] at hlt
        obtain rfl | hafter := List.mem_cons.mp hafter
        · exact absurd hkeys (ne_of_gt hlt)
        · exact absurd hkeys (ne_of_gt (lt_of_lt_of_le hlt (hnext after hafter)))
      rw [List.filter_cons_of_pos (by simpa using hkey), hlater, List.nil_append]
    · rw [List.filter_cons, List.filter_cons, ih hrest]
      split
      · rfl
      · rfl

theorem erase_filter_self : (m.erase name).fields.filter (fun field => headerKey field.1 = headerKey name) = [] := by
  rw [List.filter_eq_nil_iff]
  intro field hfield heq
  exact absurd (of_decide_eq_true heq) (of_decide_eq_true (List.mem_filter.mp hfield).2)

theorem erase_filter_ne (hne : headerKey name' ≠ headerKey name) :
    (m.erase name').fields.filter (fun field => headerKey field.1 = headerKey name) =
      m.fields.filter fun field => headerKey field.1 = headerKey name := by
  rw [erase, List.filter_filter]
  refine List.filter_congr fun field _ => ?_
  by_cases hkey : headerKey field.1 = headerKey name
  · simp [hkey, hne.symm]
  · simp [hkey]

theorem set_filter_self (value : List Byte) :
    (m.set name [value]).fields.filter (fun field => headerKey field.1 = headerKey name) = [(name, value)] := by
  have hkey : headerKey (name, value).1 = headerKey name := rfl
  rw [set, List.foldl_cons, List.foldl_nil, insert, insertField_filter_self (m.erase name).sorted hkey,
    erase_filter_self, List.nil_append]

theorem find_eq_none_iff : m.find name = none ↔
    m.fields.filter (fun field => headerKey field.1 = headerKey name) = [] := by
  rw [find, Option.map_eq_none_iff, List.find?_eq_none, List.filter_eq_nil_iff]

theorem mem_erase (h : field ∈ (m.erase name).fields) : field ∈ m.fields := (List.mem_filter.mp h).1

theorem mem_set {value : List Byte} (h : field ∈ (m.set name [value]).fields) : field = (name, value) ∨
    field ∈ m.fields := by
  rw [set, List.foldl_cons, List.foldl_nil, insert, mem_insertField] at h
  exact h.imp_right mem_erase

end HeaderMap

/-- The names that a head is framed by. -/
theorem headerKey_ne : headerKey (chars "transfer-encoding") ≠ headerKey (chars "content-length") := by
  decide

variable {context : Http1Context} {calls : List Call} {set : HeaderMap}

/-- The headers that the filter leaves. -/
def Http1Context.filtered (context : Http1Context) (set : HeaderMap) (length : Nat) : HeaderMap :=
  (({ headerList := set } : Http1Response).beforeWriteHead context length).headerList

theorem elements_chunked (length : Nat) (hchunked : context.unchunked set = false) :
    elements (context.filtered set length).fields (chars "transfer-encoding") = [chars "chunked"] := by
  have hfiltered : context.filtered set length =
      (set.set (chars "Transfer-Encoding") [chars "chunked"]).erase (chars "content-length") := by
    rw [Http1Context.filtered, Http1Response.beforeWriteHead, if_neg Bool.false_ne_true]
    dsimp only
    rw [hchunked]
    rfl
  have hkey : headerKey (chars "Transfer-Encoding") = headerKey (chars "transfer-encoding") := by
    decide
  rw [hfiltered, elements, HeaderMap.erase_filter_ne headerKey_ne.symm, ← hkey, HeaderMap.set_filter_self]
  decide

theorem framing_chunked (length : Nat) (hchunked : context.unchunked set = false) :
    framing (context.filtered set length).fields = .chunked := by
  have hlast : ([chars "chunked"].filter (· ≠ [])).getLast? = some (chars "chunked") := by
    decide
  rw [framing, elements_chunked length hchunked, hlast]
  exact if_pos (by decide)

theorem listElements_numeral (n : Nat) : listElements (numeral 10 n) = [numeral 10 n] := by
  have hnot : ∀ c : Byte, 16 ≤ digitValue c → c ∉ numeral 10 n := fun c hc => not_mem_numeral (by omega)
    (by omega) hc n
  have htrim : ∀ text : List Byte, (32 : Byte) ∉ text → (9 : Byte) ∉ text →
      text.dropWhile (fun c => decide (c = 32 ∨ c = 9)) = text := by
    intro text hspace htab
    rw [List.dropWhile_eq_self_iff]
    intro hpos hblank
    obtain heq | heq := of_decide_eq_true hblank
    · exact hspace (heq ▸ List.getElem_mem hpos)
    · exact htab (heq ▸ List.getElem_mem hpos)
  have hspace := hnot 32 (by decide)
  have htab := hnot 9 (by decide)
  rw [listElements, List.splitOn_eq_singleton (hnot 44 (by decide)), List.map_singleton, htrim _ hspace htab,
    htrim _ (mt List.mem_reverse.mp hspace) (mt List.mem_reverse.mp htab), List.reverse_reverse]

theorem lengthFraming_numeral (n : Nat) : lengthFraming [numeral 10 n] = .length n := by
  rw [lengthFraming, if_pos (List.forall_mem_nil _), readNumeral_numeral (by omega) (by omega)]
  rfl

/-- A length that was set stays, and is the length of the body or not. -/
theorem framing_unchunked (length : Nat) (hunchunked : context.unchunked set = true) :
    framing (context.filtered set length).fields =
      if (set.find (chars "content-length")).isNone then .length length
      else lengthFraming (elements set.fields (chars "content-length")) := by
  have hfiltered : context.filtered set length =
      (if (set.find (chars "content-length")).isNone then set.set (chars "Content-Length")
        [numeral 10 length] else set).erase (chars "transfer-encoding") := by
    rw [Http1Context.filtered, Http1Response.beforeWriteHead, if_neg Bool.false_ne_true]
    dsimp only
    rw [hunchunked]
    rfl
  have hkey : headerKey (chars "Content-Length") = headerKey (chars "content-length") := by
    decide
  have hnone : elements (context.filtered set length).fields (chars "transfer-encoding") = [] := by
    rw [hfiltered, elements, HeaderMap.erase_filter_self]
    rfl
  rw [framing, hnone, hfiltered]
  dsimp only [List.filter_nil, List.getLast?_nil]
  rw [elements, HeaderMap.erase_filter_ne headerKey_ne]
  split
  · rw [← hkey, HeaderMap.set_filter_self, List.flatMap_singleton, listElements_numeral, lengthFraming_numeral]
  · rfl

/-- What the head adds to the headers does not frame the body. -/
theorem framing_append {fields used : List Field}
    (hfields : ∀ field ∈ fields, headerKey field.1 ≠ headerKey (chars "transfer-encoding") ∧
      headerKey field.1 ≠ headerKey (chars "content-length")) : framing (fields ++ used) = framing used := by
  have hnone : ∀ name, (∀ field ∈ fields, headerKey field.1 ≠ headerKey name) →
    elements (fields ++ used) name = elements used name := by
    intro name hname
    rw [elements, List.filter_append, List.filter_eq_nil_iff.mpr fun field hfield => by simpa using hname field hfield]
    rfl
  rw [framing, framing, hnone _ fun field hfield => (hfields field hfield).1, hnone _ fun field hfield =>
    (hfields field hfield).2]

/-- A field that a line can hold. -/
def LineField (field : Field) : Prop := Token field.1 ∧ OneLine field.2

section Reading

variable {text line rest payload : List Byte} {field : Field} {fields : List Field}

/-- What is before a line is part of it, if there is no CR in it. -/
theorem readLine_prepend (htext : (13 : Byte) ∉ text) (input : List Byte) :
    readLine (text ++ input) = (readLine input).map fun (line, after) => (text ++ line, after) := by
  induction text with
  | nil => exact (Option.map_id' (x := readLine input)).symm
  | cons c text ih =>
    obtain ⟨hc, htext⟩ := not_or.mp (mt List.mem_cons.mpr htext)
    rw [List.cons_append, readLine, if_neg (fun h => hc h.1.symm), ih htext, Option.map_map]
    rfl

theorem readLine_oneLine (hline : OneLine line) (rest : List Byte) :
    readLine (line ++ crlf ++ rest) = some (line, rest) := by
  induction line with
  | nil => rfl
  | cons c line ih =>
    have hnext : ¬ (c = 13 ∧ (line ++ crlf ++ rest).head? = some 10) := by
      rintro ⟨rfl, hhead⟩
      cases line with
      | nil => cases hhead
      | cons next line =>
        cases hhead
        exact hline ⟨[], line, rfl⟩
    have hline : OneLine line := fun hin => hline (hin.trans (List.suffix_cons c line).isInfix)
    rw [List.cons_append, List.cons_append, readLine, if_neg hnext, ih hline]
    rfl

theorem not_mem_of_token {name : List Byte} (htoken : Token name) {c : Byte} (hc : tokenChar c = false) :
    c ∉ name := by
  intro hmem
  have htrue := htoken.2 c hmem
  rw [hc] at htrue
  cases htrue

/-- A field is read with the blank before its value. -/
theorem readField_line (htoken : Token field.1) :
    readField (field.1 ++ [58, 32] ++ field.2) = some (field.1, 32 :: field.2) := by
  have hcolon : (58 : Byte) ∉ field.1 := not_mem_of_token htoken (by decide)
  have hname : (field.1 ++ [58, 32] ++ field.2).takeWhile (· ≠ 58) = field.1 := by
    have hkeep : ∀ c ∈ field.1, decide (c ≠ 58) = true := fun c hc => decide_eq_true fun heq => hcolon (heq ▸ hc)
    rw [List.append_assoc, List.takeWhile_append_of_pos hkeep]
    exact List.append_nil _
  unfold readField
  dsimp only
  rw [hname, if_pos ⟨htoken, by simp only [List.length_append, List.length_cons]; omega⟩]
  rw [List.append_assoc, List.drop_append, List.drop_eq_nil_of_le (Nat.le_succ _), Nat.add_sub_cancel_left]
  rfl

/-- The fields of a head are read, and its body is what follows. -/
theorem readFields_lines (hfields : ∀ field ∈ fields, LineField field) {fuel : Nat} (hfuel : fields.length < fuel) :
    readFields fuel ((fields.flatMap fun field => field.1 ++ [58, 32] ++ field.2 ++ crlf) ++ crlf ++ payload) =
      some (fields.map fun field => (field.1, 32 :: field.2), payload) := by
  induction fields generalizing fuel with
  | nil =>
    obtain ⟨fuel, rfl⟩ := Nat.exists_eq_succ_of_ne_zero hfuel.ne_bot
    rfl
  | cons field fields ih =>
    obtain ⟨fuel, rfl⟩ := Nat.exists_eq_succ_of_ne_zero (Nat.ne_of_gt (Nat.lt_of_le_of_lt (Nat.zero_le _) hfuel))
    obtain ⟨⟨htoken, hvalue⟩, hfields⟩ := List.forall_mem_cons.mp hfields
    have hcr : (13 : Byte) ∉ field.1 ++ [58, 32] := by
      rw [List.mem_append, not_or]
      exact ⟨not_mem_of_token htoken (by decide), by decide⟩
    have hline (rest : List Byte) : readLine (field.1 ++ [58, 32] ++ field.2 ++ crlf ++ rest) =
        some (field.1 ++ [58, 32] ++ field.2, rest) := by
      rw [List.append_assoc (field.1 ++ [58, 32]), List.append_assoc (field.1 ++ [58, 32]), readLine_prepend hcr,
        readLine_oneLine hvalue]
      rfl
    have hne : field.1 ++ [58, 32] ++ field.2 ≠ [] := by simp
    rw [List.flatMap_cons, List.append_assoc, List.append_assoc, readFields, hline, Option.bind_some]
    dsimp only
    rw [if_neg hne, readField_line htoken, Option.bind_some, ← List.append_assoc,
      ih hfields (by rw [List.length_cons] at hfuel; omega)]
    rfl

/-- The blank before a value is not part of its elements. -/
theorem listElements_blank (value : List Byte) : listElements (32 :: value) = listElements value := by
  obtain ⟨first, parts, hsplit⟩ := List.exists_cons_of_ne_nil (List.splitOn_ne_nil (44 : Byte) value)
  have hblank : (32 :: value).splitOn (44 : Byte) = (32 :: first) :: parts := by
    have hsplit : value.splitOnP (· == 44) = first :: parts := hsplit
    rw [List.splitOn, List.splitOnP_cons_eq_if_modifyHead, hsplit]
    rfl
  rw [listElements, listElements, hblank, hsplit]
  rfl

theorem elements_blank (fields : List Field) (name : List Byte) :
    elements (fields.map fun field => (field.1, 32 :: field.2)) name = elements fields name := by
  rw [elements, elements, List.filter_map, List.flatMap_map]
  exact List.flatMap_congr fun field _ => listElements_blank field.2

theorem readBody_blank (fields : List Field) (closed : Bool) (payload : List Byte) :
    readBody (fields.map fun field => (field.1, 32 :: field.2)) closed payload = readBody fields closed payload := by
  unfold readBody framing
  rw [elements_blank, elements_blank, elements_blank]

theorem not_mem_toText (n : Int) : (13 : Byte) ∉ toText n := by
  have hdigits : (13 : Byte) ∉ numeral 10 n.natAbs := not_mem_numeral (by omega) (by omega) (by decide) n.natAbs
  unfold toText
  split
  · rw [List.mem_cons, not_or]
    exact ⟨by decide, hdigits⟩
  · exact hdigits

/-- A response whose texts its lines can hold is read as its fields say. -/
theorem readResponse_head {head : Head} (hmessage : OneLine head.statusMessage)
    (hfields : ∀ field ∈ head.fields, LineField field) (closed : Bool) (payload : List Byte) :
    readResponse closed (head.text ++ payload) = readBody head.fields closed payload := by
  have hstatus (rest : List Byte) :
      readLine (chars "HTTP/1.1 " ++ toText head.statusCode ++ [32] ++ head.statusMessage ++ crlf ++ rest) =
        some (chars "HTTP/1.1 " ++ toText head.statusCode ++ [32] ++ head.statusMessage, rest) := by
    have hcr : (13 : Byte) ∉ chars "HTTP/1.1 " ++ toText head.statusCode ++ [32] := by
      simp only [List.mem_append, not_or]
      exact ⟨⟨by decide, not_mem_toText _⟩, by decide⟩
    rw [List.append_assoc (_ ++ [32]), List.append_assoc (_ ++ [32]), readLine_prepend hcr, readLine_oneLine hmessage]
    rfl
  have hversion : (chars "HTTP/1.1 ").isPrefixOf
      (chars "HTTP/1.1 " ++ toText head.statusCode ++ [32] ++ head.statusMessage) = true := by
    rw [List.isPrefixOf_iff_prefix, List.append_assoc, List.append_assoc]
    exact List.prefix_append _ _
  have hlength (fields : List Field) (rest : List Byte) :
      fields.length < ((fields.flatMap fun field : Field => field.1 ++ [58, 32] ++ field.2 ++ crlf) ++ rest).length +
        1 := by
    induction fields with
    | nil => exact Nat.succ_pos _
    | cons field fields ih =>
      simp only [List.flatMap_cons, List.length_append, List.length_cons] at ih ⊢
      omega
  rw [readResponse, Head.text, List.append_assoc _ crlf payload, List.append_assoc _ _ (crlf ++ payload), hstatus,
    Option.bind_some]
  dsimp only
  rw [if_pos hversion, ← List.append_assoc, readFields_lines hfields (by rw [List.append_assoc]; exact hlength _ _),
    Option.bind_some]
  exact readBody_blank head.fields closed payload

end Reading

/-- The headers that are set when the head is written, and the call that writes it. -/
def firstHead : HeaderMap → List Call → Option (HeaderMap × Call)
  | _, [] => none
  | set, .setHeader name values :: calls => firstHead (set.set name values) calls
  | set, .setStatusCode _ :: calls => firstHead set calls
  | set, .writeHead statusCode statusMessage headers :: _ => some (set, .writeHead statusCode statusMessage headers)
  | set, .write data :: _ => some (set, .write data)

/-- The explicit headers of a call. -/
def Call.headers : Call → HeaderMap
  | .writeHead _ _ headers => headers
  | _ => {}

/-- The fields that are in every head. -/
def Http1Context.ownFields (context : Http1Context) (used : HeaderMap) : List Field :=
  (if (used.find (chars "date")).isNone then [(chars "Date", context.date)] else []) ++
    [(chars "Connection", if context.closes then chars "close" else chars "keep-alive")]

theorem ownFields_key (used : HeaderMap) : ∀ field ∈ context.ownFields used,
    headerKey field.1 ≠ headerKey (chars "transfer-encoding") ∧
      headerKey field.1 ≠ headerKey (chars "content-length") := by
  intro field hfield
  have hname : field.1 = chars "Date" ∨ field.1 = chars "Connection" := by
    obtain hdate | hconnection := List.mem_append.mp hfield
    · split at hdate
      · exact .inl (congrArg Prod.fst (List.mem_singleton.mp hdate))
      · cases hdate
    · exact .inr (congrArg Prod.fst (List.mem_singleton.mp hconnection))
  obtain hname | hname := hname <;> rw [hname] <;> decide

theorem ownFields_line (used : HeaderMap) : ∀ field ∈ context.ownFields used, Token field.1 ∧ OneLine field.2 := by
  intro field hfield
  obtain hdate | hconnection := List.mem_append.mp hfield
  · split at hdate
    · have hname : Token (chars "Date") := by decide +kernel
      rw [List.mem_singleton.mp hdate]
      exact ⟨hname, context.oneLine_date⟩
    · cases hdate
  · have hname : Token (chars "Connection") := by decide +kernel
    rw [List.mem_singleton.mp hconnection]
    refine ⟨hname, ?_⟩
    dsimp only
    split <;> decide

/-- The headers that are written by a call. -/
def Http1Context.usedHeaders (context : Http1Context) (set : HeaderMap) (call : Call) : HeaderMap :=
  if call.headers.fields = [] then context.filtered set call.data.length else call.headers

/-- The message that a call gives for the head. -/
def Call.statusMessage : Call → List Byte
  | .writeHead _ statusMessage _ => statusMessage
  | _ => []

namespace Http1Response

variable {r : Http1Response} {call : Call}

theorem encoded_nil (r : Http1Response) : r.encoded [] = [] := by
  unfold encoded
  split
  · exact if_pos rfl
  · rfl

theorem writeOut_nil (r : Http1Response) : r.writeOut [] = r := by
  rw [writeOut, encoded_nil, List.append_nil]

theorem call_sent (hsent : r.sentHeaders = true) (hfilter : r.sentWriteHead = true) (call : Call) :
    ∃ headerList statusCode, r.call context call =
      { r with headerList, statusCode, clientStream := r.clientStream ++ r.encoded call.data } := by
  cases call with
  | setHeader name values =>
    exact ⟨r.headerList.set name values, r.statusCode,
      congrArg (fun r : Http1Response => { r with headerList := r.headerList.set name values }) (writeOut_nil r).symm⟩
  | setStatusCode statusCode =>
    exact ⟨r.headerList, statusCode, congrArg (fun r : Http1Response => { r with statusCode }) (writeOut_nil r).symm⟩
  | writeHead statusCode statusMessage headers =>
    refine ⟨r.headerList, r.statusCode, ?_⟩
    rw [Http1Response.call, writeHead, if_pos hsent]
    exact (writeOut_nil r).symm
  | write data =>
    refine ⟨r.headerList, r.statusCode, ?_⟩
    rw [Http1Response.call, write, beforeWriteHead, if_pos hfilter, if_pos hsent]
    rfl

/-- After the head there is only data. -/
theorem run_sent (hsent : r.sentHeaders = true) (hfilter : r.sentWriteHead = true) (calls : List Call) :
    ∃ headerList statusCode, r.run context calls =
      { r with
        headerList, statusCode
        clientStream := r.clientStream ++ calls.flatMap fun call => r.encoded call.data } := by
  induction calls generalizing r with
  | nil => exact ⟨r.headerList, r.statusCode, by rw [List.flatMap_nil, List.append_nil]; rfl⟩
  | cons call calls ih =>
    obtain ⟨headerList, statusCode, hcall⟩ := call_sent hsent hfilter call
    obtain ⟨headerList', statusCode', hrun⟩ := @ih (r.call context call) (by rw [hcall]; exact hsent)
      (by rw [hcall]; exact hfilter)
    refine ⟨headerList', statusCode', ?_⟩
    rw [List.flatMap_cons, ← List.append_assoc]
    refine hrun.trans ?_
    rw [hcall]
    rfl

/-- The calls up to the one that writes the head write no data. -/
theorem firstHead_split {code : Int} {start : HeaderMap} (h : firstHead start calls = some (set, call)) :
    ∃ before after statusCode, calls = before ++ call :: after ∧ before.flatMap Call.data = [] ∧
      ({ statusCode := code, headerList := start } : Http1Response).run context before =
        { statusCode, headerList := set } := by
  induction calls generalizing code start with
  | nil => cases h
  | cons first calls ih =>
    cases first with
    | setHeader name values =>
      obtain ⟨before, after, statusCode, hcalls, hdata, hrun⟩ := @ih code (start.set name values) h
      exact ⟨.setHeader name values :: before, after, statusCode, by rw [hcalls]; rfl, hdata, hrun⟩
    | setStatusCode statusCode =>
      obtain ⟨before, after, statusCode', hcalls, hdata, hrun⟩ := @ih statusCode start h
      exact ⟨.setStatusCode statusCode :: before, after, statusCode', by rw [hcalls]; rfl, hdata, hrun⟩
    | writeHead statusCode statusMessage headers =>
      cases h
      exact ⟨[], calls, code, rfl, rfl, rfl⟩
    | write data =>
      cases h
      exact ⟨[], calls, code, rfl, rfl, rfl⟩

/-- Nothing is written without a head. -/
theorem run_of_firstHead_none {code : Int} {start : HeaderMap} (h : firstHead start calls = none) :
    (({ statusCode := code, headerList := start } : Http1Response).run context calls).endResponse.clientStream =
      [] := by
  induction calls generalizing code start with
  | nil => rfl
  | cons first calls ih =>
    cases first with
    | setHeader name values => exact @ih code (start.set name values) h
    | setStatusCode statusCode => exact @ih statusCode start h
    | writeHead statusCode statusMessage headers => cases h
    | write data => cases h

theorem beforeWriteHead_unsent (code : Int) (set : HeaderMap) (length : Nat) :
    ({ statusCode := code, headerList := set } : Http1Response).beforeWriteHead context length =
      { statusCode := code, headerList := context.filtered set length, sentWriteHead := true
        chunked := !context.unchunked set } := by
  unfold Http1Context.filtered beforeWriteHead
  dsimp only
  rw [if_neg Bool.false_ne_true, if_neg Bool.false_ne_true]
  cases context.unchunked set with
  | false => rfl
  | true => rfl

/-- A head has been written, and the data of its call. -/
structure Started (context : Http1Context) (set : HeaderMap) (call : Call) (head : Head)
    (r : Http1Response) : Prop where
  sentHeaders : r.sentHeaders = true
  sentWriteHead : r.sentWriteHead = true
  chunked : r.chunked = !context.unchunked set
  closeConnection : r.closeConnection = context.closes
  statusMessage : head.statusMessage =
    if call.statusMessage = [] then getStatusMessage head.statusCode else call.statusMessage
  stream : r.clientStream = head.text ++ r.encoded call.data
  fields : head.fields = context.ownFields (context.usedHeaders set call) ++ (context.usedHeaders set call).fields

theorem writeHead_started {code : Int} {length : Nat} (hlength : call.headers.fields = [] → length = call.data.length)
    (statusCode : Int) :
    ∃ head, Started context set call head
      (((({ statusCode := code, headerList := set } : Http1Response).beforeWriteHead context length).writeHead
        context statusCode call.statusMessage call.headers).writeOut call.data) := by
  have hused : (if call.headers.fields = [] then context.filtered set length else call.headers) =
    context.usedHeaders set call := by
    unfold Http1Context.usedHeaders
    split
    · rename_i hempty
      rw [hlength hempty]
    · rfl
  rw [beforeWriteHead_unsent, writeHead, if_neg Bool.false_ne_true, beforeWriteHead, if_pos rfl]
  dsimp only
  rw [hused]
  refine ⟨_, rfl, rfl, rfl, rfl, rfl, rfl, ?_⟩
  rw [Http1Context.ownFields, List.append_assoc]
  rfl

theorem writeHead_unsent (code : Int) (set : HeaderMap) (statusCode : Int) (statusMessage : List Byte)
    (headers : HeaderMap) :
    (({ statusCode := code, headerList := set } : Http1Response).beforeWriteHead context 0).writeHead
        context statusCode statusMessage headers =
      ({ statusCode := code, headerList := set } : Http1Response).writeHead context statusCode statusMessage
        headers := by
  unfold writeHead
  rw [if_neg (show ¬ ({ statusCode := code, headerList := set } : Http1Response).sentHeaders = true
    from Bool.false_ne_true), beforeWriteHead_unsent, if_neg Bool.false_ne_true, beforeWriteHead, if_pos rfl]

theorem call_started {code : Int} {start : HeaderMap} (h : firstHead start calls = some (set, call)) :
    ∃ head, Started context set call head
      (({ statusCode := code, headerList := set } : Http1Response).call context call) := by
  induction calls generalizing start with
  | nil => cases h
  | cons first calls ih =>
    cases first with
    | setHeader name values => exact ih h
    | setStatusCode statusCode => exact ih h
    | writeHead statusCode statusMessage headers =>
      cases h
      obtain ⟨head, hhead⟩ :=
        @writeHead_started context set (.writeHead statusCode statusMessage headers) code 0 (fun _ => rfl) statusCode
      rw [writeHead_unsent] at hhead
      refine ⟨head, ?_⟩
      rw [Http1Response.call, ← writeOut_nil (writeHead _ _ _ _ _)]
      exact hhead
    | write data =>
      cases h
      obtain ⟨head, hhead⟩ := @writeHead_started context set (.write data) code data.length (fun _ => rfl) code
      refine ⟨head, ?_⟩
      rw [Http1Response.call, write]
      rw [beforeWriteHead_unsent] at hhead ⊢
      exact hhead

/-- The stream has got the head, all data, and the end of the body. -/
theorem run_started {start : HeaderMap} {code : Int} (h : firstHead start calls = some (set, call)) :
    ∃ (head : Head) (r : Http1Response),
      ({ statusCode := code, headerList := start } : Http1Response).run context calls = r ∧
        r.chunked = (!context.unchunked set) ∧ r.closeConnection = context.closes ∧
      head.statusMessage = (if call.statusMessage = [] then getStatusMessage head.statusCode else call.statusMessage) ∧
      r.clientStream = head.text ++ calls.flatMap (fun call => r.encoded call.data) ∧
      head.fields = context.ownFields (context.usedHeaders set call) ++ (context.usedHeaders set call).fields := by
  obtain ⟨before, after, statusCode, hcalls, hdata, hrun⟩ := @firstHead_split context calls set call code start h
  obtain ⟨head, hhead⟩ := @call_started context calls set call statusCode start h
  obtain ⟨headerList, statusCode', hafter⟩ := @run_sent context _ hhead.sentHeaders hhead.sentWriteHead after
  have hwhole : ({ statusCode := code, headerList := start } : Http1Response).run context calls =
      (({ statusCode, headerList := set } : Http1Response).call context call).run context after := by
    rw [hcalls, run, List.foldl_append, List.foldl_cons]
    exact congrArg (fun r => (Http1Response.call context r call).run context after) hrun
  have hbefore : before.flatMap
    (fun first => Http1Response.encoded (.call context { statusCode, headerList := set } call) first.data) = [] := by
    rw [List.flatMap_eq_nil_iff] at hdata ⊢
    intro first hfirst
    rw [hdata first hfirst, encoded_nil]
  refine ⟨head, _, hwhole.trans hafter, hhead.chunked, hhead.closeConnection, hhead.statusMessage, ?_, hhead.fields⟩
  rw [hhead.stream, hcalls, List.flatMap_append, List.flatMap_cons, List.append_assoc]
  exact congrArg (fun stream => head.text ++ (stream ++ _)) hbefore.symm

end Http1Response

/-- Data that is not empty goes out as chunks. -/
theorem body_of_chunked {head : Head} {closed : Bool} {r : Http1Response} (hchunked : r.chunked = true)
    (calls : List Call) :
    readBody head.fields closed (calls.flatMap (fun call => r.encoded call.data) ++ lastChunk) =
      some (calls.flatMap Call.data) ↔ framing head.fields = .chunked := by
  have hchunks : calls.flatMap (fun call => r.encoded call.data) =
    ((calls.map Call.data).filter (· ≠ [])).flatMap chunk := by
    induction calls with
    | nil => rfl
    | cons call calls ih =>
      rw [List.flatMap_cons, ih, List.map_cons, Http1Response.encoded, if_pos hchunked, List.filter_cons]
      by_cases hempty : call.data = []
      · rw [if_pos hempty, if_neg (by simpa using hempty), List.nil_append]
      · rw [if_neg hempty, if_pos (by simpa using hempty), List.flatMap_cons]
  have hdata : calls.flatMap Call.data = ((calls.map Call.data).filter (· ≠ [])).flatten := by
    rw [List.flatten_filter_ne_nil, List.flatMap_def]
  have hlonger := length_lt_chunks ((calls.map Call.data).filter (· ≠ []))
  rw [hchunks, hdata, readBody]
  cases framing head.fields with
  | chunked =>
    dsimp only
    rw [decode_chunks fun data hdata => of_decide_eq_true (List.mem_filter.mp hdata).2]
    exact iff_of_true rfl rfl
  | length n =>
    refine iff_of_false (fun h => ?_) nofun
    dsimp only at h
    split at h
    · rw [← Option.some.inj h] at hlonger
      exact absurd hlonger (Nat.lt_irrefl _)
    · cases h
  | untilClose =>
    refine iff_of_false (fun h => ?_) nofun
    dsimp only at h
    split at h
    · rw [← Option.some.inj h] at hlonger
      exact absurd hlonger (Nat.lt_irrefl _)
    · cases h
  | invalid => exact iff_of_false nofun nofun

/-- Data that is written as it is is framed by its length, or by the end of the connection. -/
theorem body_of_unchunked {head : Head} {r : Http1Response} {used : HeaderMap} (hchunked : r.chunked = false)
    (hfields : head.fields = context.ownFields used ++ used.fields) (calls : List Call) :
    readBody head.fields context.closes (calls.flatMap (fun call => r.encoded call.data) ++ []) =
      some (calls.flatMap Call.data) ↔ framing head.fields = .length (calls.flatMap Call.data).length ∨
        framing head.fields = .untilClose ∧ context.closes = true := by
  have hplain : calls.flatMap (fun call => r.encoded call.data) = calls.flatMap Call.data := by
    refine List.flatMap_congr fun call _ => ?_
    rw [Http1Response.encoded, hchunked]
    rfl
  have hclose : context.closes = true →
    chars "close" ∈ (elements head.fields (chars "connection")).map (·.map toLower) := by
    intro hcloses
    have hown : (chars "Connection", chars "close") ∈ head.fields := by
      rw [hfields, Http1Context.ownFields, hcloses]
      exact List.mem_append_left _ (List.mem_append_right _ (List.mem_singleton_self _))
    refine List.mem_map.mpr ⟨chars "close", List.mem_flatMap.mpr ⟨_, List.mem_filter.mpr ⟨hown, ?_⟩, ?_⟩, ?_⟩
      <;> decide
  rw [hplain, List.append_nil, readBody]
  cases hframing : framing head.fields with
  | chunked => exact iff_of_false (decode_ne_self _) (by simp)
  | length n =>
    dsimp only
    rw [Framing.length.injEq]
    by_cases hlength : (calls.flatMap Call.data).length = n
    · rw [if_pos hlength]
      exact iff_of_true rfl (.inl hlength.symm)
    · rw [if_neg hlength]
      refine iff_of_false nofun ?_
      rintro (heq | ⟨heq, -⟩)
      · exact hlength heq.symm
      · cases heq
  | untilClose =>
    dsimp only
    by_cases hcloses : context.closes = true
    · rw [if_pos ⟨hcloses, hclose hcloses⟩]
      exact iff_of_true rfl (.inr ⟨rfl, hcloses⟩)
    · rw [if_neg fun h => hcloses h.1]
      refine iff_of_false nofun ?_
      rintro (heq | ⟨-, hcloses'⟩)
      · cases heq
      · exact hcloses hcloses'
  | invalid => exact iff_of_false nofun (by simp)

/-- A length that was set is read as a length, or as nothing. -/
theorem lengthFraming_ne_untilClose {name : List Byte} (hfind : ¬ (set.find name).isNone = true) :
    lengthFraming (elements set.fields name) ≠ .untilClose := by
  have hfields : set.fields.filter (fun field => headerKey field.1 = headerKey name) ≠ [] := fun hnil =>
    hfind (by rw [HeaderMap.find_eq_none_iff.mpr hnil]; rfl)
  obtain ⟨field, fields, hcons⟩ := List.exists_cons_of_ne_nil hfields
  obtain ⟨first, parts, hsplit⟩ := List.exists_cons_of_ne_nil (List.splitOn_ne_nil (44 : Byte) field.2)
  rw [elements, hcons, List.flatMap_cons, listElements, hsplit, List.map_cons, List.cons_append, lengthFraming]
  split
  · cases readNumeral 10 _ with
    | none => exact nofun
    | some n => exact nofun
  · exact nofun

/-- The calls write a head that frames the body. Headers that were set frame it unless the body may not be chunked
and has another length than they say, or than the call that writes the head. Explicit headers frame it if they
are right for how it is written. -/
def Http1Context.Frames (context : Http1Context) (calls : List Call) : Prop :=
  match firstHead {} calls with
  | none => False
  | some (set, call) =>
    let total := (calls.flatMap Call.data).length
    if call.headers.fields = [] then
      context.unchunked set = false ∨
        if (set.find (chars "content-length")).isNone then call.data.length = total
        else lengthFraming (elements set.fields (chars "content-length")) = .length total
    else if context.unchunked set then
      framing call.headers.fields = .length total ∨ framing call.headers.fields = .untilClose ∧ context.closes = true
    else framing call.headers.fields = .chunked

/-- The message and the headers that are given for the head are texts for its lines: no text has a line break, and
every name is a token. -/
def Legible (calls : List Call) : Prop :=
  match firstHead {} calls with
  | none => True
  | some (set, call) =>
    OneLine call.statusMessage ∧ ∀ field ∈ (if call.headers.fields = [] then set else call.headers).fields,
      LineField field

theorem lineField_filtered {length : Nat} (hset : ∀ field ∈ set.fields, LineField field) :
    ∀ field ∈ (context.filtered set length).fields, LineField field := by
  have hnumeral : OneLine (numeral 10 length) := fun hline =>
    not_mem_numeral (by omega) (by omega) (by decide) length (hline.subset List.mem_cons_self)
  have hname : Token (chars "Content-Length") := by decide +kernel
  intro field hfield
  rw [Http1Context.filtered, Http1Response.beforeWriteHead, if_neg Bool.false_ne_true] at hfield
  split at hfield
  · have hfield := HeaderMap.mem_erase hfield
    split at hfield
    · obtain rfl | hfield := HeaderMap.mem_set hfield
      · exact ⟨hname, hnumeral⟩
      · exact hset field hfield
    · exact hset field hfield
  · obtain rfl | hfield := HeaderMap.mem_set (HeaderMap.mem_erase hfield)
    · exact ⟨by decide +kernel, by decide⟩
    · exact hset field hfield

theorem oneLine_getStatusMessage (statusCode : Int) : OneLine (getStatusMessage statusCode) := by
  have hall : ∀ status ∈ httpStatuses, OneLine (chars status.2) := by decide +kernel
  unfold getStatusMessage
  cases hfind : httpStatuses.find? (·.1 = statusCode) with
  | none => decide
  | some status => exact hall status (List.mem_of_find?_eq_some hfind)

end net
