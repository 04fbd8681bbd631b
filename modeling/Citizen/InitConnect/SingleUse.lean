import Citizen.InitConnect.Ticket

open Bits

namespace fx

variable {botan : Botan}

/-- What a genuine ticket should end with, by a ledger of those that were accepted. -/
def ledgerResult (botan : Botan) (ledger : List TicketKey) (call : TicketCall) : TicketResult :=
  match readTicket botan call with
  | .error result => result
  | .ok ticketData => if ticketKey ticketData ∈ ledger then .error "Reused ticket." else .verified

/-- The ledger and the outcomes after a genuine ticket. -/
def ledgerStep (botan : Botan) (s : List TicketKey × List TicketResult) (call : TicketCall) :
    List TicketKey × List TicketResult :=
  (TicketWorld.acceptedAfter botan s.1 call (ledgerResult botan s.1 call), ledgerResult botan s.1 call :: s.2)

theorem readTicket_unexpired {call : TicketCall} {ticketData : List Byte}
    (h : readTicket botan call = .ok ticketData) :
    call.time ≤ ticketExpiry ticketData := by
  unfold readTicket at h
  split at h
  · cases h
  · split_ifs at h
    cases h
    omega

/-- A ticket that passes the checks before the list is genuine if it passes those after it. -/
theorem genuine_iff {call : TicketCall} {ticketData : List Byte} (h : readTicket botan call = .ok ticketData) :
    genuine botan call = true ↔ signatureError botan ticketData = none := by
  unfold readTicket at h
  unfold genuine
  cases hdecode : botan.base64Decode call.ticket with
  | none => rw [hdecode] at h; cases h
  | some data =>
    simp only [hdecode] at h
    split_ifs at h with hlength hsize
    cases h
    have hlong : 20 + 4 + 128 ≤ ticketData.length := by omega
    simp [hlong, not_not.mp hsize]

namespace TicketList

variable {s s' : TicketList} {call : TicketCall} {key : TicketKey}

theorem insert_eq_none_iff : s.insert call key = none ↔ key ∈ s.ticketList := by
  unfold insert
  split_ifs <;> simp_all

theorem mem_insert (h : s.insert call key = some s') (key' : TicketKey) :
    key' ∈ s'.ticketList ↔ key' = key ∨ (¬ s.Cleans call ∧ key' ∈ s.ticketList) := by
  unfold insert at h
  split_ifs at h with hmem hcleans
  · cases h
    simp [hcleans]
  · cases h
    simp [hcleans]

end TicketList

namespace TicketWorld

variable {w w' : TicketWorld} {call : TicketCall}

/-- The list has the tickets that were accepted, until they expire, and besides them only what forged tickets have
put into it. -/
structure Settled (w : TicketWorld) : Prop where
  listed : ∀ key ∈ w.tickets.ticketList, key ∈ w.accepted ∨ key ∈ w.forged
  kept : ∀ key ∈ w.accepted, key ∈ w.tickets.ticketList ∨ key.1 < w.time
  nodup : w.accepted.Nodup

theorem settled_init : Settled {} where
  listed _ h := absurd h List.not_mem_nil
  kept _ h := absurd h List.not_mem_nil
  nodup := List.nodup_nil

/-- The call of a ticket that does not reach the list. -/
theorem verifyTicket_of_error {s : TicketList} {result : TicketResult} (h : readTicket botan call = .error result) :
    verifyTicket botan s call = (result, s) := by
  unfold verifyTicket
  rw [h]

/-- The call of a ticket that the list has. -/
theorem verifyTicket_of_mem {s : TicketList} {ticketData : List Byte} (h : readTicket botan call = .ok ticketData)
    (hmem : ticketKey ticketData ∈ s.ticketList) : verifyTicket botan s call = (.error "Reused ticket.", s) := by
  unfold verifyTicket
  simp only [h, TicketList.insert_eq_none_iff.mpr hmem]

/-- The call of a ticket that the list does not have: it is in the list then, and accepted if it is genuine. -/
theorem verifyTicket_of_not_mem {s : TicketList} {ticketData : List Byte} (h : readTicket botan call = .ok ticketData)
    (hmem : ticketKey ticketData ∉ s.ticketList) : ∃ s', s.insert call (ticketKey ticketData) = some s' ∧
      (verifyTicket botan s call).2 = s' ∧
      ((verifyTicket botan s call).1 = .verified ↔ genuine botan call = true) := by
  cases hinsert : s.insert call (ticketKey ticketData) with
  | none => exact absurd (TicketList.insert_eq_none_iff.mp hinsert) hmem
  | some s' =>
    refine ⟨s', rfl, ?_⟩
    unfold verifyTicket
    simp only [h, hinsert]
    cases hsignature : signatureError botan ticketData with
    | some text => simp [genuine_iff h, hsignature]
    | none => simp [genuine_iff h, hsignature]

theorem mem_forgedAfter {ticketData : List Byte} (h : readTicket botan call = .ok ticketData)
    (hmem : ticketKey ticketData ∉ w.tickets.ticketList) (key : TicketKey) : key ∈ w.forgedAfter botan call ↔
      (genuine botan call = false ∧ key = ticketKey ticketData) ∨ (¬ w.tickets.Cleans call ∧ key ∈ w.forged) := by
  unfold forgedAfter
  simp only [h, if_neg hmem]
  by_cases hcleans : w.tickets.Cleans call <;> cases hgenuine : genuine botan call <;> simp [hcleans]

theorem acceptedAfter_of_ok {accepted : List TicketKey} {result : TicketResult} {ticketData : List Byte}
    (h : readTicket botan call = .ok ticketData) : acceptedAfter botan accepted call result =
      if result = .verified then ticketKey ticketData :: accepted else accepted := by
  unfold acceptedAfter
  rw [h]

theorem acceptedAfter_of_error {accepted : List TicketKey} {result result' : TicketResult}
    (h : readTicket botan call = .error result') : acceptedAfter botan accepted call result = accepted := by
  unfold acceptedAfter
  rw [h]

/-- A call that meets the condition settles again. -/
theorem Settled.step (h : w.Settled) (hok : w.Orderly botan call) (hstep : w.step botan call = some w') :
    w'.Settled := by
  obtain ⟨⟨htime, -⟩, heq⟩ := Option.ite_none_right_eq_some.mp hstep
  cases heq
  have hlater : ∀ key ∈ w.accepted, key ∈ w.tickets.ticketList ∨ key.1 < call.time := fun key hkey =>
    (h.kept key hkey).imp_right fun hlt => lt_of_lt_of_le hlt htime
  cases hread : readTicket botan call with
  | error result =>
    have hcall := verifyTicket_of_error (s := w.tickets) hread
    have hforged : w.forgedAfter botan call = w.forged := by
      unfold forgedAfter
      rw [hread]
    rw [hcall, hforged, acceptedAfter_of_error hread]
    exact ⟨h.listed, hlater, h.nodup⟩
  | ok ticketData =>
    obtain ⟨hclean, -⟩ := hok ticketData hread
    rw [acceptedAfter_of_ok hread]
    by_cases hmem : ticketKey ticketData ∈ w.tickets.ticketList
    · have hforged : w.forgedAfter botan call = w.forged := by
        unfold forgedAfter
        simp only [hread, if_pos hmem]
      rw [verifyTicket_of_mem hread hmem, hforged, if_neg fun hne => nomatch hne]
      exact ⟨h.listed, hlater, h.nodup⟩
    · obtain ⟨s', hinsert, hcall, hverified⟩ := verifyTicket_of_not_mem hread hmem
      have hmems := TicketList.mem_insert hinsert
      have hnew : ∀ key ∈ w.accepted, key ∈ s'.ticketList ∨ key.1 < call.time := by
        intro key hkey
        by_cases hcleans : w.tickets.Cleans call
        · exact .inr (hclean hmem hcleans key hkey)
        · exact (hlater key hkey).imp_left fun hlisted => (hmems key).mpr (.inr ⟨hcleans, hlisted⟩)
      have hunused : ticketKey ticketData ∉ w.accepted := fun hkey =>
        (hlater _ hkey).elim hmem fun hlt => absurd (readTicket_unexpired hread) (Nat.not_le.mpr hlt)
      rw [hcall]
      refine ⟨fun key hkey => ?_, fun key hkey => ?_, ?_⟩
      · rw [mem_forgedAfter hread hmem]
        obtain rfl | ⟨hcleans, hlisted⟩ := (hmems key).mp hkey
        · by_cases hgenuine : genuine botan call = true
          · rw [if_pos (hverified.mpr hgenuine)]
            exact .inl List.mem_cons_self
          · exact .inr (.inl ⟨Bool.not_eq_true _ ▸ hgenuine, rfl⟩)
        · refine (h.listed key hlisted).imp (fun hold => ?_) fun hold => .inr ⟨hcleans, hold⟩
          dsimp only
          split_ifs
          · exact List.mem_cons_of_mem _ hold
          · exact hold
      · dsimp only at hkey
        split_ifs at hkey
        · obtain rfl | hkey := List.mem_cons.mp hkey
          · exact .inl ((hmems _).mpr (.inl rfl))
          · exact hnew key hkey
        · exact hnew key hkey
      · dsimp only
        split_ifs
        · exact List.nodup_cons.mpr ⟨hunused, h.nodup⟩
        · exact h.nodup

/-- A call that meets the condition does what the ledger says for a genuine ticket, and nothing for a forged one. -/
theorem Settled.refines (h : w.Settled) (hok : w.Orderly botan call) (hstep : w.step botan call = some w') :
    (w'.accepted, w'.outcomes) =
      if genuine botan call then ledgerStep botan (w.accepted, w.outcomes) call else (w.accepted, w.outcomes) := by
  obtain ⟨⟨htime, -⟩, heq⟩ := Option.ite_none_right_eq_some.mp hstep
  cases heq
  have hresult : ∀ result, (verifyTicket botan w.tickets call).1 = result →
      (genuine botan call = true → result = ledgerResult botan w.accepted call) →
      (genuine botan call = false → acceptedAfter botan w.accepted call result = w.accepted) →
      (acceptedAfter botan w.accepted call (verifyTicket botan w.tickets call).1,
        if genuine botan call then (verifyTicket botan w.tickets call).1 :: w.outcomes else w.outcomes) =
      if genuine botan call then ledgerStep botan (w.accepted, w.outcomes) call else (w.accepted, w.outcomes) := by
    rintro result rfl hgenuine hforged
    split_ifs with hcase
    · rw [hgenuine hcase]
      rfl
    · rw [hforged (Bool.not_eq_true _ ▸ hcase)]
  cases hread : readTicket botan call with
  | error result =>
    refine hresult result (by rw [verifyTicket_of_error hread]) (fun _ => ?_) fun _ => acceptedAfter_of_error hread
    unfold ledgerResult
    rw [hread]
  | ok ticketData =>
    obtain ⟨-, hforged⟩ := hok ticketData hread
    have hledger : ledgerResult botan w.accepted call =
        if ticketKey ticketData ∈ w.accepted then .error "Reused ticket." else .verified := by
      unfold ledgerResult
      rw [hread]
    by_cases hmem : ticketKey ticketData ∈ w.tickets.ticketList
    · refine hresult _ (by rw [verifyTicket_of_mem hread hmem]) (fun hgenuine => ?_) fun _ => ?_
      · have hused := (h.listed _ hmem).resolve_right (hforged hgenuine)
        rw [hledger, if_pos hused]
      · rw [acceptedAfter_of_ok hread, if_neg fun hne => nomatch hne]
    · obtain ⟨s', -, -, hverified⟩ := verifyTicket_of_not_mem hread hmem
      have hunused : ticketKey ticketData ∉ w.accepted := fun hkey =>
        (h.kept _ hkey).elim hmem fun hlt => absurd (readTicket_unexpired hread)
          (by dsimp only [ticketKey] at hlt; omega)
      refine hresult _ rfl (fun hgenuine => ?_) fun hfalse => ?_
      · rw [hledger, if_neg hunused]
        exact hverified.mpr hgenuine
      · rw [acceptedAfter_of_ok hread, if_neg]
        intro hyes
        rw [hverified.mp hyes] at hfalse
        cases hfalse

/-- A run that meets the condition ends with what the ledger says of its genuine tickets. -/
theorem run_ledger {calls : List TicketCall} (h : w.Settled)
    (hrun : Transition.Run (step botan) (Orderly botan) w calls w') :
    (w'.accepted, w'.outcomes) = (calls.filter (genuine botan)).foldl (ledgerStep botan) (w.accepted, w.outcomes) := by
  induction hrun with
  | nil => rfl
  | @cons w u w' call calls hok hstep _ ih =>
    rw [ih (h.step hok hstep), h.refines hok hstep, List.filter_cons]
    split_ifs <;> rfl

/-- In a run that meets the condition no ticket is accepted twice, and the genuine tickets end as in every other
such run that has the same ones, whatever forged tickets it has. -/
theorem run_singleUse (calls calls' : List TicketCall) (w w' : TicketWorld)
    (hrun : Transition.Run (step botan) (Orderly botan) {} calls w)
    (hrun' : Transition.Run (step botan) (Orderly botan) {} calls' w')
    (hgenuine : calls.filter (genuine botan) = calls'.filter (genuine botan)) :
    w.accepted.Nodup ∧ w.outcomes = w'.outcomes := by
  have hsettled : w.Settled := hrun.invariant Settled settled_init fun h hok hstep => h.step hok hstep
  have hleft := run_ledger settled_init hrun
  have hright := run_ledger settled_init hrun'
  rw [hgenuine, ← hright] at hleft
  exact ⟨hsettled.nodup, congrArg Prod.snd hleft⟩

/-- The value of a base64 digit. -/
def base64Digit (c : Byte) : Option Nat :=
  let n := c.toNat
  if 65 ≤ n ∧ n ≤ 90 then some (n - 65)
  else if 97 ≤ n ∧ n ≤ 122 then some (n - 71)
  else if 48 ≤ n ∧ n ≤ 57 then some (n + 4)
  else if n = 43 then some 62
  else if n = 47 then some 63
  else none

/-- Base64 without padding. -/
def base64Bytes : List Byte → Option (List Byte)
  | [] => some []
  | a :: b :: c :: d :: rest => do
    let n := ((64 * (← base64Digit a) + (← base64Digit b)) * 64 + (← base64Digit c)) * 64 + (← base64Digit d)
    return BitVec.ofNat 8 (n / 65536) :: BitVec.ofNat 8 (n / 256) :: BitVec.ofNat 8 n :: (← base64Bytes rest)
  | _ => none

/-- A key whose only signature is the one of ones. -/
def sampleBotan : Botan where
  base64Decode := base64Bytes
  sha160 _ := List.replicate 20 0
  verifyMessage _ signature := signature.all (· == 0xFF)

/-- A call with the ticket of guid 1 or 2 that expires at 10000, signed or not. -/
def sampleCall (guid : Nat) (signed : Bool) (time msec : Nat) : TicketCall where
  guid := [BitVec.ofNat 8 (48 + guid)]
  ticket := ("EAAAAA".toList ++ [if guid = 1 then 'E' else 'I'] ++ "AAAAAAAAAECcAAAAAAACAAAAA".toList ++
    List.replicate 172 (if signed then '/' else 'A')).map fun c => BitVec.ofNat 8 c.toNat
  time := time
  msec := msec
  msecGc := msec

/-- A ticket that is refused the second time, with a forged one in between and without. -/
theorem run_singleUse_sample :
    ∃ w w' : TicketWorld, w.accepted = [(10000, 1)] ∧ w.accepted.Nodup ∧ w.outcomes = w'.outcomes := by
  have hcheck : ∀ (w : TicketWorld) (call : TicketCall), decide (w.Orderly sampleBotan call) = true →
      w.Orderly sampleBotan call := fun _ _ h => of_decide_eq_true h
  have hend : ((Transition.exec
      (fun w call => if decide (Orderly sampleBotan w call) then step sampleBotan w call else none) {}
      [sampleCall 1 true 100 1000, sampleCall 2 false 150 50000, sampleCall 1 true 200 100000]).any
        fun w => w.accepted = [(10000, 1)]) = true := by decide +kernel
  have hend' : ((Transition.exec
      (fun w call => if decide (Orderly sampleBotan w call) then step sampleBotan w call else none) {}
      [sampleCall 1 true 100 1000, sampleCall 1 true 200 100000]).any fun _ => true) = true := by decide +kernel
  obtain ⟨w, hrun, hw⟩ := Transition.exists_checked hcheck hend
  obtain ⟨w', hrun', -⟩ := Transition.exists_checked hcheck hend'
  obtain ⟨hnodup, houtcomes⟩ := run_singleUse _ _ w w' hrun hrun' (by decide +kernel)
  exact ⟨w, w', of_decide_eq_true hw, hnodup, houtcomes⟩

/-- A ticket is accepted again after a clean-up, long before it expires; and a forged ticket with its expiry and
guid makes the genuine one a reused one. -/
theorem run_replayed :
    (∃ (calls : List TicketCall) (w : TicketWorld),
      Transition.Run (step sampleBotan) (fun _ _ => True) {} calls w ∧ ¬ w.accepted.Nodup) ∧
    ∃ (calls : List TicketCall) (w w' : TicketWorld),
      Transition.Run (step sampleBotan) (fun _ _ => True) {} calls w ∧
      Transition.Run (step sampleBotan) (fun _ _ => True) {} (calls.filter (genuine sampleBotan)) w' ∧
      w.outcomes = [.error "Reused ticket."] ∧ w'.outcomes = [.verified] := by
  constructor
  · have hend : ((Transition.exec (step sampleBotan) {}
        [sampleCall 1 true 100 1000, sampleCall 2 true 1950 1801001, sampleCall 1 true 1960 1811001]).any
          fun w => w.accepted = [(10000, 1), (10000, 2), (10000, 1)]) = true := by decide +kernel
    obtain ⟨w, hrun, hw⟩ := Transition.exists_run hend
    refine ⟨_, w, hrun, ?_⟩
    rw [of_decide_eq_true hw]
    decide
  · have hend : ((Transition.exec (step sampleBotan) {} [sampleCall 1 false 100 1000, sampleCall 1 true 110 11000]).any
        fun w => w.outcomes = [.error "Reused ticket."]) = true := by decide +kernel
    have hend' : ((Transition.exec (step sampleBotan) {}
        ([sampleCall 1 false 100 1000, sampleCall 1 true 110 11000].filter (genuine sampleBotan))).any
          fun w => w.outcomes = [.verified]) = true := by decide +kernel
    obtain ⟨w, hrun, hw⟩ := Transition.exists_run hend
    obtain ⟨w', hrun', hw'⟩ := Transition.exists_run hend'
    exact ⟨_, w, w', hrun, hrun', of_decide_eq_true hw, of_decide_eq_true hw'⟩

end TicketWorld

end fx
