import Citizen.Lib.LittleEndian
import Citizen.Lib.Transition

open Bits

namespace fx

/-- What the code takes from Botan. `base64Decode` throws for a text that is not base64, and `verifyMessage` checks
a message and its signature with the key that the code has. -/
structure Botan where
  base64Decode : List Byte → Option (List Byte)
  sha160 : List Byte → List Byte
  verifyMessage : List Byte → List Byte → Bool

/-- The expiry and the guid of a ticket. -/
abbrev TicketKey := Nat × Nat

instance (key : TicketKey) (keys : List TicketKey) : Decidable (key ∈ keys) := inferInstance

/-- A number of `n` bytes at an offset of the ticket. -/
def readNumber (ticketData : List Byte) (offset n : Nat) : Nat := LittleEndian.value ((ticketData.drop offset).take n)

def ticketGuid (ticketData : List Byte) : Nat := readNumber ticketData 4 8

def ticketExpiry (ticketData : List Byte) : Nat := readNumber ticketData 12 8

def ticketKey (ticketData : List Byte) : TicketKey := (ticketExpiry ticketData, ticketGuid ticketData)

/-- `strtoull` in base 10 of the bytes of a string. -/
def strtoull (s : List Byte) : Nat :=
  let s := s.dropWhile fun c => c.toNat = 32 ∨ (9 ≤ c.toNat ∧ c.toNat ≤ 13)
  let negative := s.head? = some 45
  let digits := (if negative ∨ s.head? = some 43 then s.tail else s).takeWhile fun c => 48 ≤ c.toNat ∧ c.toNat ≤ 57
  let value := digits.foldl (fun n c => 10 * n + (c.toNat - 48)) 0
  if 2 ^ 64 ≤ value then 2 ^ 64 - 1 else if negative then (2 ^ 64 - value) % 2 ^ 64 else value

/-- A call of `VerifyTicket` with what the clocks say: `std::time`, and the two readings of `msec()`. -/
structure TicketCall where
  guid : List Byte
  ticket : List Byte
  time : Nat
  msec : Nat
  msecGc : Nat
  deriving DecidableEq

/-- What a call ends with: the exception of the decoder, an error, or `true`. -/
inductive TicketResult
  | exception
  | error (text : String)
  | verified
  deriving DecidableEq

/-- The checks before the list. -/
def readTicket (botan : Botan) (call : TicketCall) : Except TicketResult (List Byte) :=
  match botan.base64Decode call.ticket with
  | none => .error .exception
  | some ticketData =>
    if ticketData.length < 20 + 4 + 128 then .error (.error "Invalid ticket length.")
    else if readNumber ticketData 0 4 ≠ 16 then .error (.error "Invalid ticket length. (2)")
    else if ticketExpiry ticketData < call.time then
      .error (.error "Ticket expired. Please check your server's system time.")
    else if strtoull call.guid ≠ ticketGuid ticketData then .error (.error "Mismatching GUID.")
    else .ok ticketData

/-- The checks after the list, with their error. -/
def signatureError (botan : Botan) (ticketData : List Byte) : Option String :=
  if readNumber ticketData 20 4 ≠ 128 then some "Invalid signature length."
  else if botan.verifyMessage (2 :: botan.sha160 ((ticketData.drop 4).take 16))
    ((ticketData.drop 24).take 128) = false then
    some "Invalid ticket signature."
  else none

/-- `g_ticketList` and `g_nextTicketGc`. -/
structure TicketList where
  ticketList : List TicketKey := []
  nextTicketGc : Nat := 0

namespace TicketList

/-- The call cleans the list up. -/
def Cleans (s : TicketList) (call : TicketCall) : Prop := s.nextTicketGc < call.msec

instance (s : TicketList) (call : TicketCall) : Decidable (s.Cleans call) := inferInstanceAs (Decidable (_ < _))

/-- The section under the mutex. -/
def insert (s : TicketList) (call : TicketCall) (key : TicketKey) : Option TicketList :=
  if key ∈ s.ticketList then none
  else if s.Cleans call then some { ticketList := [key], nextTicketGc := call.msecGc + 30 * 60 * 1000 }
  else some { s with ticketList := key :: s.ticketList }

end TicketList

/-- `VerifyTicket`. -/
def verifyTicket (botan : Botan) (s : TicketList) (call : TicketCall) : TicketResult × TicketList :=
  match readTicket botan call with
  | .error result => (result, s)
  | .ok ticketData =>
    match s.insert call (ticketKey ticketData) with
    | none => (.error "Reused ticket.", s)
    | some s =>
      match signatureError botan ticketData with
      | some text => (.error text, s)
      | none => (.verified, s)

/-- The ticket was signed with the key. -/
def genuine (botan : Botan) (call : TicketCall) : Bool :=
  match botan.base64Decode call.ticket with
  | none => false
  | some ticketData =>
    20 + 4 + 128 ≤ ticketData.length && readNumber ticketData 0 4 == 16 && (signatureError botan ticketData).isNone

/-- The list over a run, with the clocks, the tickets that were accepted, those that forged tickets have put into
the list, and what the calls with genuine tickets ended with. -/
structure TicketWorld where
  tickets : TicketList := {}
  time : Nat := 0
  msec : Nat := 0
  accepted : List TicketKey := []
  forged : List TicketKey := []
  outcomes : List TicketResult := []

namespace TicketWorld

/-- The tickets that forged ones have put into the list, after a call. -/
def forgedAfter (botan : Botan) (w : TicketWorld) (call : TicketCall) : List TicketKey :=
  match readTicket botan call with
  | .error _ => w.forged
  | .ok ticketData =>
    if ticketKey ticketData ∈ w.tickets.ticketList then w.forged
    else
      (if genuine botan call then [] else [ticketKey ticketData]) ++ if w.tickets.Cleans call then [] else w.forged

/-- The tickets that were accepted, after a call that ended so. -/
def acceptedAfter (botan : Botan) (accepted : List TicketKey) (call : TicketCall) (result : TicketResult) :
    List TicketKey :=
  match readTicket botan call with
  | .error _ => accepted
  | .ok ticketData => if result = .verified then ticketKey ticketData :: accepted else accepted

/-- A call. The clocks do not go back. -/
def step (botan : Botan) (w : TicketWorld) (call : TicketCall) : Option TicketWorld :=
  if w.time ≤ call.time ∧ w.msec ≤ call.msec ∧ call.msec ≤ call.msecGc then
    let result := verifyTicket botan w.tickets call
    some {
      tickets := result.2
      time := call.time
      msec := call.msecGc
      accepted := acceptedAfter botan w.accepted call result.1
      forged := w.forgedAfter botan call
      outcomes := if genuine botan call then result.1 :: w.outcomes else w.outcomes }
  else none

/-- A clean-up finds no ticket that was accepted and has not expired, and no genuine ticket has the expiry and the
guid that a forged one has put into the list. -/
def Orderly (botan : Botan) (w : TicketWorld) (call : TicketCall) : Prop :=
  ∀ ticketData, readTicket botan call = .ok ticketData →
    (ticketKey ticketData ∉ w.tickets.ticketList → w.tickets.Cleans call → ∀ key ∈ w.accepted, key.1 < call.time) ∧
      (genuine botan call = true → ticketKey ticketData ∉ w.forged)

instance (botan : Botan) (w : TicketWorld) (call : TicketCall) : Decidable (w.Orderly botan call) :=
  match h : readTicket botan call with
  | .error _ => .isTrue fun _ hok => nomatch h.symm.trans hok
  | .ok ticketData =>
    decidable_of_iff
      ((ticketKey ticketData ∉ w.tickets.ticketList → w.tickets.Cleans call → ∀ key ∈ w.accepted, key.1 < call.time) ∧
        (genuine botan call = true → ticketKey ticketData ∉ w.forged))
      ⟨fun hdata _ hok => Except.ok.inj (h.symm.trans hok) ▸ hdata, fun horderly => horderly ticketData h⟩

end TicketWorld

end fx
