import Citizen.GameState.Basic
import Citizen.Lib.Round

namespace fx.SlotScan

/-- `initSlot`, the highest slot. -/
def initSlot (bigMode : Bool) : Nat := (if bigMode then MAX_CLIENTS else 129) - 1

/-- `tickMul`, by `UseAccurateSends`. -/
def tickMul (accurateSends : Bool) : Nat := if accurateSends then 1 else 2

/-- The iterations of a tick. -/
def maxIterations (bigMode accurateSends : Bool) : Nat := (if bigMode then 8 else 16) * tickMul accurateSends

variable {top : Nat} (occupied : Fin (top + 1) → Bool)

/-- The inner loop: the client that is found, and the slot after it. `none` when the fuel is used up. -/
def findClient (lastUpdateSlot : Fin (top + 1)) : Nat → Fin (top + 1) → Option (Option (Fin (top + 1)) × Fin (top + 1))
  | 0, _ => none
  | fuel + 1, slot =>
    let client := if occupied slot then some slot else none
    let slot := Round.prev slot
    if slot = lastUpdateSlot ∨ client.isSome then some (client, slot) else findClient lastUpdateSlot fuel slot

/-- The outer loop with the iterations that are left: the slots of the clients, and the slot at its end. -/
def scanFrom (lastUpdateSlot : Fin (top + 1)) : Nat → Fin (top + 1) → Option (List (Fin (top + 1)) × Fin (top + 1))
  | 0, slot => some ([], slot)
  | iterations + 1, slot =>
    match findClient occupied lastUpdateSlot (top + 1) slot with
    | none => none
    | some (none, slot) => some ([], slot)
    | some (some client, slot) =>
      (scanFrom lastUpdateSlot iterations slot).map fun (clients, slot) => (client :: clients, slot)

/-- The scan of a tick: its clients, and the next `lastUpdateSlot`. -/
def scan (iterations : Nat) (lastUpdateSlot : Fin (top + 1)) : Option (List (Fin (top + 1)) × Fin (top + 1)) :=
  scanFrom occupied lastUpdateSlot iterations lastUpdateSlot

/-- Ticks with their iterations, one after another. -/
def scans : List Nat → Fin (top + 1) → Option (List (List (Fin (top + 1))) × Fin (top + 1))
  | [], slot => some ([], slot)
  | iterations :: ticks, slot =>
    match scan occupied iterations slot with
    | none => none
    | some (clients, slot) => (scans ticks slot).map fun (others, slot) => (clients :: others, slot)

/-- The clients in the order of the scan. -/
def queue (slot : Fin (top + 1)) : List (Fin (top + 1)) := (Round.order slot).filter occupied

/-- How many clients there are. -/
def clientCount : Nat := (List.finRange (top + 1)).countP occupied

variable {occupied} {slot last client : Fin (top + 1)} {before rest skipped : List (Fin (top + 1))}
  {fuel iterations : Nat}

@[simp] theorem length_queue (slot : Fin (top + 1)) : (queue occupied slot).length = clientCount occupied := by
  rw [queue, clientCount, ← List.countP_eq_length_filter, (Round.order_perm slot).countP_eq]

theorem mem_queue : client ∈ queue occupied slot ↔ occupied client = true := by
  rw [queue, List.mem_filter, and_iff_right (Round.mem_order slot client)]

theorem nodup_queue (slot : Fin (top + 1)) : (queue occupied slot).Nodup := (Round.nodup_order slot).filter _

/-- The inner loop comes to the next client of the round. -/
theorem findClient_some (horder : Round.order last = before ++ (skipped ++ client :: rest))
    (hskipped : ∀ other ∈ skipped, ¬ occupied other = true) (hclient : occupied client = true)
    (hfuel : skipped.length < fuel) :
    findClient occupied last fuel ((skipped ++ client :: rest).headD last) = some (some client, rest.headD last) := by
  induction skipped generalizing before fuel with
  | nil =>
    obtain ⟨fuel, rfl⟩ : ∃ n, fuel = n + 1 := ⟨fuel - 1, by simp at hfuel; omega⟩
    obtain ⟨hnext, -⟩ := Round.prev_eq_headD horder
    simp [findClient, hclient, hnext]
  | cons other skipped ih =>
    obtain ⟨fuel, rfl⟩ : ∃ n, fuel = n + 1 := ⟨fuel - 1, by omega⟩
    rw [List.cons_append] at horder
    obtain ⟨hnext, hend⟩ := Round.prev_eq_headD horder
    have hother : ¬ occupied other = true := hskipped other List.mem_cons_self
    have hmore : Round.prev other ≠ last := fun h => by simpa using hend.1 h
    rw [List.cons_append, List.headD_cons, findClient]
    simp only [hother, hmore, Bool.false_eq_true, if_false, Option.isSome_none, or_self]
    rw [hnext]
    exact ih (horder.trans (List.append_cons _ _ _)) (fun a ha => hskipped a (List.mem_cons_of_mem _ ha))
      (Nat.lt_of_succ_lt_succ hfuel)

/-- At the end of the round there is none. -/
theorem findClient_none (horder : Round.order last = before ++ rest) (hrest : rest ≠ [])
    (hskipped : ∀ other ∈ rest, ¬ occupied other = true) (hfuel : rest.length ≤ fuel) :
    findClient occupied last fuel (rest.headD last) = some (none, last) := by
  induction rest generalizing before fuel with
  | nil => exact absurd rfl hrest
  | cons other rest ih =>
    obtain ⟨fuel, rfl⟩ : ∃ n, fuel = n + 1 := ⟨fuel - 1, by simp at hfuel; omega⟩
    obtain ⟨hnext, hend⟩ := Round.prev_eq_headD horder
    have hother : ¬ occupied other = true := hskipped other List.mem_cons_self
    rw [List.headD_cons, findClient]
    by_cases hempty : rest = []
    · have hlast := hend.2 hempty
      simp [hother, hlast]
    · have hmore : Round.prev other ≠ last := fun h => hempty (hend.1 h)
      simp only [hother, hmore, Bool.false_eq_true, if_false, Option.isSome_none, or_self]
      rw [hnext]
      exact ih (horder.trans (List.append_cons _ _ _)) hempty (fun a ha => hskipped a (List.mem_cons_of_mem _ ha))
        (Nat.le_of_succ_le_succ hfuel)

theorem length_le_of_order (horder : Round.order last = before ++ rest) : rest.length ≤ top + 1 := by
  have hlength := Round.length_order last
  rw [horder, List.length_append] at hlength
  omega

/-- A client is found, and the scan goes on after it. -/
theorem scanFrom_some (horder : Round.order last = before ++ (skipped ++ client :: rest))
    (hskipped : ∀ other ∈ skipped, ¬ occupied other = true) (hclient : occupied client = true) (iterations : Nat) :
    scanFrom occupied last (iterations + 1) ((skipped ++ client :: rest).headD last) =
      (scanFrom occupied last iterations (rest.headD last)).map fun (clients, slot) => (client :: clients, slot) := by
  have hlength := length_le_of_order horder
  rw [List.length_append, List.length_cons] at hlength
  rw [scanFrom, findClient_some horder hskipped hclient (by omega)]

/-- While there are enough clients in the round, the scan takes the next ones. -/
theorem scanFrom_within (horder : Round.order last = before ++ rest)
    (hcount : iterations ≤ (rest.filter occupied).length) :
    ∃ done left, rest = done ++ left ∧ (done.filter occupied).length = iterations ∧
      scanFrom occupied last iterations (rest.headD last) = some (done.filter occupied, left.headD last) := by
  induction iterations generalizing before rest with
  | zero => exact ⟨[], rest, rfl, rfl, rfl⟩
  | succ iterations ih =>
    obtain ⟨client, clients, hfilter⟩ := List.exists_cons_of_length_pos (Nat.lt_of_lt_of_le (Nat.succ_pos _) hcount)
    obtain ⟨skipped, rest, rfl, hskipped, hclient, hrest⟩ := List.filter_eq_cons_iff.1 hfilter
    rw [hfilter, List.length_cons, ← hrest] at hcount
    have hnext : Round.order last = (before ++ skipped ++ [client]) ++ rest := by
      rw [horder]
      simp only [List.append_assoc, List.singleton_append]
    obtain ⟨done, left, hdone, hlength, hscan⟩ := ih hnext (Nat.le_of_succ_le_succ hcount)
    have hskip : skipped.filter occupied = [] := List.filter_eq_nil_iff.2 hskipped
    have hclients : (skipped ++ client :: done).filter occupied = client :: done.filter occupied := by
      rw [List.filter_append, hskip, List.nil_append, List.filter_cons_of_pos hclient]
    refine ⟨skipped ++ client :: done, left, ?_, ?_, ?_⟩
    · rw [hdone, List.append_assoc, List.cons_append]
    · rw [hclients, List.length_cons, hlength]
    · rw [scanFrom_some horder hskipped hclient, hscan, hclients]
      rfl

/-- The last slot of what is left of a round. -/
theorem mem_of_order (horder : Round.order last = before ++ rest) (hrest : rest ≠ []) :
    rest.getLast hrest = last + 1 := by
  obtain ⟨front, hfront⟩ := Round.order_eq_concat last
  have hne : Round.order last ≠ [] := by
    rw [hfront]
    simp
  have hlast : (Round.order last).getLast hne = last + 1 := by
    simp only [hfront, List.getLast_concat]
  simp only [horder, List.getLast_append_of_ne_nil _ hrest] at hlast
  exact hlast

/-- Without a client in its last slot the scan ends with the round. -/
theorem scanFrom_ends (hwrap : ¬ occupied (last + 1) = true) (horder : Round.order last = before ++ rest)
    (hrest : rest ≠ []) (hcount : (rest.filter occupied).length < iterations) :
    scanFrom occupied last iterations (rest.headD last) = some (rest.filter occupied, last) := by
  induction iterations generalizing before rest with
  | zero => exact absurd hcount (Nat.not_lt_zero _)
  | succ iterations ih =>
    cases hfilter : rest.filter occupied with
    | nil =>
      rw [scanFrom, findClient_none horder hrest (List.filter_eq_nil_iff.1 hfilter) (length_le_of_order horder)]
    | cons client clients =>
      obtain ⟨skipped, rest, rfl, hskipped, hclient, hclients⟩ := List.filter_eq_cons_iff.1 hfilter
      have hnext : Round.order last = (before ++ skipped ++ [client]) ++ rest := by
        rw [horder]
        simp only [List.append_assoc, List.singleton_append]
      have hmore : rest ≠ [] := by
        rintro rfl
        have hend := mem_of_order horder hrest
        rw [List.getLast_append_of_ne_nil _ (List.cons_ne_nil _ _), List.getLast_singleton] at hend
        rw [hend] at hclient
        exact hwrap hclient
      rw [hfilter, List.length_cons, ← hclients] at hcount
      rw [scanFrom_some horder hskipped hclient, ih hnext hmore (Nat.lt_of_succ_lt_succ hcount), hclients]
      rfl

/-- With one there it goes round again, until its iterations are used up. -/
theorem scanFrom_again (hwrap : occupied (last + 1) = true) (horder : Round.order last = before ++ rest)
    (hrest : rest ≠ []) :
    ∃ clients slot, scanFrom occupied last iterations (rest.headD last) = some (clients, slot) ∧
      clients.length = iterations ∧ (∀ client ∈ clients, occupied client = true) ∧
      (rest.filter occupied).take iterations <+: clients := by
  induction iterations generalizing before rest with
  | zero => exact ⟨[], _, rfl, rfl, fun _ h => absurd h List.not_mem_nil, List.nil_prefix⟩
  | succ iterations ih =>
    cases hfilter : rest.filter occupied with
    | nil =>
      have hnone := List.filter_eq_nil_iff.1 hfilter _ (List.getLast_mem hrest)
      rw [mem_of_order horder hrest] at hnone
      exact absurd hwrap hnone
    | cons client clients =>
      obtain ⟨skipped, rest, rfl, hskipped, hclient, hclients⟩ := List.filter_eq_cons_iff.1 hfilter
      have hnext : Round.order last = (before ++ skipped ++ [client]) ++ rest := by
        rw [horder]
        simp only [List.append_assoc, List.singleton_append]
      have hscan : ∃ others slot, scanFrom occupied last iterations (rest.headD last) = some (others, slot) ∧
          others.length = iterations ∧ (∀ other ∈ others, occupied other = true) ∧
          (rest.filter occupied).take iterations <+: others := by
        by_cases hmore : rest = []
        · obtain ⟨tail, hround, -⟩ := Round.order_eq_cons last
          have hfull := @ih [] (Round.order last) rfl (by rw [hround]; exact List.cons_ne_nil _ _)
          rw [hround, List.headD_cons] at hfull
          obtain ⟨others, slot, hscan, hlength, hall, -⟩ := hfull
          subst hmore
          exact ⟨others, slot, hscan, hlength, hall, by simp⟩
        · exact ih hnext hmore
      obtain ⟨others, slot, hscan, hlength, hall, hprefix⟩ := hscan
      refine ⟨client :: others, slot, ?_, ?_, ?_, ?_⟩
      · rw [scanFrom_some horder hskipped hclient, hscan]
        rfl
      · rw [List.length_cons, hlength]
      · rintro other (_ | ⟨_, hother⟩)
        · exact hclient
        · exact hall other hother
      · rw [List.take_succ_cons, ← hclients]
        exact List.prefix_cons_inj client |>.2 hprefix

theorem headD_order (last : Fin (top + 1)) : (Round.order last).headD last = last ∧ Round.order last ≠ [] := by
  obtain ⟨rest, horder, -⟩ := Round.order_eq_cons last
  rw [horder]
  exact ⟨rfl, List.cons_ne_nil _ _⟩

/-- A tick with no more iterations than clients takes the first ones, and they go to the end of the queue. -/
theorem scan_within (last : Fin (top + 1)) (hcount : iterations ≤ clientCount occupied) :
    ∃ slot, scan occupied iterations last = some ((queue occupied last).take iterations, slot) ∧
      queue occupied slot = (queue occupied last).drop iterations ++ (queue occupied last).take iterations := by
  have hlength : iterations ≤ ((Round.order last).filter occupied).length := by
    rw [← length_queue last] at hcount
    exact hcount
  obtain ⟨done, left, horder, hdone, hscan⟩ := scanFrom_within (List.nil_append _).symm hlength
  rw [(headD_order last).1] at hscan
  have hqueue : queue occupied last = done.filter occupied ++ left.filter occupied := by
    rw [queue, horder, List.filter_append]
  have htake : (queue occupied last).take iterations = done.filter occupied := by
    rw [hqueue, List.take_left' hdone]
  have hdrop : (queue occupied last).drop iterations = left.filter occupied := by
    rw [hqueue, List.drop_left' hdone]
  refine ⟨left.headD last, ?_, ?_⟩
  · rw [scan, hscan, htake]
  · rw [queue, Round.order_headD horder, List.filter_append, hdrop, htake]

/-- A tick with more iterations than clients takes them all, and more than once if there is one in the last slot. -/
theorem scan_beyond (last : Fin (top + 1)) (hcount : clientCount occupied < iterations) :
    ∃ clients slot, scan occupied iterations last = some (clients, slot) ∧ queue occupied last <+: clients ∧
      (clients.Nodup ↔ ¬ occupied (last + 1) = true) := by
  have hlength : ((Round.order last).filter occupied).length < iterations := by
    rw [← length_queue last] at hcount
    exact hcount
  obtain ⟨hhead, hne⟩ := headD_order last
  by_cases hwrap : occupied (last + 1) = true
  · obtain ⟨clients, slot, hscan, hall, hoccupied, hprefix⟩ :=
      @scanFrom_again _ _ _ [] _ iterations hwrap (List.nil_append _).symm hne
    rw [hhead] at hscan
    rw [List.take_of_length_le (Nat.le_of_lt hlength)] at hprefix
    refine ⟨clients, slot, hscan, hprefix, iff_of_false ?_ (not_not_intro hwrap)⟩
    intro hnodup
    have hsubset : clients ⊆ queue occupied last := fun client hclient => mem_queue.2 (hoccupied client hclient)
    have hle := (List.subperm_of_subset hnodup hsubset).length_le
    rw [length_queue, hall] at hle
    omega
  · have hscan := scanFrom_ends hwrap (List.nil_append _).symm hne hlength
    rw [hhead] at hscan
    exact ⟨_, last, hscan, List.prefix_rfl, iff_of_true (nodup_queue last) hwrap⟩

/-- Ticks with as many iterations as there are clients, all told, take every client. -/
theorem scans_all (ticks : List Nat) (last : Fin (top + 1)) :
    ∃ clientss slot, scans occupied ticks last = some (clientss, slot) ∧
      ∀ client ∈ (queue occupied last).take ticks.sum, ∃ clients ∈ clientss, client ∈ clients := by
  induction ticks generalizing last with
  | nil => exact ⟨[], last, rfl, fun _ h => by simp at h⟩
  | cons iterations ticks ih =>
    by_cases hcount : iterations ≤ clientCount occupied
    · obtain ⟨slot, hscan, hqueue⟩ := scan_within last hcount
      obtain ⟨clientss, final, hscans, hall⟩ := ih slot
      refine ⟨(queue occupied last).take iterations :: clientss, final, ?_, ?_⟩
      · rw [scans, hscan]
        dsimp only
        rw [hscans]
        rfl
      · intro client hclient
        rw [List.sum_cons, List.take_add, List.mem_append] at hclient
        obtain hnow | hlater := hclient
        · exact ⟨_, List.mem_cons_self, hnow⟩
        · have hlater' : client ∈ (queue occupied slot).take ticks.sum := by
            rw [hqueue, List.take_append]
            exact List.mem_append_left _ hlater
          obtain ⟨clients, hmem, hin⟩ := hall client hlater'
          exact ⟨clients, List.mem_cons_of_mem _ hmem, hin⟩
    · obtain ⟨clients, slot, hscan, hprefix, -⟩ := scan_beyond last (Nat.lt_of_not_le hcount)
      obtain ⟨clientss, final, hscans, -⟩ := ih slot
      refine ⟨clients :: clientss, final, ?_, ?_⟩
      · rw [scans, hscan]
        dsimp only
        rw [hscans]
        rfl
      · exact fun client hclient => ⟨clients, List.mem_cons_self, hprefix.subset (List.mem_of_mem_take hclient)⟩

/-- The scan ends, takes no client twice, and takes all of them if there are no more than its iterations. Ticks that
have no fewer iterations take every client in turn. -/
structure Fair (bigMode accurateSends : Bool) (occupied : Fin (initSlot bigMode + 1) → Bool)
    (lastUpdateSlot : Fin (initSlot bigMode + 1)) : Prop where
  ends : ∃ clients slot, scan occupied (maxIterations bigMode accurateSends) lastUpdateSlot = some (clients, slot)
  once : ∀ clients slot, scan occupied (maxIterations bigMode accurateSends) lastUpdateSlot = some (clients, slot) →
    clients.Nodup
  all : ∀ clients slot, scan occupied (maxIterations bigMode accurateSends) lastUpdateSlot = some (clients, slot) →
    clientCount occupied ≤ maxIterations bigMode accurateSends → ∀ client, occupied client = true → client ∈ clients
  inTurn : ∀ ticks : List Bool, (∀ tick ∈ ticks, tickMul accurateSends ≤ tickMul tick) →
    (clientCount occupied + maxIterations bigMode accurateSends - 1) / maxIterations bigMode accurateSends + 1 ≤
      ticks.length →
    ∃ clientss slot, scans occupied (ticks.map (maxIterations bigMode)) lastUpdateSlot = some (clientss, slot) ∧
      ∀ client, occupied client = true → ∃ clients ∈ clientss, client ∈ clients

/-- All but the second part hold always. That one holds if the iterations are used up within a round, or if its last
slot, the one above `lastUpdateSlot`, is free. -/
theorem fair_iff (bigMode accurateSends : Bool) (occupied : Fin (initSlot bigMode + 1) → Bool)
    (lastUpdateSlot : Fin (initSlot bigMode + 1)) :
    Fair bigMode accurateSends occupied lastUpdateSlot ↔
      maxIterations bigMode accurateSends ≤ clientCount occupied ∨ occupied (lastUpdateSlot + 1) = false := by
  have hinTurn : ∀ ticks : List Bool, (∀ tick ∈ ticks, tickMul accurateSends ≤ tickMul tick) →
      (clientCount occupied + maxIterations bigMode accurateSends - 1) / maxIterations bigMode accurateSends + 1 ≤
        ticks.length →
      ∃ clientss slot, scans occupied (ticks.map (maxIterations bigMode)) lastUpdateSlot = some (clientss, slot) ∧
        ∀ client, occupied client = true → ∃ clients ∈ clientss, client ∈ clients := by
    intro ticks hticks hlength
    obtain ⟨clientss, slot, hscans, hall⟩ := @scans_all _ occupied (ticks.map (maxIterations bigMode)) lastUpdateSlot
    refine ⟨clientss, slot, hscans, fun client hclient => hall client ?_⟩
    have hsum : (ticks.map (maxIterations bigMode)).length * maxIterations bigMode accurateSends ≤
        (ticks.map (maxIterations bigMode)).sum := by
      refine List.card_nsmul_le_sum _ _ ?_
      intro iterations hmem
      obtain ⟨tick, htick, rfl⟩ := List.mem_map.1 hmem
      exact Nat.mul_le_mul_left _ (hticks tick htick)
    have hpos : 0 < maxIterations bigMode accurateSends := by
      cases bigMode <;> cases accurateSends <;> decide
    have hdiv := Nat.div_add_mod (clientCount occupied + maxIterations bigMode accurateSends - 1)
      (maxIterations bigMode accurateSends)
    have hmod := Nat.mod_lt (clientCount occupied + maxIterations bigMode accurateSends - 1) hpos
    have hmul := Nat.mul_le_mul_right (maxIterations bigMode accurateSends) hlength
    rw [Nat.succ_mul, Nat.mul_comm] at hmul
    rw [List.length_map] at hsum
    rw [List.take_of_length_le]
    · exact mem_queue.2 hclient
    · rw [length_queue]
      omega
  by_cases hcount : maxIterations bigMode accurateSends ≤ clientCount occupied
  · obtain ⟨slot, hscan, -⟩ := scan_within lastUpdateSlot hcount
    refine iff_of_true ⟨⟨_, slot, hscan⟩, ?_, ?_, hinTurn⟩ (.inl hcount)
    · intro clients slot' hscan'
      rw [hscan] at hscan'
      cases hscan'
      exact (nodup_queue lastUpdateSlot).take
    · intro clients slot' hscan' hle client hclient
      rw [hscan] at hscan'
      cases hscan'
      rw [List.take_of_length_le (by rw [length_queue]; exact hle)]
      exact mem_queue.2 hclient
  · obtain ⟨clients, slot, hscan, hprefix, hnodup⟩ := scan_beyond lastUpdateSlot (Nat.lt_of_not_le hcount)
    constructor
    · intro hfair
      have hfree := hnodup.1 (hfair.once clients slot hscan)
      exact .inr (by simpa using hfree)
    · intro hcond
      have hfree := hcond.resolve_left hcount
      refine ⟨⟨clients, slot, hscan⟩, ?_, ?_, hinTurn⟩
      · intro clients' slot' hscan'
        rw [hscan] at hscan'
        cases hscan'
        exact hnodup.2 (by rw [hfree]; simp)
      · intro clients' slot' hscan' _ client hclient
        rw [hscan] at hscan'
        cases hscan'
        exact hprefix.subset (mem_queue.2 hclient)

/-- A single client above `lastUpdateSlot` is taken in every iteration. -/
theorem onlyClient_again :
    let occupied : Fin (initSlot false + 1) → Bool := fun slot => slot == 1
    scan occupied (maxIterations false true) 0 = some (List.replicate 16 1, 0) ∧ clientCount occupied = 1 ∧
      ¬ Fair false true occupied 0 := by
  have hscan : scan (fun slot : Fin (initSlot false + 1) => slot == 1) (maxIterations false true) 0 =
      some (List.replicate 16 1, 0) := by decide +kernel
  refine ⟨hscan, by decide +kernel, fun hfair => ?_⟩
  have hnodup := hfair.once _ _ hscan
  revert hnodup
  decide

end fx.SlotScan
