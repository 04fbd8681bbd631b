import Citizen.ClientRegistry.Host

namespace fx

namespace HostWorld

variable {w w' : HostWorld}

/-- The vouches that are counted for a net id. -/
def countedFor (w : HostWorld) (allegedNewId : Nat) : List Vouch :=
  w.counted.filter fun vouch => vouch.allegedNewId = allegedNewId

theorem mem_countedFor {allegedNewId : Nat} {vouch : Vouch} :
    vouch ∈ w.countedFor allegedNewId ↔ vouch ∈ w.counted ∧ vouch.allegedNewId = allegedNewId := by
  rw [countedFor, List.mem_filter, decide_eq_true_iff]

/-- The counts are those of the counted vouches, and one more: for a net id they are from different clients, all of
them have been sent since the last host change, and the registry still has what they are about. -/
structure Tallied (w : HostWorld) : Prop where
  counts : ∀ allegedNewId, w.voteCounts allegedNewId =
    if w.countedFor allegedNewId = [] then none else some ((w.countedFor allegedNewId).length + 1)
  distinct : ∀ allegedNewId, ((w.countedFor allegedNewId).map Vouch.client).Nodup
  sent : ∀ vouch ∈ w.counted, vouch ∈ w.sent
  kept : w.KeepsVotes w.registry

theorem tallied_empty (oneSync bigMode : Bool) : (empty oneSync bigMode).Tallied where
  counts _ := rfl
  distinct _ := List.nodup_nil
  sent _ h := absurd h List.not_mem_nil
  kept _ h := absurd h List.not_mem_nil

/-- Without counted vouches there is nothing to keep. -/
theorem tallied_of_counted_nil (hcounted : w.counted = []) (hcounts : w.voteCounts = fun _ => none) : w.Tallied where
  counts allegedNewId := by
    have hnone : w.countedFor allegedNewId = [] := by rw [countedFor, hcounted, List.filter_nil]
    rw [hcounts, if_pos hnone]
  distinct allegedNewId := by
    rw [countedFor, hcounted]
    exact List.nodup_nil
  sent vouch h := by
    rw [hcounted] at h
    exact absurd h List.not_mem_nil
  kept vouch h := by
    rw [hcounted] at h
    exact absurd h List.not_mem_nil

theorem Tallied.counts_nil (h : w.Tallied) (hcounted : w.counted = []) : w.voteCounts = fun _ => none := by
  funext allegedNewId
  rw [h.counts, if_pos]
  rw [countedFor, hcounted, List.filter_nil]

/-- The count after a vouch is one too high. -/
theorem Tallied.votes (h : w.Tallied) (allegedNewId : Nat) :
    w.votes allegedNewId = (w.countedFor allegedNewId).length + 2 := by
  unfold HostWorld.votes
  rw [h.counts]
  split_ifs with hnil
  · rw [hnil]
    rfl
  · rfl

/-- The tally of other state changes. -/
theorem Tallied.of_registry (h : w.Tallied) (hcounted : w'.counted = w.counted)
    (hcounts : w'.voteCounts = w.voteCounts) (hsent : w'.sent = w.sent) (hkept : w.KeepsVotes w'.registry) :
    w'.Tallied := by
  have hfor : ∀ allegedNewId, w'.countedFor allegedNewId = w.countedFor allegedNewId := fun allegedNewId => by
    rw [countedFor, hcounted, countedFor]
  refine ⟨fun allegedNewId => ?_, fun allegedNewId => ?_, fun vouch hmem => ?_, fun vouch hmem => ?_⟩
  · rw [hcounts, hfor]
    exact h.counts allegedNewId
  · rw [hfor]
    exact h.distinct allegedNewId
  · rw [hsent]
    exact h.sent vouch (hcounted ▸ hmem)
  · exact hkept vouch (hcounted ▸ hmem)

theorem candidate_found {allegedNewId : Nat} {newClient : ClientPtr} (h : w.candidate allegedNewId = some newClient) :
    w.registry.getClientByNetID allegedNewId = some newClient := by
  unfold candidate at h
  split_ifs at h
  exact h

/-- A vouch that does not make the client the host is counted. -/
theorem Tallied.vouch (h : w.Tallied) {client newClient : ClientPtr} {allegedNewId : Nat}
    (hcandidate : w.candidate allegedNewId = some newClient) (hregistered : w.registry.Registered client)
    (hnew : ∀ vouch ∈ w.counted, vouch.allegedNewId = allegedNewId → vouch.client ≠ client) :
    Tallied { w with
      voteCounts := Function.update w.voteCounts allegedNewId (some (w.votes allegedNewId))
      counted := ⟨client, allegedNewId, newClient⟩ :: w.counted
      sent := ⟨client, allegedNewId, newClient⟩ :: w.sent } := by
  have hfor : ∀ netId, ((⟨client, allegedNewId, newClient⟩ :: w.counted).filter fun vouch =>
    vouch.allegedNewId = netId) =
      if allegedNewId = netId then ⟨client, allegedNewId, newClient⟩ :: w.countedFor netId
        else w.countedFor netId := by
    intro netId
    rw [List.filter_cons]
    simp only [decide_eq_true_iff]
    rfl
  refine ⟨fun netId => ?_, fun netId => ?_, fun vouch hmem => ?_, fun vouch hmem => ?_⟩
  · unfold countedFor
    dsimp only
    rw [hfor, Function.update_apply]
    by_cases hid : netId = allegedNewId
    · subst hid
      rw [if_pos rfl, if_pos rfl, if_neg (List.cons_ne_nil _ _), h.votes, List.length_cons]
    · rw [if_neg hid, if_neg (Ne.symm hid)]
      exact h.counts netId
  · unfold countedFor
    dsimp only
    rw [hfor]
    split_ifs with hid
    · subst hid
      rw [List.map_cons, List.nodup_cons]
      refine ⟨fun hmem => ?_, h.distinct _⟩
      obtain ⟨vouch, hvouch, hclient⟩ := List.mem_map.mp hmem
      obtain ⟨hcounted, hid⟩ := mem_countedFor.mp hvouch
      exact hnew vouch hcounted hid hclient
    · exact h.distinct netId
  · obtain rfl | hmem := List.mem_cons.mp hmem
    · exact List.mem_cons_self
    · exact List.mem_cons_of_mem _ (h.sent vouch hmem)
  · obtain rfl | hmem := List.mem_cons.mp hmem
    · exact ⟨hregistered, candidate_found hcandidate⟩
    · exact h.kept vouch hmem

/-- A step that meets the condition keeps the tally. -/
theorem Tallied.step (h : w.Tallied) {a : Action} (hok : w.Orderly a) (hstep : w.step a = some w') : w'.Tallied := by
  cases a with
  | heHost peer allegedNewId baseNum =>
    obtain ⟨client, hclient, rfl⟩ := Option.map_eq_some_iff.mp hstep
    unfold heHost
    split
    · exact h
    · rename_i newClient hcandidate
      obtain ⟨hregistered, hnew, -⟩ := hok client hclient (by rw [hcandidate]; rfl)
      split_ifs
      · exact tallied_of_counted_nil rfl rfl
      · exact h.vouch hcandidate hregistered hnew
  | iHost peer baseNum hostIsDead =>
    obtain ⟨client, hclient, rfl⟩ := Option.map_eq_some_iff.mp hstep
    unfold iHost
    split_ifs with hgone
    · have hcounted := hok hgone
      exact tallied_of_counted_nil hcounted (h.counts_nil hcounted)
    · exact h
  | registry a =>
    obtain ⟨r, hr, rfl⟩ := Option.map_eq_some_iff.mp hstep
    exact h.of_registry rfl rfl rfl (hok r hr)
  | route peer =>
    obtain ⟨client, -, rfl⟩ := Option.map_eq_some_iff.mp hstep
    exact h.of_registry rfl rfl rfl h.kept
  | dropClient c =>
    obtain ⟨-, heq⟩ := Option.ite_none_right_eq_some.mp hstep
    cases heq
    exact h.of_registry rfl rfl rfl h.kept
  | dropClientInternal c =>
    obtain ⟨-, heq⟩ := Option.ite_none_right_eq_some.mp hstep
    cases heq
    obtain ⟨hhost, hkept⟩ := hok
    unfold dropClientInternal
    split_ifs with hcase
    · have hcounted := hhost hcase
      exact tallied_of_counted_nil hcounted (h.counts_nil hcounted)
    · exact h.of_registry rfl rfl rfl hkept

/-- A vouch that meets the condition elects by a majority. -/
theorem Tallied.elects (h : w.Tallied) {a : Action} (hok : w.Orderly a) : w.Elects a := by
  cases a with
  | heHost peer allegedNewId baseNum =>
    intro client newClient hclient hcandidate
    obtain ⟨hregistered, hnew, hneed⟩ := hok client hclient (by rw [hcandidate]; rfl)
    have hsame : ∀ vouch ∈ w.counted, vouch.allegedNewId = allegedNewId → vouch.newClient = newClient := by
      intro vouch hmem hid
      have hfound := (h.kept vouch hmem).2
      rw [hid, candidate_found hcandidate] at hfound
      exact (Option.some.inj hfound).symm
    refine ⟨hsame, fun henough => ⟨client :: (w.countedFor allegedNewId).map Vouch.client, ?_, ?_, ?_⟩⟩
    · refine List.nodup_cons.mpr ⟨fun hmem => ?_, h.distinct allegedNewId⟩
      obtain ⟨vouch, hvouch, heq⟩ := List.mem_map.mp hmem
      obtain ⟨hcounted, hid⟩ := mem_countedFor.mp hvouch
      exact hnew vouch hcounted hid heq
    · -- the count is one higher than the voters are many
      have hvotes := h.votes allegedNewId
      have hmajority : majority w.numClients ≤ w.votesNeeded := by
        unfold votesNeeded
        split_ifs <;> omega
      rw [List.length_cons, List.length_map]
      by_cases hexact : w.votes allegedNewId = w.votesNeeded
      · have hone := hneed hexact
        omega
      · omega
    · intro voter hvoter
      obtain rfl | hvoter := List.mem_cons.mp hvoter
      · exact ⟨hregistered, _, List.mem_cons_self, rfl, rfl⟩
      · obtain ⟨vouch, hvouch, rfl⟩ := List.mem_map.mp hvoter
        obtain ⟨hcounted, hid⟩ := mem_countedFor.mp hvouch
        exact ⟨(h.kept vouch hcounted).1, vouch, List.mem_cons_of_mem _ (h.sent vouch hcounted), rfl,
          hsame vouch hcounted hid⟩
  | iHost | registry | route | dropClient | dropClientInternal => trivial

/-- In a run whose steps meet the condition, every election has a majority: the invariant `Tallied` says that the
votes are of as many different clients that are still there. -/
theorem run_elects (oneSync bigMode : Bool) (acts : List Action) (w : HostWorld)
    (hrun : Transition.Run step Orderly (empty oneSync bigMode) acts w) :
    Transition.Run step Elects (empty oneSync bigMode) acts w :=
  hrun.upgrade Tallied (tallied_empty oneSync bigMode)
    (fun h hok hstep => h.step hok hstep) fun h hok _ => h.elects hok

/-- The next client connects, and routes. -/
def joins (c : ClientPtr) (guid : String) : List Action :=
  [.registry (.makeClient guid), .registry (.setPeer c (c + 10)), .registry (.handleConnectingClient c),
    .route (c + 10)]

/-- Two of four clients vouch for the first, and the others leave in between. -/
theorem run_elects_two : ∃ w : HostWorld, w.hostNetId = 1 ∧ ∃ acts,
    Transition.Run step Elects (empty false false) acts w := by
  have hcheck : ∀ (w : HostWorld) (a : Action), decide (w.Orderly a) = true → w.Orderly a :=
    fun _ _ h => of_decide_eq_true h
  have hend : ((Transition.exec (fun w a => if decide (Orderly w a) then step w a else none) (empty false false)
      (joins 0 "a" ++ joins 1 "b" ++ joins 2 "c" ++ joins 3 "d" ++
        [.heHost 11 1 5, .dropClientInternal 2, .dropClientInternal 3, .heHost 10 1 5])).any fun w =>
          w.hostNetId = 1) = true := by decide +kernel
  obtain ⟨w, hrun, hw⟩ := Transition.exists_checked hcheck hend
  exact ⟨w, of_decide_eq_true hw, _, run_elects false false _ w hrun⟩

/-- One vouch makes a client the host of three. -/
theorem run_single_vouch : ∃ (acts : List Action) (w : HostWorld),
    Transition.Run step (fun _ _ => True) (empty false false) acts w ∧
      (∃ w', w.step (.heHost 10 2 5) = some w' ∧ w'.hostNetId = 2) ∧ ¬ w.Elects (.heHost 10 2 5) := by
  have hend : ((Transition.exec step (empty false false) (joins 0 "a" ++ joins 1 "b" ++ joins 2 "c")).any fun w =>
      w.registry.getClientByPeer 10 = some 0 ∧ w.candidate 2 = some 1 ∧ w.votesNeeded ≤ w.votes 2 ∧
        majority w.numClients = 2 ∧ w.sent = [] ∧
        (w.step (.heHost 10 2 5)).any fun w' => w'.hostNetId = 2) = true := by decide +kernel
  obtain ⟨w, hrun, hw⟩ := Transition.exists_run hend
  obtain ⟨hclient, hcandidate, henough, hmajority, hsent, hhost⟩ := of_decide_eq_true hw
  obtain ⟨w', hstep, hw'⟩ := (Option.any_eq_true _ _).mp hhost
  refine ⟨_, w, hrun, ⟨w', hstep, of_decide_eq_true hw'⟩, fun h => ?_⟩
  obtain ⟨voters, hnodup, hmany, hvoters⟩ := (h 0 1 hclient hcandidate).2 henough
  have hsub : voters ⊆ [0] := by
    intro voter hvoter
    obtain ⟨-, vouch, hmem, rfl, -⟩ := hvoters voter hvoter
    rw [hsent, List.mem_singleton] at hmem
    rw [hmem]
    exact List.mem_cons_self
  have hlength := (hnodup.subperm hsub).length_le
  rw [List.length_singleton] at hlength
  omega

end HostWorld

end fx
