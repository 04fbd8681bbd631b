import Citizen.ServerRPC.Native

open Bits net Transition

namespace fx.ServerRPC

/-- The tokens drawn for objects are told apart, and so are the handles made of them. -/
structure State.Unique (s : State) : Prop where
  nodup : s.drawn.Nodup
  ne_zero : 0 ∉ s.drawn
  keys_nodup : (s.drawn.map (BitVec.ofNat 32)).Nodup
  handles_nodup : s.handles.Nodup

/-- Whether an action is a call of a native that creates an object. -/
def Action.createsObject (natives : Value 8 → Native) : Action → Bool
  | .call gameHash _ => decide ((natives gameHash).rpcType = .objectCreate)
  | _ => false

/-- 12820163 has order 240 modulo 2^24 - 1 = 3^2 * 5 * 7 * 13 * 17 * 241. -/
theorem objectEngine_period : Congruential.Period objectEngine.1 objectEngine.2 240 where
  pos := by decide
  one := by decide +kernel
  least := by
    have hleast : ∀ d < 240, 0 < d → ¬ objectEngine.1 ^ d ≡ 1 [MOD objectEngine.2] := by decide +kernel
    exact fun d hpos hd => hleast d hd hpos

/-- The script handle of a token. -/
def scriptHandle (token : Nat) : Value 4 := BitVec.ofNat 32 token + 0x1000000

/-- The tokens are the first draws of the engine, and every handle is one of them. -/
structure State.Drawn (s : State) : Prop where
  drawn_eq : s.drawn = Congruential.draws objectEngine.1 objectEngine.2 s.drawn.length 1
  objectToken_eq : s.objectToken = (Congruential.next objectEngine.1 objectEngine.2)^[s.drawn.length] 1
  handles : s.handles.Sublist (s.drawn.map scriptHandle)

theorem init_drawn : ({} : State).Drawn := ⟨rfl, rfl, List.Sublist.slnil⟩

namespace Native

variable (native : Native) (gameHash : Value 8) (ctx : ScriptContext)

@[simp] theorem token_handles (s : State) : (native.token s).2.handles = s.handles := by
  unfold token
  cases native.rpcType <;> rfl

theorem drawn_token (s : State) :
    (native.token s).2.drawn.length = s.drawn.length + if native.rpcType = .objectCreate then 1 else 0 := by
  unfold token
  cases native.rpcType <;> simp

@[simp] theorem finish_drawn (clientIdx : Int) (creationToken : Value 4) (p : Packing) (s : State) :
    (native.finish gameHash clientIdx creationToken p s).drawn = s.drawn := by
  unfold finish
  cases native.rpcType <;> cases p.replay <;> cases p.delThis <;> rfl

@[simp] theorem finish_objectToken (clientIdx : Int) (creationToken : Value 4) (p : Packing) (s : State) :
    (native.finish gameHash clientIdx creationToken p s).objectToken = s.objectToken := by
  unfold finish
  cases native.rpcType <;> cases p.replay <;> cases p.delThis <;> rfl

theorem finish_handles (clientIdx : Int) (creationToken : Value 4) (p : Packing) (s : State) :
    (native.finish gameHash clientIdx creationToken p s).handles =
      s.handles ++ if native.rpcType = .objectCreate then [creationToken + 0x1000000] else [] := by
  unfold finish
  cases native.rpcType <;> cases p.replay <;> cases p.delThis <;> simp

/-- A drawn token, with or without its handle, keeps the tokens the draws of the engine. -/
theorem token_drawn {s s' : State} (h : s.Drawn) (hdrawn : s'.drawn = (native.token s).2.drawn)
    (htoken : s'.objectToken = (native.token s).2.objectToken)
    (hhandles : s'.handles = s.handles ∨
      s'.handles = s.handles ++ if native.rpcType = .objectCreate then [(native.token s).1 + 0x1000000] else []) :
    s'.Drawn := by
  unfold token at hdrawn htoken hhandles
  by_cases hcreate : native.rpcType = .objectCreate
  · rw [hcreate] at hdrawn htoken hhandles
    dsimp only at hdrawn htoken hhandles
    have hnext : Congruential.next objectEngine.1 objectEngine.2 s.objectToken =
        (Congruential.next objectEngine.1 objectEngine.2)^[s.drawn.length + 1] 1 := by
      rw [Function.iterate_succ_apply', h.objectToken_eq]
    refine ⟨?_, ?_, ?_⟩
    · rw [hdrawn, List.length_append, List.length_singleton, Congruential.draws_succ, ← h.drawn_eq, hnext]
    · rw [htoken, hdrawn, List.length_append, List.length_singleton, hnext]
    · rw [hdrawn, List.map_append]
      rcases hhandles with hsame | hmore
      · rw [hsame]
        exact h.handles.trans (List.sublist_append_left _ _)
      · rw [hmore, if_pos rfl]
        exact h.handles.append (List.Sublist.refl _)
  · have hsame : s'.drawn = s.drawn ∧ s'.objectToken = s.objectToken ∧ s'.handles = s.handles := by
      rw [if_neg hcreate, List.append_nil, or_self] at hhandles
      refine ⟨hdrawn.trans ?_, htoken.trans ?_, hhandles⟩ <;> cases htype :
        native.rpcType <;> first | rfl | exact absurd htype hcreate
    obtain ⟨hdrawn, htoken, hhandles⟩ := hsame
    exact ⟨by rw [hdrawn]; exact h.drawn_eq, by rw [htoken, hdrawn]; exact h.objectToken_eq,
      by rw [hhandles, hdrawn]; exact h.handles⟩

theorem handler_drawn {s : State} (h : s.Drawn) : (native.handler gameHash ctx s).Drawn := by
  unfold handler
  cases native.route ctx with
  | none => exact h
  | some clientIdx =>
    dsimp only
    cases Packing.arguments ctx native.arguments 0 (native.header gameHash ctx (native.token s).1) with
    | none => exact native.token_drawn h rfl rfl (.inl (native.token_handles s))
    | some p =>
      refine native.token_drawn h (finish_drawn ..) (finish_objectToken ..) (.inr ?_)
      dsimp only
      rw [finish_handles, token_handles]

theorem handler_length (s : State) :
    (native.handler gameHash ctx s).drawn.length = s.drawn.length + if native.rpcType = .objectCreate
      then 1 else 0 := by
  unfold handler
  cases hroute : native.route ctx with
  | none =>
    have hcreate : native.rpcType ≠ .objectCreate := by
      intro hcreate
      simp [route, hcreate] at hroute
    rw [if_neg hcreate, Nat.add_zero]
  | some clientIdx =>
    dsimp only
    rw [← drawn_token]
    cases Packing.arguments ctx native.arguments 0 (native.header gameHash ctx (native.token s).1) with
    | none => rfl
    | some p => exact congrArg List.length (finish_drawn ..)

end Native

section Step

variable {natives : Value 8 → Native} {s t : State} {a : Action}

theorem State.Drawn.step (h : s.Drawn) (hstep : step natives s a = some t) : t.Drawn := by
  obtain ⟨gameHash, ctx, -, rfl⟩ | ⟨callback, callbacks, -, -, rfl⟩ | ⟨-, rfl⟩ := step_cases hstep
  · exact Native.handler_drawn _ _ _ h
  · exact ⟨h.drawn_eq, h.objectToken_eq, h.handles⟩
  · exact ⟨h.drawn_eq, h.objectToken_eq, h.handles⟩

theorem step_length (hstep : step natives s a = some t) :
    t.drawn.length = s.drawn.length + if a.createsObject natives then 1 else 0 := by
  obtain ⟨gameHash, ctx, rfl, rfl⟩ | ⟨callback, callbacks, rfl, -, rfl⟩ | ⟨rfl, rfl⟩ := step_cases hstep
  · rw [Native.handler_length]
    simp [Action.createsObject]
  · rfl
  · rfl

end Step

/-- A run draws a token for every call that creates an object, the calls that fail included. -/
theorem run_length {natives : Value 8 → Native} {acts : List Action} {s t : State}
    (h : Run (step natives) (fun _ _ => True) s acts t) :
    t.drawn.length = s.drawn.length + acts.countP (Action.createsObject natives) := by
  induction h with
  | nil => rfl
  | cons _ hstep _ ih => rw [ih, step_length hstep, List.countP_cons, Nat.add_assoc, Nat.add_comm (ite _ _ _)]

theorem token_lt {n token : Nat} (h : token ∈ Congruential.draws objectEngine.1 objectEngine.2 n 1) :
    token < 2 ^ 24 := by
  rw [Congruential.draws_eq_map, List.mem_map] at h
  obtain ⟨i, -, rfl⟩ := h
  rw [Congruential.iterate_next]
  exact (Nat.mod_lt _ (by decide)).trans (by decide)

/-- Different tokens are different as keys of `g_replayList`. -/
theorem State.Drawn.token_injective {s : State} (h : s.Drawn) {i j : Nat} (hi : i ∈ s.drawn) (hj : j ∈ s.drawn)
    (heq : BitVec.ofNat 32 i = BitVec.ofNat 32 j) : i = j := by
  rw [h.drawn_eq] at hi hj
  have hi' := token_lt hi
  have hj' := token_lt hj
  have htoNat := congrArg BitVec.toNat heq
  rwa [BitVec.toNat_ofNat, BitVec.toNat_ofNat, Nat.mod_eq_of_lt (by omega), Nat.mod_eq_of_lt (by omega)] at htoNat

theorem State.Drawn.unique {s : State} (h : s.Drawn) (hnodup : s.drawn.Nodup) : s.Unique where
  nodup := hnodup
  ne_zero := by
    rw [h.drawn_eq]
    exact objectEngine_period.zero_notMem_draws (Nat.coprime_one_right _) (by decide) _
  keys_nodup := hnodup.map_on fun i hi j hj heq => h.token_injective hi hj heq
  handles_nodup :=
    h.handles.nodup (hnodup.map_on fun i hi j hj heq => h.token_injective hi hj ((BitVec.add_left_inj _).mp heq))

section Run

variable {natives : Value 8 → Native} {acts : List Action} {s : State}

theorem run_drawn (h : Run (step natives) (fun _ _ => True) {} acts s) : s.Drawn :=
  h.invariant State.Drawn init_drawn fun hinv _ hstep => hinv.step hstep

theorem drawn_nodup_iff (h : Run (step natives) (fun _ _ => True) {} acts s) :
    s.drawn.Nodup ↔ acts.countP (Action.createsObject natives) ≤ 240 := by
  have hlength : s.drawn.length = acts.countP (Action.createsObject natives) := by
    rw [run_length h]
    exact Nat.zero_add _
  rw [(run_drawn h).drawn_eq, ← hlength]
  exact objectEngine_period.nodup_draws_iff (Nat.coprime_one_right _) _

/-- The tokens of a run are unique exactly if it creates at most 240 objects. Every run draws from the one orbit of
the engine's seed, so no condition on the calls is left. -/
theorem run_unique_iff (h : Run (step natives) (fun _ _ => True) {} acts s) :
    s.Unique ↔ acts.countP (Action.createsObject natives) ≤ 240 := by
  rw [← drawn_nodup_iff h]
  exact ⟨State.Unique.nodup, (run_drawn h).unique⟩

end Run

/-- `ADD_BLIP_FOR_COORD`. -/
def addBlipForCoord : Native := { rpcType := .objectCreate, arguments := [.float, .float, .float] }

theorem run_unique_two : ∃ s : State, Run (step fun _ => addBlipForCoord) (fun _ _ => True) {}
    (List.replicate 2 (.call 0x5A039BB0BCA604B6 {})) s ∧ s.Unique := by
  have hend : (exec (step fun _ => addBlipForCoord) {} (List.replicate 2 (.call 0x5A039BB0BCA604B6 {}))).any
      (fun _ => true) = true := by decide +kernel
  obtain ⟨s, hrun, -⟩ := exists_run hend
  exact ⟨s, hrun, (run_unique_iff hrun).mpr (by decide +kernel)⟩

/-- The 241st object has the token of the first. -/
theorem run_repeats : ∃ s : State, Run (step fun _ => addBlipForCoord) (fun _ _ => True) {}
    (List.replicate 241 (.call 0x5A039BB0BCA604B6 {})) s ∧ ¬ s.drawn.Nodup := by
  have hend : (exec (step fun _ => addBlipForCoord) {} (List.replicate 241 (.call 0x5A039BB0BCA604B6 {}))).any
      (fun _ => true) = true := by decide +kernel
  obtain ⟨s, hrun, -⟩ := exists_run hend
  refine ⟨s, hrun, fun hnodup => ?_⟩
  have hcount := (drawn_nodup_iff hrun).mp hnodup
  revert hcount
  decide +kernel

end fx.ServerRPC
