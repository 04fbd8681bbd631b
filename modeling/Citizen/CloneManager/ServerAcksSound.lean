import Citizen.CloneManager.ServerAcks

namespace sync

namespace UpdateClient

variable {c : UpdateClient}

/-- The stored acks are of records that are in the buffer or in a packet, and not too old; and a frame index comes
with a record of its frame. -/
structure Sends (c : UpdateClient) : Prop where
  frame : ∀ ack ∈ c.serverAcks, ack.2.frame = ack.1
  recent : ∀ ack ∈ c.serverAcks, c.serverSendFrame ≤ ack.1 + 5001
  stored : ∀ ack ∈ c.serverAcks, .record ack.2 ∈ c.sendBuffer ∨ ∃ packet ∈ c.sent, .record ack.2 ∈ packet
  framed : ∀ packet ∈ c.sendBuffer :: c.sent, ∀ value, .index value ∈ packet →
    ∃ r, .record r ∈ packet ∧ r.frame % 2 ^ 32 = value ∧ r.frame ≤ c.serverSendFrame
  clones : ∀ packet ∈ c.clones, packet ∈ c.sent

theorem Sends.sendUpdates (h : c.Sends) : c.sendUpdates.Sends := by
  unfold UpdateClient.sendUpdates
  split_ifs with hempty
  · exact h
  · refine ⟨h.frame, h.recent, fun ack hack => .inr ?_, fun packet hmem value hvalue => ?_, fun packet hmem => ?_⟩
    · obtain hbuffer | ⟨packet, hpacket, hmem⟩ := h.stored ack hack
      · exact ⟨c.sendBuffer, List.mem_append_right _ List.mem_cons_self, hbuffer⟩
      · exact ⟨packet, List.mem_append_left _ hpacket, hmem⟩
    · obtain rfl | hmem := List.mem_cons.mp hmem
      · cases hvalue
      · refine h.framed packet ?_ value hvalue
        obtain hmem | hmem := List.mem_append.mp hmem
        · exact List.mem_cons_of_mem _ hmem
        · rw [List.mem_singleton.mp hmem]
          exact List.mem_cons_self
    · exact (List.mem_append.mp hmem).elim (fun hmem => List.mem_append_left _ (h.clones packet hmem))
        (List.mem_append_right _)

theorem Sends.attemptFlush (h : c.Sends) (full : Bool) : (c.attemptFlush full).Sends := by
  unfold UpdateClient.attemptFlush
  split_ifs
  · exact h.sendUpdates
  · exact h

theorem Sends.giveObject (h : c.Sends) (clientId objectId : Nat) : (c.giveObject clientId objectId).Sends := by
  refine ⟨h.frame, h.recent, fun ack hack => (h.stored ack hack).imp_left (List.mem_append_left _), ?_, h.clones⟩
  intro packet hmem value hvalue
  obtain rfl | hmem := List.mem_cons.mp hmem
  · obtain hvalue | hvalue := List.mem_append.mp hvalue
    · obtain ⟨r, hr, hframe⟩ := h.framed _ List.mem_cons_self value hvalue
      exact ⟨r, List.mem_append_left _ hr, hframe⟩
    · cases List.mem_singleton.mp hvalue
  · exact h.framed packet (List.mem_cons_of_mem _ hmem) value hvalue

theorem mem_recentAcks {ack : Nat × UpdateRecord} (h : ack ∈ c.recentAcks) :
    ack ∈ c.serverAcks ∧ c.serverSendFrame ≤ ack.1 + 5000 := by
  unfold recentAcks at h
  split_ifs at h
  · obtain ⟨hmem, hrecent⟩ := List.mem_filter.mp h
    have hle := of_decide_eq_true hrecent
    exact ⟨hmem, by omega⟩
  · exact ⟨h, by omega⟩

/-- A record of a frame that has begun. -/
theorem Sends.writeRecord (h : c.Sends) (ts syncType objectId uniqifier : Nat) :
    (c.writeRecord ts syncType objectId uniqifier).Sends := by
  refine ⟨fun ack hack => ?_, fun ack hack => ?_, fun ack hack => ?_, fun packet hmem value hvalue => ?_, h.clones⟩
  · obtain hack | hack := List.mem_append.mp hack
    · exact h.frame ack hack
    · rw [List.mem_singleton.mp hack]
  · obtain hack | hack := List.mem_append.mp hack
    · exact h.recent ack hack
    · rw [List.mem_singleton.mp hack]
      exact Nat.le_add_right _ _
  · obtain hack | hack := List.mem_append.mp hack
    · exact (h.stored ack hack).imp_left (List.mem_append_left _)
    · rw [List.mem_singleton.mp hack]
      exact .inl (List.mem_append_right _ List.mem_cons_self)
  · obtain rfl | hmem := List.mem_cons.mp hmem
    · obtain hvalue | hvalue := List.mem_append.mp hvalue
      · obtain ⟨r, hr, hframe⟩ := h.framed _ List.mem_cons_self value hvalue
        exact ⟨r, List.mem_append_left _ hr, hframe⟩
      · cases List.mem_singleton.mp hvalue
    · exact h.framed packet (List.mem_cons_of_mem _ hmem) value hvalue

/-- The first record of a frame, with its timestamp and index. -/
theorem Sends.firstRecord (h : c.Sends) (ts syncType objectId uniqifier : Nat) :
    ((c.touchTimestamp ts).writeRecord ts syncType objectId uniqifier).Sends := by
  have holder : ∀ packet ∈ c.sendBuffer :: c.sent, ∀ value, .index value ∈ packet →
      ∃ r, .record r ∈ packet ∧ r.frame % 2 ^ 32 = value ∧ r.frame ≤ c.serverSendFrame + 1 := by
    intro packet hmem value hvalue
    obtain ⟨r, hr, hframe, hle⟩ := h.framed packet hmem value hvalue
    exact ⟨r, hr, hframe, Nat.le_succ_of_le hle⟩
  refine ⟨fun ack hack => ?_, fun ack hack => ?_, fun ack hack => ?_, fun packet hmem value hvalue => ?_, h.clones⟩
  · obtain hack | hack := List.mem_append.mp hack
    · exact h.frame ack (mem_recentAcks hack).1
    · rw [List.mem_singleton.mp hack]
  · obtain hack | hack := List.mem_append.mp hack
    · exact Nat.succ_le_succ (mem_recentAcks hack).2
    · rw [List.mem_singleton.mp hack]
      exact Nat.le_add_right _ _
  · obtain hack | hack := List.mem_append.mp hack
    · refine (h.stored ack (mem_recentAcks hack).1).imp_left fun hmem => ?_
      exact List.mem_append_left _ (List.mem_append_left _ hmem)
    · rw [List.mem_singleton.mp hack]
      exact .inl (List.mem_append_right _ List.mem_cons_self)
  · obtain rfl | hmem := List.mem_cons.mp hmem
    · obtain hvalue | hvalue := List.mem_append.mp hvalue
      · obtain hvalue | hvalue := List.mem_append.mp hvalue
        · obtain ⟨r, hr, hframe⟩ := holder _ List.mem_cons_self value hvalue
          exact ⟨r, List.mem_append_left _ (List.mem_append_left _ hr), hframe⟩
        · -- the index of the new frame
          have heq : value = (c.serverSendFrame + 1) % 2 ^ 32 := by
            obtain hvalue | hvalue := List.mem_cons.mp hvalue
            · cases hvalue
            · exact SendItem.index.inj (List.mem_singleton.mp hvalue)
          exact ⟨_, List.mem_append_right _ List.mem_cons_self, heq.symm, le_refl _⟩
      · cases List.mem_singleton.mp hvalue
    · exact holder packet (List.mem_cons_of_mem _ hmem) value hvalue

theorem Sends.writeItem {s : UpdateClient × Bool} (h : s.1.Sends) (ts : Nat) (item : UpdateItem × Bool) :
    (writeItem ts s item).1.Sends := by
  unfold UpdateClient.writeItem
  split
  · exact (h.giveObject _ _).attemptFlush _
  · dsimp only
    split_ifs
    · exact (h.writeRecord ts _ _ _).attemptFlush _
    · exact (h.firstRecord ts _ _ _).attemptFlush _

theorem Sends.update (h : c.Sends) (ts : Nat) (items : List (UpdateItem × Bool)) : (c.update ts items).Sends := by
  have hall : ∀ (items : List (UpdateItem × Bool)) (s : UpdateClient × Bool), s.1.Sends →
      (items.foldl (UpdateClient.writeItem ts) s).1.Sends := by
    intro items
    induction items with
    | nil => exact fun s hs => hs
    | cons item items ih => exact fun s hs => ih _ (hs.writeItem ts item)
  exact (hall items (c, false) h).sendUpdates

theorem sendUpdates_sendBuffer (c : UpdateClient) : c.sendUpdates.sendBuffer = [] := by
  unfold sendUpdates
  split_ifs with hempty
  · exact hempty
  · rfl

theorem sent_sendUpdates (c : UpdateClient) : c.sent ⊆ c.sendUpdates.sent := by
  unfold sendUpdates
  split_ifs
  · exact List.Subset.refl _
  · exact List.subset_append_left _ _

theorem sent_attemptFlush (c : UpdateClient) (full : Bool) : c.sent ⊆ (c.attemptFlush full).sent := by
  unfold attemptFlush
  split_ifs
  · exact c.sent_sendUpdates
  · exact List.Subset.refl _

/-- A round of the loop forgets no packet. -/
theorem sent_writeItem (ts : Nat) (s : UpdateClient × Bool) (item : UpdateItem × Bool) :
    s.1.sent ⊆ (writeItem ts s item).1.sent := by
  unfold writeItem
  split
  · exact sent_attemptFlush (s.1.giveObject _ _) _
  · dsimp only
    split_ifs
    · exact sent_attemptFlush (s.1.writeRecord ts _ _ _) _
    · exact sent_attemptFlush ((s.1.touchTimestamp ts).writeRecord ts _ _ _) _

theorem sent_update (c : UpdateClient) (ts : Nat) (items : List (UpdateItem × Bool)) :
    c.sent ⊆ (c.update ts items).sent := by
  have hloop := Loop.keeps (fun s s' : UpdateClient × Bool => s.1.sent ⊆ s'.1.sent) (fun _ => List.Subset.refl _)
    (fun hab hbc => List.Subset.trans hab hbc) (sent_writeItem ts) items (c, false)
  exact List.Subset.trans hloop (sent_sendUpdates _)

end UpdateClient

namespace UpdateServer

/-- A packet is parsed to its end. -/
theorem mem_parsed (packet : List SendItem) (s : UpdateServer) (r : UpdateRecord) :
    r ∈ (s.parseClonePacket packet).parsed ↔ r ∈ s.parsed ∨ .record r ∈ packet := by
  unfold parseClonePacket
  induction packet generalizing s with
  | nil => simp
  | cons item packet ih =>
    rw [List.foldl_cons, ih]
    cases item with
    | record r' =>
      have hparsed : r ∈ (s.parseItem (.record r')).parsed ↔ r = r' ∨ r ∈ s.parsed := List.mem_cons
      rw [hparsed, List.mem_cons, SendItem.record.injEq, or_left_comm, or_assoc]
    | takeover | timestamp | index => simp [parseItem]

/-- The index after a packet is the one before, or one of the packet. -/
theorem fidx_parseClonePacket (packet : List SendItem) (s : UpdateServer) :
    (s.parseClonePacket packet).fidx = s.fidx ∨ .index (s.parseClonePacket packet).fidx ∈ packet := by
  unfold parseClonePacket
  induction packet generalizing s with
  | nil => exact .inl rfl
  | cons item packet ih =>
    rw [List.foldl_cons]
    obtain heq | hmem := ih (s.parseItem item)
    · cases item with
      | index value =>
        refine .inr ?_
        rw [heq]
        exact List.mem_cons_self
      | record | takeover | timestamp => exact .inl heq
    · exact .inr (List.mem_cons_of_mem _ hmem)

end UpdateServer

namespace UpdateWorld

open UpdateClient

variable {w w' : UpdateWorld}

/-- Between two steps no record waits in the buffer; what has arrived was sent and parsed; and an answer has an
index that has arrived. -/
structure Tracks (w : UpdateWorld) : Prop where
  sends : w.client.Sends
  quiet : ∀ r, .record r ∉ w.client.sendBuffer
  arrived : ∀ packet ∈ w.arrived, packet ∈ w.client.sent
  parsed : ∀ packet ∈ w.arrived, ∀ r, .record r ∈ packet → r ∈ w.server.parsed
  answered : ∀ frameIndex ∈ w.server.fidx :: w.answers, frameIndex ≠ 0 → ∃ packet ∈ w.arrived,
    .index frameIndex ∈ packet

theorem tracks_init : Tracks {} where
  sends :=
    { frame := fun _ h => absurd h List.not_mem_nil
      recent := fun _ h => absurd h List.not_mem_nil
      stored := fun _ h => absurd h List.not_mem_nil
      framed := fun packet h value hvalue => by
        rw [List.mem_singleton.mp h] at hvalue
        exact absurd hvalue List.not_mem_nil
      clones := fun _ h => absurd h List.not_mem_nil }
  quiet _ := List.not_mem_nil
  arrived _ h := absurd h List.not_mem_nil
  parsed _ h := absurd h List.not_mem_nil
  answered frameIndex h hne := absurd (List.mem_singleton.mp h) hne

/-- A step of the client alone. -/
theorem Tracks.of_client (h : w.Tracks) {client : UpdateClient} (hsends : client.Sends)
    (hquiet : ∀ r, .record r ∉ client.sendBuffer) (hsent : w.client.sent ⊆ client.sent) :
    Tracks { w with client } where
  sends := hsends
  quiet := hquiet
  arrived packet hmem := hsent (h.arrived packet hmem)
  parsed := h.parsed
  answered := h.answered

theorem Tracks.step (h : w.Tracks) {a : Action} (hstep : w.step a = some w') : w'.Tracks := by
  cases a with
  | update ts items =>
    cases hstep
    refine h.of_client (h.sends.update ts items) (fun r => ?_) (sent_update _ ts items)
    rw [UpdateClient.update, sendUpdates_sendBuffer]
    exact List.not_mem_nil
  | giveObject clientId objectId full =>
    cases hstep
    refine h.of_client ((h.sends.giveObject clientId objectId).attemptFlush full) (fun r => ?_)
      (sent_attemptFlush (w.client.giveObject clientId objectId) full)
    unfold attemptFlush
    split_ifs
    · rw [sendUpdates_sendBuffer]
      exact List.not_mem_nil
    · intro hmem
      obtain hmem | hmem := List.mem_append.mp hmem
      · exact h.quiet r hmem
      · cases List.mem_singleton.mp hmem
  | deliverClones =>
    unfold UpdateWorld.step at hstep
    dsimp only at hstep
    split at hstep
    · cases hstep
    · rename_i packet rest hclones
      cases hstep
      have hpacket : packet ∈ w.client.clones := by
        rw [hclones]
        exact List.mem_cons_self
      have hrest : ∀ packet' ∈ rest, packet' ∈ w.client.sent := fun packet' hmem =>
        h.sends.clones packet' (by rw [hclones]; exact List.mem_cons_of_mem _ hmem)
      have hfidx : ∀ frameIndex, frameIndex = (w.server.parseClonePacket packet).fidx → frameIndex ≠ 0 →
          ∃ packet' ∈ packet :: w.arrived, .index frameIndex ∈ packet' := by
        rintro frameIndex rfl hne
        obtain heq | hmem := w.server.fidx_parseClonePacket packet
        · rw [heq] at hne ⊢
          obtain ⟨packet', hmem, hindex⟩ := h.answered _ List.mem_cons_self hne
          exact ⟨packet', List.mem_cons_of_mem _ hmem, hindex⟩
        · exact ⟨packet, List.mem_cons_self, hmem⟩
      refine ⟨⟨h.sends.frame, h.sends.recent, h.sends.stored, h.sends.framed, hrest⟩, h.quiet, ?_, ?_, ?_⟩
      · intro packet' hmem
        obtain rfl | hmem := List.mem_cons.mp hmem
        · exact h.sends.clones _ hpacket
        · exact h.arrived packet' hmem
      · intro packet' hmem r hr
        refine (w.server.mem_parsed packet r).mpr ?_
        obtain rfl | hmem := List.mem_cons.mp hmem
        · exact .inr hr
        · exact .inl (h.parsed packet' hmem r hr)
      · intro frameIndex hmem hne
        obtain rfl | hmem := List.mem_cons.mp hmem
        · exact hfidx _ rfl hne
        · obtain hmem | hmem := List.mem_append.mp hmem
          · obtain ⟨packet', hmem', hindex⟩ := h.answered frameIndex (List.mem_cons_of_mem _ hmem) hne
            exact ⟨packet', List.mem_cons_of_mem _ hmem', hindex⟩
          · exact hfidx frameIndex (List.mem_singleton.mp hmem) hne
  | loseClones =>
    unfold UpdateWorld.step at hstep
    dsimp only at hstep
    split at hstep
    · cases hstep
    · rename_i packet rest hclones
      cases hstep
      refine h.of_client ⟨h.sends.frame, h.sends.recent, h.sends.stored, h.sends.framed,
        fun packet' hmem => ?_⟩ h.quiet (List.Subset.refl _)
      exact h.sends.clones packet' (by rw [hclones]; exact List.mem_cons_of_mem _ hmem)
  | deliverAnswer =>
    unfold UpdateWorld.step at hstep
    dsimp only at hstep
    split at hstep
    · cases hstep
    · rename_i frameIndex rest hanswers
      cases hstep
      have hanswered : ∀ frameIndex ∈ w.server.fidx :: rest, frameIndex ≠ 0 →
          ∃ packet ∈ w.arrived, .index frameIndex ∈ packet := by
        intro frameIndex' hmem
        refine h.answered frameIndex' ?_
        obtain rfl | hmem := List.mem_cons.mp hmem
        · exact List.mem_cons_self
        · rw [hanswers]
          exact List.mem_cons_of_mem _ (List.mem_cons_of_mem _ hmem)
      unfold handleCloneAcksNew
      split_ifs
      · exact ⟨h.sends, h.quiet, h.arrived, h.parsed, hanswered⟩
      · exact ⟨⟨fun ack hack => h.sends.frame ack (List.mem_of_mem_filter hack),
          fun ack hack => h.sends.recent ack (List.mem_of_mem_filter hack),
          fun ack hack => h.sends.stored ack (List.mem_of_mem_filter hack), h.sends.framed, h.sends.clones⟩,
          h.quiet, h.arrived, h.parsed, hanswered⟩
  | loseAnswer =>
    unfold UpdateWorld.step at hstep
    dsimp only at hstep
    split at hstep
    · cases hstep
    · rename_i frameIndex rest hanswers
      cases hstep
      refine ⟨h.sends, h.quiet, h.arrived, h.parsed, fun frameIndex' hmem => h.answered frameIndex' ?_⟩
      obtain rfl | hmem := List.mem_cons.mp hmem
      · exact List.mem_cons_self
      · rw [hanswers]
        exact List.mem_cons_of_mem _ (List.mem_cons_of_mem _ hmem)

/-- The index of an answer that stored acks have is that of a packet that has arrived with a record of the frame. -/
theorem Tracks.carries (h : w.Tracks) {frameIndex : Nat} {rest : List Nat} (hanswers : w.answers = frameIndex :: rest)
    (hne : frameIndex ≠ 0) {r : UpdateRecord} (hstored : (frameIndex, r) ∈ w.client.serverAcks) :
    ∃ packet ∈ w.arrived, Carries packet frameIndex := by
  have hmem : frameIndex ∈ w.server.fidx :: w.answers := by
    rw [hanswers]
    exact List.mem_cons_of_mem _ List.mem_cons_self
  obtain ⟨packet, hpacket, hindex⟩ := h.answered frameIndex hmem hne
  obtain ⟨r', hr', hvalue, hle⟩ := h.sends.framed packet (List.mem_cons_of_mem _ (h.arrived packet hpacket)) _ hindex
  have hrecent := h.sends.recent _ hstored
  exact ⟨packet, hpacket, r', hr', by dsimp only at hrecent; omega⟩

/-- An answer that meets the condition acknowledges what was parsed. -/
theorem Tracks.acknowledges (h : w.Tracks) {a : Action} (hok : w.Orderly a) : w.Acknowledges a := by
  cases a with
  | deliverAnswer =>
    intro frameIndex rest hanswers hne r hr
    obtain ⟨⟨key, r'⟩, hmem, rfl⟩ := List.mem_map.mp hr
    obtain ⟨hstored, hkey⟩ := List.mem_filter.mp hmem
    obtain rfl : key = frameIndex := of_decide_eq_true hkey
    obtain ⟨packet, hpacket, hrecord⟩ := (h.sends.stored _ hstored).resolve_left (h.quiet r')
    have hcarries : Carries packet key := ⟨r', hrecord, h.sends.frame _ hstored⟩
    have harrived : packet ∈ w.arrived := by
      obtain hone | hall := hok key rest hanswers hne
      · obtain ⟨packet', hmem', hcarries'⟩ := h.carries hanswers hne hstored
        rw [hone packet hpacket packet' (h.arrived packet' hmem') hcarries hcarries']
        exact hmem'
      · exact hall packet hpacket hcarries
    exact h.parsed packet harrived r' hrecord
  | update | giveObject | deliverClones | loseClones | loseAnswer => trivial

/-- In a run whose answers meet the condition, every stored ack that is processed is of a record that the server has
parsed. The condition is on the packets that have arrived before the answer: records of a frame may be split
over packets that are lost one by one. -/
theorem run_acknowledges (acts : List Action) (w : UpdateWorld) (hrun : Transition.Run step Orderly {} acts w) :
    Transition.Run step Acknowledges {} acts w :=
  hrun.upgrade Tracks tracks_init (fun h _ hstep => h.step hstep) fun h hok _ => h.acknowledges hok

/-- Two creates in one packet, and their ack. -/
theorem run_acknowledges_one : ∃ w acts, w.server.parsed.length = 2 ∧ w.client.serverAcks = [] ∧
    Transition.Run step Acknowledges {} acts w := by
  have hcheck : ∀ (w : UpdateWorld) (a : Action), decide (w.Orderly a) = true → w.Orderly a :=
    fun _ _ h => of_decide_eq_true h
  have hend : ((Transition.exec (fun w a => if decide (Orderly w a) then step w a else none) ({} : UpdateWorld)
      [.update 100 [(.record 1 7 1, false), (.record 1 8 1, true)], .deliverClones, .deliverAnswer]).any fun w =>
        decide (w.server.parsed.length = 2 ∧ w.client.serverAcks = [])) = true := by decide +kernel
  obtain ⟨w, hrun, hw⟩ := Transition.exists_checked hcheck hend
  obtain ⟨hparsed, hacks⟩ := of_decide_eq_true hw
  exact ⟨w, _, hparsed, hacks, run_acknowledges _ w hrun⟩

/-- A frame in two packets: the second one is lost, and the answer to the first acknowledges it. -/
theorem run_split : ∃ (acts : List Action) (w : UpdateWorld), Transition.Run step (fun _ _ => True) {} acts w ∧
    (∃ w', w.step .deliverAnswer = some w') ∧ ¬ w.Acknowledges .deliverAnswer := by
  have hend : ((Transition.exec step ({} : UpdateWorld)
      [.update 100 [(.record 1 7 1, true), (.record 1 8 1, false)], .deliverClones, .loseClones]).any fun w =>
        decide (w.answers = [1] ∧ ⟨1, 1, 8, 1, 100, 1⟩ ∈ w.client.acksOf 1 ∧
          w.server.parsed = [⟨1, 1, 7, 1, 100, 0⟩])) = true := by decide +kernel
  obtain ⟨w, hrun, hw⟩ := Transition.exists_run hend
  obtain ⟨hanswers, hstored, hparsed⟩ := of_decide_eq_true hw
  refine ⟨_, w, hrun, ?_, fun h => ?_⟩
  · unfold step
    rw [hanswers]
    exact ⟨_, rfl⟩
  · have hmem := h 1 [] hanswers one_ne_zero _ hstored
    rw [hparsed] at hmem
    revert hmem
    decide

end UpdateWorld

end sync
