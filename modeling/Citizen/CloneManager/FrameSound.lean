import Citizen.CloneManager.FrameSync

open Bits net

namespace sync

namespace SyncClient

variable (client : SyncClient)

/-- One of the lists has the object. -/
def Names (objectId : Value 2) : Prop :=
  objectId ∈ client.ignoreList.map Prod.fst ∨ objectId ∈ client.recreateList

/-- The client acknowledges whole frames, and knows fragments. -/
structure ARQ : Prop where
  version : 0x202011231556 ≤ client.netProtoVersion
  syncIsARQ : client.syncIsARQ = true

variable {client}

/-- A clone changes the lists alone. -/
theorem addClone_same (clone : CloneResult) : (client.addClone clone).netProtoVersion = client.netProtoVersion ∧
    (client.addClone clone).syncIsARQ = client.syncIsARQ ∧
    (client.addClone clone).lastReceivedFrame = client.lastReceivedFrame := by
  unfold addClone
  split
  · split_ifs <;> exact ⟨rfl, rfl, rfl⟩
  · split
    · exact ⟨rfl, rfl, rfl⟩
    · split_ifs <;> exact ⟨rfl, rfl, rfl⟩
    · exact ⟨rfl, rfl, rfl⟩
    · exact ⟨rfl, rfl, rfl⟩

theorem foldl_addClone_same (clones : List CloneResult) (client : SyncClient) :
    (clones.foldl addClone client).netProtoVersion = client.netProtoVersion ∧
    (clones.foldl addClone client).syncIsARQ = client.syncIsARQ ∧
    (clones.foldl addClone client).lastReceivedFrame = client.lastReceivedFrame := by
  induction clones generalizing client with
  | nil => exact ⟨rfl, rfl, rfl⟩
  | cons clone clones ih =>
    obtain ⟨hversion, harq, hlast⟩ := ih (client.addClone clone)
    obtain ⟨hversion', harq', hlast'⟩ := @addClone_same client clone
    exact ⟨hversion.trans hversion', harq.trans harq', hlast.trans hlast'⟩

/-- The lists do not lose an object by a clone. -/
theorem Names.addClone {objectId : Value 2} (h : client.Names objectId) (clone : CloneResult) :
    (client.addClone clone).Names objectId := by
  have hignore : ∀ entry, objectId ∈ client.ignoreList.map Prod.fst →
      objectId ∈ (client.ignoreList ++ [entry]).map Prod.fst := fun entry hmem => by
    rw [List.map_append]
    exact List.mem_append_left _ hmem
  have hrecreate : ∀ entry, objectId ∈ client.recreateList → objectId ∈ client.recreateList ++ [entry] :=
    fun entry hmem => List.mem_append_left _ hmem
  unfold SyncClient.addClone
  split
  · split_ifs
    · exact h
    · exact h.imp_right (hrecreate _)
    · exact h.imp_left (hignore _)
    · exact h
  · split
    · exact h
    · split_ifs
      · exact h.imp_right (hrecreate _)
      · exact h
    · exact h.imp_left (hignore _)
    · exact h.imp_left (hignore _)

/-- A refused clone is named. -/
theorem names_addClone (hversion : 0x202011231556 ≤ client.netProtoVersion) {clone : CloneResult}
    (hrefused : clone.refused = true) : (client.addClone clone).Names clone.objectId := by
  have hignore : ∀ entry : Value 2 × Value 8, entry.1 ∈ (client.ignoreList ++ [entry]).map Prod.fst := fun entry => by
    rw [List.map_append]
    exact List.mem_append_right _ List.mem_cons_self
  have hrecreate : ∀ entry, entry ∈ client.recreateList ++ [entry] := fun entry =>
    List.mem_append_right _ List.mem_cons_self
  cases clone with
  | create objectId acked =>
    cases acked with
    | true => cases hrefused
    | false =>
      rw [SyncClient.addClone, if_neg Bool.false_ne_true, if_pos (by omega)]
      exact .inr (hrecreate objectId)
  | update objectId acked lastFrameUpdated =>
    cases acked with
    | OK => cases hrefused
    | ResendClone => exact .inl (hignore (objectId, 0))
    | ResendCloneMinimal => exact .inl (hignore (objectId, lastFrameUpdated))
    | ResendCreate =>
      rw [SyncClient.addClone, if_pos (by omega)]
      exact .inr (hrecreate objectId)

theorem Names.foldl {objectId : Value 2} (clones : List CloneResult) {client : SyncClient}
    (h : client.Names objectId) :
    (clones.foldl SyncClient.addClone client).Names objectId := by
  induction clones generalizing client with
  | nil => exact h
  | cons clone clones ih => exact ih (h.addClone clone)

theorem names_foldl (clones : List CloneResult) {client : SyncClient}
    (hversion : 0x202011231556 ≤ client.netProtoVersion) {clone : CloneResult} (hmem : clone ∈ clones)
    (hrefused : clone.refused = true) :
    (clones.foldl SyncClient.addClone client).Names clone.objectId := by
  induction clones generalizing client with
  | nil => cases hmem
  | cons head clones ih =>
    obtain rfl | hmem := List.mem_cons.mp hmem
    · exact Names.foldl clones (names_addClone hversion hrefused)
    · exact ih (by rw [(addClone_same head).1]; exact hversion) hmem

/-- The ack of the lists. -/
def ackOf (client : SyncClient) (frameIndex : Nat) : FrameReply where
  frameIndex := BitVec.ofNat (8 * 8) frameIndex
  ignoreList := client.ignoreList
  recreateList := client.recreateList

/-- What the client is after a packet that it handles, before it answers. -/
def took (client : SyncClient) (packet : ClonePacket) : SyncClient :=
  packet.clones.foldl addClone { client with lastReceivedFrame := FrameIndex.ofFull packet.frameIndex }

theorem took_lastReceivedFrame (packet : ClonePacket) :
    (client.took packet).lastReceivedFrame = FrameIndex.ofFull packet.frameIndex := (foldl_addClone_same _ _).2.2

theorem ARQ.took (h : client.ARQ) (packet : ClonePacket) : (client.took packet).ARQ where
  version := by
    rw [SyncClient.took, (foldl_addClone_same _ _).1]
    exact h.version
  syncIsARQ := by
    rw [SyncClient.took, (foldl_addClone_same _ _).2.1]
    exact h.syncIsARQ

end SyncClient

theorem ClonePacket.ofFull_frameIndex (packet : ClonePacket) (hsmall : packet.frame.frameIndex < 2 ^ 56) :
    (FrameIndex.ofFull packet.frameIndex).lastFragment = packet.isLast ∧
      (FrameIndex.ofFull packet.frameIndex).frameIndex = packet.frame.frameIndex := by
  rw [ClonePacket.frameIndex, FrameIndex.ofFull_full]
  exact ⟨rfl, Nat.mod_eq_of_lt hsmall⟩

/-- A packet that is not a second last fragment is handled, and the last one of its frame is answered by an ack. -/
theorem SyncClient.ARQ.handle {client : SyncClient} (h : client.ARQ) {packet : ClonePacket}
    (hsmall : packet.frame.frameIndex < 2 ^ 56)
    (hnew : ¬ (client.lastReceivedFrame.frameIndex = packet.frame.frameIndex ∧
      client.lastReceivedFrame.lastFragment = true ∧ packet.isLast = true)) :
    client.handleCloneSync packet.frameIndex packet.clones = some (
      if packet.isLast then
        ({ client.took packet with ignoreList := [], recreateList := [] },
          some (.ack ((client.took packet).ackOf packet.frame.frameIndex)))
      else (client.took packet, none)) := by
  obtain ⟨hlast, hindex⟩ := packet.ofFull_frameIndex hsmall
  have hchecked : ∃ missing, SyncClient.checkMissing client.lastReceivedFrame (FrameIndex.ofFull packet.frameIndex) =
      some missing := by
    unfold SyncClient.checkMissing
    rw [hlast, hindex]
    dsimp only
    split_ifs with hzero hframe hboth
    · exact ⟨_, rfl⟩
    · exact absurd ⟨hframe, hboth⟩ hnew
    all_goals exact ⟨_, rfl⟩
  obtain ⟨missing, hmissing⟩ := hchecked
  have hversion := h.version
  have htook := h.took packet
  unfold SyncClient.handleCloneSync
  dsimp only
  rw [if_pos (by omega), hmissing, Option.map_some]
  change some ((client.took packet).reply packet.frameIndex missing) = _
  unfold SyncClient.reply
  rw [if_pos (.inr ⟨htook.version, htook.syncIsARQ⟩), if_pos htook.version, client.took_lastReceivedFrame,
    hlast, hindex]
  rfl

namespace ClonePacket

variable {packet packet' : ClonePacket}

theorem Before.frameIndex_le (h : packet.Before packet') : packet.frame.frameIndex ≤ packet'.frame.frameIndex := by
  obtain h | ⟨h, -⟩ := h
  · exact h.le
  · rw [h]

/-- Nothing of a frame comes after its last fragment. -/
theorem Before.frame_ne_of_isLast (h : packet.Before packet') (hlast : packet.isLast = true)
    (hfragment : packet'.fragment < packet'.frame.fragments.length) : packet'.frame ≠ packet.frame := by
  intro heq
  obtain hlt | ⟨-, hlt⟩ := h
  · rw [heq] at hlt
    exact lt_irrefl _ hlt
  · have hcount : packet.fragment + 1 = packet.frame.fragments.length := of_decide_eq_true hlast
    rw [heq] at hfragment
    omega

end ClonePacket

namespace FrameStream

variable (stream : FrameStream)

theorem frame_eq {frame frame' : ServerFrame} (hmem : frame ∈ stream.frames) (hmem' : frame' ∈ stream.frames)
    (h : frame.frameIndex = frame'.frameIndex) : frame = frame' := by
  obtain ⟨i, hi, rfl⟩ := List.getElem_of_mem hmem
  obtain ⟨j, hj, rfl⟩ := List.getElem_of_mem hmem'
  have hincreasing := List.pairwise_iff_getElem.mp stream.increasing
  obtain hlt | rfl | hlt := Nat.lt_trichotomy i j
  · exact absurd h (ne_of_lt (hincreasing i j hi hj hlt))
  · rfl
  · exact absurd h (ne_of_gt (hincreasing j i hj hi hlt))

theorem mem_packets {packet : ClonePacket} (h : packet ∈ stream.packets) :
    packet.frame ∈ stream.frames ∧ packet.fragment < packet.frame.fragments.length := by
  obtain ⟨frame, hframe, hmem⟩ := List.mem_flatMap.mp h
  obtain ⟨fragment, hfragment, rfl⟩ := List.mem_map.mp hmem
  exact ⟨hframe, List.mem_range.mp hfragment⟩

/-- The packets are in order. -/
theorem pairwise_packets : stream.packets.Pairwise ClonePacket.Before := by
  refine List.pairwise_flatMap.mpr ⟨fun frame _ => ?_, stream.increasing.imp fun hlt => ?_⟩
  · rw [List.pairwise_map]
    exact List.pairwise_lt_range.imp fun hlt => .inr ⟨rfl, hlt⟩
  · intro packet hpacket packet' hpacket'
    obtain ⟨fragment, -, rfl⟩ := List.mem_map.mp hpacket
    obtain ⟨fragment', -, rfl⟩ := List.mem_map.mp hpacket'
    exact .inl hlt

end FrameStream

namespace SyncWorld

variable {stream : FrameStream} {w : SyncWorld} {packet : ClonePacket} {rest : List ClonePacket}

/-- The client is in the ARQ mode and has the index of the last packet; all packets that were handled come before
the rest; and of each one the refused objects are in the lists, or nothing of its frame is to come. -/
structure Tracks (w : SyncWorld) (rest : List ClonePacket) : Prop where
  arq : w.client.ARQ
  last : (w.client.lastReceivedFrame = {} ∧ w.handled = []) ∨
    ∃ packet ∈ w.handled, packet.frame.frameIndex < 2 ^ 56 ∧
      w.client.lastReceivedFrame = FrameIndex.ofFull packet.frameIndex
  before : ∀ packet ∈ w.handled, ∀ packet' ∈ rest, packet.Before packet'
  names : ∀ packet ∈ w.handled,
    (∀ clone ∈ packet.clones, clone.refused = true → w.client.Names clone.objectId) ∨
      ∀ packet' ∈ rest, packet'.frame ≠ packet.frame

/-- The next packet is no second last fragment. -/
theorem Tracks.handle (h : w.Tracks (packet :: rest)) (hsmall : packet.frame.frameIndex < 2 ^ 56)
    (hfragment : packet.fragment < packet.frame.fragments.length) :
    w.client.handleCloneSync packet.frameIndex packet.clones = some (
      if packet.isLast then
        ({ w.client.took packet with ignoreList := [], recreateList := [] },
          some (.ack ((w.client.took packet).ackOf packet.frame.frameIndex)))
      else (w.client.took packet, none)) := by
  refine h.arq.handle hsmall fun ⟨hframe, hlast, hlast'⟩ => ?_
  obtain ⟨hlast'', -⟩ | ⟨previous, hmem, hsmall', hindex⟩ := h.last
  · rw [hlast''] at hlast
    cases hlast
  · obtain ⟨hisLast, hindex'⟩ := previous.ofFull_frameIndex hsmall'
    rw [hindex, hisLast] at hlast
    rw [hindex, hindex'] at hframe
    have hbefore := h.before previous hmem packet List.mem_cons_self
    refine hbefore.frame_ne_of_isLast hlast hfragment ?_
    obtain hlt | ⟨hsame, -⟩ := hbefore
    · omega
    · exact hsame.symm

/-- What a packet that is handled leaves. -/
theorem Tracks.deliver_eq (h : w.Tracks (packet :: rest)) (hsmall : packet.frame.frameIndex < 2 ^ 56)
    (hfragment : packet.fragment < packet.frame.fragments.length) : w.deliver packet = {
      client := if packet.isLast then { w.client.took packet with ignoreList := [], recreateList := [] }
        else w.client.took packet
      handled := packet :: w.handled } := by
  unfold deliver
  rw [h.handle hsmall hfragment]
  split_ifs <;> rfl

/-- A packet is answered by an ack if and only if it is the last of its frame. -/
theorem Tracks.answer_eq (h : w.Tracks (packet :: rest)) (hsmall : packet.frame.frameIndex < 2 ^ 56)
    (hfragment : packet.fragment < packet.frame.fragments.length) : w.answer packet =
      if packet.isLast then some (.ack ((w.client.took packet).ackOf packet.frame.frameIndex)) else none := by
  unfold answer
  rw [h.handle hsmall hfragment]
  split_ifs <;> rfl

/-- After a packet, the lists name what was refused of the frame so far. -/
theorem Tracks.names_took (h : w.Tracks (packet :: rest)) {packet' : ClonePacket}
    (hmem : packet' ∈ packet :: w.handled) (hframe : packet'.frame = packet.frame) :
    ∀ clone ∈ packet'.clones, clone.refused = true → (w.client.took packet).Names clone.objectId := by
  intro clone hclone hrefused
  obtain rfl | hmem := List.mem_cons.mp hmem
  · have hversion : 0x202011231556 ≤
        ({ w.client with lastReceivedFrame := FrameIndex.ofFull packet'.frameIndex } : SyncClient).netProtoVersion :=
      h.arq.version
    exact SyncClient.names_foldl _ hversion hclone hrefused
  · have hnames := (h.names packet' hmem).resolve_right fun hnone => hnone packet List.mem_cons_self hframe.symm
    exact SyncClient.Names.foldl _ (hnames clone hclone hrefused)

/-- A packet that is delivered keeps track. -/
theorem Tracks.deliver (h : w.Tracks (packet :: rest)) (hsmall : packet.frame.frameIndex < 2 ^ 56)
    (hfragment : packet.fragment < packet.frame.fragments.length) (hbefore : ∀ packet' ∈ rest, packet.Before packet')
    (hrest : ∀ packet' ∈ rest, packet'.fragment < packet'.frame.fragments.length) :
    (w.deliver packet).Tracks rest := by
  rw [h.deliver_eq hsmall hfragment]
  have htook := h.arq.took packet
  refine ⟨?_, .inr ⟨packet, List.mem_cons_self, hsmall, ?_⟩, ?_, ?_⟩
  · dsimp only
    split_ifs
    · exact ⟨htook.version, htook.syncIsARQ⟩
    · exact htook
  · dsimp only
    split_ifs
    · exact w.client.took_lastReceivedFrame packet
    · exact w.client.took_lastReceivedFrame packet
  · intro previous hmem packet' hmem'
    obtain rfl | hmem := List.mem_cons.mp hmem
    · exact hbefore packet' hmem'
    · exact h.before previous hmem packet' (List.mem_cons_of_mem _ hmem')
  · intro previous hmem
    dsimp only
    split_ifs with hlast
    · -- the lists are empty, and the frame is over
      refine .inr fun packet' hmem' hsame => ?_
      have hnext := hbefore packet' hmem'
      have hover := hnext.frame_ne_of_isLast hlast (hrest packet' hmem')
      obtain rfl | hmem := List.mem_cons.mp hmem
      · exact hover hsame
      · have hle := (h.before previous hmem packet List.mem_cons_self).frameIndex_le
        obtain hlt | ⟨heq, -⟩ := hnext
        · rw [hsame] at hlt
          omega
        · exact hover heq.symm
    · by_cases hframe : previous.frame = packet.frame
      · exact .inl (h.names_took hmem hframe)
      · obtain rfl | hmem := List.mem_cons.mp hmem
        · exact absurd rfl hframe
        · refine (h.names previous hmem).imp (fun hnames clone hclone hrefused => ?_)
            fun hnone packet' hmem' => hnone packet' (List.mem_cons_of_mem _ hmem')
          exact SyncClient.Names.foldl _ (hnames clone hclone hrefused)

theorem ofNat_frameIndex_inj {n m : Nat} (hn : n < 2 ^ 56) (hm : m < 2 ^ 56)
    (h : BitVec.ofNat (8 * 8) n = BitVec.ofNat (8 * 8) m) : n = m := by
  have hnat := congrArg BitVec.toNat h
  rw [BitVec.toNat_ofNat, BitVec.toNat_ofNat] at hnat
  omega

/-- The ack for a packet is sound if and only if the packet does not come without a fragment before it. -/
theorem Tracks.ackSound_iff (h : w.Tracks (packet :: rest)) (hpacket : packet ∈ stream.packets) :
    w.AckSound stream packet ↔ w.Whole packet := by
  obtain ⟨hframe, hfragment⟩ := stream.mem_packets hpacket
  have hsmall := stream.small _ hframe
  unfold AckSound
  rw [h.answer_eq hsmall hfragment, h.deliver_eq hsmall hfragment]
  constructor
  · intro hsound hlast fragment hlt
    rw [if_pos hlast] at hsound
    obtain ⟨hmem, -⟩ := hsound _ rfl packet.frame hframe rfl fragment (by omega)
    refine (List.mem_cons.mp hmem).resolve_left fun heq => ?_
    rw [← heq] at hlt
    exact lt_irrefl _ hlt
  · intro hwhole ack hack frame hmem hindex
    have hlast : packet.isLast = true := by
      by_contra hno
      rw [if_neg hno] at hack
      cases hack
    rw [if_pos hlast] at hack
    cases hack
    have hsame : frame = packet.frame :=
      stream.frame_eq hmem hframe (ofNat_frameIndex_inj (stream.small _ hmem) hsmall hindex.symm)
    subst hsame
    intro fragment hlt
    have hcount : packet.fragment + 1 = packet.frame.fragments.length := of_decide_eq_true hlast
    have hhandled : ⟨packet.frame, fragment⟩ ∈ packet :: w.handled := by
      obtain rfl | hearlier : fragment = packet.fragment ∨ fragment < packet.fragment := by omega
      · exact List.mem_cons_self
      · exact List.mem_cons_of_mem _ (hwhole hlast fragment hearlier)
    exact ⟨hhandled, h.names_took hhandled rfl⟩

/-- Over the packets that arrive of a stream, every ack is sound if and only if every last fragment that arrives
comes after all others of its frame. -/
theorem Tracks.along_iff {delivered : List ClonePacket} (h : w.Tracks delivered)
    (hmem : ∀ packet ∈ delivered, packet ∈ stream.packets) (hbefore : delivered.Pairwise ClonePacket.Before) :
    Loop.Along SyncWorld.deliver (AckSound stream) w delivered ↔ Loop.Along SyncWorld.deliver Whole w delivered := by
  induction delivered generalizing w with
  | nil => exact Iff.rfl
  | cons packet rest ih =>
    obtain ⟨hnext, hbefore⟩ := List.pairwise_cons.mp hbefore
    have hpacket := hmem packet List.mem_cons_self
    obtain ⟨hframe, hfragment⟩ := stream.mem_packets hpacket
    have hrest : ∀ packet' ∈ rest, packet' ∈ stream.packets :=
      fun packet' h' => hmem packet' (List.mem_cons_of_mem _ h')
    have hdelivered := h.deliver (stream.small _ hframe) hfragment hnext fun packet' h' =>
      (stream.mem_packets (hrest packet' h')).2
    exact and_congr (h.ackSound_iff hpacket) (ih hdelivered hrest hbefore)

/-- A client in the ARQ mode that has received nothing. -/
def start (netProtoVersion : Nat) : SyncWorld where
  client := { netProtoVersion, syncIsARQ := true }

/-- A frame of two fragments: a create that is acked, and an update that is not. -/
def twoFragments : ServerFrame where
  frameIndex := 1
  fragments := [[.create 3 true], [.update 4 .ResendCreate 0]]
  nonempty := List.cons_ne_nil _ _

def twoFragmentsStream : FrameStream where
  frames := [twoFragments]
  increasing := List.pairwise_singleton _ _
  small frame hmem := by
    rw [List.mem_singleton.mp hmem]
    decide

end SyncWorld

end sync
