import Cue.Cluster.ServiceDiscovery
import Mathlib.Data.Set.Function

/-! The list of peers and the three maps of service discovery. All four are built
from one list, so what they can disagree about is a node ID that the list has
twice: the maps keep one of the two peers. A replaced list is taken as it is, and
of a merged one the peers are compared with the list as it was before. -/
namespace Cue.Cluster
open Cue.Lib Cue.Model

/-- The node IDs in a list of peers. -/
abbrev nodeIDs (peers : List PeerInfo) : List String := peers.map PeerInfo.nodeID

namespace ServiceDiscovery

/-- The four structures describe the same peers, each once. -/
structure Consistent (sd : ServiceDiscovery) : Prop where
  distinct : (nodeIDs sd.peersList).Nodup
  nodeToPeer : ∀ node peer, sd.nodeToPeerMap.get node = some peer ↔ peer ∈ sd.peersList ∧ peer.nodeID = node
  nodeToRaft : ∀ node, (∃ raftID, sd.nodeToRaftMap.get node = some raftID) ↔ node ∈ nodeIDs sd.peersList
  inverse : ∀ node raftID, sd.nodeToRaftMap.get node = some raftID ↔ sd.raftToNodeMap.get raftID = some node

/-- What was known of the peers in the list is known of them in another state, whose list goes on after them. -/
def Keeps (stringToUint64 : String → UInt64) (sd later : ServiceDiscovery) : Prop :=
  sd.peersList <+: later.peersList ∧
  ∀ node ∈ nodeIDs sd.peersList,
    later.nodeToPeerMap.get node = sd.nodeToPeerMap.get node ∧
    later.nodeToRaftMap.get node = sd.nodeToRaftMap.get node ∧
    later.raftToNodeMap.get (stringToUint64 node) = sd.raftToNodeMap.get (stringToUint64 node)

variable {hash : String → UInt64} {sd : ServiceDiscovery} {peers : List PeerInfo}

/-! ### One list -/

theorem mergePeers_eq (hash : String → UInt64) (peers new : List PeerInfo) :
    (build hash peers).mergePeers hash new = build hash (peers ++ (build hash peers).missing new) := by
  unfold mergePeers
  dsimp only
  split
  · rename_i nothing
    rw [nothing, List.append_nil, List.append_nil]
  · rfl

/-- The list of peers after a call. -/
def listAfter (peers : List PeerInfo) : PeersCall → List PeerInfo
  | .update new => new
  | .merge new => peers ++ new.filter fun peer => !peers.any fun p => p.nodeID = peer.nodeID

theorem call_build (hash : String → UInt64) (peers : List PeerInfo) (op : PeersCall) :
    (build hash peers).call hash op = build hash (listAfter peers op) := by
  cases op with
  | update new => rfl
  | merge new => exact mergePeers_eq hash peers new

theorem calls_build (hash : String → UInt64) (peers : List PeerInfo) (ops : List PeersCall) :
    ops.foldl (call hash) (build hash peers) = build hash (ops.foldl listAfter peers) := by
  induction ops generalizing peers with
  | nil => rfl
  | cons op ops ih => rw [List.foldl_cons, List.foldl_cons, call_build, ih]

theorem mem_missing {new : List PeerInfo} {peer : PeerInfo} :
    peer ∈ sd.missing new ↔ peer ∈ new ∧ peer.nodeID ∉ nodeIDs sd.peersList := by
  simp [missing, nodeIDs]

theorem listAfter_subset {op : PeersCall} : listAfter peers op ⊆ peers ++ op.peers := by
  cases op with
  | update new => exact List.subset_append_right _ _
  | merge new =>
    exact List.append_subset.mpr ⟨List.subset_append_left _ _,
      List.subset_append_of_subset_right _ (List.filter_subset_self _)⟩

/-- What a call takes over of the list it is given. -/
def taken (sd : ServiceDiscovery) : PeersCall → List PeerInfo
  | .update new => new
  | .merge new => sd.missing new

theorem taken_distinct {op : PeersCall} (given : (nodeIDs op.peers).Nodup) : (nodeIDs (sd.taken op)).Nodup := by
  cases op with
  | update new => exact given
  | merge new => exact given.sublist (List.filter_sublist.map _)

theorem listAfter_distinct {op : PeersCall} (before : (nodeIDs peers).Nodup)
    (new : (nodeIDs ((build hash peers).taken op)).Nodup) : (nodeIDs (listAfter peers op)).Nodup := by
  cases op with
  | update new => exact new
  | merge newPeers =>
    rw [nodeIDs, listAfter, List.map_append, List.nodup_append]
    refine ⟨before, new, ?_⟩
    rintro node there _ added rfl
    obtain ⟨peer, member, rfl⟩ := List.mem_map.mp added
    exact (@mem_missing (build hash peers) newPeers peer |>.mp member).2 there

theorem taken_of_listAfter {op : PeersCall} (after : (nodeIDs (listAfter peers op)).Nodup) :
    (nodeIDs ((build hash peers).taken op)).Nodup := by
  cases op with
  | update new => exact after
  | merge new => exact after.sublist ((List.sublist_append_right _ _).map _)

/-! ### What was built -/

section Built

variable {nodes : Set String} (injective : Set.InjOn hash nodes) (involved : ∀ peer ∈ peers, peer.nodeID ∈ nodes)
include injective involved

/-- Node IDs that are not the same have raft IDs that are not the same. -/
theorem raftIDs_distinct (distinct : (nodeIDs peers).Nodup) : (peers.map fun peer => hash peer.nodeID).Nodup := by
  refine List.Nodup.map_on ?_ (distinct.of_map _)
  intro peer member other inside same
  exact List.inj_on_of_nodup_map distinct member inside (injective (involved _ member) (involved _ inside) same)

theorem build_consistent (distinct : (nodeIDs peers).Nodup) : (build hash peers).Consistent := by
  have raftDistinct := raftIDs_distinct injective involved distinct
  refine ⟨distinct, fun node peer => ?_, fun node => ?_, fun node raftID => ?_⟩
  · simp only [build]
    rw [FinMap.get_collect_iff distinct]
    constructor
    · rintro ⟨found, member, rfl, rfl⟩
      exact ⟨member, rfl⟩
    · rintro ⟨member, rfl⟩
      exact ⟨peer, member, rfl, rfl⟩
  · rw [← FinMap.mem_keys]
    exact FinMap.mem_keys_collect
  · simp only [build]
    rw [FinMap.get_collect_iff distinct, FinMap.get_collect_iff raftDistinct]
    constructor
    · rintro ⟨peer, member, rfl, rfl⟩
      exact ⟨peer, member, rfl, rfl⟩
    · rintro ⟨peer, member, rfl, rfl⟩
      exact ⟨peer, member, rfl, rfl⟩

/-- The check notices a node ID that comes twice, and nothing else can be wrong. -/
theorem validate_build_iff : (build hash peers).validateConsistency hash = true ↔ (nodeIDs peers).Nodup := by
  constructor
  · intro valid
    simp only [validateConsistency, Bool.and_eq_true, decide_eq_true_eq] at valid
    exact FinMap.size_collect_iff.mp valid.1.1.1
  · intro distinct
    have raftDistinct := raftIDs_distinct injective involved distinct
    simp only [validateConsistency, Bool.and_eq_true, decide_eq_true_eq, List.all_eq_true]
    refine ⟨⟨⟨FinMap.size_collect_iff.mpr distinct, FinMap.size_collect_iff.mpr distinct⟩,
      FinMap.size_collect_iff.mpr raftDistinct⟩, fun peer member => ⟨⟨?_, ?_⟩, ?_⟩⟩
    · have found : (build hash peers).nodeToPeerMap.get peer.nodeID = some peer :=
        (FinMap.get_collect_iff distinct).mpr ⟨peer, member, rfl, rfl⟩
      simp [found]
    · exact (FinMap.get_collect_iff distinct).mpr ⟨peer, member, rfl, rfl⟩
    · exact (FinMap.get_collect_iff raftDistinct).mpr ⟨peer, member, rfl, rfl⟩

/-- A merge goes on where the list ends, and says nothing new of a node that was there. -/
theorem mergePeers_keeps {new : List PeerInfo} (given : ∀ peer ∈ new, peer.nodeID ∈ nodes) :
    (build hash peers).Keeps hash ((build hash peers).mergePeers hash new) := by
  rw [mergePeers_eq]
  refine ⟨List.prefix_append _ _, fun node there => ?_⟩
  have untouched : ∀ peer ∈ (build hash peers).missing new, peer.nodeID ≠ node := by
    rintro peer added rfl
    exact (mem_missing.mp added).2 there
  obtain ⟨known, inside, rfl⟩ := List.mem_map.mp there
  refine ⟨FinMap.get_collect_append _ _ _ _ _ untouched, FinMap.get_collect_append _ _ _ _ _ untouched,
    FinMap.get_collect_append _ _ _ _ _ fun peer added same => untouched peer added ?_⟩
  exact injective (given peer (mem_missing.mp added).1) (involved known inside) same

end Built

theorem mergePeers_idempotent (new : List PeerInfo) :
    ((build hash peers).mergePeers hash new).mergePeers hash new = (build hash peers).mergePeers hash new := by
  rw [mergePeers_eq, mergePeers_eq]
  have nothing : (build hash (peers ++ (build hash peers).missing new)).missing new = [] := by
    refine List.eq_nil_iff_forall_not_mem.mpr fun peer added => ?_
    obtain ⟨given, absent⟩ := mem_missing.mp added
    refine absent (List.mem_map.mpr ⟨peer, List.mem_append_right _ (mem_missing.mpr ⟨given, ?_⟩), rfl⟩)
    intro there
    exact absent (List.map_subset _ (List.subset_append_left _ _) there)
  rw [nothing, List.append_nil]

/-! ### Any calls -/

theorem calls_involved {nodes : Set String} {ops : List PeersCall} (involved : ∀ peer ∈ peers, peer.nodeID ∈ nodes)
    (given : ∀ op ∈ ops, ∀ peer ∈ op.peers, peer.nodeID ∈ nodes) :
    ∀ peer ∈ ops.foldl listAfter peers, peer.nodeID ∈ nodes := by
  induction ops generalizing peers with
  | nil => exact involved
  | cons op ops ih =>
    refine ih (fun peer member => ?_) fun later inside => given later (List.mem_cons_of_mem _ inside)
    rcases List.mem_append.mp (listAfter_subset member) with old | new
    · exact involved peer old
    · exact given op List.mem_cons_self peer new

theorem calls_distinct (hash : String → UInt64) {ops : List PeersCall} (before : (nodeIDs peers).Nodup)
    (given : ∀ op ∈ ops, (nodeIDs op.peers).Nodup) : (nodeIDs (ops.foldl listAfter peers)).Nodup := by
  induction ops generalizing peers with
  | nil => exact before
  | cons op ops ih =>
    exact ih (@listAfter_distinct hash _ _ before (taken_distinct (given op List.mem_cons_self)))
      fun later inside => given later (List.mem_cons_of_mem _ inside)

/-- The list has no node ID twice after any of the calls exactly if the seed has
none, and none of the calls takes over one that is new and comes twice. -/
theorem calls_distinct_iff (hash : String → UInt64) (seed : List PeerInfo) (calls : List PeersCall) :
    (∀ before, before <+: calls → (nodeIDs (before.foldl listAfter seed)).Nodup) ↔ (nodeIDs seed).Nodup ∧
      ∀ before op, before ++ [op] <+: calls →
        (nodeIDs ((before.foldl (call hash) (new hash seed)).taken op)).Nodup := by
  have state : ∀ before : List PeersCall,
      before.foldl (call hash) (new hash seed) = build hash (before.foldl listAfter seed) :=
    calls_build hash seed
  constructor
  · intro all
    refine ⟨all [] List.nil_prefix, fun before op inside => ?_⟩
    have after := all _ inside
    rw [List.foldl_append] at after
    rw [state]
    exact taken_of_listAfter after
  · rintro ⟨seedDistinct, parts⟩ before inside
    induction before using List.reverseRecOn with
    | nil => exact seedDistinct
    | append_singleton before op ih =>
      have part := parts before op inside
      rw [state] at part
      rw [List.foldl_append]
      exact listAfter_distinct (ih ((List.prefix_append _ _).trans inside)) part

/-- After any calls the check tells whether the four structures describe the same
peers, which they do as long as the list has no node ID twice. It has none after
each of the calls exactly if the seed has none, no list that replaces it has one,
and of a merged one the peers that are new have none; so it is when no list that
was given has one. A merge keeps what is there, and the second of two equal ones
does nothing. -/
theorem consistent_if_lists_distinct (hash : String → UInt64) (nodes : Set String) (injective : Set.InjOn hash nodes)
    (seed : List PeerInfo) (seeded : ∀ peer ∈ seed, peer.nodeID ∈ nodes)
    (calls : List PeersCall) (given : ∀ op ∈ calls, ∀ peer ∈ op.peers, peer.nodeID ∈ nodes)
    (sd : ServiceDiscovery) (after : sd = calls.foldl (call hash) (new hash seed)) :
    (sd.validateConsistency hash = true ↔ sd.Consistent) ∧
    (sd.Consistent ↔ (nodeIDs sd.peersList).Nodup) ∧
    ((nodeIDs seed).Nodup → (∀ op ∈ calls, (nodeIDs op.peers).Nodup) → sd.validateConsistency hash = true) ∧
    ((∀ before, before <+: calls →
        (before.foldl (call hash) (new hash seed)).validateConsistency hash = true) ↔
      (nodeIDs seed).Nodup ∧ ∀ before op, before ++ [op] <+: calls →
        (nodeIDs ((before.foldl (call hash) (new hash seed)).taken op)).Nodup) ∧
    ∀ new : List PeerInfo, (∀ peer ∈ new, peer.nodeID ∈ nodes) →
      sd.Keeps hash (sd.mergePeers hash new) ∧
      (sd.mergePeers hash new).mergePeers hash new = sd.mergePeers hash new := by
  have built : sd = build hash (calls.foldl listAfter seed) := after.trans (calls_build hash seed calls)
  have involved := calls_involved seeded given
  have valid : ∀ before, before <+: calls →
      ((before.foldl (call hash) (new hash seed)).validateConsistency hash = true ↔
        (nodeIDs (before.foldl listAfter seed)).Nodup) := by
    intro before inside
    rw [show new hash seed = build hash seed from rfl, calls_build]
    exact validate_build_iff injective (calls_involved seeded fun op member => given op (inside.subset member))
  have consistent : (build hash (calls.foldl listAfter seed)).Consistent ↔
      (nodeIDs (calls.foldl listAfter seed)).Nodup :=
    ⟨Consistent.distinct, build_consistent injective involved⟩
  have last := valid calls (List.prefix_refl _)
  rw [← after, built] at last
  rw [built]
  refine ⟨last.trans consistent.symm, consistent, fun seedDistinct distinct => ?_, ?_, fun new fresh => ⟨?_, ?_⟩⟩
  · exact last.mpr (calls_distinct hash seedDistinct distinct)
  · rw [← calls_distinct_iff]
    exact forall₂_congr valid
  · exact mergePeers_keeps injective involved fresh
  · exact mergePeers_idempotent new

/-- A hash that tells two node IDs apart. -/
def twoNodes (node : String) : UInt64 := if node = "a" then 1 else 2

theorem twoNodes_injective : Set.InjOn twoNodes {"a", "b"} := by
  rintro node (rfl | rfl) other (rfl | rfl) same <;> first | rfl | cases same

/-- A peer that answers on the usual port. -/
def peerAt (node host : String) : PeerInfo :=
  { nodeID := node, host := host, port := 7000, identity := ⟨.dns, node⟩ }

/-- A node is merged in, and again at another address, which leaves it where it was. -/
theorem merged_peers_consistent :
    ((new twoNodes [peerAt "a" "10.0.0.1"]).mergePeers twoNodes [peerAt "a" "10.0.0.9",
      peerAt "b" "10.0.0.2"]).validateConsistency twoNodes = true ∧
    (((new twoNodes [peerAt "a" "10.0.0.1"]).mergePeers twoNodes [peerAt "a" "10.0.0.9",
      peerAt "b" "10.0.0.2"]).lookup "a") = some (peerAt "a" "10.0.0.1") :=
  ⟨(consistent_if_lists_distinct twoNodes {"a", "b"} twoNodes_injective
    [peerAt "a" "10.0.0.1"] (by simp [peerAt])
    [.merge [peerAt "a" "10.0.0.9", peerAt "b" "10.0.0.2"]] (by simp [peerAt, PeersCall.peers]) _ rfl).2.2.1
    (by simp) (by simp [peerAt, PeersCall.peers]), rfl⟩

/-- A list that names one node twice is taken as it is, by a replacement and by a
merge into an empty list: two peers in the list, one in each map. -/
theorem repeated_peer_inconsistent :
    Set.InjOn twoNodes {"a", "b"} ∧
    ((new twoNodes []).updatePeers twoNodes [peerAt "a" "10.0.0.1", peerAt "a" "10.0.0.2"]).validateConsistency
      twoNodes = false ∧
    ((new twoNodes []).mergePeers twoNodes [peerAt "a" "10.0.0.1", peerAt "a" "10.0.0.2"]).validateConsistency
      twoNodes = false ∧
    nodeIDs ((new twoNodes []).mergePeers twoNodes
      [peerAt "a" "10.0.0.1", peerAt "a" "10.0.0.2"]).listPeers = ["a", "a"] :=
  ⟨twoNodes_injective, rfl, rfl, rfl⟩

end ServiceDiscovery
end Cue.Cluster
