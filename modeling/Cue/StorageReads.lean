import Cue.Cluster.EntryCodec
import Cue.StorageRuns

/-! The calls with which raft reads its storage. All but one only read.
`Snapshot` returns the storage's own metadata and makes an index or a term of
zero one in it, and `Term`, an emptied log and the next save of the metadata see
that. So the calls are free of effect exactly if there is nothing to change. -/
namespace Cue.Cluster
open Cue.Lib Cue.Model

namespace StorageCore

inductive ReadCall where
  | snapshot
  | term (idx : Nat)
  | entries (lo hi maxSize : Nat)
  | firstIndex
  | lastIndex
  | initialState
  deriving DecidableEq

inductive ReadResult where
  | snapshot (snapshotMeta : SnapshotMetadata)
  | term (result : Except StorageError Nat)
  | entries (result : Except StorageError (List Entry))
  | index (index : Nat)
  | state (hardState : HardState) (confState : ConfState)

variable {size : Entry → Nat}

/-- What a call returns, and the storage behind it. -/
def read (size : Entry → Nat) (c : StorageCore) : ReadCall → ReadResult × StorageCore
  | .snapshot => (.snapshot c.snapshot.1, c.snapshot.2)
  | .term idx => (.term (c.term idx), c)
  | .entries lo hi maxSize => (.entries (c.entriesBetween size lo hi maxSize), c)
  | .firstIndex => (.index c.firstIndex, c)
  | .lastIndex => (.index c.lastIndex, c)
  | .initialState => (.state c.initialState.1 c.initialState.2, c)

/-- Calls one after the other. -/
def readAll (size : Entry → Nat) (c : StorageCore) : List ReadCall → List ReadResult × StorageCore
  | [] => ([], c)
  | call :: calls =>
    let (result, c) := c.read size call
    let (results, c) := c.readAll size calls
    (result :: results, c)

/-- What can be seen of a storage: what every call returns, and what a restart finds. -/
def seen (size : Entry → Nat) (c : StorageCore) : (ReadCall → ReadResult) × Disk :=
  (fun call => (c.read size call).1, c.disk)

/-- No call changes what another returns, and whatever is done to the storage
later, compactions among it, ends in a storage that looks the same. -/
def ReadsFree (codec : Codec) (size : Entry → Nat) (c : StorageCore) : Prop :=
  ∀ calls, (c.readAll size calls).1 = calls.map (fun call => (c.read size call).1) ∧
    ∀ ops : List CoreOp, (ops.foldlM (perform codec) (c.readAll size calls).2).map (seen size) =
      (ops.foldlM (perform codec) c).map (seen size)

/-- Nothing to change. -/
theorem snapshot_same {c : StorageCore} (indexed : c.snapshotMeta.index ≠ 0) (termed : c.snapshotMeta.term ≠ 0) :
    c.snapshot = (c.snapshotMeta, c) := by
  have same : c.snapshotMeta.atLeastOne = c.snapshotMeta := by
    rw [SnapshotMetadata.atLeastOne, if_neg indexed, if_neg termed]
  rw [snapshot, same]

theorem read_same {c : StorageCore} (indexed : c.snapshotMeta.index ≠ 0) (termed : c.snapshotMeta.term ≠ 0)
    (call : ReadCall) : (c.read size call).2 = c := by
  cases call with
  | snapshot => rw [read, snapshot_same indexed termed]
  | _ => rfl

theorem readAll_same {c : StorageCore} (indexed : c.snapshotMeta.index ≠ 0) (termed : c.snapshotMeta.term ≠ 0)
    (calls : List ReadCall) : c.readAll size calls = (calls.map fun call => (c.read size call).1, c) := by
  induction calls with
  | nil => rfl
  | cons call calls ih =>
    simp only [readAll, read_same indexed termed, ih, List.map_cons]

/-- The term of the snapshot's own index is what its metadata says. -/
theorem term_snapshot (c : StorageCore) : c.term c.snapshotMeta.index = .ok c.snapshotMeta.term := if_pos rfl

/-- The reading calls have no effect on each other and on anything later exactly
if the snapshot metadata has an index and a term. -/
theorem reads_free_iff (codec : Codec) (size : Entry → Nat) (c : StorageCore) :
    c.ReadsFree codec size ↔ c.snapshotMeta.index ≠ 0 ∧ c.snapshotMeta.term ≠ 0 := by
  constructor
  · intro free
    have indexed : c.snapshotMeta.index ≠ 0 := by
      -- the next change of the configuration writes an index of one to the file
      intro zero
      have later : seen size (c.snapshot.2.setConfState c.confState) = seen size (c.setConfState c.confState) :=
        Except.ok.inj ((free [.snapshot]).2 [.setConfState c.confState])
      have file : some { c.snapshotMeta.atLeastOne with confState := c.confState } =
          some { c.snapshotMeta with confState := c.confState } := congrArg (fun seen => seen.2.snapshotFile) later
      have index := congrArg SnapshotMetadata.index (Option.some.inj file)
      simp [SnapshotMetadata.atLeastOne, zero] at index
    refine ⟨indexed, fun zero => ?_⟩
    -- the term of the snapshot's index is one behind the call
    have results := (free [.snapshot, .term c.snapshotMeta.index]).1
    have terms : c.snapshot.2.term c.snapshotMeta.index = c.term c.snapshotMeta.index :=
      ReadResult.term.inj (List.cons.inj (List.cons.inj results).2).1
    have same : c.snapshot.2.snapshotMeta.index = c.snapshotMeta.index := if_neg indexed
    have one : c.snapshot.2.snapshotMeta.term = 1 := if_pos zero
    rw [← same, term_snapshot, same, term_snapshot, one, zero] at terms
    cases terms
  · rintro ⟨indexed, termed⟩ calls
    rw [readAll_same indexed termed]
    exact ⟨rfl, fun _ => rfl⟩

/-- The storage that a restart finds behind these operations. -/
private def restarted (c : StorageCore) (ops : List CoreOp) : Option StorageCore :=
  (ops.foldlM (perform (wireCodec [])) c).toOption.bind fun c => (newRaftStorage (wireCodec []) c.disk 1 0).toOption

/-- The first entry is committed, and then the voters are learned. -/
private def learnOps : List CoreOp := [.appendCommitted ⟨1, 1, .normal, none⟩, .setConfState ⟨[1], []⟩]

/-- A new storage does not know the term of index 1 and says it is 1 once it was
asked for a snapshot. If it was, the file written with the voters hides the first
entry from the next start. -/
theorem snapshot_changes_answers :
    newRaftStorage (wireCodec []) .empty 1 0 = .ok (freshCore 1 0) ∧
      ((freshCore 1 0).readAll (fun _ => 0) [.term 1, .snapshot, .term 1]).1 =
        [.term (.error .unavailable), .snapshot ⟨1, 1, {}⟩, .term (.ok 1)] ∧
      (restarted (freshCore 1 0) learnOps).map (fun c => c.entries.keys) = some [1] ∧
      (restarted (freshCore 1 0).snapshot.2 learnOps).map (fun c => c.entries.keys) = some [] :=
  ⟨rfl, rfl, rfl, rfl⟩

end StorageCore
end Cue.Cluster
