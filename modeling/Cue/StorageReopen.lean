import Cue.StorageRuns
import Cue.WalFidelity

/-! A storage whose write-ahead log was never truncated. All committed entries
are in the files or in the buffer, in order, so a storage opened after it was
closed reads exactly them. -/
namespace Cue.Cluster
open Cue.Lib Cue.Model

/-- The first `written` committed entries went to the files, all of them are
still there, and the others are buffered. -/
structure Journaled (codec : Codec) (committed : List Entry) (core : StorageCore) (written : Nat) (layout : Layout)
    (floor : Nat) : Prop where
  faithful : Faithful codec ⟨core.wal, committed.take written, []⟩ layout floor
  progress : written ≤ committed.length
  buffer : core.writeBuffer = (committed.drop written).map (buffered codec)
  encodable : Encodable codec committed

namespace Journaled

variable {codec : Codec} {committed : List Entry} {core core' : StorageCore} {written : Nat} {layout : Layout}
  {floor : Nat} {entry : Entry}

theorem start {flushThreshold segmentSize : Nat}
    (opened : newRaftStorage codec .empty flushThreshold segmentSize = .ok core) :
    Journaled codec [] core 0 Layout.empty 0 := by
  rw [newRaftStorage_empty] at opened
  cases opened
  exact ⟨.start (newSegmentedWal_empty segmentSize), Nat.le_refl _, rfl, by simp [Encodable]⟩

theorem noted (journaled : Journaled codec committed core written layout floor)
    (encodable : (codec.marshal entry).isSome) :
    Journaled codec (committed ++ [entry]) (core.noted codec entry) written layout floor := by
  refine ⟨?_, ?_, ?_, ?_⟩
  · rw [List.take_append_of_le_length journaled.progress]
    exact journaled.faithful
  · rw [List.length_append]
    exact journaled.progress.trans (Nat.le_add_right _ _)
  · rw [List.drop_append_of_le_length journaled.progress, List.map_append, ← journaled.buffer]
    rfl
  · intro old member
    rcases List.mem_append.mp member with before | new
    · exact journaled.encodable old before
    · rw [List.mem_singleton] at new
      exact new ▸ encodable

theorem flushed (journaled : Journaled codec committed core written layout floor) (ascending : Ascending committed)
    (ok : core.flushBuffer = .ok core') :
    (∃ layout', Journaled codec committed core' committed.length layout' floor) ∧
      ∃ wal, core' = { core with wal := wal, writeBuffer := [] } := by
  unfold StorageCore.flushBuffer at ok
  split at ok
  · rename_i empty
    cases ok
    have all : committed.drop written = [] := List.map_eq_nil_iff.mp (journaled.buffer.symm.trans empty)
    have same : committed.take written = committed := by
      have split := List.take_append_drop written committed
      rw [all, List.append_nil] at split
      exact split
    refine ⟨⟨layout, ?_, Nat.le_refl _, by simp [empty], journaled.encodable⟩, core.wal, by rw [← empty]⟩
    rw [List.take_length]
    simpa only [same] using journaled.faithful
  · split at ok
    · cases ok
    · rename_i wal batch
      cases ok
      rw [journaled.buffer] at batch
      have split := List.take_append_drop written committed
      obtain ⟨layout', after⟩ := journaled.faithful.appendBatch
        (fun entry member => journaled.encodable entry (List.mem_of_mem_drop member))
        (by rw [split]; exact ascending) batch
      refine ⟨⟨layout', ?_, Nat.le_refl _, by simp, journaled.encodable⟩, wal, rfl⟩
      rw [List.take_length]
      simpa only [split] using after

/-- One committed entry: it is noted, and the buffer may be flushed. -/
theorem appendCommitted (journaled : Journaled codec committed core written layout floor)
    (ascending : Ascending (committed ++ [entry])) (ok : core.appendCommitted codec entry = .ok core') :
    (∃ written' layout', Journaled codec (committed ++ [entry]) core' written' layout' floor) ∧
      ∃ wal writeBuffer, core' = { core with
        wal := wal, writeBuffer := writeBuffer, jobIndex := indexEntry codec true core.jobIndex entry } := by
  obtain ⟨encodable, rfl | flushes⟩ := StorageCore.appendCommitted_spec ok
  · exact ⟨⟨written, layout, journaled.noted encodable⟩, _, _, rfl⟩
  · obtain ⟨⟨layout', after⟩, wal, rfl⟩ := (journaled.noted encodable).flushed ascending flushes
    exact ⟨⟨_, layout', after⟩, wal, [], rfl⟩

/-- The files hold the committed entries in order. -/
theorem entries_eq (journaled : Journaled codec committed core committed.length layout floor)
    (ascending : Ascending committed) : layout.entries = committed := by
  have faithful := journaled.faithful
  rw [List.take_length] at faithful
  refine faithful.ascending.eq_of_same_members ascending fun entry => ⟨faithful.origin entry, ?_⟩
  intro member
  exact faithful.stored entry member nofun

/-- A storage that was opened on these entries. -/
structure Reread (codec : Codec) (recovered : List Entry) (snapshotMeta : SnapshotMetadata) (core : StorageCore) :
    Prop where
  hardState : core.hardState = {}
  confState : core.confState = {}
  snapshotMeta : core.snapshotMeta = snapshotMeta
  entries : core.entries = recovered.foldl StorageCore.storeEntry .empty
  jobIndex : core.jobIndex = recovered.foldl (indexEntry codec false) .empty
  indices : core.updateIndices = core

/-- Opening the directories again finds the entries behind the snapshot. -/
theorem reopened (journaled : Journaled codec committed core committed.length layout floor)
    (ascending : Ascending committed) (lawful : codec.Lawful) (snapshotFile : Option SnapshotMetadata)
    (flushThreshold segmentSize : Nat) :
    ∃ reread, newRaftStorage codec ⟨core.wal.dir, snapshotFile⟩ flushThreshold segmentSize = .ok reread ∧
      Reread codec (committed.filter fun entry => (snapshotFile.getD {}).index < entry.index.toNat)
        (snapshotFile.getD {}) reread := by
  obtain ⟨wal, ok, after⟩ := journaled.faithful.reopen lawful segmentSize
  have recovered := after.recover lawful (snapshotFile.getD {}).index
  rw [journaled.entries_eq ascending] at recovered
  unfold newRaftStorage
  simp only at ok recovered
  simp only [ok, StorageCore.recover, recovered]
  refine ⟨_, rfl, ?_, ?_, ?_, ?_, ?_, StorageCore.updateIndices_idem⟩ <;> simp

end Journaled
end Cue.Cluster
