import Cue.StorageProofs

/-! The write-ahead log during a run of the storage. `Logged` says how far the
committed entries have been written, and each operation is given by which
entries its files still hold afterwards. -/
namespace Cue.Cluster
open Cue.Lib Cue.Model

/-- The indices are positive and increase. -/
def Ascending (entries : List Entry) : Prop := (0 :: entries.map fun entry => entry.index.toNat).Pairwise (· < ·)

instance (entries : List Entry) : Decidable (Ascending entries) := inferInstanceAs (Decidable (List.Pairwise _ _))

namespace Ascending

variable {entries more : List Entry} {entry other : Entry}

theorem of_consecutive {first : Nat} (positive : 0 < first) (consecutive : Consecutive first entries) :
    Ascending entries :=
  (consecutive.ascending positive).pairwise

theorem sublist (ascending : Ascending entries) (fewer : more.Sublist entries) : Ascending more :=
  List.Pairwise.sublist ((fewer.map _).cons_cons 0) ascending

theorem snoc_iff : Ascending (entries ++ [entry]) ↔
    Ascending entries ∧ 0 < entry.index.toNat ∧ ∀ old ∈ entries, old.index.toNat < entry.index.toNat := by
  unfold Ascending
  rw [List.map_append, ← List.cons_append, List.pairwise_append]
  simp [and_left_comm]

theorem positive (ascending : Ascending entries) (member : entry ∈ entries) : 0 < entry.index.toNat :=
  (List.pairwise_cons.mp ascending).1 _ (List.mem_map_of_mem member)

theorem injective (ascending : Ascending entries) (member : entry ∈ entries) (member' : other ∈ entries)
    (same : entry.index.toNat = other.index.toNat) : entry = other := by
  have distinct : (entries.map fun entry => entry.index.toNat).Nodup :=
    (List.pairwise_cons.mp ascending).2.imp fun less => Nat.ne_of_lt less
  exact List.inj_on_of_nodup_map distinct member member' same

/-- The indices tell the order. -/
theorem eq_of_same_members (ascending : Ascending entries) (ascending' : Ascending more)
    (same : ∀ entry, entry ∈ entries ↔ entry ∈ more) : entries = more := by
  have distinct : ∀ {list : List Entry}, Ascending list → list.Nodup := fun ascending =>
    List.Nodup.of_map _ ((List.pairwise_cons.mp ascending).2.imp fun less => Nat.ne_of_lt less)
  refine List.Perm.eq_of_pairwise ?_ (List.pairwise_map.mp (List.pairwise_cons.mp ascending).2)
    (List.pairwise_map.mp (List.pairwise_cons.mp ascending').2)
    ((List.perm_ext_iff_of_nodup (distinct ascending) (distinct ascending')).mpr same)
  intro _ _ _ _ less greater
  exact absurd less (Nat.lt_asymm greater)

private theorem after (last : Nat) (ascending : (last :: (entries ++ more).map fun entry =>
      entry.index.toNat).Pairwise (· < ·)) :
    (lastIndexOr last entries :: more.map fun entry => entry.index.toNat).Pairwise (· < ·) := by
  induction entries generalizing last with
  | nil => exact ascending
  | cons head entries ih =>
    rw [lastIndexOr_cons]
    exact ih head.index.toNat (List.pairwise_cons.mp ascending).2

theorem next (ascending : Ascending (entries ++ entry :: more)) : lastIndexOr 0 entries < entry.index.toNat :=
  (List.pairwise_cons.mp (after 0 ascending)).1 _ List.mem_cons_self

/-- A batch continues what was written before it. -/
theorem batch (ascending : Ascending entries) (written : Nat) :
    List.IsChain (· < ·) (lastIndexOr 0 (entries.take written) ::
      (entries.drop written).map fun entry => entry.index.toNat) := by
  apply List.Pairwise.isChain
  apply after
  rw [List.take_append_drop]
  exact ascending

end Ascending

/-- The first `written` committed entries went to the files, the others are buffered. -/
structure Logged (codec : Codec) (committed : List Entry) (wal : SegmentedWAL) (writeBuffer : List BufferedEntry)
    (layout : Layout) (written floor : Nat) : Prop where
  holds : wal.Holds codec layout (lastIndexOr 0 (committed.take written)) floor
  progress : written ≤ committed.length
  buffer : writeBuffer = (committed.drop written).map (buffered codec)
  encodable : Encodable codec committed
  origin : ∀ entry, layout.Stores entry → entry ∈ committed

namespace Logged

variable {codec : Codec} {committed : List Entry} {wal wal' : SegmentedWAL}
  {writeBuffer : List BufferedEntry} {layout : Layout} {written floor : Nat}

/-- A committed entry goes to the buffer. -/
theorem note (logged : Logged codec committed wal writeBuffer layout written floor) {entry : Entry}
    (encodable : (codec.marshal entry).isSome) :
    Logged codec (committed ++ [entry]) wal (writeBuffer ++ [buffered codec entry]) layout written floor := by
  refine ⟨?_, ?_, ?_, ?_, fun old stores => List.mem_append_left _ (logged.origin old stores)⟩
  · rw [List.take_append_of_le_length logged.progress]
    exact logged.holds
  · rw [List.length_append]
    exact logged.progress.trans (Nat.le_add_right _ _)
  · rw [List.drop_append_of_le_length logged.progress, logged.buffer, List.map_append]
    rfl
  · intro old member
    rcases List.mem_append.mp member with before | new
    · exact logged.encodable old before
    · rw [List.mem_singleton] at new
      exact new ▸ encodable

/-- The buffer is written; entries below the floor may be lost. -/
theorem flush (logged : Logged codec committed wal writeBuffer layout written floor)
    (ascending : Ascending committed) (ok : wal.appendBatch writeBuffer = .ok wal') :
    ∃ layout', Logged codec committed wal' [] layout' committed.length floor ∧
      ∀ entry, layout.Stores entry ∨ entry ∈ committed.drop written →
        layout'.Stores entry ∨ entry.index.toNat < floor := by
  rw [logged.buffer] at ok
  obtain ⟨layout', batched⟩ := logged.holds.appendBatch_spec
    (fun entry member => logged.encodable entry (List.mem_of_mem_drop member)) (ascending.batch written) ok
  refine ⟨layout', ⟨?_, Nat.le_refl _, by simp, logged.encodable, ?_⟩, ?_⟩
  · have all := batched.holds
    rw [← lastIndexOr_append, List.take_append_drop] at all
    rw [List.take_length]
    exact all
  · intro entry stores
    rcases batched.origin entry stores with old | new
    · exact logged.origin entry old
    · exact List.mem_of_mem_drop new
  · intro entry source
    rcases source with old | new
    · exact batched.kept entry old
    · exact batched.stored entry new

/-- Truncation never fails, and loses what the files that it removes hold. -/
theorem truncate (logged : Logged codec committed wal writeBuffer layout written floor) (lawful : codec.Lawful)
    (upTo : Nat) : ∃ wal' layout' floor', wal.truncate upTo = .ok wal' ∧
      SegmentedWAL.Holds.Truncated codec wal layout (lastIndexOr 0 (committed.take written)) floor upTo wal'
        layout' floor' ∧
      Logged codec committed wal' writeBuffer layout' written floor' := by
  obtain ⟨wal', layout', floor', ok, truncated⟩ := logged.holds.truncate_spec lawful upTo
  exact ⟨wal', layout', floor', ok, truncated, truncated.holds, logged.progress, logged.buffer, logged.encodable,
    fun entry stores => logged.origin entry (truncated.origin entry stores)⟩

end Logged

/-! ### Reopening -/

theorem get_foldl_store (entries : List Entry) (known : FinMap Nat Entry) {entry : Entry}
    (unique : ∀ other ∈ entries, other.index.toNat = entry.index.toNat → other = entry)
    (present : entry ∈ entries ∨ known.get entry.index.toNat = some entry) :
    (entries.foldl StorageCore.storeEntry known).get entry.index.toNat = some entry := by
  induction entries generalizing known with
  | nil => simpa using present
  | cons head entries ih =>
    refine ih _ (fun other member => unique other (List.mem_cons_of_mem _ member)) ?_
    by_cases here : head.index.toNat = entry.index.toNat
    · right
      rw [unique head List.mem_cons_self here, StorageCore.storeEntry, FinMap.get_set_self]
    · rcases present with member | found
      · rcases List.mem_cons.mp member with rfl | member
        · exact absurd rfl here
        · exact Or.inl member
      · right
        rw [StorageCore.storeEntry, FinMap.get_set, if_neg (Ne.symm here)]
        exact found

/-- A storage opened on the files of a log finds every entry behind the snapshot that they hold. -/
theorem reopen_finds {codec : Codec} {committed : List Entry} {wal : SegmentedWAL}
    {writeBuffer : List BufferedEntry} {layout : Layout} {written floor : Nat}
    (logged : Logged codec committed wal writeBuffer layout written floor) (lawful : codec.Lawful)
    (ascending : Ascending committed) (snapshotFile : Option SnapshotMetadata)
    (flushThreshold segmentSize : Nat) :
    ∃ core, newRaftStorage codec ⟨wal.dir, snapshotFile⟩ flushThreshold segmentSize = .ok core ∧
      ∀ entry, layout.Stores entry → (snapshotFile.getD {}).index < entry.index.toNat →
        core.entries.get entry.index.toNat = some entry := by
  obtain ⟨opened, ok, reopened⟩ := logged.holds.stored.reopen_spec lawful segmentSize
  have recovered := (reopened.stored logged.holds.stored).recover_spec lawful reopened.ranges
    (snapshotFile.getD {}).index
  unfold newRaftStorage
  simp only [ok, StorageCore.recover, recovered]
  refine ⟨_, rfl, ?_⟩
  intro entry stores behind
  simp only [StorageCore.updateIndices_entries]
  apply get_foldl_store
  · intro other member same
    have stored := Layout.mem_entries.mp (List.mem_filter.mp member).1
    exact ascending.injective (logged.origin other stored) (logged.origin entry stores) same
  · exact Or.inl (List.mem_filter.mpr ⟨Layout.mem_entries.mpr stores, by simpa using behind⟩)

end Cue.Cluster
