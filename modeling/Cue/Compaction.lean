import Cue.Cluster.EntryCodec
import Cue.StorageRuns

/-! Compaction and what it must keep: the index contract of `raft.Storage`, the
entries of pending jobs in memory, and their records in the write-ahead log. -/
namespace Cue.Cluster
open Cue.Lib Cue.Model

variable {codec : Codec} {first flushThreshold segmentSize : Nat} {core core' : StorageCore} {log log' : Log}
  {ops : List LogOp} {trace trace' : Trace} {id : String} {entry : Entry} {state : JobState}

/-! ### The index contract -/

/-- What `Compact` owes raft: the last index stays, and after a cut the log
starts right behind the snapshot and has every entry up to its last index. -/
def IndexContract (before after : StorageCore) : Prop :=
  after.lastIndex = before.lastIndex ∧
    (before.firstIndex < before.findFirstIndexToKeep →
      after.firstIndex = after.snapshotMeta.index + 1 ∧
      ∀ size lo hi maxSize, after.firstIndex ≤ lo → hi ≤ after.lastIndex + 1 →
        ∃ entries, after.entriesBetween size lo hi maxSize = .ok entries)

theorem collectEntries_ok (c : StorageCore) (size : Entry → Nat) (maxSize idx left total : Nat)
    (present : ∀ index, idx ≤ index → index < idx + left → ∃ entry, c.entries.get index = some entry) :
    ∃ entries, c.collectEntries size maxSize idx left total = .ok entries := by
  induction left generalizing idx total with
  | zero => exact ⟨[], rfl⟩
  | succ left ih =>
    obtain ⟨entry, found⟩ := present idx (Nat.le_refl _) (by omega)
    simp only [StorageCore.collectEntries, found]
    split
    · exact ⟨[], rfl⟩
    · obtain ⟨rest, collected⟩ := ih (idx + 1) (total + size entry) fun index low high =>
        present index (by omega) (by omega)
      exact ⟨entry :: rest, by rw [collected]⟩

theorem Memory.entries_between {cut : Nat} (memory : Memory first cut log) {size : Entry → Nat}
    {lo hi maxSize : Nat} (above : log.core.firstIndex ≤ lo) (low : first ≤ lo) (late : cut ≤ lo)
    (below : hi ≤ log.core.lastIndex + 1) :
    ∃ entries, log.core.entriesBetween size lo hi maxSize = .ok entries := by
  unfold StorageCore.entriesBetween
  rw [if_neg (by omega), if_neg (by omega)]
  apply collectEntries_ok
  intro index start stop
  have last := memory.lastLt
  obtain ⟨entry, member, found⟩ := memory.consecutive.exists_mem (show first ≤ index by omega) (by omega)
  exact ⟨entry, (memory.present index entry).mpr ⟨member, found, by omega⟩⟩

private theorem sound_of_run (lawful : codec.Lawful) (positive : 0 < first) {admits : Log → LogOp → Prop}
    (opened : newRaftStorage codec .empty flushThreshold segmentSize = .ok core)
    (run : LogRun codec first admits ⟨core, [], 0⟩ ops log) : ∃ trace, Sound codec first log trace := by
  refine run.invariant (fun _ log => ∃ trace, Sound codec first log trace) ⟨_, Sound.start positive opened⟩ ?_
  rintro _ log op log' ⟨trace, sound⟩ _ stepped
  obtain ⟨trace', after, _⟩ := sound.step_cases lawful stepped
  exact ⟨trace', after⟩

/-- In every state of a run `Compact` succeeds, and it keeps the contract
exactly if it cuts nothing or an entry remains. -/
theorem compact_contract_iff (lawful : codec.Lawful) (positive : 0 < first)
    (opened : newRaftStorage codec .empty flushThreshold segmentSize = .ok core)
    (run : LogRun codec first (fun _ _ => True) ⟨core, [], 0⟩ ops log) :
    ∃ after, log.core.compact = .ok after ∧
      (IndexContract log.core after ↔ log.core.findFirstIndexToKeep ≤ log.core.firstIndex ∨
        log.core.findFirstIndexToKeep ≤ log.core.lastIndex) := by
  obtain ⟨trace, sound⟩ := sound_of_run lawful positive opened run
  by_cases cuts : log.core.firstIndex < log.core.findFirstIndexToKeep
  · obtain ⟨after, trace', ok, sound', back⟩ := sound.compacted lawful cuts
    obtain ⟨_, low, _, right, remains⟩ := sound.memory.cut_bounds cuts
    refine ⟨after, ok, ?_⟩
    constructor
    · rintro ⟨sameLast, _⟩
      right
      by_contra beyond
      have moved := (back.indices.beyond (Nat.lt_of_not_le beyond)).2
      simp only at moved
      omega
    · rintro (idle | inside)
      · omega
      · obtain ⟨firstIndex, lastIndex⟩ := back.indices.inside inside
        have snapshot := back.indices.snapshot
        simp only at firstIndex lastIndex snapshot
        refine ⟨lastIndex, fun _ => ⟨by omega, ?_⟩⟩
        intro size lo hi maxSize above below
        have cut := back.cut
        exact sound'.memory.entries_between above (by omega) (by omega) below
  · have idle := Nat.not_lt.mp cuts
    exact ⟨log.core, Memory.compact_idle idle, fun _ => Or.inl idle, fun _ => ⟨rfl, fun cut => absurd cut cuts⟩⟩

/-- The messages of the runs below: a job added and done, two jobs added. -/
private def contractMessages : List (Bytes × Command) :=
  [addMessage 1 .t .a, doneMessage 2 .t .a, addMessage 3 .t .b, addMessage 4 .t .c]

private def contractCodec : Codec := wireCodec contractMessages

private def contractRun (messages : List (Bytes × Command)) : Option Log :=
  (LogOp.append (messageEntries 1 messages) :: messages.map fun _ => LogOp.commit).foldlM
    (fun log op => log.step contractCodec 1 op) ⟨freshCore 100 0, [], 0⟩

private theorem finished_executes : (contractRun (contractMessages.take 2)).isSome = true := rfl

/-- When every job is done nothing remains: the last index falls back to zero. -/
theorem compact_of_finished_log_breaks_contract : ∃ ops log after,
    LogRun contractCodec 1 (fun _ _ => True) ⟨freshCore 100 0, [], 0⟩ ops log ∧
      log.core.compact = .ok after ∧ ¬ IndexContract log.core after ∧
      log.core.lastIndex = 2 ∧ after.lastIndex = 0 ∧ after.firstIndex = 1 ∧ after.snapshotMeta.index = 2 := by
  refine ⟨_, Option.get _ finished_executes, _,
    Run.of_execute (fun _ _ _ _ taken => ⟨trivial, taken⟩) (Option.some_get _).symm, rfl, ?_, ?_, ?_, ?_, ?_⟩
  · rintro ⟨sameLast, _⟩
    revert sameLast
    decide
  all_goals rfl

private theorem pending_executes : (contractRun contractMessages).isSome = true := rfl

/-- With a job pending the cut leaves its entry, and the contract is kept. -/
theorem compact_of_pending_log_keeps_contract : ∃ (log : Log) (after : StorageCore),
    log.core.firstIndex < log.core.findFirstIndexToKeep ∧ log.core.compact = .ok after ∧
      IndexContract log.core after := by
  obtain ⟨after, ok, contract⟩ := compact_contract_iff (wireCodec_lawful contractMessages) Nat.one_pos
    (newRaftStorage_empty contractCodec 100 0)
    (Run.of_execute (fun _ _ _ _ taken => ⟨trivial, taken⟩) (Option.some_get pending_executes).symm)
  exact ⟨_, after, by decide, ok, contract.mpr (Or.inr (by decide))⟩

/-! ### Pending jobs in memory -/

/-- Every pending job is in the job index, with its entry behind the cut. -/
def Remembered (codec : Codec) (log : Log) (trace : Trace) : Prop :=
  ∀ id entry, Pending codec log.committed id entry → trace.cut ≤ entry.index.toNat ∧
    ∃ state, log.core.jobIndex.get id = some state ∧ state.addIndex = entry.index.toNat ∧
      state.completeType = .none

theorem Remembered.advance (remembered : Remembered codec log trace)
    (advanced : Sound.Advanced codec log trace log' trace') : Remembered codec log' trace' := by
  intro id entry pending
  rw [advanced.cut]
  rcases advanced.jobs with ⟨committed, jobIndex⟩ | ⟨new, committed, jobIndex, late, _⟩
  · rw [committed] at pending
    rw [jobIndex]
    exact remembered id entry pending
  · rw [committed] at pending
    rw [jobIndex]
    rcases pending_append.mp pending with ⟨adds, rfl⟩ | ⟨notAdded, notCompleted, old⟩
    · exact ⟨late, _, indexEntry_added adds, rfl, rfl⟩
    · rw [indexEntry_other notAdded notCompleted]
      exact remembered id entry old

/-- A pending job was never completed, or not before the cut. The first prune of
a cutting compaction would drop it otherwise: the completion of a job stays in
its state when it is added again. -/
def KeepsReadded (log : Log) (op : LogOp) : Prop :=
  op = .compact → log.core.firstIndex < log.core.findFirstIndexToKeep →
    ∀ pair ∈ log.core.jobIndex.pairs, pair.2.addIndex > 0 ∧ pair.2.completeType = .none →
      pair.2.completeIndex = 0 ∨ log.core.findFirstIndexToKeep ≤ pair.2.completeIndex

instance (log : Log) (op : LogOp) : Decidable (KeepsReadded log op) :=
  inferInstanceAs (Decidable (_ → _ → ∀ pair ∈ log.core.jobIndex.pairs, _ → _))

theorem Remembered.waits (remembered : Remembered codec log trace) (sound : Sound codec first log trace)
    (pending : Pending codec log.committed id entry) :
    ∃ state, log.core.jobIndex.get id = some state ∧ state.addIndex = entry.index.toNat ∧ state.Waits := by
  obtain ⟨_, state, found, added, waiting⟩ := remembered id entry pending
  have low := (sound.committed_consecutive.bounds pending.mem).1
  have positive := sound.memory.positive
  exact ⟨state, found, added, by omega, waiting⟩

theorem Remembered.cut (remembered : Remembered codec log trace) (sound : Sound codec first log trace)
    (back : Sound.CutBack codec log trace log' trace') (keeps : KeepsReadded log .compact) :
    Remembered codec log' trace' := by
  intro id entry pending
  rw [back.committed] at pending
  obtain ⟨state, found, added, waits⟩ := remembered.waits sound pending
  have below := StorageCore.keep_le_waiting found waits
  refine ⟨back.cut ▸ added ▸ below, state, ?_, added, waits.2⟩
  refine (back.indices.jobs id state).mpr ⟨found, ?_, below⟩
  have := keeps rfl back.cuts (id, state) ((log.core.jobIndex.mem_pairs id state).mpr found) waits
  simp only at this
  omega

private theorem remembered_of_run (lawful : codec.Lawful) (positive : 0 < first) {admits : Log → LogOp → Prop}
    (keeps : ∀ log op, admits log op → KeepsReadded log op)
    (opened : newRaftStorage codec .empty flushThreshold segmentSize = .ok core)
    (run : LogRun codec first admits ⟨core, [], 0⟩ ops log) :
    ∃ trace, Sound codec first log trace ∧ Remembered codec log trace := by
  refine run.invariant (fun _ log => ∃ trace, Sound codec first log trace ∧ Remembered codec log trace)
    ⟨_, Sound.start positive opened, ?_⟩ ?_
  · intro id entry pending
    cases pending.mem
  · rintro _ log op log' ⟨trace, sound, remembered⟩ admitted stepped
    obtain ⟨trace', after, advanced | ⟨rfl, back⟩⟩ := sound.step_cases lawful stepped
    · exact ⟨trace', after, remembered.advance advanced⟩
    · exact ⟨trace', after, remembered.cut sound back (keeps log _ admitted)⟩

/-- In a run whose compactions drop no re-added job, the last `AddJobs` entry of
every pending job can be read from memory. -/
theorem pending_readable_in_keeping_run (lawful : codec.Lawful) (positive : 0 < first)
    (opened : newRaftStorage codec .empty flushThreshold segmentSize = .ok core)
    (run : LogRun codec first KeepsReadded ⟨core, [], 0⟩ ops log) (size : Entry → Nat)
    (pending : Pending codec log.committed id entry) :
    log.core.firstIndex ≤ entry.index.toNat ∧
      log.core.entriesBetween size entry.index.toNat (entry.index.toNat + 1) 0 = .ok [entry] := by
  obtain ⟨trace, sound, remembered⟩ := remembered_of_run lawful positive (fun _ _ keeps => keeps) opened run
  have late := (remembered id entry pending).1
  have member : entry ∈ log.appended := List.mem_of_mem_take pending.mem
  have bounds := sound.memory.consecutive.bounds member
  have firstLe := sound.memory.firstLe
  have last : log.core.lastIndex + 1 = first + log.appended.length := by
    rcases sound.memory.tail with right | gone
    · exact right
    · have := gone entry member
      omega
  have found := (sound.memory.present entry.index.toNat entry).mpr ⟨member, rfl, late⟩
  refine ⟨by omega, ?_⟩
  unfold StorageCore.entriesBetween
  rw [if_neg (by omega), if_neg (by omega), Nat.add_sub_cancel_left]
  simp [StorageCore.collectEntries, found]

/-- The messages of the runs below: a job done and added again, then another one added and done. -/
private def readdMessages : List (Bytes × Command) :=
  [addMessage 1 .t .a, doneMessage 2 .t .a, addMessage 3 .t .a, addMessage 4 .t .b, doneMessage 5 .t .b]

private def readdOps : List LogOp :=
  [.append (messageEntries 1 readdMessages), .commit, .commit, .commit, .compact, .commit, .commit, .compact]

private theorem readd_executes :
    (readdOps.foldlM (fun log op => log.step (wireCodec readdMessages) 1 op)
      ⟨freshCore 100 0, [], 0⟩ : Option Log).isSome = true := rfl

private def readdEntry : Entry := ⟨1, 3, .normal, some (addMessage 3 .t .a).1⟩

private theorem readd_pending : Pending (wireCodec readdMessages) (messageEntries 1 readdMessages) "a" readdEntry := by
  exact ⟨messageEntries 1 (readdMessages.take 2), messageEntries 4 (readdMessages.drop 3), rfl, by decide, by decide⟩

/-- A job that was done and added again is dropped from the job index by one
compaction and from the log by the next. -/
theorem second_compact_drops_readded_job : ∃ ops log,
    LogRun (wireCodec readdMessages) 1 (fun _ _ => True) ⟨freshCore 100 0, [], 0⟩ ops log ∧
      Pending (wireCodec readdMessages) log.committed "a" readdEntry ∧ log.core.entries.get 3 = none ∧
      ∀ size, log.core.entriesBetween size 3 4 0 ≠ .ok [readdEntry] := by
  refine ⟨readdOps, Option.get _ readd_executes,
    Run.of_execute (fun _ _ _ _ taken => ⟨trivial, taken⟩) (Option.some_get _).symm, ?_, rfl, ?_⟩
  · have committed : (Option.get _ readd_executes).committed = messageEntries 1 readdMessages := rfl
    rw [committed]
    exact readd_pending
  · intro size
    unfold StorageCore.entriesBetween
    rw [if_neg (by decide), if_pos (by decide)]
    simp

private theorem contract_pending : Pending contractCodec (messageEntries 1 contractMessages) "b"
    ⟨1, 3, .normal, some (addMessage 3 .t .b).1⟩ :=
  ⟨messageEntries 1 (contractMessages.take 2), messageEntries 4 (contractMessages.drop 3), rfl, by decide, by decide⟩

private def keptOps : List LogOp :=
  [.append (messageEntries 1 contractMessages), .commit, .commit, .commit, .commit, .flush, .compact]

-- the runs below are evaluated
set_option maxRecDepth 4000

private theorem kept_executes :
    (keptOps.foldlM (fun log op => if KeepsReadded log op then log.step contractCodec 1 op else none)
      ⟨freshCore 100 0, [], 0⟩ : Option Log).isSome = true := rfl

/-- One job done, the next one pending: the cut is at its entry. -/
theorem pending_readable_after_compact : ∃ log : Log, log.core.firstIndex = 3 ∧
    ∃ entry, Pending contractCodec log.committed "b" entry ∧
      log.core.entriesBetween (fun entry => (wireBytes entry).length) 3 4 0 = .ok [entry] := by
  have committed : (Option.get _ kept_executes).committed = messageEntries 1 contractMessages := rfl
  have pending : Pending contractCodec (Option.get _ kept_executes).committed "b"
      ⟨1, 3, .normal, some (addMessage 3 .t .b).1⟩ := by
    rw [committed]
    exact contract_pending
  exact ⟨_, rfl, _, pending, (pending_readable_in_keeping_run (wireCodec_lawful contractMessages)
    Nat.one_pos (newRaftStorage_empty contractCodec 100 0) (Run.of_guarded (Option.some_get kept_executes).symm)
    _ pending).2⟩

/-! ### Pending jobs in the write-ahead log -/

/-- The files hold the entry of every pending job that was written. -/
def Durable (codec : Codec) (log : Log) (trace : Trace) : Prop :=
  ∀ id entry, Pending codec log.committed id entry → entry ∈ log.committed.take trace.written →
    trace.layout.Stores entry

theorem Durable.advance (durable : Durable codec log trace) (remembered : Remembered codec log' trace')
    (advanced : Sound.Advanced codec log trace log' trace') : Durable codec log' trace' := by
  intro id entry pending written
  have late := (remembered id entry pending).1
  rw [advanced.cut] at late
  refine advanced.stored entry written late fun before => ?_
  rcases advanced.jobs with ⟨committed, _⟩ | ⟨new, committed, _, _, fresh⟩
  · rw [committed] at pending
    exact durable id entry pending before
  · rw [committed] at pending
    rcases pending_append.mp pending with ⟨_, rfl⟩ | ⟨_, _, old⟩
    · exact absurd (List.mem_of_mem_take before) fresh
    · exact durable id entry old before

/-- While a job is pending, no file that `Truncate` removes ends at the first
index to keep: it removes files up to and including that index. -/
def SparesBoundary (log : Log) (op : LogOp) : Prop :=
  op = .compact → log.core.firstIndex < log.core.findFirstIndexToKeep → StorageCore.minPending log.core.jobIndex ≠ 0 →
    (∀ seg ∈ log.core.wal.segments, seg.endIndex ≠ log.core.findFirstIndexToKeep) ∧
      ¬ (log.core.wal.active.startIndex ≤ log.core.findFirstIndexToKeep ∧
        scanLastIndex log.core.wal.dir log.core.wal.active = .ok log.core.findFirstIndexToKeep)

instance (log : Log) (op : LogOp) : Decidable (SparesBoundary log op) :=
  inferInstanceAs (Decidable (_ → _ → _ → (∀ seg ∈ log.core.wal.segments, _) ∧ _))

theorem Durable.cut (durable : Durable codec log trace) (remembered : Remembered codec log trace)
    (sound : Sound codec first log trace) (back : Sound.CutBack codec log trace log' trace')
    (spares : SparesBoundary log .compact) : Durable codec log' trace' := by
  intro id entry pending written
  rw [back.committed] at pending written
  rw [back.written] at written
  obtain ⟨state, found, added, waits⟩ := remembered.waits sound pending
  have below := StorageCore.keep_le_waiting found waits
  obtain ⟨noSealed, noActive⟩ := spares rfl back.cuts (minPending_le found waits).1
  obtain ⟨last, truncated⟩ := back.truncated
  -- a file that was removed and held the entry ends at its index
  rcases truncated.kept entry (durable id entry pending written) with stores | ⟨seg, member, ended, inside⟩ |
    ⟨final, ended, started, scanned, inside⟩
  · exact stores
  · exact absurd (by omega) (noSealed seg member)
  · have same : final = log.core.findFirstIndexToKeep := by omega
    exact absurd ⟨started, same ▸ scanned⟩ noActive

private theorem durable_of_run (lawful : codec.Lawful) (positive : 0 < first)
    (opened : newRaftStorage codec .empty flushThreshold segmentSize = .ok core)
    (run : LogRun codec first (fun log op => KeepsReadded log op ∧ SparesBoundary log op) ⟨core, [], 0⟩ ops log) :
    ∃ trace, Sound codec first log trace ∧ Remembered codec log trace ∧ Durable codec log trace := by
  refine run.invariant
    (fun _ log => ∃ trace, Sound codec first log trace ∧ Remembered codec log trace ∧ Durable codec log trace)
    ⟨_, Sound.start positive opened, ?_, ?_⟩ ?_
  · intro id entry pending
    cases pending.mem
  · intro id entry pending
    cases pending.mem
  · rintro _ log op log' ⟨trace, sound, remembered, durable⟩ ⟨keeps, spares⟩ stepped
    obtain ⟨trace', after, advanced | ⟨rfl, back⟩⟩ := sound.step_cases lawful stepped
    · have next := remembered.advance advanced
      exact ⟨trace', after, next, durable.advance next advanced⟩
    · exact ⟨trace', after, remembered.cut sound back keeps, durable.cut remembered sound back spares⟩

/-- In a run whose compactions drop no re-added job and remove no file that ends
at the first index to keep, a storage opened after `Close` recovers the last
`AddJobs` entry of every pending job. -/
theorem pending_recovered_after_sparing_run (lawful : codec.Lawful) (positive : 0 < first)
    (opened : newRaftStorage codec .empty flushThreshold segmentSize = .ok core)
    (run : LogRun codec first (fun log op => KeepsReadded log op ∧ SparesBoundary log op) ⟨core, [], 0⟩ ops log)
    {disk : Disk} (closed : log.core.close = .ok disk) (flushThreshold' segmentSize' : Nat) :
    ∃ reopened, newRaftStorage codec disk flushThreshold' segmentSize' = .ok reopened ∧
      ∀ id entry, Pending codec log.committed id entry →
        reopened.entries.get entry.index.toNat = some entry := by
  obtain ⟨trace, sound, remembered, durable⟩ := durable_of_run lawful positive opened run
  unfold StorageCore.close at closed
  split at closed
  · cases closed
  · rename_i flushed ok
    cases closed
    obtain ⟨trace', after, advanced, _, empty⟩ := sound.flushed ok
    have remembered' := remembered.advance advanced
    have durable' := durable.advance remembered' advanced
    have all : log.committed.take trace'.written = log.committed := by
      have buffer : [] = (log.committed.drop trace'.written).map (buffered codec) :=
        empty.symm.trans after.logged.buffer
      rw [List.take_of_length_le (List.drop_eq_nil_iff.mp (List.map_eq_nil_iff.mp buffer.symm))]
    obtain ⟨reopened, opens, finds⟩ := reopen_finds after.logged lawful after.committed_ascending
      flushed.snapshotFile flushThreshold' segmentSize'
    refine ⟨reopened, opens, fun id entry pending => finds entry ?_ ?_⟩
    · exact durable' id entry pending (all.symm ▸ pending.mem)
    · have late := (remembered' id entry pending).1
      have saved : (flushed.snapshotFile.getD {}).index + 1 = trace'.cut := after.memory.saved
      omega

private def boundaryOps : List LogOp :=
  [.append (messageEntries 1 (contractMessages.take 3)), .commit, .commit, .commit, .flush, .compact]

private def boundaryLog : Option Log :=
  boundaryOps.foldlM (fun log op => log.step contractCodec 1 op) ⟨freshCore 100 0, [], 0⟩

private theorem boundary_executes : boundaryLog.isSome = true := rfl

private def boundaryDisk : Disk := ⟨FinMap.empty.set (.active 4) [], some ⟨2, 0, {}⟩⟩

private def boundaryReopened : Option StorageCore := (newRaftStorage contractCodec boundaryDisk 100 0).toOption

private theorem boundary_reopens : boundaryReopened.isSome = true := rfl

private def boundaryEntry : Entry := ⟨1, 3, .normal, some (addMessage 3 .t .b).1⟩

/-- A job done and another one pending in the last entry that was written: the
file is removed with it, and the storage opens empty. -/
theorem compact_removes_pending_record : ∃ ops log disk reopened,
    LogRun contractCodec 1 (fun _ _ => True) ⟨freshCore 100 0, [], 0⟩ ops log ∧
      log.core.close = .ok disk ∧ newRaftStorage contractCodec disk 100 0 = .ok reopened ∧
      Pending contractCodec log.committed "b" boundaryEntry ∧
      reopened.entries.get boundaryEntry.index.toNat = none := by
  refine ⟨boundaryOps, Option.get _ boundary_executes, boundaryDisk, Option.get _ boundary_reopens,
    Run.of_execute (fun _ _ _ _ taken => ⟨trivial, taken⟩) (Option.some_get _).symm, rfl, rfl, ?_, rfl⟩
  have committed : (Option.get _ boundary_executes).committed = messageEntries 1 (contractMessages.take 3) := rfl
  rw [committed]
  exact ⟨messageEntries 1 (contractMessages.take 2), [], rfl, by decide, by simp⟩

private theorem spared_executes :
    (keptOps.foldlM (fun log op => if KeepsReadded log op ∧ SparesBoundary log op then
      log.step contractCodec 1 op else none) ⟨freshCore 100 0, [], 0⟩ : Option Log).isSome = true := rfl

private theorem spared_closes : (Option.get _ spared_executes).core.close.toOption.isSome = true := rfl

/-- With a later entry in the file the pending job's record is recovered. -/
theorem pending_recovered_with_later_entry : ∃ reopened,
    newRaftStorage contractCodec (Option.get _ spared_closes) 100 0 = .ok reopened ∧
      reopened.entries.get boundaryEntry.index.toNat = some boundaryEntry := by
  have committed : (Option.get _ spared_executes).committed = messageEntries 1 contractMessages := rfl
  have pending : Pending contractCodec (Option.get _ spared_executes).committed "b" boundaryEntry := by
    rw [committed]
    exact contract_pending
  have closed : (Option.get _ spared_executes).core.close = .ok (Option.get _ spared_closes) := rfl
  obtain ⟨reopened, opens, finds⟩ := pending_recovered_after_sparing_run (wireCodec_lawful contractMessages)
    Nat.one_pos (newRaftStorage_empty contractCodec 100 0) (Run.of_guarded (Option.some_get spared_executes).symm)
    closed 100 0
  exact ⟨reopened, opens, finds "b" boundaryEntry pending⟩

end Cue.Cluster
