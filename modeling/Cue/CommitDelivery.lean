import Cue.Cluster.Agent
import Cue.Cluster.EntryCodec
import Cue.StorageRuns

/-! The way of a committed entry to the state machine: the raft loop puts it on
`commitCh`, the agent's goroutine takes it off. The send does not wait, so an
entry that finds the channel full is gone, and the ones after it are processed
without it. -/
namespace Cue.Cluster
open Cue.Lib Cue.Model

/-- The entry that was delivered. -/
def CommittedEntry.entry (committed : CommittedEntry) : Entry :=
  ⟨committed.term, committed.index, committed.type, committed.data⟩

variable {M : Type} {codec : Codec} {conf : ConfCodec} {c : CRaft M} {entry : Entry} {configured : Configured}

/-- The raft loop and the goroutine of `handleCommittedEntries`. -/
structure Pipeline (M : Type) where
  node : CRaft M
  agent : ClusterAgent
  /-- the goroutine has not ended -/
  running : Bool
  /-- the entries that raft handed to `applyCommittedEntry` -/
  committed : List Entry
  processed : List CommittedEntry

inductive PipelineOp where
  | apply (entry : Entry) (configured : Configured)
  | receive (spawn : Except String Unit)
  /-- the goroutine ends by its context or a panic -/
  | stop

/-- The goroutine also ends after an entry whose processing fails. -/
def Pipeline.step (codec : Codec) (conf : ConfCodec) (s : Pipeline M) : PipelineOp → Option (Pipeline M)
  | .apply entry configured => some { s with
      node := s.node.applyCommittedEntry codec conf entry configured
      committed := s.committed ++ [entry] }
  | .receive spawn =>
    if s.running then
      match s.node.commitCh with
      | [] => none
      | next :: rest =>
        let (agent, err) := s.agent.processCommittedEntry codec conf next spawn
        some { s with
          node := { s.node with commitCh := rest }
          agent := agent
          running := err.isNone
          processed := s.processed ++ [next] }
    else none
  | .stop => some { s with running := false }

/-- The agent has processed the first committed entries, each once and in order. -/
def Pipeline.InOrder (s : Pipeline M) : Prop := s.processed.map CommittedEntry.entry <+: s.committed

/-- An entry that is applied while the goroutine runs finds room in the channel,
and if it changes the configuration it decodes. -/
def Pipeline.HasRoom (conf : ConfCodec) (s : Pipeline M) (op : PipelineOp) : Prop :=
  match op with
  | .apply entry _ => s.running = true →
      (conf.changes entry).isOk = true ∧ s.node.commitCh.length < channelCapacity
  | _ => True

instance (s : Pipeline M) (op : PipelineOp) : Decidable (s.HasRoom conf op) :=
  match op with
  | .apply _ _ => inferInstanceAs (Decidable (_ → _ ∧ _))
  | .receive _ | .stop => isTrue trivial

/-! ### What an entry does to the channel -/

@[simp] theorem CRaft.notify_commitCh (c : CRaft M) (event : NotifyEvent) :
    (c.notify event).commitCh = c.commitCh := by
  unfold notify
  split <;> rfl

@[simp] theorem CRaft.persist_commitCh (c : CRaft M) (entry : Entry) :
    (c.persist codec entry).commitCh = c.commitCh := by
  unfold persist
  split <;> rfl

/-- An entry that decodes is put behind the others, if there is room. -/
theorem CRaft.applyCommittedEntry_commitCh (codec : Codec) (c : CRaft M) (configured : Configured)
    (decodes : (conf.changes entry).isOk = true) :
    ∃ delivered : CommittedEntry, delivered.entry = entry ∧
      (c.applyCommittedEntry codec conf entry configured).commitCh =
        if c.commitCh.length < channelCapacity then c.commitCh ++ [delivered] else c.commitCh := by
  unfold applyCommittedEntry switchType
  cases changes : conf.changes entry with
  | error err =>
    rw [changes] at decodes
    cases decodes
  | ok changed =>
    cases changed with
    | none =>
      refine ⟨⟨entry.data, entry.index, entry.term, entry.type, [], []⟩, rfl, ?_⟩
      simp only [deliver, persist_commitCh]
      split <;> simp
    | some _ =>
      refine ⟨⟨entry.data, entry.index, entry.term, entry.type, configured.voters, configured.learners⟩, rfl, ?_⟩
      simp only [deliver, handleConfChange, notify_commitCh, persist_commitCh]
      split <;> simp

/-! ### Runs -/

/-- The processed entries and those still in the channel are the committed ones,
as long as anything can be processed. -/
structure Pipeline.Flows (s : Pipeline M) : Prop where
  inOrder : s.InOrder
  all : s.running = true → (s.processed ++ s.node.commitCh).map CommittedEntry.entry = s.committed

theorem Pipeline.Flows.step {s s' : Pipeline M} {op : PipelineOp} (flows : s.Flows) (room : s.HasRoom conf op)
    (stepped : s.step codec conf op = some s') : s'.Flows := by
  cases op with
  | apply entry configured =>
    cases stepped
    refine ⟨flows.inOrder.trans (List.prefix_append _ _), fun running => ?_⟩
    obtain ⟨decodes, free⟩ := room running
    obtain ⟨delivered, same, behind⟩ := s.node.applyCommittedEntry_commitCh codec configured decodes
    simp only [behind, if_pos free, ← List.append_assoc, List.map_append, List.map_cons, List.map_nil, same]
    rw [← List.map_append, flows.all running]
  | receive spawn =>
    simp only [Pipeline.step] at stepped
    split at stepped
    · rename_i running
      split at stepped
      · cases stepped
      · rename_i next rest channel
        cases stepped
        have all := flows.all running
        rw [channel] at all
        refine ⟨⟨rest.map CommittedEntry.entry, ?_⟩, fun _ => ?_⟩
        · simpa using all
        · simpa using all
    · cases stepped
  | stop =>
    cases stepped
    exact ⟨flows.inOrder, fun running => nomatch running⟩

/-- In a run in which every entry applied while the goroutine runs decodes and
finds room, the processed entries are a prefix of the committed ones. -/
theorem processed_in_order_of_room {node : CRaft M} {agent : ClusterAgent} {ops : List PipelineOp}
    {s : Pipeline M} (empty : node.commitCh = [])
    (run : Run (fun s op s' => s.step codec conf op = some s') (fun _ => Pipeline.HasRoom conf)
      ⟨node, agent, true, [], []⟩ ops s) : s.InOrder := by
  have flows : s.Flows := by
    refine run.invariant (fun _ s => Pipeline.Flows s) ?_ ?_
    · exact ⟨List.prefix_refl _, fun _ => by simp [empty]⟩
    · intro _ s op s' flows room stepped
      exact flows.step room stepped
  exact flows.inOrder

/-! ### A burst of entries -/

/-- What a normal entry is delivered as. -/
private def delivered (entry : Entry) : CommittedEntry :=
  ⟨entry.data, entry.index, entry.term, entry.type, [], []⟩

/-- An empty entry, as a leader commits it at the start of its term. -/
private def noop (i : Nat) : Entry := ⟨1, UInt64.ofNat (i + 1), .normal, none⟩

/-- Entries applied one after the other fill the channel up to its capacity. -/
private theorem burst_fills (codec : Codec) (conf : ConfCodec) (indices : List Nat) (s : Pipeline M)
    (within : s.node.commitCh.length ≤ channelCapacity) :
    ∃ node, (indices.map fun i => PipelineOp.apply (noop i) {}).foldlM (Pipeline.step codec conf) s =
        some { s with node := node, committed := s.committed ++ indices.map noop } ∧
      node.commitCh = (s.node.commitCh ++ indices.map fun i => delivered (noop i)).take channelCapacity := by
  induction indices generalizing s with
  | nil => exact ⟨s.node, by simp, by simp [List.take_of_length_le within]⟩
  | cons i indices ih =>
    have channel : (s.node.applyCommittedEntry codec conf (noop i) {}).commitCh =
        if s.node.commitCh.length < channelCapacity then s.node.commitCh ++ [delivered (noop i)]
        else s.node.commitCh := by
      simp only [CRaft.applyCommittedEntry, CRaft.switchType, ConfCodec.changes, noop, CRaft.deliver,
        CRaft.persist_commitCh, delivered]
      split <;> simp
    obtain ⟨node, rest, filled⟩ := ih { s with
      node := s.node.applyCommittedEntry codec conf (noop i) {}
      committed := s.committed ++ [noop i] } (by
        simp only [channel]
        split
        · simpa using ‹_›
        · exact within)
    refine ⟨node, ?_, ?_⟩
    · simpa [Pipeline.step] using rest
    · rw [filled]
      simp only [channel]
      split
      · simp
      · have full : s.node.commitCh.length = channelCapacity := by omega
        rw [← full]
        simp

/-- The goroutine takes everything off the channel. -/
private theorem receives_drain (codec : Codec) (conf : ConfCodec) (indices : List Nat) (s : Pipeline M)
    (running : s.running = true) (channel : s.node.commitCh = indices.map fun i => delivered (noop i)) :
    ∃ node agent, (indices.map fun _ => PipelineOp.receive (.ok ())).foldlM (Pipeline.step codec conf) s =
        some { s with
          node := node
          agent := agent
          processed := s.processed ++ indices.map fun i => delivered (noop i) } ∧
      node.commitCh = [] := by
  induction indices generalizing s with
  | nil => exact ⟨s.node, s.agent, by simp, channel⟩
  | cons i indices ih =>
    obtain ⟨node, agent, rest, empty⟩ := ih { s with
      node := { s.node with commitCh := indices.map fun i => delivered (noop i) }
      agent := (s.agent.processCommittedEntry codec conf (delivered (noop i)) (.ok ())).1
      running := true
      processed := s.processed ++ [delivered (noop i)] } rfl rfl
    refine ⟨node, agent, ?_, empty⟩
    have step : s.step codec conf (.receive (.ok ())) = some { s with
        node := { s.node with commitCh := indices.map fun i => delivered (noop i) }
        agent := (s.agent.processCommittedEntry codec conf (delivered (noop i)) (.ok ())).1
        running := true
        processed := s.processed ++ [delivered (noop i)] } := by
      simp [Pipeline.step, running, channel, ClusterAgent.processCommittedEntry, delivered, noop,
        ClusterAgent.handleNormalCommand]
    rw [List.map_cons, List.foldlM_cons, step]
    simpa [running] using rest

/-- Entries are applied in one go, then all that is left of them is received. -/
private def burst (indices : List Nat) : List PipelineOp :=
  (indices.map fun i => .apply (noop i) {}) ++ (indices.take channelCapacity).map fun _ => .receive (.ok ())

private theorem burst_processes (codec : Codec) (conf : ConfCodec) (indices : List Nat) (s : Pipeline M)
    (running : s.running = true) (empty : s.node.commitCh = []) :
    ∃ s', (burst indices).foldlM (Pipeline.step codec conf) s = some s' ∧ s'.running = true ∧
      s'.node.commitCh = [] ∧ s'.committed = s.committed ++ indices.map noop ∧
      s'.processed = s.processed ++ (indices.take channelCapacity).map fun i => delivered (noop i) := by
  obtain ⟨node, applied, channel⟩ := burst_fills codec conf indices s (by simp [empty])
  rw [empty, List.nil_append, ← List.map_take] at channel
  obtain ⟨node', agent, received, empty'⟩ := receives_drain codec conf (indices.take channelCapacity)
    { s with node := node, committed := s.committed ++ indices.map noop } running channel
  rw [burst, List.foldlM_append, applied]
  exact ⟨_, received, running, empty', rfl, rfl⟩

/-- No configuration changes. -/
private def plainConf : ConfCodec := ⟨fun _ => none, fun _ => none⟩

private def pipelineStart : Pipeline Unit :=
  ⟨.new 1 (freshCore 100 0), .new "n" ⟨.empty, .empty⟩ .empty [], true, [], []⟩

/-- One entry more than the channel holds is committed before the agent takes
the first one: it is dropped, and the next entry is processed in its place. -/
theorem full_channel_skips_entry : ∃ (ops : List PipelineOp) (s : Pipeline Unit),
    Run (fun s op s' => s.step (wireCodec []) plainConf op = some s') (fun _ _ _ => True) pipelineStart ops s ∧
      s.committed = (List.range channelCapacity).map noop ++ [noop channelCapacity, noop (channelCapacity + 1)] ∧
      s.processed.map CommittedEntry.entry =
        (List.range channelCapacity).map noop ++ [noop (channelCapacity + 1)] ∧
      ¬ s.InOrder := by
  obtain ⟨first, executed, running, empty, committed, processed⟩ := burst_processes (wireCodec []) plainConf
    (List.range channelCapacity ++ [channelCapacity]) pipelineStart rfl rfl
  obtain ⟨second, executed', _, _, committed', processed'⟩ := burst_processes (wireCodec []) plainConf
    [channelCapacity + 1] first running empty
  have allCommitted : second.committed =
      (List.range channelCapacity).map noop ++ [noop channelCapacity, noop (channelCapacity + 1)] := by
    simp [committed', committed, pipelineStart]
  have allProcessed : second.processed.map CommittedEntry.entry =
      (List.range channelCapacity).map noop ++ [noop (channelCapacity + 1)] := by
    have one : [channelCapacity + 1].take channelCapacity = [channelCapacity + 1] := rfl
    rw [processed', processed, one, List.take_left' List.length_range]
    simp [pipelineStart, Function.comp_def, delivered, CommittedEntry.entry, noop]
  refine ⟨burst (List.range channelCapacity ++ [channelCapacity]) ++ burst [channelCapacity + 1], second,
    Run.of_execute (fun _ _ _ _ taken => ⟨trivial, taken⟩) ?_, allCommitted, allProcessed, ?_⟩
  · rw [List.foldlM_append, executed]
    exact executed'
  · unfold Pipeline.InOrder
    rw [allCommitted, allProcessed, List.prefix_append_right_inj, List.cons_prefix_cons]
    rintro ⟨same, _⟩
    revert same
    decide

private def orderedOps : List PipelineOp := burst [0, 1] ++ burst [2]

private theorem ordered_executes :
    (orderedOps.foldlM (fun s op => if s.HasRoom plainConf op then s.step (wireCodec []) plainConf op else none)
      pipelineStart : Option (Pipeline Unit)).isSome = true := rfl

/-- Two entries are received after both were committed, then a third one. -/
theorem processed_in_order_with_room :
    ∃ s : Pipeline Unit, s.committed = [noop 0, noop 1, noop 2] ∧ s.processed.length = 3 ∧ s.InOrder :=
  ⟨_, by decide, by decide, processed_in_order_of_room (show pipelineStart.node.commitCh = [] from rfl)
    (Run.of_guarded (Option.some_get ordered_executes).symm)⟩

end Cue.Cluster
