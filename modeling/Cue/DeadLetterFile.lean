import Cue.Lib.Run
import Cue.Cluster.DLQFile

/-! Every dead-letter line comes to the file once. Lines wait in the buffer that
is active, or in the batch that a writer has taken and not yet written; one batch
is under way at a time, as long as no flush is started while another one is busy.
So the file, the rest of that batch and the active buffer together are all lines
in the order in which they were appended.

What can go wrong is listed in `Careful`: a chained flush while another one is
busy, a `Close` that finds a flush busy and lines in the active buffer, and an
append that passed the check of `closed` and gets the lock after `Close`. -/
namespace Cue.Cluster
open Cue.Lib

namespace DLQFileManager

variable {T : Type} {m : DLQFileManager T} {closing : Bool}

/-- What a writer has still to write. -/
def share (m : DLQFileManager T) : DLQWriter → List (T × String)
  | .started =>
    match m.flushing with
    | some batch => m.heap.content batch
    | none => []
  | .captured batch => m.heap.content batch
  | .persisting batch next => (m.heap.content batch).drop next
  | .failed => []

/-- All lines: on file, on the way, and in the active buffer. -/
def lines (m : DLQFileManager T) : List (T × String) :=
  m.file ++ m.writers.flatMap m.share ++ m.heap.content m.activeBuffer

/-- One batch at most is under way, and until `Close` has the lock its array is
not the one that lines are appended to. -/
inductive Flight (m : DLQFileManager T) (closing : Bool) : Prop where
  | none (free : m.busy = false) (nothing : m.flushing = none) (idle : m.writers = [])
  | some (batch : Slice) (w : DLQWriter) (busy : m.busy = true) (taken : m.flushing = some batch)
      (lines : 0 < batch.len) (valid : m.heap.Valid batch)
      (apart : closing = false → batch.array ≠ m.activeBuffer.array) (alone : m.writers = [w])
      (place : w = .started ∨ w = .captured batch ∨ ∃ next ≤ batch.len, w = .persisting batch next)

structure InOrder (m : DLQFileManager T) (closing : Bool) : Prop where
  valid : ∀ i, m.heap.Valid (m.buffers i)
  apart : (m.buffers (!m.active)).array ≠ m.activeBuffer.array
  spare : (m.buffers (!m.active)).len = 0
  flight : m.Flight closing
  rest : closing = true → m.closed = true ∧ m.activeBuffer.len = 0

theorem eq_or_other (i j : Bool) : i = j ∨ i = !j := by
  cases i <;> cases j <;> simp

theorem new_inOrder : (new : DLQFileManager T).InOrder false := by
  refine ⟨?_, ?_, ?_, .none rfl rfl rfl, ?_⟩
  · intro i
    rcases eq_or_other i false with rfl | rfl
    all_goals exact ⟨_, rfl, Nat.zero_le _⟩
  · simp [new, activeBuffer]
  · rfl
  · intro wrong
    cases wrong

/-! ### Appending -/

theorem activeBuffer_appendLine (grown : Nat → Nat) (m : DLQFileManager T) (line : T × String) :
    (m.appendLine grown line).activeBuffer = (m.heap.append grown m.activeBuffer line).2 := by
  simp [appendLine, activeBuffer]

theorem appendLine_spec (grown : Nat → Nat) (line : T × String) (order : m.InOrder false) :
    (m.appendLine grown line).InOrder false ∧ (m.appendLine grown line).lines = m.lines ++ [line] := by
  have valid : m.heap.Valid m.activeBuffer := order.valid m.active
  have spare := order.valid (!m.active)
  have own := activeBuffer_appendLine grown m line
  have other : (m.appendLine grown line).buffers (!m.active) = m.buffers (!m.active) := by
    simp [appendLine]
  have shares : m.writers.flatMap (m.appendLine grown line).share = m.writers.flatMap m.share := by
    cases order.flight with
    | none _ _ idle => simp [idle]
    | some batch w _ taken _ batchValid apart alone place =>
      have same : (m.heap.append grown m.activeBuffer line).1.content batch = m.heap.content batch :=
        SliceHeap.content_append_of_ne batchValid (apart rfl)
      rcases place with rfl | rfl | ⟨next, _, rfl⟩
      all_goals simp [alone, share, appendLine, taken, same]
  refine ⟨⟨?_, ?_, ?_, ?_, ?_⟩, ?_⟩
  · intro i
    rcases eq_or_other i m.active with rfl | rfl
    · show SliceHeap.Valid _ (m.appendLine grown line).activeBuffer
      rw [own]
      exact SliceHeap.append_valid valid
    · rw [other]
      exact spare.append_of_ne order.apart
  · show ((m.appendLine grown line).buffers (!m.active)).array ≠ _
    rw [other, own]
    exact SliceHeap.append_apart spare order.apart
  · show ((m.appendLine grown line).buffers (!m.active)).len = 0
    rw [other]
    exact order.spare
  · cases order.flight with
    | none free nothing idle => exact .none free nothing idle
    | some batch w busy taken lines batchValid apart alone place =>
      refine .some batch w busy taken lines (batchValid.append_of_ne (apart rfl)) (fun _ => ?_) alone place
      rw [own]
      exact SliceHeap.append_apart batchValid (apart rfl)
  · intro wrong
    cases wrong
  · unfold lines
    rw [own]
    show m.file ++ m.writers.flatMap _ ++ (m.heap.append grown m.activeBuffer line).1.content _ = _
    rw [shares, SliceHeap.content_append valid, List.append_assoc _ _ [line]]

/-! ### Flushing -/

/-- After the roles have changed: the new active buffer is empty and in another
array than the batch, which is what the old one was. -/
theorem switch_spec {heap : SliceHeap (T × String)} {fresh : Slice} (order : m.InOrder false) (free : m.busy = false)
    (lines : 0 < m.activeBuffer.len) (valid : heap.Valid fresh) (empty : fresh.len = 0)
    (batch : heap.Valid m.activeBuffer) (same : heap.content m.activeBuffer = m.heap.content m.activeBuffer)
    (apart : m.activeBuffer.array ≠ fresh.array) {m' : DLQFileManager T}
    (switched : m' = { m with
      heap := heap
      active := !m.active
      buffers := Function.update (Function.update m.buffers m.active ⟨m.activeBuffer.array, 0⟩) (!m.active) fresh
      flushing := some m.activeBuffer
      busy := true
      writers := m.writers ++ [.started] }) :
    m'.InOrder false ∧ m'.lines = m.lines := by
  subst switched
  have idle : m.writers = [] := by
    cases order.flight with
    | none _ _ idle => exact idle
    | some _ _ busy =>
      rw [free] at busy
      cases busy
  have nothing : heap.content fresh = [] := by
    have cut : fresh = ⟨fresh.array, 0⟩ := by rw [← empty]
    rw [cut, SliceHeap.content_cut]
  refine ⟨⟨?_, ?_, ?_, ?_, ?_⟩, ?_⟩
  · intro i
    rcases eq_or_other i m.active with rfl | rfl
    · simpa using batch.cut
    · simpa using valid
  · simpa [activeBuffer] using apart
  · simp
  · refine .some m.activeBuffer .started rfl rfl lines batch (fun _ => ?_) (by simp [idle]) (Or.inl rfl)
    simpa [activeBuffer] using apart
  · intro wrong
    cases wrong
  · simpa [DLQFileManager.lines, idle, share, activeBuffer, nothing] using same

theorem trigger_spec (order : m.InOrder false) (free : m.busy = false) :
    m.triggerFlushLocked.InOrder false ∧ m.triggerFlushLocked.lines = m.lines := by
  have valid : m.heap.Valid m.activeBuffer := order.valid m.active
  unfold triggerFlushLocked
  dsimp only
  by_cases empty : (m.buffers m.active).len = 0
  · rw [if_pos empty]
    exact ⟨order, rfl⟩
  · have lines : 0 < m.activeBuffer.len := Nat.pos_of_ne_zero empty
    rw [if_neg empty, if_neg (by rw [order.spare]; omega)]
    split
    · exact switch_spec order free lines (m.heap.make_valid _) rfl (valid.make _) (SliceHeap.content_make valid _)
        (Nat.ne_of_lt valid.lt) rfl
    · refine switch_spec order free lines (order.valid (!m.active)) order.spare valid rfl (Ne.symm order.apart) ?_
      simp [startFlush, activeBuffer]

theorem appendLines_spec (grown : Nat → Nat) (call : T) (batch : List String) (order : m.InOrder false) :
    (batch.foldl (fun m line => m.appendLine grown (call, line)) m).InOrder false ∧
      (batch.foldl (fun m line => m.appendLine grown (call, line)) m).lines =
        m.lines ++ batch.map fun line => (call, line) := by
  induction batch generalizing m with
  | nil => exact ⟨order, by simp⟩
  | cons line batch ih =>
    obtain ⟨order', added⟩ := appendLine_spec grown (call, line) order
    obtain ⟨order'', rest⟩ := ih order'
    exact ⟨order'', by rw [List.foldl_cons, rest, added]; simp⟩

theorem appendBatch_spec (grown : Nat → Nat) (call : T) (batch : List String) (order : m.InOrder false) :
    (m.appendBatch grown call batch).InOrder false ∧
      (m.appendBatch grown call batch).lines = m.lines ++ batch.map fun line => (call, line) := by
  obtain ⟨order', added⟩ := appendLines_spec grown call batch order
  unfold appendBatch
  dsimp only
  split
  · rename_i flush
    obtain ⟨order'', same⟩ := trigger_spec order' flush.2
    exact ⟨order'', same.trans added⟩
  · exact ⟨order', added⟩

theorem writeSection_started {batch : Slice} (alone : m.writers = [.started]) (taken : m.flushing = some batch)
    (lines : 0 < batch.len) : m.writeSection .started = { m with writers := [.captured batch] } := by
  simp [writeSection, write, taken, Nat.ne_of_gt lines, alone]

theorem writeSection_captured {batch : Slice} (alone : m.writers = [.captured batch]) (writable : m.writable = true) :
    m.writeSection (.captured batch) = { m with writers := [.persisting batch 0] } := by
  simp [writeSection, write, writable, alone]

theorem writeSection_line {batch : Slice} {next : Nat} {line : T × String}
    (alone : m.writers = [.persisting batch next]) (writable : m.writable = true)
    (found : (m.heap.content batch)[next]? = some line) : m.writeSection (.persisting batch next) =
      { m with file := m.file ++ [line], writers := [.persisting batch (next + 1)] } := by
  simp [writeSection, write, found, writable, alone]

theorem writeSection_end {batch : Slice} {next : Nat} (alone : m.writers = [.persisting batch next])
    (written : (m.heap.content batch)[next]? = none) : m.writeSection (.persisting batch next) =
      { m with flushing := none, busy := false, checking := m.checking + 1, writers := [] } := by
  simp [writeSection, write, written, alone]

/-- A writer moves lines from its batch to the file. -/
theorem writeSection_spec {w : DLQWriter} (order : m.InOrder closing) (writable : m.writable = true)
    (running : w ∈ m.writers) : (m.writeSection w).InOrder closing ∧ (m.writeSection w).lines = m.lines := by
  cases order.flight with
  | none _ _ idle => simp [idle] at running
  | some batch w' busy taken lines batchValid apart alone place =>
    have same : w = w' := by simpa [alone] using running
    subst same
    -- where the writer stands in the same batch afterwards
    have moves {m' : DLQFileManager T} (w' : DLQWriter) (file : List (T × String))
        (moved : m' = { m with file := file, writers := [w'] })
        (place : w' = .started ∨ w' = .captured batch ∨ ∃ next ≤ batch.len, w' = .persisting batch next) :
        m'.InOrder closing := by
      subst moved
      exact ⟨order.valid, order.apart, order.spare, .some batch w' busy taken lines batchValid apart rfl place,
        order.rest⟩
    rcases place with rfl | rfl | ⟨next, bound, rfl⟩
    · rw [writeSection_started alone taken lines]
      refine ⟨moves _ m.file rfl (Or.inr (Or.inl rfl)), ?_⟩
      simp [DLQFileManager.lines, alone, share, taken, activeBuffer]
    · rw [writeSection_captured alone writable]
      refine ⟨moves _ m.file rfl (Or.inr (Or.inr ⟨0, Nat.zero_le _, rfl⟩)), ?_⟩
      simp [DLQFileManager.lines, alone, share, activeBuffer]
    · have length := batchValid.length_content
      cases line : (m.heap.content batch)[next]? with
      | some line' =>
        have below := (List.getElem?_eq_some_iff.mp line).1
        rw [writeSection_line alone writable line]
        refine ⟨moves _ _ rfl (Or.inr (Or.inr ⟨next + 1, by omega, rfl⟩)), ?_⟩
        have rest : (m.heap.content batch).drop next = line' :: (m.heap.content batch).drop (next + 1) := by
          rw [List.drop_eq_getElem_cons below, (List.getElem?_eq_some_iff.mp line).2]
        simp [DLQFileManager.lines, alone, share, activeBuffer, rest]
      | none =>
        have written := List.getElem?_eq_none_iff.mp line
        rw [writeSection_end alone line]
        refine ⟨⟨order.valid, order.apart, order.spare, .none rfl rfl rfl, order.rest⟩, ?_⟩
        simp [DLQFileManager.lines, alone, share, activeBuffer, List.drop_eq_nil_of_le written]

theorem InOrder.of_checking (order : m.InOrder closing) (checking : Nat) :
    InOrder { m with checking := checking } closing := by
  refine ⟨order.valid, order.apart, order.spare, ?_, order.rest⟩
  cases order.flight with
  | none free nothing idle => exact .none free nothing idle
  | some batch w busy taken lines batchValid apart alone place =>
    exact .some batch w busy taken lines batchValid apart alone place

theorem InOrder.close (order : m.InOrder false) : InOrder { m with closed := true } false := by
  refine ⟨order.valid, order.apart, order.spare, ?_, by simp⟩
  cases order.flight with
  | none free nothing idle => exact .none free nothing idle
  | some batch w busy taken lines batchValid apart alone place =>
    exact .some batch w busy taken lines batchValid apart alone place

/-- The check for a chained flush, if it starts none while another one is busy. -/
theorem checkChained_spec (order : m.InOrder closing) (alone : m.closed = false → m.full = true → m.busy = false) :
    m.checkChained.InOrder closing ∧ m.checkChained.lines = m.lines := by
  have order' := order.of_checking (m.checking - 1)
  unfold checkChained
  dsimp only
  split
  · rename_i chained
    have early : closing = false := by
      by_contra late
      have closed := (order.rest (by simpa using late)).1
      rw [chained.1] at closed
      cases closed
    subst early
    exact trigger_spec order' (alone chained.1 chained.2)
  · exact ⟨order', rfl⟩

/-- `Close` takes what the active buffer has, unless a flush is busy. -/
theorem closeLocked_spec (order : m.InOrder false) (closed : m.closed = true)
    (taken : m.busy = true → m.activeBuffer.len = 0) :
    m.closeLocked.InOrder true ∧ m.closeLocked.lines = m.lines := by
  -- nothing is left in the active buffer
  have stays (empty : m.activeBuffer.len = 0) : m.InOrder true := by
    refine ⟨order.valid, order.apart, order.spare, ?_, fun _ => ⟨closed, empty⟩⟩
    cases order.flight with
    | none free nothing idle => exact .none free nothing idle
    | some batch w busy taken lines batchValid _ alone place =>
      exact .some batch w busy taken lines batchValid (by simp) alone place
  unfold closeLocked
  cases order.flight with
  | some batch w busy =>
    rw [if_neg (by simp [busy])]
    exact ⟨stays (taken busy), rfl⟩
  | none free nothing idle =>
    rw [if_pos ⟨free, by simp [flushingLen, nothing]⟩, if_neg (Nat.not_lt.mpr (Nat.le_of_eq order.spare))]
    split
    · rename_i lines
      have valid : m.heap.Valid m.activeBuffer := order.valid m.active
      have cut : (m.startFlush m.active).activeBuffer = ⟨m.activeBuffer.array, 0⟩ := by
        simp [startFlush, activeBuffer]
      have other : (m.startFlush m.active).buffers (!m.active) = m.buffers (!m.active) := by
        simp [startFlush]
      refine ⟨⟨?_, ?_, ?_, ?_, fun _ => ⟨closed, by rw [cut]⟩⟩, ?_⟩
      · intro i
        rcases eq_or_other i m.active with rfl | rfl
        · show m.heap.Valid (m.startFlush m.active).activeBuffer
          rw [cut]
          exact valid.cut
        · rw [other]
          exact order.valid _
      · rw [cut]
        show ((m.startFlush m.active).buffers (!m.active)).array ≠ _
        rw [other]
        exact order.apart
      · show ((m.startFlush m.active).buffers (!m.active)).len = 0
        rw [other]
        exact order.spare
      · exact .some m.activeBuffer .started rfl rfl lines valid (by simp) (by simp [startFlush, idle]) (Or.inl rfl)
      · unfold DLQFileManager.lines
        rw [cut]
        simp [startFlush, idle, share, SliceHeap.content_cut, activeBuffer]
    · rename_i none
      exact ⟨stays (Nat.eq_zero_of_not_pos none), rfl⟩

/-! ### Filling a buffer -/

/-- Lines that fit are appended in place. -/
theorem fill_spec (grown : Nat → Nat) (call : T) (batch : List String) (order : m.InOrder false)
    (room : m.activeBuffer.len + batch.length ≤ m.heap.capacity m.activeBuffer) :
    let m' := batch.foldl (fun m line => m.appendLine grown (call, line)) m
    m'.activeBuffer.len = m.activeBuffer.len + batch.length ∧
      m'.heap.capacity m'.activeBuffer = m.heap.capacity m.activeBuffer ∧ m'.busy = m.busy := by
  induction batch generalizing m with
  | nil => exact ⟨rfl, rfl, rfl⟩
  | cons line batch ih =>
    rw [List.length_cons] at room
    have valid : m.heap.Valid m.activeBuffer := order.valid m.active
    have own := activeBuffer_appendLine grown m (call, line)
    have len : (m.appendLine grown (call, line)).activeBuffer.len = m.activeBuffer.len + 1 := by
      rw [own, SliceHeap.append_len valid]
    have capacity : (m.appendLine grown (call, line)).heap.capacity (m.appendLine grown (call, line)).activeBuffer =
        m.heap.capacity m.activeBuffer := by
      rw [own]
      exact SliceHeap.capacity_append (by omega)
    obtain ⟨lens, capacities, busy⟩ := ih (appendLine_spec grown (call, line) order).1 (by rw [len, capacity]; omega)
    refine ⟨?_, capacities.trans capacity, busy⟩
    rw [List.foldl_cons, lens, len, List.length_cons]
    omega

theorem trigger_busy (order : m.InOrder false) (lines : 0 < m.activeBuffer.len) :
    m.triggerFlushLocked.busy = true ∧
      m.triggerFlushLocked.heap.content m.triggerFlushLocked.activeBuffer = [] := by
  have other : ((m.startFlush m.active).buffers (!m.active)).len = 0 := by
    simpa [startFlush] using order.spare
  unfold triggerFlushLocked
  dsimp only
  have some' : (m.buffers m.active).len ≠ 0 := Nat.ne_of_gt lines
  rw [if_neg some', if_neg (by rw [order.spare]; omega)]
  split
  · refine ⟨rfl, ?_⟩
    simp only [grow, activeBuffer, Function.update_self]
    exact SliceHeap.content_cut _ _
  · refine ⟨rfl, ?_⟩
    have cut : (m.startFlush m.active).buffers (!m.active) =
        ⟨((m.startFlush m.active).buffers (!m.active)).array, 0⟩ := by rw [← other]
    show SliceHeap.content _ ((m.startFlush m.active).buffers (!m.active)) = []
    rw [cut, SliceHeap.content_cut]

/-- A batch that fills the empty buffer is taken by a flush at once. -/
theorem appendBatch_full (grown : Nat → Nat) (call : T) (batch : List String) (order : m.InOrder false)
    (free : m.busy = false) (lines : batch ≠ [])
    (exact : m.activeBuffer.len + batch.length = m.heap.capacity m.activeBuffer) :
    (m.appendBatch grown call batch).busy = true ∧
      (m.appendBatch grown call batch).heap.content (m.appendBatch grown call batch).activeBuffer = [] := by
  obtain ⟨lens, capacity, busy⟩ := fill_spec grown call batch order (Nat.le_of_eq exact)
  have order' := (appendLines_spec grown call batch order).1
  have some' := List.length_pos_iff.mpr lines
  unfold appendBatch
  dsimp only
  rw [if_pos]
  · exact trigger_busy order' (by rw [lens]; omega)
  · refine ⟨?_, busy.trans free⟩
    unfold full
    rw [lens, capacity, exact]
    simp

/-- A call that finds a flush busy leaves its lines in the active buffer. -/
theorem appendBatch_busy (grown : Nat → Nat) (call : T) (line : String) (order : m.InOrder false)
    (busy : m.busy = true) : (m.appendBatch grown call [line]).busy = true ∧
      (m.appendBatch grown call [line]).heap.content (m.appendBatch grown call [line]).activeBuffer =
        m.heap.content m.activeBuffer ++ [(call, line)] := by
  have valid : m.heap.Valid m.activeBuffer := order.valid m.active
  have waits : m.appendBatch grown call [line] = m.appendLine grown (call, line) := by
    simp [appendBatch, appendLine, busy]
  rw [waits]
  refine ⟨busy, ?_⟩
  rw [activeBuffer_appendLine]
  exact SliceHeap.content_append valid

/-! ### What the sections leave alone -/

/-- Whether the manager is closed, and its file, stay as they are. -/
structure Same (m m' : DLQFileManager T) : Prop where
  closed : m'.closed = m.closed
  writable : m'.writable = m.writable

theorem trigger_same (m : DLQFileManager T) : Same m m.triggerFlushLocked := by
  unfold triggerFlushLocked
  dsimp only
  repeat' split
  all_goals exact ⟨rfl, rfl⟩

theorem appendBatch_same (grown : Nat → Nat) (m : DLQFileManager T) (call : T) (batch : List String) :
    Same m (m.appendBatch grown call batch) := by
  have appended : ∀ (batch : List String) (m : DLQFileManager T),
      Same m (batch.foldl (fun m line => m.appendLine grown (call, line)) m) := by
    intro batch
    induction batch with
    | nil => exact fun _ => ⟨rfl, rfl⟩
    | cons line batch ih =>
      intro m
      have rest := ih (m.appendLine grown (call, line))
      exact ⟨rest.closed, rest.writable⟩
  unfold appendBatch
  dsimp only
  split
  · have flushed := trigger_same (batch.foldl (fun m line => m.appendLine grown (call, line)) m)
    exact ⟨flushed.closed.trans (appended batch m).closed, flushed.writable.trans (appended batch m).writable⟩
  · exact appended batch m

theorem writeSection_same (m : DLQFileManager T) (w : DLQWriter) : Same m (m.writeSection w) := by
  unfold writeSection write
  cases w with
  | started =>
    dsimp only
    repeat' split
    all_goals exact ⟨rfl, rfl⟩
  | captured batch =>
    dsimp only
    split <;> exact ⟨rfl, rfl⟩
  | persisting batch next =>
    dsimp only
    repeat' split
    all_goals exact ⟨rfl, rfl⟩
  | failed =>
    dsimp only
    split <;> exact ⟨rfl, rfl⟩

theorem checkChained_same (m : DLQFileManager T) : Same m m.checkChained := by
  unfold checkChained
  dsimp only
  split
  · have flushed := trigger_same { m with checking := m.checking - 1 }
    exact ⟨flushed.closed, flushed.writable⟩
  · exact ⟨rfl, rfl⟩

theorem closeLocked_same (m : DLQFileManager T) : Same m m.closeLocked := by
  unfold closeLocked startFlush
  repeat' split
  all_goals exact ⟨rfl, rfl⟩

/-- Without a chained flush only the goroutine ends. -/
theorem checkChained_closed (closed : m.closed = true) : m.checkChained = { m with checking := m.checking - 1 } := by
  simp [checkChained, closed]

end DLQFileManager

/-! ### Calls and goroutines -/

/-- Where a call of `AppendBatch` stands: between the check of `closed` and the
lock, returned with its lines appended, or returned because of `closed`. -/
inductive AppendCall where
  | idle
  | entered (lines : List String)
  | returned (lines : List String)
  | refused
  deriving DecidableEq, Repr

/-- Where the call of `Close` stands; `returned` is without an error. -/
inductive CloseCall where
  | idle
  | entered
  | locked
  | returned
  | timedOut
  deriving DecidableEq, Repr

/-- The manager, the calls of `AppendBatch`, and the call of `Close`. -/
structure DeadLetters (T : Type) where
  manager : DLQFileManager T
  calls : T → AppendCall
  close : CloseCall

inductive DeadLetterOp (T : Type) where
  | enter (call : T) (timestamp : Int) (topic : String) (jobIDs : List String)
  | append (call : T)
  | write (w : DLQWriter)
  | check
  | close
  | closeLocked
  | closeReturn
  | closeTimeout

namespace DeadLetters

variable {T : Type}

def new : DeadLetters T := ⟨.new, fun _ => .idle, .idle⟩

/-- The check at the start of `AppendBatch`. -/
def enterCall (s : DeadLetters T) (timestamp : Int) (topic : String) (jobIDs : List String) : AppendCall :=
  if jobIDs = [] then .returned []
  else if s.manager.closed then .refused
  else .entered (jobIDs.map (DLQFileManager.formatLine timestamp topic))

def step [DecidableEq T] (grown : Nat → Nat) (s : DeadLetters T) : DeadLetterOp T → Option (DeadLetters T)
  | .enter call timestamp topic jobIDs =>
    if s.calls call = .idle then
      some { s with calls := Function.update s.calls call (s.enterCall timestamp topic jobIDs) }
    else none
  | .append call =>
    match s.calls call with
    | .entered lines => some { s with
        manager := s.manager.appendBatch grown call lines
        calls := Function.update s.calls call (.returned lines) }
    | _ => none
  | .write w => if w ∈ s.manager.writers then some { s with manager := s.manager.writeSection w } else none
  | .check => if 0 < s.manager.checking then some { s with manager := s.manager.checkChained } else none
  | .close =>
    if s.close = .idle then some { s with manager := { s.manager with closed := true }, close := .entered } else none
  | .closeLocked =>
    if s.close = .entered then some { s with manager := s.manager.closeLocked, close := .locked } else none
  | .closeReturn =>
    if s.close = .locked ∧ s.manager.finished then some { s with manager := s.manager.finalSync, close := .returned }
    else none
  | .closeTimeout => if s.close = .locked then some { s with close := .timedOut } else none

/-- `Close` has had the lock. -/
def closing (s : DeadLetters T) : Bool :=
  match s.close with
  | .idle | .entered => false
  | .locked | .returned | .timedOut => true

/-- No append gets the lock after `Close` had it; no chained flush starts while
another one is busy; `Close` finds no flush busy, or nothing in the active buffer. -/
def careful (s : DeadLetters T) : DeadLetterOp T → Bool
  | .append _ => s.closing = false
  | .check => s.manager.closed = false → s.manager.full → s.manager.busy = false
  | .closeLocked => s.manager.busy → s.manager.activeBuffer.len = 0
  | _ => true

/-- The lines of a call that were appended. -/
def linesOf (call : T) : AppendCall → List (T × String)
  | .returned lines => lines.map fun line => (call, line)
  | .idle | .entered _ | .refused => []

variable [DecidableEq T]

/-- All lines are in their place, by the call they came from. -/
structure Kept (s : DeadLetters T) : Prop where
  order : s.manager.InOrder s.closing
  lines : ∀ call, s.manager.lines.filter (fun line => line.1 = call) = linesOf call (s.calls call)
  closed : s.close ≠ .idle → s.manager.closed = true
  writable : s.close ≠ .returned → s.manager.writable = true
  ended : s.close = .returned → s.manager.writers = []

theorem Kept.start : (new : DeadLetters T).Kept := by
  refine ⟨DLQFileManager.new_inOrder, fun _ => rfl, fun started => absurd rfl started, fun _ => rfl, ?_⟩
  intro wrong
  cases wrong

variable {s s' : DeadLetters T} {grown : Nat → Nat}

/-- A step that appends no line. -/
theorem Kept.of_lines {m : DLQFileManager T} {calls : T → AppendCall} {close : CloseCall} (kept : s.Kept)
    (order : m.InOrder (closing ⟨m, calls, close⟩)) (lines : m.lines = s.manager.lines)
    (same : ∀ call, linesOf call (calls call) = linesOf call (s.calls call))
    (closed : close ≠ .idle → m.closed = true) (writable : close ≠ .returned → m.writable = true)
    (ended : close = .returned → m.writers = []) : Kept ⟨m, calls, close⟩ := by
  refine ⟨order, fun call => ?_, closed, writable, ended⟩
  dsimp only
  rw [lines, same]
  exact kept.lines call

theorem Kept.append (kept : s.Kept) {call : T} {batch : List String} (entered : s.calls call = .entered batch)
    (early : s.closing = false) : Kept { s with
      manager := s.manager.appendBatch grown call batch
      calls := Function.update s.calls call (.returned batch) } := by
  obtain ⟨order, added⟩ := DLQFileManager.appendBatch_spec grown call batch (early ▸ kept.order)
  have same := DLQFileManager.appendBatch_same grown s.manager call batch
  refine ⟨?_, fun other => ?_, fun started => ?_, fun unreturned => ?_, fun returned => ?_⟩
  · show DLQFileManager.InOrder _ s.closing
    rw [early]
    exact order
  · dsimp only
    rw [added, List.filter_append, kept.lines other]
    by_cases own : other = call
    · subst own
      simp [entered, linesOf]
    · simp [Function.update_of_ne own, Ne.symm own]
  · rw [same.closed]
    exact kept.closed started
  · rw [same.writable]
    exact kept.writable unreturned
  · have late : s.close = .returned := returned
    simp [closing, late] at early

theorem Kept.enter (kept : s.Kept) {call : T} (idle : s.calls call = .idle) (timestamp : Int) (topic : String)
    (jobIDs : List String) :
    Kept { s with calls := Function.update s.calls call (s.enterCall timestamp topic jobIDs) } := by
  refine kept.of_lines kept.order rfl (fun other => ?_) kept.closed kept.writable kept.ended
  by_cases own : other = call
  · subst own
    rw [Function.update_self, idle]
    unfold enterCall
    repeat' split
    all_goals rfl
  · rw [Function.update_of_ne own]

theorem Kept.write (kept : s.Kept) {w : DLQWriter} (running : w ∈ s.manager.writers) :
    Kept { s with manager := s.manager.writeSection w } := by
  have unreturned : s.close ≠ .returned := by
    intro returned
    simp [kept.ended returned] at running
  obtain ⟨order, same⟩ := DLQFileManager.writeSection_spec kept.order (kept.writable unreturned) running
  have rest := s.manager.writeSection_same w
  refine kept.of_lines order same (fun _ => rfl) ?_ ?_ (fun returned => absurd returned unreturned)
  · exact fun started => rest.closed.trans (kept.closed started)
  · exact fun _ => rest.writable.trans (kept.writable unreturned)

theorem Kept.check (kept : s.Kept)
    (careful : s.manager.closed = false → s.manager.full → s.manager.busy = false) :
    Kept { s with manager := s.manager.checkChained } := by
  obtain ⟨order, same⟩ := DLQFileManager.checkChained_spec kept.order careful
  have rest := s.manager.checkChained_same
  refine kept.of_lines order same (fun _ => rfl) ?_ ?_ (fun returned => ?_)
  · exact fun started => rest.closed.trans (kept.closed started)
  · exact fun unreturned => rest.writable.trans (kept.writable unreturned)
  · rw [DLQFileManager.checkChained_closed (kept.closed (by simp [returned]))]
    exact kept.ended returned

/-- Nothing is in flight once all writers have ended. -/
theorem Kept.finish (kept : s.Kept) (locked : s.close = .locked) (finished : s.manager.finished) :
    Kept { s with manager := s.manager.finalSync, close := .returned } := by
  have idle : s.manager.writers = [] ∧ s.manager.checking = 0 := by
    simpa [DLQFileManager.finished] using finished
  have order := kept.order
  simp only [closing, locked] at order
  refine kept.of_lines ⟨order.valid, order.apart, order.spare, ?_, order.rest⟩ rfl (fun _ => rfl)
    (fun _ => kept.closed (by simp [locked])) (by simp) (fun _ => idle.1)
  cases order.flight with
  | none free nothing idle => exact .none free nothing idle
  | some _ w _ _ _ _ _ alone => simp [alone] at idle

theorem Kept.step {op : DeadLetterOp T} (kept : s.Kept) (careful : s.careful op = true)
    (stepped : s.step grown op = some s') : s'.Kept := by
  cases op with
  | enter call timestamp topic jobIDs =>
    simp only [DeadLetters.step] at stepped
    split at stepped
    · rename_i idle
      cases stepped
      exact kept.enter idle timestamp topic jobIDs
    · cases stepped
  | append call =>
    simp only [DeadLetters.step] at stepped
    split at stepped
    · rename_i batch entered
      cases stepped
      exact kept.append entered (by simpa [DeadLetters.careful] using careful)
    · cases stepped
  | write w =>
    simp only [DeadLetters.step] at stepped
    split at stepped
    · rename_i running
      cases stepped
      exact kept.write running
    · cases stepped
  | check =>
    simp only [DeadLetters.step] at stepped
    split at stepped
    · cases stepped
      simp only [DeadLetters.careful, decide_eq_true_eq] at careful
      exact kept.check careful
    · cases stepped
  | close =>
    simp only [DeadLetters.step] at stepped
    split at stepped
    · rename_i idle
      cases stepped
      have order := kept.order
      simp only [closing, idle] at order
      exact kept.of_lines order.close rfl (fun _ => rfl) (fun _ => rfl) (fun _ => kept.writable (by simp [idle]))
        (by simp)
    · cases stepped
  | closeLocked =>
    simp only [DeadLetters.step] at stepped
    split at stepped
    · rename_i entered
      cases stepped
      have order := kept.order
      simp only [closing, entered] at order
      have closed := kept.closed (by simp [entered])
      simp only [DeadLetters.careful, decide_eq_true_eq] at careful
      obtain ⟨order', same⟩ := DLQFileManager.closeLocked_spec order closed careful
      have rest := s.manager.closeLocked_same
      exact kept.of_lines order' same (fun _ => rfl) (fun _ => rest.closed.trans closed)
        (fun _ => rest.writable.trans (kept.writable (by simp [entered]))) (by simp)
    · cases stepped
  | closeReturn =>
    simp only [DeadLetters.step] at stepped
    split at stepped
    · rename_i waited
      cases stepped
      exact kept.finish waited.1 waited.2
    · cases stepped
  | closeTimeout =>
    simp only [DeadLetters.step] at stepped
    split at stepped
    · rename_i locked
      cases stepped
      have order := kept.order
      simp only [closing, locked] at order
      exact kept.of_lines order rfl (fun _ => rfl) (fun _ => kept.closed (by simp [locked]))
        (fun _ => kept.writable (by simp [locked])) (by simp)
    · cases stepped

/-- Runs of a new manager in which nothing of what `careful` names happens. -/
def Reaches (grown : Nat → Nat) : List (DeadLetterOp T) → DeadLetters T → Prop :=
  Run (fun s op s' => s.step grown op = some s') (fun _ s op => s.careful op = true) new

/-- In every interleaving in which nothing of what `careful` names happens, when
`Close` has returned without an error the file has the lines of every call that
appended its lines, each once and in the order of the call. -/
theorem dead_letters_on_file_once {grown : Nat → Nat} {ops : List (DeadLetterOp T)} {s : DeadLetters T}
    (run : Reaches grown ops s) (returned : s.close = .returned) {call : T} {lines : List String}
    (appended : s.calls call = .returned lines) :
    s.manager.file.filter (fun line => line.1 = call) = lines.map fun line => (call, line) := by
  have kept : s.Kept := by
    refine run.invariant (fun _ s => s.Kept) .start ?_
    intro _ s op s' kept careful stepped
    exact kept.step careful stepped
  have empty := (kept.order.rest (by simp [closing, returned])).2
  have nothing : s.manager.heap.content s.manager.activeBuffer = [] := by
    have cut : s.manager.activeBuffer = ⟨s.manager.activeBuffer.array, 0⟩ := by rw [← empty]
    rw [cut, SliceHeap.content_cut]
  have all : s.manager.lines = s.manager.file := by
    simp [DLQFileManager.lines, kept.ended returned, nothing]
  rw [← all, kept.lines call, appended]
  rfl

/-! ### Given runs -/

/-- The writer alone comes from `s` to the end of its batch; what is in the buffers stays. -/
structure Finishes (grown : Nat → Nat) (s s' : DeadLetters T) : Prop where
  reached : ∃ ops : List (DeadLetterOp T), ops.foldlM (step grown) s = some s'
  calls : s'.calls = s.calls
  close : s'.close = s.close
  idle : s'.manager.writers = []
  checking : s'.manager.checking = s.manager.checking + 1
  closed : s'.manager.closed = s.manager.closed
  lines : s'.manager.lines = s.manager.lines
  waiting : s'.manager.heap.content s'.manager.activeBuffer = s.manager.heap.content s.manager.activeBuffer

/-- One more section of the writer in front. -/
theorem Finishes.before {w : DLQWriter} {m : DLQFileManager T} (rest : Finishes grown { s with manager := m } s')
    (order : s.manager.InOrder false) (writable : s.manager.writable = true) (running : w ∈ s.manager.writers)
    (section' : s.manager.writeSection w = m) (checking : m.checking = s.manager.checking)
    (waiting : m.heap.content m.activeBuffer = s.manager.heap.content s.manager.activeBuffer) : Finishes grown s s' := by
  obtain ⟨ops, executed⟩ := rest.reached
  have same := s.manager.writeSection_same w
  have lines := (DLQFileManager.writeSection_spec order writable running).2
  rw [section'] at same lines
  refine ⟨⟨.write w :: ops, ?_⟩, rest.calls, rest.close, rest.idle, rest.checking.trans ?_,
    rest.closed.trans same.closed, rest.lines.trans lines, rest.waiting.trans waiting⟩
  · rw [List.foldlM_cons]
    have stepped : s.step grown (.write w) = some { s with manager := m } := by
      simp [step, running, section']
    rw [stepped]
    exact executed
  · exact congrArg (· + 1) checking

private theorem persisting_finishes (grown : Nat → Nat) (batch : Slice) (left next : Nat) (s : DeadLetters T)
    (length : next + left = batch.len) (order : s.manager.InOrder false) (writable : s.manager.writable = true)
    (alone : s.manager.writers = [.persisting batch next]) (valid : s.manager.heap.Valid batch) :
    ∃ s', Finishes grown s s' := by
  have running : DLQWriter.persisting batch next ∈ s.manager.writers := by simp [alone]
  have lines := valid.length_content
  have kept := DLQFileManager.writeSection_spec order writable running
  induction left generalizing next s with
  | zero =>
    have written : (s.manager.heap.content batch)[next]? = none := List.getElem?_eq_none_iff.mpr (by omega)
    have section' := DLQFileManager.writeSection_end alone written
    rw [section'] at kept
    refine ⟨{ s with manager := { s.manager with
        flushing := none, busy := false, checking := s.manager.checking + 1, writers := [] } },
      ⟨[.write (.persisting batch next)], ?_⟩, rfl, rfl, rfl, rfl, rfl, kept.2, rfl⟩
    simp [step, running, section']
  | succ left ih =>
    have below : next < (s.manager.heap.content batch).length := by omega
    have line := List.getElem?_eq_getElem below
    have section' := DLQFileManager.writeSection_line alone writable line
    rw [section'] at kept
    obtain ⟨s', rest⟩ := ih (next + 1) { s with manager := _ } (by omega) kept.1 writable rfl valid
      (by simp) lines (DLQFileManager.writeSection_spec kept.1 writable (by simp))
    exact ⟨s', rest.before order writable running section' rfl rfl⟩

/-- A writer that is left alone writes its batch. -/
theorem writer_finishes (grown : Nat → Nat) (s : DeadLetters T) (order : s.manager.InOrder false)
    (writable : s.manager.writable = true) (busy : s.manager.busy = true) : ∃ s', Finishes grown s s' := by
  cases order.flight with
  | none free =>
    rw [busy] at free
    cases free
  | some batch w busy taken lines valid apart alone place =>
    have running : w ∈ s.manager.writers := by simp [alone]
    have captured (s : DeadLetters T) (order : s.manager.InOrder false) (writable : s.manager.writable = true)
        (valid : s.manager.heap.Valid batch) (alone : s.manager.writers = [.captured batch]) :
        ∃ s', Finishes grown s s' := by
      have running : DLQWriter.captured batch ∈ s.manager.writers := by simp [alone]
      have section' := DLQFileManager.writeSection_captured alone writable
      have kept := DLQFileManager.writeSection_spec order writable running
      rw [section'] at kept
      obtain ⟨s', rest⟩ := persisting_finishes grown batch batch.len 0 { s with manager := _ } (by simp) kept.1
        writable rfl valid
      exact ⟨s', rest.before order writable running section' rfl rfl⟩
    rcases place with rfl | rfl | ⟨next, bound, rfl⟩
    · have section' := DLQFileManager.writeSection_started alone taken lines
      have kept := DLQFileManager.writeSection_spec order writable running
      rw [section'] at kept
      obtain ⟨s', rest⟩ := captured { s with manager := _ } kept.1 writable valid rfl
      exact ⟨s', rest.before order writable running section' rfl rfl⟩
    · exact captured s order writable valid alone
    · exact persisting_finishes grown batch (batch.len - next) next s (by omega) order writable alone valid

/-- A call of `AppendBatch` that nothing comes between. -/
theorem call_executes (grown : Nat → Nat) (s : DeadLetters T) (call : T) (timestamp : Int) (topic : String)
    (jobIDs : List String) (idle : s.calls call = .idle) (opened : s.manager.closed = false) (some' : jobIDs ≠ []) :
    [.enter call timestamp topic jobIDs, .append call].foldlM (step grown) s = some { s with
      manager := s.manager.appendBatch grown call (jobIDs.map (DLQFileManager.formatLine timestamp topic))
      calls := Function.update s.calls call (.returned (jobIDs.map (DLQFileManager.formatLine timestamp topic))) } := by
  simp [step, enterCall, idle, opened, some']

/-- `Close` takes nothing while a flush is busy. -/
theorem close_executes_busy (grown : Nat → Nat) (s : DeadLetters T) (idle : s.close = .idle)
    (busy : s.manager.busy = true) : [.close, .closeLocked].foldlM (step grown) s = some { s with
      manager := { s.manager with closed := true }, close := .locked } := by
  simp [step, idle, DLQFileManager.closeLocked, busy]

/-- When no writer is left `Close` returns. -/
theorem close_returns (grown : Nat → Nat) (s : DeadLetters T) (locked : s.close = .locked)
    (closed : s.manager.closed = true) (idle : s.manager.writers = []) :
    ∃ (ops : List (DeadLetterOp T)) (s' : DeadLetters T), ops.foldlM (step grown) s = some s' ∧
      s'.close = .returned ∧ s'.calls = s.calls ∧ s'.manager.file = s.manager.file := by
  generalize left : s.manager.checking = checking
  induction checking generalizing s with
  | zero =>
    refine ⟨[.closeReturn], { s with manager := s.manager.finalSync, close := .returned }, ?_, rfl, rfl, rfl⟩
    simp [step, locked, DLQFileManager.finished, idle, left]
  | succ checking ih =>
    let checked : DeadLetters T := { s with manager := { s.manager with checking := s.manager.checking - 1 } }
    have stepped : s.step grown .check = some checked := by
      simp [step, left, DLQFileManager.checkChained_closed closed, checked]
    obtain ⟨ops, s', executed, returned, calls, file⟩ := ih checked locked closed idle (by simp [checked, left])
    refine ⟨.check :: ops, s', ?_, returned, calls, file⟩
    rw [List.foldlM_cons, stepped]
    exact executed

private def doubled (cap : Nat) : Nat := 2 * cap

/-- Any interleaving. -/
private abbrev Runs (ops : List (DeadLetterOp Nat)) (s : DeadLetters Nat) : Prop :=
  Run (fun s op s' => s.step doubled op = some s') (fun _ _ _ => True) new ops s

private theorem runs_of_executed {ops : List (DeadLetterOp Nat)} {s : DeadLetters Nat}
    (executed : ops.foldlM (step doubled) new = some s) : Runs ops s :=
  Run.of_execute (fun _ _ _ _ taken => ⟨trivial, taken⟩) executed

/-- As many job IDs as fill a buffer. -/
private def manyIDs : List String := (List.range DLQFileManager.initialCap).map toString

/-- A call fills the buffer, another one returns, and `Close` gets the lock while
the writer of the first call's lines has not begun. -/
private def closedWhileBusy (jobIDs : List String) : List (DeadLetterOp Nat) :=
  [.enter 0 7 "t" jobIDs, .append 0] ++ ([.enter 1 7 "t" ["x"], .append 1] ++ [.close, .closeLocked])

/-- A call returns, another one passes the check of `closed`, and gets the lock
after `Close` has started the writer and before that reads the line. -/
private def lateAppend : List (DeadLetterOp Nat) :=
  [.enter 0 7 "t" ["x"], .append 0, .enter 1 7 "t" ["y"], .close, .closeLocked, .append 1, .write .started,
    .write (.captured ⟨0, 1⟩), .write (.persisting ⟨0, 1⟩ 0), .write (.persisting ⟨0, 1⟩ 1), .check, .closeReturn]

private theorem closedWhileBusy_executes {jobIDs : List String} (length : jobIDs.length = DLQFileManager.initialCap) :
    ∃ s : DeadLetters Nat, (closedWhileBusy jobIDs).foldlM (step doubled) new = some s ∧ s.close = .locked ∧
      s.manager.closed = true ∧ s.calls 1 = .returned [DLQFileManager.formatLine 7 "t" "x"] ∧
      s.manager.InOrder false ∧ s.manager.busy = true ∧ s.manager.writable = true ∧
      s.manager.heap.content s.manager.activeBuffer = [(1, DLQFileManager.formatLine 7 "t" "x")] ∧
      s.manager.lines = (jobIDs.map (DLQFileManager.formatLine 7 "t")).map (fun line => (0, line)) ++
        [(1, DLQFileManager.formatLine 7 "t" "x")] := by
  have nonempty : jobIDs ≠ [] := by
    rintro rfl
    cases length
  generalize first_eq : jobIDs.map (DLQFileManager.formatLine 7 "t") = first
  generalize second_eq : DLQFileManager.formatLine 7 "t" "x" = second
  have filled : first.length = DLQFileManager.initialCap := by simp [← first_eq, length]
  have lines : first ≠ [] := by simpa [← first_eq] using nonempty
  -- the first call fills the buffer, and the second one finds the flush busy
  obtain ⟨order₁, lines₁⟩ := DLQFileManager.appendBatch_spec doubled 0 first DLQFileManager.new_inOrder
  obtain ⟨busy₁, empty₁⟩ := DLQFileManager.appendBatch_full doubled 0 first DLQFileManager.new_inOrder rfl lines
    (by rw [filled]; rfl)
  have same₁ := DLQFileManager.appendBatch_same doubled DLQFileManager.new 0 first
  generalize m₁_eq : DLQFileManager.new.appendBatch doubled 0 first = m₁ at order₁ lines₁ busy₁ empty₁ same₁
  obtain ⟨order₂, lines₂⟩ := DLQFileManager.appendBatch_spec doubled 1 [second] order₁
  obtain ⟨busy₂, waiting₂⟩ := DLQFileManager.appendBatch_busy doubled 1 second order₁ busy₁
  have same₂ := DLQFileManager.appendBatch_same doubled m₁ 1 [second]
  generalize m₂_eq : m₁.appendBatch doubled 1 [second] = m₂ at order₂ lines₂ busy₂ waiting₂ same₂
  have opened : m₁.closed = false := same₁.closed
  refine ⟨⟨{ m₂ with closed := true }, Function.update (Function.update new.calls 0 (.returned first)) 1
    (.returned [second]), .locked⟩, ?_, rfl, rfl, rfl, order₂.close, busy₂,
    same₂.writable.trans same₁.writable, ?_, ?_⟩
  · have call₁ := call_executes doubled new 0 7 "t" jobIDs rfl rfl nonempty
    rw [first_eq] at call₁
    change _ = some (⟨DLQFileManager.new.appendBatch doubled 0 first, _, .idle⟩ : DeadLetters Nat) at call₁
    rw [m₁_eq] at call₁
    have call₂ := call_executes doubled ⟨m₁, Function.update new.calls 0 (.returned first), .idle⟩ 1 7 "t" ["x"]
      rfl opened (by simp)
    simp only [List.map_cons, List.map_nil, second_eq, m₂_eq] at call₂
    rw [closedWhileBusy, List.foldlM_append, call₁, Option.bind_eq_bind, Option.bind_some, List.foldlM_append, call₂]
    exact close_executes_busy doubled ⟨m₂, _, .idle⟩ rfl busy₂
  · exact waiting₂.trans (by rw [empty₁]; rfl)
  · exact lines₂.trans (by rw [lines₁]; rfl)

/-- A call that has returned before `Close` was called, and whose line is not on
file when `Close` has returned: the line stayed in the buffer, or was written over. -/
theorem close_loses_lines :
    (∃ ops s, Runs (closedWhileBusy manyIDs ++ ops) s ∧ s.close = .returned ∧
      s.calls 1 = .returned [DLQFileManager.formatLine 7 "t" "x"] ∧
      s.manager.file.filter (fun line => line.1 = 1) = []) ∧
    ∃ s, Runs lateAppend s ∧ s.close = .returned ∧
      s.calls 0 = .returned [DLQFileManager.formatLine 7 "t" "x"] ∧
      s.manager.file = [(1, DLQFileManager.formatLine 7 "t" "y")] := by
  constructor
  · have length : manyIDs.length = DLQFileManager.initialCap := by simp [manyIDs]
    generalize manyIDs = jobIDs at length
    obtain ⟨s, executed, locked, closed, calls, order, busy, writable, waiting, lines⟩ := closedWhileBusy_executes length
    obtain ⟨s₁, finished⟩ := writer_finishes doubled s order writable busy
    obtain ⟨ops, written⟩ := finished.reached
    obtain ⟨ops', s₂, executed', returned, calls', file⟩ := close_returns doubled s₁ (finished.close.trans locked)
      (finished.closed.trans closed) finished.idle
    refine ⟨ops ++ ops', s₂, runs_of_executed ?_, returned, ?_, ?_⟩
    · rw [List.foldlM_append, executed]
      show (ops ++ ops').foldlM (step doubled) s = _
      rw [List.foldlM_append, written]
      exact executed'
    · rw [calls', finished.calls, calls]
    · -- the file has what was appended, without what still waits in the active buffer
      have split : s₁.manager.file ++ [(1, DLQFileManager.formatLine 7 "t" "x")] =
          (jobIDs.map (DLQFileManager.formatLine 7 "t")).map (fun line => (0, line)) ++
            [(1, DLQFileManager.formatLine 7 "t" "x")] := by
        have all := finished.lines.trans lines
        rwa [DLQFileManager.lines, finished.idle, finished.waiting, waiting, List.flatMap_nil, List.append_nil] at all
      rw [file, List.append_cancel_right split]
      simp
  · exact ⟨_, runs_of_executed rfl, rfl, rfl, rfl⟩

/-- A call appends two lines, and `Close` writes them. -/
private def closedAfter : List (DeadLetterOp Nat) :=
  [.enter 0 7 "t" ["x", "y"], .append 0, .close, .closeLocked, .write .started, .write (.captured ⟨0, 2⟩),
    .write (.persisting ⟨0, 2⟩ 0), .write (.persisting ⟨0, 2⟩ 1), .write (.persisting ⟨0, 2⟩ 2), .check, .closeReturn]

private theorem closedAfter_executes : (closedAfter.foldlM (fun (s : DeadLetters Nat) op =>
    if s.careful op = true then s.step doubled op else none) new).isSome = true := rfl

theorem close_writes_lines : ∃ s : DeadLetters Nat, Reaches doubled closedAfter s ∧ s.close = .returned ∧
    s.calls 0 = .returned (["x", "y"].map (DLQFileManager.formatLine 7 "t")) ∧
    s.manager.file.filter (fun line => line.1 = 0) =
      (["x", "y"].map (DLQFileManager.formatLine 7 "t")).map fun line => (0, line) := by
  have run : Reaches doubled closedAfter (Option.get _ closedAfter_executes) := Run.of_guarded (Option.some_get _).symm
  exact ⟨_, run, rfl, rfl, dead_letters_on_file_once run rfl rfl⟩

end DeadLetters
end Cue.Cluster
