import Cue.Cluster.DLQRotation
import Cue.Lib.Run

/-! What a rotation of the dead-letter file loses. A rename over a file loses
what that file held, and opening the current file removes the temporary one. So
lines are lost if a temporary file is left over, if a file was sealed in the same
second, or if the current file can neither be sealed nor moved back. `lost` says
which lines these are, and nothing else is lost.

- `rotation_keeps_lines_iff` is that account for one rotation of any directory.
- `lines_kept_in_safe_run` is what follows for a manager from its start on.
- `sealed_twice_in_a_second` is a run that loses its first line. -/
namespace Cue.Cluster
open Cue.Lib

/-- The lines of all files. -/
def DLQDirectory.lines (dir : DLQDirectory) : List String := dir.pairs.flatMap Prod.snd

/-- The lines of one file, none if it is missing. -/
def DLQDirectory.content (dir : DLQDirectory) (name : DLQName) : List String := (dir.get name).getD []

namespace DLQDirectory

variable {dir dir' : DLQDirectory} {name other : DLQName}

theorem lines_perm_delete (dir : DLQDirectory) (name : DLQName) :
    (lines dir).Perm (content dir name ++ lines (dir.delete name)) := by
  unfold content
  cases found : dir.get name with
  | none =>
    rw [FinMap.delete_of_not_contains (by rw [FinMap.contains, found]; rfl)]
    exact .refl _
  | some kept => exact (FinMap.pairs_perm_delete found).flatMap_right Prod.snd

theorem lines_set (dir : DLQDirectory) (name : DLQName) (kept : List String) :
    lines (dir.set name kept) = kept ++ lines (dir.delete name) := rfl

theorem content_delete (dir : DLQDirectory) (name other : DLQName) :
    content (dir.delete name) other = if other = name then [] else content dir other := by
  unfold content
  rw [FinMap.get_delete]
  split <;> rfl

theorem content_set (dir : DLQDirectory) (name other : DLQName) (kept : List String) :
    content (dir.set name kept) other = if other = name then kept else content dir other := by
  unfold content
  rw [FinMap.get_set]
  split <;> rfl

theorem renameFile_eq_none_iff {succeeds : Bool} :
    renameFile succeeds name other dir = none ↔ succeeds = false ∨ dir.get name = none := by
  unfold renameFile
  cases dir.get name <;> cases succeeds <;> simp

theorem renameFile_eq_some {succeeds : Bool} (renamed : renameFile succeeds name other dir = some dir') :
    succeeds = true ∧ ∃ kept, dir.get name = some kept ∧ dir' = (dir.delete name).set other kept := by
  unfold renameFile at renamed
  split at renamed
  · cases renamed
  · rename_i kept found
    split at renamed
    · cases renamed
      exact ⟨‹_›, kept, found, rfl⟩
    · cases renamed

/-- A rename loses what its target held. -/
theorem lines_perm_rename {succeeds : Bool} (apart : name ≠ other)
    (renamed : renameFile succeeds name other dir = some dir') :
    (lines dir).Perm (content dir other ++ lines dir') := by
  obtain ⟨-, kept, found, rfl⟩ := renameFile_eq_some renamed
  have target : content (dir.delete name) other = content dir other := by
    rw [content_delete, if_neg (Ne.symm apart)]
  have first : (lines dir).Perm (kept ++ lines (dir.delete name)) := by
    have split := lines_perm_delete dir name
    rwa [content, found, Option.getD_some] at split
  have second := lines_perm_delete (dir.delete name) other
  rw [target] at second
  rw [lines_set]
  exact (first.trans (second.append_left kept)).trans (List.perm_append_comm_assoc _ _ _)

theorem content_rename {succeeds : Bool} {target : DLQName}
    (renamed : renameFile succeeds name target dir = some dir') (other : DLQName) :
    content dir' other = if other = target then content dir name else
      if other = name then [] else content dir other := by
  obtain ⟨-, kept, found, rfl⟩ := renameFile_eq_some renamed
  have source : content dir name = kept := by rw [content, found, Option.getD_some]
  rw [content_set, content_delete, source]

end DLQDirectory

namespace DLQFiles
open DLQDirectory

variable {m : DLQFiles} {stamp : String} {renames : Renames}

/-- Opening the current file loses the temporary one. -/
theorem lines_perm_open (m : DLQFiles) : (lines m.dir).Perm (content m.dir .temp ++ lines m.openCurrentFile.dir) := by
  refine (lines_perm_delete m.dir .temp).trans (List.Perm.append_left _ ?_)
  exact lines_perm_delete (m.dir.delete .temp) .current

/-- The lines that a rotation loses. -/
def lost (m : DLQFiles) (stamp : String) (renames : Renames) : List String :=
  if (m.fileSize : Int) ≤ m.maxSizeBytes ∨ m.writable = false then []
  else content m.dir .temp ++
    if renames.toTemp = false ∨ m.dir.get .current = none then []
    else if renames.toSealed then content m.dir (.sealed stamp)
    else if renames.back then []
    else content m.dir .current

/-- The rest of a rotation, with the lines in the temporary file. -/
def sealTemp (m : DLQFiles) (stamp : String) (renames : Renames) (dir : DLQDirectory) : DLQFiles :=
  match DLQDirectory.renameFile renames.toSealed .temp (.sealed stamp) dir with
  | none => { m with dir := (DLQDirectory.renameFile renames.back .temp .current dir).getD dir }.openCurrentFile
  | some dir => { { m with dir := dir }.openCurrentFile with fileSize := 0 }

theorem lines_perm_sealTemp (m : DLQFiles) {dir : DLQDirectory} (there : dir.get .temp ≠ none) :
    (lines dir).Perm ((if renames.toSealed then content dir (.sealed stamp)
      else if renames.back then content dir .current else content dir .temp) ++
        lines (m.sealTemp stamp renames dir).dir) := by
  unfold sealTemp
  cases second : DLQDirectory.renameFile renames.toSealed .temp (.sealed stamp) dir with
  | some sealedDir =>
    rw [if_pos (renameFile_eq_some second).1]
    have emptied : content sealedDir .temp = [] := content_rename second .temp
    have opened := lines_perm_open { m with dir := sealedDir }
    rw [emptied] at opened
    exact (lines_perm_rename DLQName.noConfusion second).trans (opened.append_left _)
  | none =>
    -- the temporary file is there, so only its flag makes a rename of it fail
    have unsealed : renames.toSealed = false := (renameFile_eq_none_iff.mp second).resolve_right there
    rw [if_neg (Bool.not_eq_true _ ▸ unsealed)]
    cases third : DLQDirectory.renameFile renames.back .temp .current dir with
    | some backDir =>
      rw [if_pos (renameFile_eq_some third).1]
      have emptied : content backDir .temp = [] := content_rename third .temp
      have opened := lines_perm_open { m with dir := backDir }
      rw [emptied] at opened
      exact (lines_perm_rename DLQName.noConfusion third).trans (opened.append_left _)
    | none =>
      have stuck : renames.back = false := (renameFile_eq_none_iff.mp third).resolve_right there
      rw [if_neg (Bool.not_eq_true _ ▸ stuck)]
      exact lines_perm_open { m with dir := dir }

/-- A rotation loses `lost`, and nothing else. -/
theorem lines_perm_doRotate (m : DLQFiles) (stamp : String) (renames : Renames) :
    (lines m.dir).Perm (m.lost stamp renames ++ lines (m.doRotate stamp renames).dir) := by
  unfold lost doRotate
  dsimp only
  split
  · exact .refl _
  · cases first : DLQDirectory.renameFile renames.toTemp .current .temp m.dir with
    | none =>
      rw [if_pos (renameFile_eq_none_iff.mp first), List.append_nil]
      exact lines_perm_open _
    | some dir =>
      have done : ¬(renames.toTemp = false ∨ m.dir.get .current = none) := by
        intro failed
        rw [renameFile_eq_none_iff.mpr failed] at first
        cases first
      have there : dir.get .temp ≠ none := by
        obtain ⟨-, kept, -, rfl⟩ := renameFile_eq_some first
        rw [FinMap.get_set_self]
        exact Option.some_ne_none kept
      have moved := content_rename first
      have sealedKept : content dir (.sealed stamp) = content m.dir (.sealed stamp) := moved (.sealed stamp)
      have vacant : content dir .current = [] := moved .current
      have stranded : content dir .temp = content m.dir .current := moved .temp
      have rest := @lines_perm_sealTemp stamp renames { m with rotating := false } dir there
      rw [sealedKept, vacant, stranded] at rest
      rw [if_neg done, List.append_assoc]
      exact (lines_perm_rename DLQName.noConfusion first).trans (rest.append_left _)

/-- The manager has its file open, and the file is in the directory. -/
structure Open (m : DLQFiles) : Prop where
  writable : m.writable = true
  current : ∃ kept, m.dir.get .current = some kept

theorem openCurrentFile_open (m : DLQFiles) : m.openCurrentFile.Open where
  writable := rfl
  current := ⟨_, FinMap.get_set_self _ _ _⟩

theorem newManager_open (dir : DLQDirectory) (maxSizeBytes : Int) : (newManager dir maxSizeBytes).Open :=
  openCurrentFile_open _

/-- A rotation that is due opens the file; one that is not leaves it as it was. -/
theorem doRotate_open_iff (m : DLQFiles) (stamp : String) (renames : Renames) :
    (m.doRotate stamp renames).Open ↔
      m.writable = true ∧ ((m.fileSize : Int) ≤ m.maxSizeBytes → ∃ kept, m.dir.get .current = some kept) := by
  by_cases due : (m.fileSize : Int) ≤ m.maxSizeBytes ∨ m.writable = false
  · have same : m.doRotate stamp renames = { m with rotating := false } := if_pos due
    rw [same]
    constructor
    · exact fun opened => ⟨opened.writable, fun _ => opened.current⟩
    · rintro ⟨writable, present⟩
      exact ⟨writable, present (due.resolve_right (by rw [writable]; exact Bool.noConfusion))⟩
  · have opened : (m.doRotate stamp renames).Open := by
      unfold doRotate
      dsimp only
      rw [if_neg due]
      split
      · exact openCurrentFile_open _
      · split
        · exact openCurrentFile_open _
        · exact ⟨rfl, (openCurrentFile_open _).current⟩
    rw [not_or, Bool.not_eq_false] at due
    exact iff_of_true opened ⟨due.2, fun small => absurd small due.1⟩

theorem Open.doRotate (opened : m.Open) (stamp : String) (renames : Renames) : (m.doRotate stamp renames).Open :=
  (doRotate_open_iff m stamp renames).mpr ⟨opened.writable, fun _ => opened.current⟩

/-- What is persisted goes to the end of the current file; the other files are left alone. -/
theorem Open.persistBatch (opened : m.Open) (batch : List String) :
    ∃ kept after, m.dir.get .current = some kept ∧ m.persistBatch batch = some after ∧
      after.dir = m.dir.set .current (kept ++ batch) ∧ after.writable = true := by
  obtain ⟨kept, current⟩ := opened.current
  refine ⟨kept, _, current, if_pos opened.writable, ?_, opened.writable⟩
  simp only [current]

/-- A batch goes to the end of the current file, and no other file is touched. -/
def Appends (m : DLQFiles) (batch : List String) : Prop :=
  ∃ kept after, m.dir.get .current = some kept ∧ m.persistBatch batch = some after ∧
    after.dir.get .current = some (kept ++ batch) ∧ ∀ name, name ≠ .current → after.dir.get name = m.dir.get name

theorem appends_iff (m : DLQFiles) : (∀ batch, m.Appends batch) ↔ m.Open := by
  constructor
  · intro appends
    obtain ⟨kept, after, current, persisted, -⟩ := appends []
    refine ⟨?_, kept, current⟩
    by_contra closed
    rw [DLQFiles.persistBatch, if_neg closed] at persisted
    cases persisted
  · intro opened batch
    obtain ⟨kept, after, current, persisted, dir, -⟩ := opened.persistBatch batch
    refine ⟨kept, after, current, persisted, ?_, ?_⟩
    · rw [dir, FinMap.get_set_self]
    · intro name other
      rw [dir, FinMap.get_set, if_neg other]

/-- A rotation keeps every line exactly if there was nothing in the files it
replaces or removes. The batch after it goes to the end of the current file, if
the manager can write at all and its file was not taken away before. -/
theorem rotation_keeps_lines_iff (m : DLQFiles) (stamp : String) (renames : Renames) :
    (lines m.dir).Perm (m.lost stamp renames ++ lines (m.doRotate stamp renames).dir) ∧
    ((lines (m.doRotate stamp renames).dir).Perm (lines m.dir) ↔ m.lost stamp renames = []) ∧
    ((∀ batch, (m.doRotate stamp renames).Appends batch) ↔
      m.writable = true ∧ ((m.fileSize : Int) ≤ m.maxSizeBytes → ∃ kept, m.dir.get .current = some kept)) := by
  have account := lines_perm_doRotate m stamp renames
  refine ⟨account, ⟨?_, ?_⟩, ?_⟩
  · intro same
    have counted := (same.trans account).length_eq
    rw [List.length_append] at counted
    exact List.eq_nil_of_length_eq_zero (by omega)
  · intro nothing
    rw [nothing] at account
    exact account.symm
  · rw [appends_iff, doRotate_open_iff]

/-- The current file is sealed in a new second; the batch after it is the first of a new file. -/
theorem rotation_keeps_lines_sealed :
    let m : DLQFiles := ⟨FinMap.empty.set .current ["1|orders|a\n"], 0, true, 11, true⟩
    m.lost "2025-01-01T00-00-00" ⟨true, true, true⟩ = [] ∧
    (lines (m.doRotate "2025-01-01T00-00-00" ⟨true, true, true⟩).dir).Perm (lines m.dir) ∧
    (m.doRotate "2025-01-01T00-00-00" ⟨true, true, true⟩).Appends ["1|orders|b\n"] := by
  intro m
  obtain ⟨-, same, next⟩ := rotation_keeps_lines_iff m "2025-01-01T00-00-00" ⟨true, true, true⟩
  exact ⟨rfl, same.mpr rfl, next.mpr ⟨rfl, fun _ => ⟨_, rfl⟩⟩ _⟩

/-- If neither rename of the temporary file succeeds, opening the current file removes it. -/
example : lines ((⟨FinMap.empty.set .current ["1|orders|a\n"], 0, true, 11, true⟩ : DLQFiles).doRotate
    "2025-01-01T00-00-00" ⟨true, false, false⟩).dir = [] := rfl

/-! ### A manager from its start on -/

inductive FileOp where
  | persist (batch : List String)
  | rotate (stamp : String) (renames : Renames)
  deriving DecidableEq, Repr

def perform (m : DLQFiles) : FileOp → Option DLQFiles
  | .persist batch => m.persistBatch batch
  | .rotate stamp renames => some (m.doRotate stamp renames)

def FileOp.written : FileOp → List String
  | .persist batch => batch
  | .rotate _ _ => []

/-- The second is a new one, and a file that cannot be sealed can be moved back. -/
def Safe (m : DLQFiles) : FileOp → Prop
  | .persist _ => True
  | .rotate stamp renames =>
    content m.dir (.sealed stamp) = [] ∧ (renames.toSealed = true ∨ renames.back = true)

/-- No line is lost so far, and no temporary file is left over. -/
structure Kept (first : DLQFiles) (ops : List FileOp) (m : DLQFiles) : Prop where
  opened : m.Open
  noTemp : content m.dir .temp = []
  lines : (lines m.dir).Perm (lines first.dir ++ ops.flatMap FileOp.written)

theorem content_temp_open (m : DLQFiles) : content m.openCurrentFile.dir .temp = [] := by
  unfold openCurrentFile
  rw [content_set, if_neg DLQName.noConfusion, content_delete, if_pos rfl]

theorem content_temp_doRotate (noTemp : content m.dir .temp = []) :
    content (m.doRotate stamp renames).dir .temp = [] := by
  unfold doRotate
  dsimp only
  split
  · exact noTemp
  · split
    · exact content_temp_open _
    · split <;> exact content_temp_open _

theorem lost_of_safe (noTemp : content m.dir .temp = []) (safe : m.Safe (.rotate stamp renames)) :
    m.lost stamp renames = [] := by
  obtain ⟨fresh, sealedOrBack⟩ := safe
  unfold lost
  rw [noTemp, fresh]
  rcases sealedOrBack with done | done <;> simp [done]

theorem Kept.step {first m' : DLQFiles} {ops : List FileOp} {op : FileOp} (kept : Kept first ops m)
    (safe : m.Safe op) (performed : m.perform op = some m') : Kept first (ops ++ [op]) m' := by
  have written : (ops ++ [op]).flatMap FileOp.written = ops.flatMap FileOp.written ++ op.written := by
    rw [List.flatMap_append, List.flatMap_singleton]
  cases op with
  | persist batch =>
    obtain ⟨old, after, current, persisted, dir, writable⟩ := kept.opened.persistBatch batch
    cases persisted.symm.trans performed
    refine ⟨⟨writable, ⟨_, dir ▸ FinMap.get_set_self _ _ _⟩⟩, ?_, ?_⟩
    · rw [dir, content_set, if_neg DLQName.noConfusion]
      exact kept.noTemp
    · have whole := lines_perm_delete m.dir .current
      rw [content, current, Option.getD_some] at whole
      rw [dir, lines_set, written, ← List.append_assoc]
      refine .trans ?_ (kept.lines.append_right batch)
      refine .trans ?_ (whole.append_right batch).symm
      rw [List.append_assoc, List.append_assoc]
      exact List.perm_append_comm.append_left old
  | rotate stamp renames =>
    cases performed
    refine ⟨kept.opened.doRotate stamp renames, content_temp_doRotate kept.noTemp, ?_⟩
    have account := lines_perm_doRotate m stamp renames
    rw [lost_of_safe kept.noTemp safe, List.nil_append] at account
    rw [written, FileOp.written, List.append_nil]
    exact account.symm.trans kept.lines

/-- If no second is used twice and no file is stuck under its temporary name,
every line that was there at the start or was persisted since is in some file. -/
theorem lines_kept_in_safe_run {dir : DLQDirectory} {maxSizeBytes : Int} {ops : List FileOp}
    (run : Run (fun m op m' => perform m op = some m') (fun _ => Safe) (newManager dir maxSizeBytes) ops m) :
    (lines m.dir).Perm (lines (newManager dir maxSizeBytes).dir ++ ops.flatMap FileOp.written) := by
  have start : Kept (newManager dir maxSizeBytes) [] (newManager dir maxSizeBytes) := by
    refine ⟨newManager_open dir maxSizeBytes, content_temp_open _, ?_⟩
    rw [List.flatMap_nil, List.append_nil]
  exact (run.invariant (Kept _) start fun _ _ _ _ kept safe stepped => kept.step safe stepped).lines

/-- Two rotations in one second: the second one replaces the file that the first one sealed. -/
theorem sealed_twice_in_a_second :
    ∃ m, [.persist ["1|orders|a\n"], .rotate "2025-01-01T00-00-00" ⟨true, true, true⟩,
        .persist ["1|orders|b\n"]].foldlM perform (newManager .empty 0) = some m ∧
      lines m.dir = ["1|orders|b\n", "1|orders|a\n"] ∧
      lines (m.doRotate "2025-01-01T00-00-00" ⟨true, true, true⟩).dir = ["1|orders|b\n"] ∧
      ¬(lines (m.doRotate "2025-01-01T00-00-00" ⟨true, true, true⟩).dir).Perm (lines m.dir) :=
  ⟨_, rfl, rfl, rfl, fun same => absurd same.length_eq (by decide)⟩

end DLQFiles
end Cue.Cluster
