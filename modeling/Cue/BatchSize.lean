import Cue.NoStarvation
import Cue.ProxyMapProofs

/-! The size of the batch that a dispatch reads for a proxy. The score is
multiplied before it is clamped and can be any positive number, so the product
wraps around; from below nothing clamps it. A batch of size zero or less reads
nothing, however many jobs are ready. -/
namespace Cue.State
open Cue.Lib Cue.Model

/-- Without room for a record nothing is read. -/
theorem ProcessQueue.readBatch_nil {pq : ProcessQueue} {count : Int} (none : count ≤ 0) (nowSec : Int) :
    pq.readBatch count nowSec = [] := by
  have empty : ∀ due, pq.collect due count.toNat = [] := by
    intro due
    rw [collect, Int.toNat_of_nonpos none, List.take_zero]
  unfold readBatch
  dsimp only
  split
  · rfl
  · rw [empty, if_neg]
    simp only [List.length_nil, not_and]
    omega

namespace Partition

variable {p : Partition} {env : DispatchEnv} {proxyID : String} {score : Int} {pm : ProxyMap} {pushCh : PushCh}

/-- The clamps bound the size from above; from below only the product does. -/
theorem batchSize_within_iff {free : Int} (room : 1 ≤ free) :
    (1 ≤ p.batchSize score free ∧ p.batchSize score free ≤ min 4096 free) ↔
      1 ≤ int64 (score * p.config.dispatchBatchSize) := by
  unfold batchSize
  omega

theorem offeredSize_eq (leads : clusterNodeStatusFromUint32 env.status = .leaderActive)
    (next : p.proxyMap.getNextAvailable = .ok (some (proxyID, score), pm)) (positive : 0 < score)
    (channel : p.proxyPushChs.get proxyID = some pushCh) (room : 1 ≤ (pushCh.cap : Int) - env.chLen) :
    p.offeredSize env = some (p.batchSize score (pushCh.cap - env.chLen)) := by
  have somebody : p.proxyMap.available ≠ [] := by
    intro nobody
    rw [ProxyMap.getNextAvailable_none nobody] at next
    cases next
  unfold offeredSize
  rw [if_neg (by simp [leads, somebody]), next]
  simp only [channel]
  rw [if_neg (by omega), if_neg (by omega)]

/-- A proxy with a positive score has the turn and its channel has room, on an
active leader. The batch size is within one, the free slots and 4096, and a
ready job makes the dispatch read something, exactly if the product of score and
`DispatchBatchSize` is positive as an `int64`. -/
theorem batch_usable_iff {p : Partition} {env : DispatchEnv} {proxyID : String} {score : Int} {pm : ProxyMap}
    {pushCh : PushCh} (leads : clusterNodeStatusFromUint32 env.status = .leaderActive)
    (next : p.proxyMap.getNextAvailable = .ok (some (proxyID, score), pm)) (positive : 0 < score)
    (channel : p.proxyPushChs.get proxyID = some pushCh) (room : 1 ≤ (pushCh.cap : Int) - env.chLen)
    (clock : env.nowSec < 2 ^ 63) :
    ((1 ≤ p.batchSize score (pushCh.cap - env.chLen) ∧
        p.batchSize score (pushCh.cap - env.chLen) ≤ min 4096 ((pushCh.cap : Int) - env.chLen)) ↔
      1 ≤ int64 (score * p.config.dispatchBatchSize)) ∧
    ∀ job ∈ p.processQueue.live, job.dueTimeSec ≤ env.nowSec →
      (p.itemsRead env ≠ [] ↔ 1 ≤ int64 (score * p.config.dispatchBatchSize)) := by
  have within := @batchSize_within_iff p score _ room
  refine ⟨within, fun job queued ready => ?_⟩
  rw [itemsRead_of_offeredSize (offeredSize_eq leads next positive channel room)]
  constructor
  · intro read
    by_contra wrapped
    refine read (ProcessQueue.readBatch_nil ?_ env.nowSec)
    unfold batchSize
    omega
  · intro unwrapped
    exact ProcessQueue.readBatch_ne_nil (within.mpr unwrapped).1 clock queued ready

/-- As long as the product fits, it is positive. -/
theorem product_usable {size : Int} (positive : 0 < score) (some : 0 < size) (fits : score * size < 2 ^ 63) :
    1 ≤ int64 (score * size) := by
  have product := Int.mul_pos positive some
  rw [int64, Int.bmod_eq_of_le (by omega) (by omega)]
  exact product

private def ofOrders (dispatchBatchSize : Int) : Partition := new "orders" ⟨4, 3, 20, dispatchBatchSize, 1000, 1000⟩ 0

/-- A channel of four slots for a proxy, its heartbeat, and a job. -/
private def reportOps (score : Int) : List Op :=
  [.topology (.add "proxy" (some ⟨0, 4⟩)),
    .heartbeat { proxyID := "proxy", topic := "orders", consumptionScore := score, timestamp := 0 },
    .command { type := .addJobs, addJobs := some ⟨"orders", [⟨"a", "orders", [], false, 1⟩]⟩ } fun _ => ⟨1, 1⟩]

private def reported (dispatchBatchSize score : Int) : Partition where
  topic := "orders"
  config := ⟨4, 3, 20, dispatchBatchSize, 1000, 1000⟩
  jobStore := ⟨[⟨"a", "orders", [], false, 1⟩], [], FinMap.empty.set "a" 0, 64⟩
  processQueue := ⟨[⟨0, 0, 0, 1⟩, tombstone, tombstone, tombstone], 1⟩
  proxyMap := ⟨FinMap.empty.set "proxy" ⟨score, 0⟩, ["proxy"], FinMap.empty.set "proxy" 0, 0⟩
  dlqBuffer := .new 1000 1000 0
  proxyPushChs := FinMap.empty.set "proxy" ⟨0, 4⟩

private def leading : DispatchEnv := ⟨73, 0, 5, true, true, fun _ => 5⟩

theorem batch_usable_score_three :
    (reported 10 3).itemsRead leading ≠ [] ∧ 1 ≤ (reported 10 3).batchSize 3 4 ∧ (reported 10 3).batchSize 3 4 ≤ 4 := by
  have product : 1 ≤ int64 (3 * (reported 10 3).config.dispatchBatchSize) := by decide
  obtain ⟨within, reads⟩ := @batch_usable_iff (reported 10 3) leading "proxy" 3 (reported 10 3).proxyMap ⟨0, 4⟩
    rfl rfl (by decide) rfl (by decide) (by decide)
  exact ⟨(reads ⟨0, 0, 0, 1⟩ (by decide) (by decide)).mpr product, within.mpr product⟩

/-- The largest score, reported in a heartbeat, doubled: the batch size is minus
two, and a dispatch reads nothing though a job is ready and the channel is empty. -/
theorem largest_score_reads_nothing :
    (reportOps (2 ^ 63 - 1)).foldlM (fun p op => (p.step op).map Prod.fst) (ofOrders 2) =
        .ok (reported 2 (2 ^ 63 - 1)) ∧
      (reported 2 (2 ^ 63 - 1)).batchSize (2 ^ 63 - 1) 4 = -2 ∧
      (reported 2 (2 ^ 63 - 1)).itemsRead leading = [] ∧
      (reported 2 (2 ^ 63 - 1)).processQueue.live = [⟨0, 0, 0, 1⟩] :=
  ⟨rfl, rfl, rfl, rfl⟩

end Partition
end Cue.State
