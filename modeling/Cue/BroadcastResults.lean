import Cue.Cluster.Broadcast

/-! `broadcast` ends and leaves nothing behind, whatever becomes of the requests, and
what it returns is what the nodes have answered. -/
namespace Cue.Cluster
open Cue.Lib

variable {activeNodes : List String} {nodeID : String} {ops : List (FanOut.Op (Except String ClusterResponse))}
  {s : FanOut String (Except String ClusterResponse)} {collected : List (String × Except String ClusterResponse)}

theorem broadcastResults_get (distinct : (collected.map Prod.fst).Nodup) (node : String) (resp : ClusterResponse) :
    (broadcastResults collected).get node = some resp ↔ (node, .ok resp) ∈ collected := by
  have fewer : ((collected.filterMap fun res => res.2.toOption.map fun resp => (res.1, resp)).map Prod.fst).Sublist
      (collected.map Prod.fst) := by
    clear distinct
    induction collected with
    | nil => exact .refl _
    | cons res rest ih =>
      obtain ⟨node, _ | resp⟩ := res
      · exact ih.cons _
      · exact ih.cons_cons _
  rw [broadcastResults, FinMap.get_collect_iff (distinct.sublist fewer)]
  constructor
  · rintro ⟨answer, member, rfl, rfl⟩
    obtain ⟨⟨node, _ | resp⟩, there, same⟩ := List.mem_filterMap.mp member
    · cases same
    · cases same
      exact there
  · intro there
    exact ⟨(node, resp), List.mem_filterMap.mpr ⟨_, there, rfl⟩, rfl, rfl⟩

/-- Whatever the requests come to: nothing is sent on the closed channel; the run is
short, and it can only stop when the function has returned and all goroutines have
ended. A response is returned only for another node that gave it; and without the
timeout there is one for every such node whose request went well. -/
theorem broadcast_returns_the_answers (distinct : activeNodes.Nodup)
    (run : FanOut.Runs (broadcast activeNodes nodeID) ops s) :
    s.panicked = false ∧ ops.length ≤ 5 * activeNodes.length + 3 ∧ ((∀ op, s.step op = none) → s.Finished) ∧
      (∀ node resp, (broadcastResults s.collected).get node = some resp →
        node ∈ activeNodes ∧ node ≠ nodeID ∧ ∃ w ∈ s.workers, w.sent = [(node, .ok resp)]) ∧
      (s.collector = .returned true → ∀ node ∈ activeNodes, node ≠ nodeID →
        ∃ res, .gone node res ∈ s.workers ∧ (broadcastResults s.collected).get node = res.toOption) := by
  obtain ⟨sound, short⟩ := FanOut.runs_sound run
  have fits : (activeNodes.filter (· ≠ nodeID)).length ≤ activeNodes.length := List.length_filter_le _ _
  have keys := sound.nodup (distinct.filter _)
  refine ⟨sound.calm, by omega, sound.progress fits (.error ""), fun node resp found => ?_,
    fun ended node active other => ?_⟩
  · obtain ⟨member, sent⟩ := sound.collected_sent ((broadcastResults_get keys node resp).mp found)
    obtain ⟨active, other⟩ := List.mem_filter.mp member
    exact ⟨active, by simpa using other, sent⟩
  · obtain ⟨res, gone, there⟩ := sound.all_collected ended (List.mem_filter.mpr ⟨active, by simpa using other⟩)
    refine ⟨res, gone, Option.ext fun resp => ?_⟩
    rw [broadcastResults_get keys]
    constructor
    · intro answered
      cases List.inj_on_of_nodup_map keys answered there rfl
      rfl
    · intro same
      cases res with
      | error err => cases same
      | ok resp' =>
        cases same
        exact there

/-- Of two other nodes one answers, and the request to the other fails. -/
theorem broadcast_with_a_failure : ∃ ops s,
    FanOut.Runs (broadcast ["n1", "n2", "n3"] "n1") ops s ∧ s.collector = .returned true ∧
      ∃ res, .gone "n3" res ∈ s.workers ∧ (broadcastResults s.collected).get "n3" = res.toOption := by
  let first := broadcast ["n1", "n2", "n3"] "n1"
  let ops : List (FanOut.Op (Except String ClusterResponse)) :=
    [.start, .start, .start, .work 1 (.error "timeout"), .send 1,
      .work 0 (.ok ⟨.ack, none, none, none, none, none, none⟩),
      .leave 1, .collect, .send 0, .leave 0, .close, .collect, .collect]
  obtain ⟨s, executed, ended⟩ : ∃ s, ops.foldlM FanOut.step first = some s ∧ s.collector = .returned true :=
    ⟨_, rfl, rfl⟩
  have run : FanOut.Runs first ops s := Run.of_execute (fun _ _ _ _ stepped => ⟨trivial, stepped⟩) executed
  obtain ⟨-, -, -, -, all⟩ := broadcast_returns_the_answers (by decide) run
  exact ⟨ops, s, run, ended, all ended "n3" (by decide) (by decide)⟩

end Cue.Cluster
