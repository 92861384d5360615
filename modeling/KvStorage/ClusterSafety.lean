import KvStorage.ClusterSimulation

/-! State machine safety and log matching. They hold in every run of clean steps. The
merge loop of `appendEntriesimpl` makes the other runs reachable: it overwrites an
entry of another term and leaves the entries behind it in place. -/
namespace KvStorage
open Replication

namespace Cluster

/-- Whatever nodes hand out for one index is one command. -/
def AppliedAgree (c : Cluster n Cmd Snap) : Prop :=
  ∀ u v i x y, .apply u i x ∈ c.history → .apply v i y ∈ c.history → x = y

/-- Two logs with one term at an index agree at every index up to there that both hold. -/
def LogsMatch (c : Cluster n Cmd Snap) : Prop :=
  ∀ u v i e e', (c.node u).entryAt i = .ok e → (c.node v).entryAt i = .ok e' →
    e.logterm = e'.logterm → ∀ j ≤ i, ∀ f f', (c.node u).entryAt j = .ok f →
    (c.node v).entryAt j = .ok f' → f.logterm = f'.logterm ∧ f.command = f'.command

variable {c : Cluster n Cmd Snap} {s : Ghost n Cmd}

theorem appliedAgree_of_simulates (sim : Simulates s c) : c.AppliedAgree := by
  intro u v i x y one two
  obtain ⟨_,K,known,j,e,rfl,found,rfl⟩ := sim.traffic.applied one
  obtain ⟨_,K',known',j',e',same,found',rfl⟩ := sim.traffic.applied two
  obtain rfl : j = j' := by omega
  have inside := (List.getElem?_eq_some_iff.mp found).1
  have inside' := (List.getElem?_eq_some_iff.mp found').1
  rcases sim.replicated.sound.known_comparable known known' with ⟨rest,rfl⟩ | ⟨rest,rfl⟩
  · rw [List.getElem?_append_left inside,found] at found'
    rw [Option.some.inj found']
  · rw [List.getElem?_append_left inside',found'] at found
    rw [Option.some.inj found]

theorem logsMatch_of_simulates (sim : Simulates s c) : c.LogsMatch := by
  intro u v i e e' one two same j below f f' held held'
  obtain ⟨b,holds,_⟩ := (sim.replicated.refines u).holds
  obtain ⟨b',holds',_⟩ := (sim.replicated.refines v).holds
  obtain ⟨m,rfl,_,found⟩ := holds.entryAt.mp one
  obtain ⟨m',index,_,found'⟩ := holds'.entryAt.mp two
  obtain rfl : m = m' := by omega
  obtain ⟨q,rfl,_,there⟩ := holds.entryAt.mp held
  obtain ⟨q',index,_,there'⟩ := holds'.entryAt.mp held'
  obtain rfl : q = q' := by omega
  have sound := sim.replicated.sound
  have agree := agree_at sound (sound.logTraced u) (sound.logTraced v)
    (List.getElem?_eq_some_iff.mp found).1 (List.getElem?_eq_some_iff.mp found').1
    (by rw [termAt_succ found,termAt_succ found',same])
  have whole : ((s.log u).take (m + 1))[q]? = ((s.log v).take (m + 1))[q]? := by rw [agree]
  rw [List.getElem?_take_of_lt (by omega),List.getElem?_take_of_lt (by omega),there,there'] at whole
  rw [Option.some.inj whole]
  exact ⟨rfl,rfl⟩

variable [DecidableEq Cmd]

theorem state_machine_safety (reach : Reach Clean c) : c.AppliedAgree := by
  obtain ⟨s,sim⟩ := simulated_of_clean reach
  exact appliedAgree_of_simulates sim

/-- Node 0 commits a command and both it and node 1 apply it. -/
def replicated : List (Action 3 Nat Unit) :=
  [.doElection 0,.requestVoteImpl 0 1,.sendRequestVote 0 1,.start 0 7,.doHeartBeat 0,
    .appendEntriesimpl 0 1,.sendAppendEntries 0 1,.getApplyLogs 0,.doHeartBeat 0,
    .appendEntriesimpl 1 1,.getApplyLogs 1]

theorem replicated_history :
    (Run.run (Run.guarded step Clean) (initial 3 Nat Unit) replicated).map history =
      some [.becomeLeader 0 1,.apply 0 1 7,.apply 1 1 7] := by decide +kernel

theorem state_machine_safety_replicated : ∃ c : Cluster 3 Nat Unit, Reach Clean c ∧
    .apply 0 1 7 ∈ c.history ∧ .apply 1 1 7 ∈ c.history ∧ c.AppliedAgree := by
  obtain ⟨c,ran,events⟩ := Option.map_eq_some_iff.mp replicated_history
  have reach : Reach Clean c := Run.reach_of_guarded replicated ran .start
  exact ⟨c,reach,by rw [events]; decide,by rw [events]; decide,state_machine_safety reach⟩

/-- Node 0 holds two entries of term 1 when the leader of term 2 overwrites the first. -/
def conflict : List (Action 5 Nat Unit) :=
  [.doElection 0,.requestVoteImpl 0 1,.requestVoteImpl 0 2,.sendRequestVote 0 1,.sendRequestVote 0 2,
    .start 0 10,.start 0 11,.doHeartBeat 0,.appendEntriesimpl 0 1,
    .doElection 2,.requestVoteImpl 1 3,.requestVoteImpl 1 4,.sendRequestVote 1 3,.sendRequestVote 1 4,
    .start 2 20,.doHeartBeat 2,.appendEntriesimpl 1 0]

/-- The term 2 entry is committed and applied, then node 1 wins term 3 with its stale log:
the suffix node 0 kept makes the logs look equal at index 2. -/
def staleSuffix : List (Action 5 Nat Unit) :=
  conflict ++ [.appendEntriesimpl 1 3,.sendAppendEntries 1 0,.sendAppendEntries 1 3,.getApplyLogs 2,
    .doElection 1,.doElection 1,.requestVoteImpl 3 0,.requestVoteImpl 3 4,.sendRequestVote 3 0,
    .sendRequestVote 3 4,.start 1 30,.doHeartBeat 1,.appendEntriesimpl 2 4,.sendAppendEntries 2 4,
    .appendEntriesimpl 2 0,.sendAppendEntries 2 0,.doHeartBeat 1,.appendEntriesimpl 3 0,
    .sendAppendEntries 3 0,.appendEntriesimpl 3 4,.sendAppendEntries 3 4,.getApplyLogs 1]

theorem staleSuffix_applied :
    (Run.run step (initial 5 Nat Unit) staleSuffix).any fun c =>
      decide (.apply 2 1 20 ∈ c.history ∧ .apply 1 1 10 ∈ c.history) := by decide +kernel

theorem state_machine_safety_fails : ∃ c : Cluster 5 Nat Unit, c.Reachable ∧ ¬ c.AppliedAgree := by
  obtain ⟨c,ran,seen⟩ := (Option.any_eq_true ..).mp staleSuffix_applied
  obtain ⟨one,two⟩ := of_decide_eq_true seen
  refine ⟨c,Run.reach_of_run staleSuffix ran,fun agree => ?_⟩
  exact absurd (agree 2 1 1 20 10 one two) (by decide)

theorem log_matching (reach : Reach Clean c) : c.LogsMatch := by
  obtain ⟨s,sim⟩ := simulated_of_clean reach
  exact logsMatch_of_simulates sim

theorem log_matching_replicated : ∃ c : Cluster 3 Nat Unit, Reach Clean c ∧
    .apply 1 1 7 ∈ c.history ∧ c.LogsMatch := by
  obtain ⟨c,ran,events⟩ := Option.map_eq_some_iff.mp replicated_history
  have reach : Reach Clean c := Run.reach_of_guarded replicated ran .start
  exact ⟨c,reach,by rw [events]; decide,log_matching reach⟩

theorem conflict_logs : (Run.run step (initial 5 Nat Unit) conflict).any fun c => decide
    ((c.node 0).entryAt 2 = .ok ⟨11,1,2⟩ ∧ (c.node 1).entryAt 2 = .ok ⟨11,1,2⟩ ∧
      (c.node 0).entryAt 1 = .ok ⟨20,2,1⟩ ∧ (c.node 1).entryAt 1 = .ok ⟨10,1,1⟩) := by
  decide +kernel

theorem log_matching_fails : ∃ c : Cluster 5 Nat Unit, c.Reachable ∧ ¬ c.LogsMatch := by
  obtain ⟨c,ran,held⟩ := (Option.any_eq_true ..).mp conflict_logs
  obtain ⟨one,two,first,first'⟩ := of_decide_eq_true held
  refine ⟨c,Run.reach_of_run conflict ran,fun agree => ?_⟩
  exact absurd (agree 0 1 2 _ _ one two rfl 1 (by decide) _ _ first first').1 (by decide)

end Cluster
end KvStorage
