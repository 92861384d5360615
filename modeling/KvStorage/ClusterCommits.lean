import KvStorage.ClusterSafety

/-! What an applied command can rely on, in every run of clean steps: a majority has it on disk, and
every leader that a majority is not ahead of has it in its log. -/
namespace KvStorage
open Replication

/-- The image holds the command at the index, unless its snapshot covers the index. -/
def BoostPersistRaftNode.Has (image : BoostPersistRaftNode Cmd) (i : Int) (x : Cmd) : Prop :=
  i ≤ image.lastSnapshotIncludeIndex ∨ ∃ entry ∈ image.logs, entry.logindex = i ∧ entry.command = x

theorem Holds.has {image : BoostPersistRaftNode Cmd} {L K : List (LogEntry Cmd)} {b j : Nat} {e : LogEntry Cmd}
    (holds : Holds image L b) (sub : K <+: L) (found : K[j]? = some e) : image.Has (j + 1) e.command := by
  obtain ⟨rest,rfl⟩ := sub
  have inside := (List.getElem?_eq_some_iff.mp found).1
  have there : (K ++ rest)[j]? = some e := by rw [List.getElem?_append_left inside,found]
  rcases Nat.lt_or_ge j b with covered | above
  · refine .inl ?_
    rw [holds.base]
    omega
  · refine .inr ⟨e,?_,(holds.numbered j e there).1,rfl⟩
    rw [holds.logs]
    apply List.mem_of_getElem?
    rw [List.getElem?_drop,Nat.add_sub_cancel' above,there]

/-- The files hold what memory holds. -/
theorem holds_saved {rf : Raft n Cmd Snap} {L : List (LogEntry Cmd)} {b : Nat} (saved : rf.LogSaved)
    (holds : Holds rf.persistData L b) : Holds rf.persister.image L b :=
  ⟨saved.base.trans holds.base,holds.bound,saved.logs.trans holds.logs,saved.baseTerm.trans holds.baseTerm,holds.numbered⟩

namespace Cluster

variable {c : Cluster n Cmd Snap} {s : Ghost n Cmd}

/-- An applied command is part of a log that a majority acknowledged to a leader. -/
theorem committed_of_applied (sim : Simulates s c) {u : Fin n} {i : Int} {x : Cmd} (applied : .apply u i x ∈ c.history) :
    ∃ t P, s.Committed LogEntry.logterm t P ∧ ∃ (j : Nat) (e : LogEntry Cmd), i = (j : Int) + 1 ∧ P[j]? = some e ∧ e.command = x := by
  obtain ⟨T,K,known,j,e,index,found,command⟩ := sim.traffic.applied applied
  rcases known with rfl | ⟨t,P,_,committed,rest,rfl⟩
  · simp at found
  · refine ⟨t,_,committed,j,e,index,?_,command⟩
    rw [List.getElem?_append_left (List.getElem?_eq_some_iff.mp found).1,found]

theorem durable_of_simulates (sim : Simulates s c) {u : Fin n} {i : Int} {x : Cmd} (applied : .apply u i x ∈ c.history) :
    ∃ A : Finset (Fin n), Majority A ∧ ∀ v ∈ A, (c.node v).persister.image.Has i x := by
  obtain ⟨t,P,committed,j,e,rfl,found,rfl⟩ := committed_of_applied sim applied
  obtain ⟨A,most,acked⟩ := committed.acked
  refine ⟨A,most,fun v member => ?_⟩
  have refines := sim.replicated.refines v
  obtain ⟨b,holds,_⟩ := refines.holds
  have sub := sim.replicated.sound.acked_holds committed (acked v member)
  exact (holds_saved refines.saved holds).has sub found

variable [DecidableEq Cmd]

/-- Whatever a node has handed to its state machine is on the disks of a majority from then on. -/
theorem applied_durable (reach : Reach Clean c) {u : Fin n} {i : Int} {x : Cmd} (applied : .apply u i x ∈ c.history) :
    ∃ A : Finset (Fin n), Majority A ∧ ∀ v ∈ A, (c.node v).persister.image.Has i x := by
  obtain ⟨s,sim⟩ := simulated_of_clean reach
  exact durable_of_simulates sim applied

/-- A leader that a majority is not ahead of has whatever any node applied. -/
theorem leader_complete (reach : Reach Clean c) {u w : Fin n} {i : Int} {x : Cmd} (applied : .apply u i x ∈ c.history)
    (leader : (c.node w).status = .Leader) {B : Finset (Fin n)} (most : Majority B)
    (behind : ∀ v ∈ B, (c.node v).currentTerm ≤ (c.node w).currentTerm) : (c.node w).persistData.Has i x := by
  obtain ⟨s,sim⟩ := simulated_of_clean reach
  obtain ⟨t,P,committed,j,e,rfl,found,rfl⟩ := committed_of_applied sim applied
  obtain ⟨A,most',acked⟩ := committed.acked
  have sound := sim.replicated.sound
  have order : t ≤ (c.node w).currentTerm := by
    obtain ⟨v,inA,inB⟩ := most'.meet most
    have early : t ≤ s.term v := (sound.ackedLed (acked v inA)).2
    rw [(sim.replicated.refines v).term] at early
    have durable := ((balanced_of_reach reach).durable v).term
    exact (early.trans durable).trans (behind v inB)
  have refines := sim.replicated.refines w
  obtain ⟨b,holds,_⟩ := refines.holds
  have leading := refines.leader leader
  have sub := sound.led_holds committed leading.led leading.latest order
  exact holds.has sub found

/-- Where both nodes of a majority of three have applied the command, and node 0 leads. -/
theorem replicated_leads : (Run.run (Run.guarded step Clean) (initial 3 Nat Unit) replicated).any fun c => decide
    (.apply 1 1 7 ∈ c.history ∧ (c.node 0).status = .Leader ∧
      ∀ v, (c.node v).currentTerm ≤ (c.node 0).currentTerm) := by decide +kernel

theorem applied_durable_replicated : ∃ c : Cluster 3 Nat Unit, Reach Clean c ∧ .apply 1 1 7 ∈ c.history ∧
    ∃ A : Finset (Fin 3), Majority A ∧ ∀ v ∈ A, (c.node v).persister.image.Has 1 7 := by
  obtain ⟨c,ran,held⟩ := (Option.any_eq_true ..).mp replicated_leads
  have reach : Reach Clean c := Run.reach_of_guarded replicated ran .start
  have applied := (of_decide_eq_true held).1
  exact ⟨c,reach,applied,applied_durable reach applied⟩

theorem leader_complete_replicated : ∃ c : Cluster 3 Nat Unit, Reach Clean c ∧ .apply 1 1 7 ∈ c.history ∧
    (c.node 0).persistData.Has 1 7 := by
  obtain ⟨c,ran,held⟩ := (Option.any_eq_true ..).mp replicated_leads
  have reach : Reach Clean c := Run.reach_of_guarded replicated ran .start
  obtain ⟨applied,leader,behind⟩ := of_decide_eq_true held
  have most : Majority (Finset.univ : Finset (Fin 3)) := by decide
  exact ⟨c,reach,applied,leader_complete reach applied leader most fun v _ => behind v⟩

end Cluster
end KvStorage
