import KvStorage.ClusterCommits
import KvStorage.KvClusterRefinement

/-! What clerks can rely on, from the nodes up. In every orderly run there is one order of all calls,
acknowledged calls are on the disks of a majority and servers hold what the nodes handed out. -/
namespace KvStorage
open Requests Linearizability

namespace KvCluster

variable {s : KvCluster n} {op : Op}

/-- Steps that a look at the state shows to be orderly. -/
def Plain (s : KvCluster n) : Action n → Prop
  | .raft (.installSnapshotImpl _) _ => False
  | .raft (.appendEntriesimpl k p) _ => ∀ round ∈ s.cluster.heartbeats[k]?, ∀ t ∈ round.thread p,
    (s.cluster.node p).getLastLogIndex ≤ t.args.lastIndex
  | .pushApplied v => (s.channels v).InTurn .pushApplied
  | .pop v => ∀ msg ∈ (s.channels v).applyChan.head?, msg.commandIndex.isSome = true
  | .serve _ (.execGetOpOnKVDB _) => False
  | .serve _ (.getSnapshotFromRaft _) => False
  | _ => True

theorem orderly_of_plain {a : Action n} (plain : s.Plain a) : s.Orderly a := by
  cases a with
  | raft action again =>
    have turn (other : ∀ k, action ≠ .installSnapshotImpl k) (v : Fin n) (a : NodeAction n Op Server)
        (runs : s.cluster.handles action = some (v,a)) : (s.channels v).InTurn (.handle a) := by
      cases a with
      | installSnapshotImpl args =>
        obtain ⟨k,_,eq,_⟩ := Cluster.handles_installSnapshotImpl runs
        exact absurd eq (other k)
      | _ => trivial
    cases action with
    | installSnapshotImpl k => cases plain
    | appendEntriesimpl k p =>
      refine ⟨fun round here t there overwrites => ?_,turn fun k eq => by cases eq⟩
      exact absurd overwrites.2.2.1 (not_lt.mpr (plain round here t there))
    | _ => exact ⟨trivial,turn fun k eq => by cases eq⟩
  | pushApplied v => exact plain
  | pop v =>
    intro data term i here
    cases plain _ here
  | serve v a =>
    cases a with
    | execGetOpOnKVDB i => cases plain
    | getSnapshotFromRaft other => cases plain
    | _ => trivial
  | _ => trivial

instance (s : KvCluster n) : (a : Action n) → Decidable (s.Plain a)
  | .raft (.installSnapshotImpl _) _ => .isFalse id
  | .raft (.appendEntriesimpl k p) _ => inferInstanceAs (Decidable
      (∀ round ∈ s.cluster.heartbeats[k]?, ∀ t ∈ round.thread p, (s.cluster.node p).getLastLogIndex ≤ t.args.lastIndex))
  | .pushApplied v => inferInstanceAs (Decidable ((s.channels v).InTurn .pushApplied))
  | .pop v => inferInstanceAs (Decidable (∀ msg ∈ (s.channels v).applyChan.head?, msg.commandIndex.isSome = true))
  | .serve _ (.execGetOpOnKVDB _) | .serve _ (.getSnapshotFromRaft _) => .isFalse id
  | .raft (.doElection _) _ | .raft (.requestVoteImpl ..) _ | .raft (.sendRequestVote ..) _ | .raft (.doHeartBeat _) _
  | .raft (.sendAppendEntries ..) _ | .raft (.snapshotRequest _) _ | .raft (.leaderSendSnapshot _) _ | .raft (.start ..) _
  | .raft (.snapshot ..) _ | .raft (.getApplyLogs _) _ | .raft (.crash _) _ | .call .. | .send _ | .deliver .. | .reply ..
  | .fail _ | .pushMsgToKvServer .. | .ifNeedToSendSnapshotCommand .. | .snapshot .. | .serve _ (.getImpl ..)
  | .serve _ (.putAppendImpl ..) | .serve _ (.create _) | .serve _ (.pop _) | .serve _ (.timeOut _)
  | .serve _ (.isRequestDuplicate ..) | .serve _ (.remove _) | .serve _ .check | .serve _ .execute
  | .serve _ .sendMsgToWaitChan => .isTrue trivial

/-- A Put at a leader that is elected first: replicated, applied, and answered. -/
def putThrough (leader follower : Fin n) : List (Action n) :=
  let put : Args := .PutAppend "k" "x" "Put" "c" 1
  let raft := fun action => Action.raft action fun _ => 0
  [raft (.doElection leader),raft (.requestVoteImpl 0 follower),raft (.sendRequestVote 0 follower),
    .call "c" (.Put "k" "x"),.send "c",.deliver leader put,.serve leader (.create 0),
    raft (.doHeartBeat leader),raft (.appendEntriesimpl 0 follower),raft (.sendAppendEntries 0 follower),
    raft (.getApplyLogs leader),.pushApplied leader,.pop leader,.serve leader .execute,.serve leader .sendMsgToWaitChan,
    .serve leader (.pop 0),.serve leader (.remove 0),.reply "c" 0]

theorem putThrough_answered :
    (Run.run (Run.guarded step Plain) (initial 2 10 fun _ _ => 0) (putThrough 0 1)).any (fun s =>
    s.history = [.call ⟨"Put","k","x","c",1⟩,.ret ⟨"Put","k","x","c",1⟩ ""] ∧ (s.servers 0).covered = 1) = true := by
  decide +kernel

theorem reach_putThrough : ∃ s : KvCluster 2, Run.Reach step Orderly (initial 2 10 fun _ _ => 0) s ∧
    s.history = [.call ⟨"Put","k","x","c",1⟩,.ret ⟨"Put","k","x","c",1⟩ ""] ∧ (s.servers 0).covered = 1 := by
  obtain ⟨s,ran,held⟩ := (Option.any_eq_true ..).mp putThrough_answered
  have plain : Run.Reach step Plain (initial 2 10 fun _ _ => 0) s := Run.reach_of_guarded (putThrough 0 1) ran .start
  exact ⟨s,plain.weaken fun _ _ => orderly_of_plain,of_decide_eq_true held⟩

/-- The whole service is linearizable in every orderly run: with elections, crashes and snapshots below,
one order of all calls gives each clerk the answers that it got. -/
theorem service_linearizable (n : Nat) (maxRaftStateSize : Int) (rand : Nat → Nat → Nat) (s : KvCluster n)
    (reach : Run.Reach step Orderly (initial n maxRaftStateSize rand) s) : Linearizable kvObject s.history := by
  obtain ⟨t,reached,refines⟩ := explained_of_reach reach
  have stamped := KvSystem.stamped_of_reach reached
  have consistent := KvSystem.consistent_of_reach reached
  obtain ⟨point,spec⟩ := KvSystem.points stamped consistent
  rw [← refines.events]
  exact ⟨_,KvSystem.linearizes (KvSystem.ordered_of_reach reached) stamped spec consistent.writes⟩

theorem service_linearizable_putThrough : ∃ s : KvCluster 2,
    s.history = [.call ⟨"Put","k","x","c",1⟩,.ret ⟨"Put","k","x","c",1⟩ ""] ∧ Linearizable kvObject s.history := by
  obtain ⟨s,reach,history,_⟩ := reach_putThrough
  exact ⟨s,history,service_linearizable 2 10 (fun _ _ => 0) s reach⟩

/-- A call that returned was handed out by a node for some index, and is on the disks of a majority. -/
theorem returned_durable (n : Nat) (maxRaftStateSize : Int) (rand : Nat → Nat → Nat) (s : KvCluster n)
    (reach : Run.Reach step Orderly (initial n maxRaftStateSize rand) s) (op : Op) (value : String)
    (returned : .ret op value ∈ s.history) : ∃ u i, .apply u i op ∈ s.cluster.history ∧
      ∃ A : Finset (Fin n), Majority A ∧ ∀ v ∈ A, (s.cluster.node v).persister.image.Has i op := by
  obtain ⟨t,reached,refines⟩ := explained_of_reach reach
  rw [← refines.events] at returned
  obtain ⟨before,held⟩ := KvSystem.mem_events.mp returned
  have committed := List.mem_of_mem_take ((KvSystem.stamped_of_reach reached).late before op value held)
  obtain ⟨k,here⟩ := List.mem_iff_getElem?.mp committed
  obtain ⟨u,applied⟩ := refines.backed.entries k op here
  obtain ⟨ghost,sim⟩ := Cluster.simulated_of_clean refines.backed.reach
  exact ⟨u,k + 1,applied,Cluster.durable_of_simulates sim applied⟩

theorem returned_durable_putThrough : ∃ (s : KvCluster 2) (u : Fin 2) (i : Int),
    .apply u i ⟨"Put","k","x","c",1⟩ ∈ s.cluster.history ∧ ∃ A : Finset (Fin 2), Majority A ∧
      ∀ v ∈ A, (s.cluster.node v).persister.image.Has i ⟨"Put","k","x","c",1⟩ := by
  obtain ⟨s,reach,history,_⟩ := reach_putThrough
  have returned : .ret ⟨"Put","k","x","c",1⟩ "" ∈ s.history := by
    rw [history]
    exact List.mem_cons_of_mem _ List.mem_cons_self
  exact ⟨s,returned_durable 2 10 (fun _ _ => 0) s reach _ _ returned⟩

end KvCluster
end KvStorage
