import KvStorage.LogRange
import KvStorage.Lib.Word

/-! The node of `LogRange` with the 32-bit `int` fields of the source. As long as every index can be
stored as it is computed, its log indexes keep their order; the next index after the largest comes
back from below. -/
namespace KvStorage
open Exit Word

def LogEntry.stored (entry : LogEntry Cmd) : LogEntry Cmd :=
  ⟨entry.command,int32 entry.logterm,int32 entry.logindex⟩

namespace Raft

/-- What the fields hold of the values computed for them. Of the files nothing is changed: what they
hold is cut when it is read. -/
def stored (rf : Raft n Cmd Snap) : Raft n Cmd Snap := { rf with
  currentTerm := int32 rf.currentTerm
  votedFor := int32 rf.votedFor
  logs := rf.logs.map LogEntry.stored
  commitIndex := int32 rf.commitIndex
  lastApplied := int32 rf.lastApplied
  nextIndex := rf.nextIndex.map int32
  matchIndex := rf.matchIndex.map int32
  lastSnapshotIncludeIndex := int32 rf.lastSnapshotIncludeIndex
  lastSnapshotIncludeTerm := int32 rf.lastSnapshotIncludeTerm }

variable {rf rf' : Raft n Cmd Snap}

theorem stored_getLastLogIndex (rf : Raft n Cmd Snap) : rf.stored.getLastLogIndex = int32 rf.getLastLogIndex := by
  simp only [getLastLogIndex,getLastLogIndexAndTerm,stored,List.getLast?_map]
  cases rf.logs.getLast? <;> rfl

theorem stored_nextIndex (rf : Raft n Cmd Snap) (p : Fin n) :
    rf.stored.nextIndex.get p = int32 (rf.nextIndex.get p) :=
  Vector.getElem_map int32 p.isLt

theorem stored_matchIndex (rf : Raft n Cmd Snap) (p : Fin n) :
    rf.stored.matchIndex.get p = int32 (rf.matchIndex.get p) :=
  Vector.getElem_map int32 p.isLt

/-- The largest `int` is not the last index: every index of the log, and the one behind it, is stored as it is. -/
def Short (rf : Raft n Cmd Snap) : Prop := rf.getLastLogIndex < 2 ^ 31 - 1

instance (rf : Raft n Cmd Snap) : Decidable rf.Short := inferInstanceAs (Decidable (_ < _))

theorem Short.fits (short : rf.Short) {i : Int} (low : 0 ≤ i) (high : i ≤ rf.getLastLogIndex + 1) : int32 i = i := by
  have short : rf.getLastLogIndex < 2 ^ 31 - 1 := short
  exact int32_of_fits ⟨by omega,by omega⟩

theorem Indexed.last_nonneg (indexed : rf.Indexed) : 0 ≤ rf.getLastLogIndex :=
  indexed.uncommitted.trans indexed.committed

theorem Indexed.stored_last (indexed : rf.Indexed) (short : rf.Short) :
    rf.stored.getLastLogIndex = rf.getLastLogIndex := by
  rw [stored_getLastLogIndex]
  exact short.fits indexed.last_nonneg (by omega)

theorem Indexed.stored_counters (indexed : rf.Indexed) (short : rf.Short) :
    rf.stored.lastSnapshotIncludeIndex = rf.lastSnapshotIncludeIndex ∧
    rf.stored.lastApplied = rf.lastApplied ∧ rf.stored.commitIndex = rf.commitIndex := by
  obtain ⟨memory,_,compacted,applied,committed,uncommitted⟩ := indexed
  have base : 0 ≤ rf.lastSnapshotIncludeIndex := memory.base
  exact ⟨short.fits base (by omega),short.fits (by omega) (by omega),short.fits uncommitted (by omega)⟩

/-- Storing changes no index of a short log. -/
theorem Indexed.stored (indexed : rf.Indexed) (short : rf.Short) : rf.stored.Indexed := by
  obtain ⟨base,applied,commit⟩ := indexed.stored_counters short
  have last := indexed.stored_last short
  refine ⟨⟨?_,?_⟩,indexed.saved,?_,?_,?_,?_⟩
  · exact indexed.memory.base.trans_eq base.symm
  · intro k entry found
    change (rf.logs.map LogEntry.stored)[k]? = some entry at found
    change entry.logindex = rf.stored.lastSnapshotIncludeIndex + 1 + k
    rw [List.getElem?_map] at found
    obtain ⟨old,held,rfl⟩ := Option.map_eq_some_iff.mp found
    have index : old.logindex = rf.lastSnapshotIncludeIndex + 1 + k := indexed.memory.numbered k old held
    have inside := (List.getElem?_eq_some_iff.mp held).1
    have length := getLastLogIndex_eq indexed.memory.numbered
    have above : 0 ≤ rf.lastSnapshotIncludeIndex := indexed.memory.base
    rw [base,← index]
    exact short.fits (by omega) (by omega)
  · exact base.trans_le (indexed.compacted.trans_eq applied.symm)
  · exact applied.trans_le (indexed.applied.trans_eq last.symm)
  · exact commit.trans_le (indexed.committed.trans_eq last.symm)
  · exact indexed.uncommitted.trans_eq commit.symm

theorem Advances.stored (advances : rf.Advances rf') (indexed : rf'.Indexed) (short : rf'.Short) :
    rf.Advances rf'.stored := by
  obtain ⟨_,applied,commit⟩ := indexed.stored_counters short
  exact ⟨advances.last.trans_eq (indexed.stored_last short).symm,advances.commit.trans_eq commit.symm,
    advances.applied.trans_eq applied.symm⟩

end Raft

namespace Sender
open Raft

def stored (s : Sender n Cmd Snap) : Sender n Cmd Snap := ⟨s.node.stored,s.built⟩

variable {s s' : Sender n Cmd Snap} {action : NodeAction n Cmd Snap}

theorem Inside.stored (inside : s.Inside) (short : s.node.Short) : s.stored.Inside := by
  have last := inside.indexed.stored_last short
  refine ⟨inside.indexed.stored short,fun sent member => ?_,fun p => ?_,fun office p => ?_⟩
  · rw [Sender.stored,last]
    exact inside.built sent member
  · obtain ⟨low,high⟩ := inside.matched p
    rw [Sender.stored,last,stored_matchIndex,short.fits low (by omega)]
    exact ⟨low,high⟩
  · obtain ⟨low,high⟩ := inside.next office p
    rw [Sender.stored,last,stored_nextIndex,short.fits (by omega) high]
    exact ⟨low,high⟩

variable [DecidableEq Cmd]

/-- A step whose results are stored in 32 bits. -/
def step32 (s : Sender n Cmd Snap) (action : NodeAction n Cmd Snap) : Option (Sender n Cmd Snap) :=
  (s.step action).map stored

/-- The last index that the step computes leaves room for one more. -/
def Leaves (s : Sender n Cmd Snap) (action : NodeAction n Cmd Snap) : Prop :=
  ∀ s' ∈ s.step action, s'.node.Short

instance (s : Sender n Cmd Snap) (action : NodeAction n Cmd Snap) : Decidable (s.Leaves action) :=
  inferInstanceAs (Decidable (∀ s' ∈ s.step action, s'.node.Short))

theorem Inside.step32 (inside : s.Inside) (listed : s.Listed action) (room : s.Leaves action)
    (taken : s.step32 action = some s') : s'.Inside := by
  obtain ⟨next,done,rfl⟩ := Option.map_eq_some_iff.mp taken
  exact (inside.step listed done).stored (room next done)

/-- The log keeps its numbering, the counters stay inside it and never go back before a restart,
and no range assertion ends the process, as long as the last index stays below the largest `int`. -/
theorem log_indexes (raftId : Fin n) (disk : Persister Cmd Snap) (saved : disk.image.Indexed)
    (short : (init raftId disk).Short)
    (reach : Run.Reach Sender.step32 (fun s action => s.Listed action ∧ s.Leaves action)
      (boot raftId disk).stored s) :
    s.node.LogIndexes ∧ ∀ action, s.Listed action →
      (∀ rf, s.node.handle action = .ok rf → rf.Short → s.node.Advances rf.stored) ∧
      (∀ left, s.node.handle action = .error left → s.node.Stops action) := by
  have inside : s.Inside := reach.invariant Inside ((inside_boot raftId saved).stored short)
    fun _ _ _ _ inside met taken => inside.step32 met.1 met.2 taken
  refine ⟨inside.indexed.logIndexes,fun action listed => ⟨fun rf done room => ?_,fun left exit => ?_⟩⟩
  · have step := indexStep_handle listed.continues done
    exact (step.advances inside.indexed).stored (step.indexed inside.indexed) room
  · exact inside.stops listed exit

theorem compactedLeader_counters :
    (Run.run (Run.guarded Sender.step32 fun s action => s.Listed action ∧ s.Leaves action)
      (boot 0 {}).stored compactedLeader).map
      (fun s => (s.node.logs,s.node.lastSnapshotIncludeIndex,s.node.lastApplied,s.node.commitIndex)) =
      some ([⟨8,1,2⟩,⟨9,2,3⟩],1,1,2) := by decide +kernel

theorem log_indexes_compactedLeader : ∃ s : Sender 3 Nat Unit,
    s.node.logs = [⟨8,1,2⟩,⟨9,2,3⟩] ∧ s.node.LogIndexes ∧
    ∀ rf, s.node.handle .getApplyLogs = .ok rf → rf.Short → s.node.Advances rf.stored := by
  obtain ⟨s,ran,seen⟩ := Option.map_eq_some_iff.mp compactedLeader_counters
  have reach := Run.reach_of_guarded compactedLeader ran .start
  obtain ⟨indexes,calls⟩ := log_indexes 0 {} ⟨by decide,Consecutive.nil⟩ (by decide) reach
  exact ⟨s,congrArg Prod.fst seen,indexes,(calls .getApplyLogs trivial).1⟩

/-- A node installs a snapshot that reaches to the largest index, is elected and starts a command. -/
def fullLog : List (NodeAction 3 Nat Unit) :=
  [.installSnapshotImpl ⟨1,1,2147483647,1,some ()⟩,.doElection,.sendRequestVote ⟨2,true,.Normal⟩ 1]

theorem fullLog_runs : (Run.run (Run.guarded Sender.step32 Listed) (boot 0 {}).stored fullLog).any (fun s =>
    s.node.getLastLogIndex = 2147483647 ∧ s.node.lastApplied = 2147483647 ∧
    (s.step32 (.start 7)).any fun s' =>
      s'.node.logs = [⟨7,2,-2147483648⟩] ∧ s'.node.lastApplied = 2147483647 ∧
        s'.node.getLastLogIndex = -2147483648) = true := by decide +kernel

/-- The new entry's index wraps, and the last index falls. -/
theorem log_indexes_wrap : ∃ s s' : Sender 3 Nat Unit,
    Run.Reach Sender.step32 Listed (boot 0 {}).stored s ∧ s.step32 (.start 7) = some s' ∧
    s'.node.logs = [⟨7,2,-2147483648⟩] ∧ s'.node.getLastLogIndex < s.node.getLastLogIndex ∧
    ¬ s'.node.LogIndexes := by
  obtain ⟨s,ran,rest⟩ := (Option.any_eq_true ..).mp fullLog_runs
  obtain ⟨last,_,step⟩ := of_decide_eq_true rest
  obtain ⟨s',taken,after⟩ := (Option.any_eq_true ..).mp step
  obtain ⟨logs,applied,fell⟩ := of_decide_eq_true after
  refine ⟨s,s',Run.reach_of_guarded fullLog ran .start,taken,logs,by omega,fun indexes => ?_⟩
  have inside := indexes.applied
  omega

end Sender
end KvStorage
