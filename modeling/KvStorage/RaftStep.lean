import KvStorage.Lib.Run
import KvStorage.RaftSpec

/-! One node under arbitrary callers: every critical section with whatever arguments the
network and the server deliver, crashes included. -/
namespace KvStorage
open Exit

/-- The critical sections of a node. -/
inductive NodeAction (n : Nat) (Cmd Snap : Type) where
  | doElection
  | requestVoteImpl (args : RequestVoteArgs)
  | sendRequestVote (reply : RequestVoteReply) (voteNums : Int)
  | doHeartBeat
  | appendEntriesimpl (args : AppendEntriesArgs Cmd)
  | sendAppendEntries (peerId : Fin n) (args : AppendEntriesArgs Cmd) (reply : AppendEntriesReply)
      (appendNums : Int)
  | installSnapshotImpl (args : InstallSnapshotRequest Snap)
  | leaderSendSnapshot (peerId : Fin n) (req : InstallSnapshotRequest Snap)
      (resp : InstallSnapshotResponse)
  | start (command : Cmd)
  | snapshot (index : Int) (data : Option Snap)
  | getApplyLogs
  | crash
  deriving DecidableEq

namespace Raft

/-- The node's next state, or the files that an exit leaves. -/
def handle [DecidableEq Cmd] (rf : Raft n Cmd Snap) : NodeAction n Cmd Snap → Except (Persister Cmd Snap) (Raft n Cmd Snap)
  | .doElection => .ok rf.doElection.1
  | .requestVoteImpl args => (rf.requestVoteImpl args).map Prod.fst
  | .sendRequestVote reply voteNums => (rf.sendRequestVote reply voteNums).map Prod.fst
  | .doHeartBeat => match rf.doHeartBeat.2 with
    | none => .ok rf
    | some left => .error left
  | .appendEntriesimpl args => (rf.appendEntriesimpl args).map Prod.fst
  | .sendAppendEntries peerId args reply appendNums =>
    (rf.sendAppendEntries peerId args reply appendNums).map Prod.fst
  | .installSnapshotImpl args => (rf.installSnapshotImpl args).map Prod.fst
  | .leaderSendSnapshot peerId req resp => .ok (rf.leaderSendSnapshot peerId req resp)
  | .start command => .ok (rf.start command).1
  | .snapshot index data => rf.snapshot index data
  | .getApplyLogs => rf.getApplyLogs.map Prod.fst
  | .crash => .error rf.persister

/-- The next state after a normal end; an exit restarts the node from its files. -/
def resume (rf : Raft n Cmd Snap) : Except (Persister Cmd Snap) (Raft n Cmd Snap) → Raft n Cmd Snap
  | .ok rf' => rf'
  | .error left => init rf.raftId left

variable [DecidableEq Cmd]

def step (rf : Raft n Cmd Snap) (action : NodeAction n Cmd Snap) : Option (Raft n Cmd Snap) :=
  some (rf.resume (rf.handle action))

variable {rf rf' : Raft n Cmd Snap}

/-- Only the two ways to apply entries and the two ways to compact them move `lastApplied`. -/
theorem handle_lastApplied {action : NodeAction n Cmd Snap} (done : rf.handle action = .ok rf')
    (install : ∀ args, action ≠ .installSnapshotImpl args)
    (compact : ∀ index data, action ≠ .snapshot index data) (apply : action ≠ .getApplyLogs) :
    rf'.lastApplied = rf.lastApplied := by
  cases action with
  | doElection =>
    obtain rfl := Except.ok.inj done
    by_cases leader : rf.status = .Leader
    · rw [doElection_leader leader]
    · rw [doElection_candidate leader]; rfl
  | requestVoteImpl args =>
    obtain ⟨reply,done⟩ := map_fst_ok.mp done
    rcases requestVoteImpl_cases rf args with ⟨_,_,_,eq⟩ | ⟨_,_,_,eq⟩ | ⟨_,_,_,_,_,_,eq⟩
    all_goals obtain ⟨rfl,rfl⟩ := Prod.mk.inj (Except.ok.inj (eq.symm.trans done))
    · rfl
    · exact observe_lastApplied rf args.term
    · exact observe_lastApplied rf args.term
  | sendRequestVote reply voteNums =>
    obtain ⟨answer,done⟩ := map_fst_ok.mp done
    rcases sendRequestVote_ok done with ⟨_,rfl,_⟩ | ⟨rfl,_⟩ | ⟨rfl,_⟩ | ⟨rfl,_⟩ <;> rfl
  | doHeartBeat =>
    simp only [handle] at done
    split at done
    · obtain rfl := Except.ok.inj done; rfl
    · cases done
  | appendEntriesimpl args =>
    obtain ⟨reply,done⟩ := map_fst_ok.mp done
    rcases appendEntriesimpl_ok done with ⟨_,_,rfl⟩ | ⟨_,_,_,rfl⟩ | ⟨_,_,_,_,merged,merge,_,_,rfl⟩
    · rfl
    · exact observe_lastApplied rf args.term
    · have frame := congrArg Raft.lastApplied (mergeEntries_frame merge)
      exact (commitTo_lastApplied merged _).trans (frame.trans (observe_lastApplied rf args.term))
  | sendAppendEntries peerId args reply appendNums =>
    obtain ⟨answer,done⟩ := map_fst_ok.mp done
    rcases sendAppendEntries_ok done with ⟨_,_,rfl,_⟩ | ⟨rfl,_⟩ | ⟨_,_,_,rfl,_⟩ | ⟨_,_,_,_,rfl,_⟩ |
      ⟨_,_,_,_,rfl,_⟩
    · rfl
    · rfl
    · rfl
    · rfl
    · unfold commitRound
      split <;> rfl
  | installSnapshotImpl args => exact absurd rfl (install args)
  | leaderSendSnapshot peerId req resp =>
    obtain rfl := Except.ok.inj done
    rcases leaderSendSnapshot_cases rf peerId req resp with eq | ⟨_,_,eq⟩ | ⟨_,_,eq⟩
    all_goals simp only [eq]
    · rfl
    · rfl
  | start command =>
    obtain rfl := Except.ok.inj done
    by_cases leader : rf.status = .Leader
    · rw [start_leader leader]; rfl
    · rw [start_other leader]
  | snapshot index data => exact absurd rfl (compact index data)
  | getApplyLogs => exact absurd rfl apply
  | crash => cases done

end Raft
end KvStorage
