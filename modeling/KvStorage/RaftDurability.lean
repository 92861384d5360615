import KvStorage.RaftStep

/-! The persistence law of one node: whenever the mutex is free, a restart would read
back what memory holds. Every critical section but one branch keeps it: a higher term
in an AppendEntries reply is taken over in memory and never written. -/
namespace KvStorage
open Exit

namespace Raft

variable {rf : Raft n Cmd Snap}

/-- The saved state is what memory holds, so a restart restores the five durable fields. -/
structure PersistLaw (rf : Raft n Cmd Snap) : Prop where
  saved : rf.persister.image = rf.persistData
  restored : (init rf.raftId rf.persister).persistData = rf.persistData
  term : rf.currentTerm ≤ (init rf.raftId rf.persister).currentTerm

theorem persistLaw_iff : rf.PersistLaw ↔ rf.persister.image = rf.persistData := by
  refine ⟨PersistLaw.saved,fun saved => ⟨saved,by rw [init_persistData,saved],?_⟩⟩
  rw [init_eq,saved]
  exact le_rfl

/-- The branch that forgets `persist`: a reply of a higher term. -/
def UnsavedTerm (rf : Raft n Cmd Snap) : NodeAction n Cmd Snap → Prop
  | .sendAppendEntries _ _ reply _ => reply.appstate ≠ Disconnected ∧ rf.currentTerm < reply.term
  | _ => False

instance (rf : Raft n Cmd Snap) : (action : NodeAction n Cmd Snap) → Decidable (rf.UnsavedTerm action)
  | .sendAppendEntries _ _ reply _ =>
    inferInstanceAs (Decidable (reply.appstate ≠ Disconnected ∧ rf.currentTerm < reply.term))
  | .doElection | .requestVoteImpl _ | .sendRequestVote .. | .doHeartBeat | .appendEntriesimpl _
  | .installSnapshotImpl _ | .leaderSendSnapshot .. | .start _ | .snapshot .. | .getApplyLogs | .crash =>
    isFalse id

/-- A section that leaves the five fields and the files alone, or writes them out. -/
inductive Writes (rf rf' : Raft n Cmd Snap) : Prop where
  | same (fields : rf'.persistData = rf.persistData) (disk : rf'.persister = rf.persister)
  | saved (image : rf'.persister.image = rf'.persistData)

variable {rf' : Raft n Cmd Snap}

theorem Writes.persistLaw (writes : Writes rf rf') (law : rf.PersistLaw) : rf'.PersistLaw := by
  rw [persistLaw_iff] at law ⊢
  cases writes with
  | same fields disk => rw [disk,fields,law]
  | saved image => exact image

theorem writes_init (left : Persister Cmd Snap) : Writes rf (init rf.raftId left) :=
  .saved (by rw [init_persister,init_persistData])

variable [DecidableEq Cmd]

theorem writes_handle {action : NodeAction n Cmd Snap} (saves : ¬ rf.UnsavedTerm action)
    (done : rf.handle action = .ok rf') : Writes rf rf' := by
  cases action with
  | doElection =>
    obtain rfl := Except.ok.inj done
    by_cases leader : rf.status = .Leader
    · rw [doElection_leader leader]; exact .same rfl rfl
    · rw [doElection_candidate leader]; exact .saved rfl
  | requestVoteImpl args =>
    obtain ⟨reply,done⟩ := map_fst_ok.mp done
    rcases requestVoteImpl_cases rf args with ⟨_,_,_,eq⟩ | ⟨_,_,_,eq⟩ | ⟨_,_,_,_,_,_,eq⟩
    all_goals
      obtain ⟨rfl,rfl⟩ := Prod.mk.inj (Except.ok.inj (eq.symm.trans done))
      exact .saved rfl
  | sendRequestVote reply voteNums =>
    obtain ⟨answer,done⟩ := map_fst_ok.mp done
    rcases sendRequestVote_ok done with ⟨_,rfl,_⟩ | ⟨rfl,_⟩ | ⟨rfl,_⟩ | ⟨rfl,_⟩
    · exact .saved rfl
    · exact .same rfl rfl
    · exact .same rfl rfl
    · exact .same rfl rfl
  | doHeartBeat =>
    simp only [handle] at done
    split at done
    · obtain rfl := Except.ok.inj done; exact .same rfl rfl
    · cases done
  | appendEntriesimpl args =>
    obtain ⟨reply,done⟩ := map_fst_ok.mp done
    rcases appendEntriesimpl_ok done with ⟨_,_,rfl⟩ | ⟨_,_,_,rfl⟩ | ⟨_,_,_,_,_,_,_,_,rfl⟩
    · exact .same rfl rfl
    · exact .saved rfl
    · exact .saved rfl
  | sendAppendEntries peerId args reply appendNums =>
    obtain ⟨answer,done⟩ := map_fst_ok.mp done
    rcases sendAppendEntries_ok done with ⟨higher,connected,_⟩ | ⟨rfl,_⟩ | ⟨_,_,_,rfl,_⟩ |
      ⟨_,_,_,_,rfl,_⟩ | ⟨_,_,_,_,rfl,_⟩
    · exact absurd ⟨connected,higher⟩ saves
    · exact .same rfl rfl
    · exact .same rfl rfl
    · exact .same rfl rfl
    · unfold commitRound
      split <;> exact .same rfl rfl
  | installSnapshotImpl args =>
    obtain ⟨answer,done⟩ := map_fst_ok.mp done
    have followed : Writes rf (rf.followDurably args.term) := by
      unfold followDurably
      split
      · exact .saved rfl
      · exact .same rfl rfl
    rcases installSnapshotImpl_cases rf args with ⟨_,eq⟩ | ⟨_,_,eq⟩ | ⟨_,_,eq⟩
    all_goals obtain ⟨rfl,_⟩ := Prod.mk.inj (Except.ok.inj (eq.symm.trans done))
    · exact .same rfl rfl
    · exact followed
    · exact .saved rfl
  | leaderSendSnapshot peerId req resp =>
    obtain rfl := Except.ok.inj done
    rcases leaderSendSnapshot_cases rf peerId req resp with eq | ⟨_,_,eq⟩ | ⟨_,_,eq⟩
    · rw [eq]; exact .same rfl rfl
    · rw [eq]; exact .saved rfl
    · rw [eq]; exact .same rfl rfl
  | start command =>
    obtain rfl := Except.ok.inj done
    by_cases leader : rf.status = .Leader
    · rw [start_leader leader]; exact .saved rfl
    · rw [start_other leader]; exact .same rfl rfl
  | snapshot index data =>
    rcases snapshot_ok done with ⟨rfl,_⟩ | ⟨_,_,_,_,rfl⟩
    · exact .same rfl rfl
    · exact .saved rfl
  | getApplyLogs =>
    obtain ⟨messages,done⟩ := map_fst_ok.mp done
    rw [(getApplyLogs_ok done).2.1]
    exact .same rfl rfl
  | crash => cases done

/-- An exit restarts the node from its files, which is a saved state again. -/
theorem writes_step {action : NodeAction n Cmd Snap} (saves : ¬ rf.UnsavedTerm action)
    (taken : rf.step action = some rf') : Writes rf rf' := by
  obtain rfl := Option.some.inj taken
  cases done : rf.handle action with
  | ok next => exact writes_handle saves done
  | error left => exact writes_init left

/-- Where the law holds, the unsaved term is what breaks it. -/
theorem persistLaw_step_iff {action : NodeAction n Cmd Snap} (law : rf.PersistLaw)
    (taken : rf.step action = some rf') : rf'.PersistLaw ↔ ¬ rf.UnsavedTerm action := by
  refine ⟨fun law' unsaved => ?_,fun saves => (writes_step saves taken).persistLaw law⟩
  cases action with
  | sendAppendEntries peerId args reply appendNums =>
    obtain ⟨connected,higher⟩ := unsaved
    have done : rf.sendAppendEntries peerId args reply appendNums =
        .ok (rf.stepDown reply.term,appendNums) := by
      simp only [sendAppendEntries,if_neg connected,gt_iff_lt,if_pos higher]; rfl
    simp only [step,handle,done,Except.map,resume,Option.some.injEq] at taken
    subst taken
    rw [persistLaw_iff] at law law'
    have term := congrArg BoostPersistRaftNode.currentTerm (law.symm.trans law')
    exact absurd term (ne_of_lt higher)
  | _ => exact unsaved

/-- Every state of a node started from any files, each step keeping clear of the unsaved term. -/
theorem persist_law (raftId : Fin n) (disk : Persister Cmd Snap)
    (reach : Run.Reach step (fun rf action => ¬ rf.UnsavedTerm action) (init raftId disk) rf) :
    rf.PersistLaw :=
  reach.invariant PersistLaw (persistLaw_iff.mpr (by rw [init_persister,init_persistData]))
    fun _ _ _ _ law saves taken => (persistLaw_step_iff law taken).mpr saves

/-- Node 0 of three wins term 1 and appends a command that it crashes with. -/
def crashedLeader : List (NodeAction 3 Nat Unit) :=
  [.doElection,.sendRequestVote ⟨1,true,.Normal⟩ 1,.start 7,.crash]

theorem crashedLeader_logs :
    ((Run.run (Run.guarded step fun rf action => ¬ rf.UnsavedTerm action) (init 0 {}) crashedLeader).map
      Raft.logs) = some [⟨7,1,1⟩] := by decide +kernel

theorem persist_law_crashedLeader : ∃ rf : Raft 3 Nat Unit, rf.logs = [⟨7,1,1⟩] ∧ rf.PersistLaw := by
  obtain ⟨rf,ran,logs⟩ := Option.map_eq_some_iff.mp crashedLeader_logs
  exact ⟨rf,logs,persist_law 0 {} (Run.reach_of_guarded crashedLeader ran .start)⟩

/-- The leader of term 1 hears of term 2 from the peer it sent a heartbeat to. -/
def deposedLeader : List (NodeAction 3 Nat Unit) :=
  [.doElection,.sendRequestVote ⟨1,true,.Normal⟩ 1,.doHeartBeat,
    .sendAppendEntries 1 ⟨1,0,0,0,[],0⟩ ⟨2,false,-100,AppNormal⟩ 1]

theorem deposedLeader_terms :
    (Run.run step (init 0 {}) deposedLeader).map
      (fun rf => (rf.currentTerm,(init rf.raftId rf.persister).currentTerm)) = some (2,1) := by decide +kernel

/-- A restart takes the deposed leader back to term 1. -/
theorem persist_law_fails : ∃ rf : Raft 3 Nat Unit, Run.Reach step Run.always (init 0 {}) rf ∧
    (init rf.raftId rf.persister).currentTerm < rf.currentTerm ∧ ¬ rf.PersistLaw := by
  obtain ⟨rf,ran,terms⟩ := Option.map_eq_some_iff.mp deposedLeader_terms
  obtain ⟨memory,disk⟩ := Prod.mk.inj terms
  have back : (init rf.raftId rf.persister).currentTerm < rf.currentTerm := by
    rw [memory,disk]
    decide
  exact ⟨rf,Run.reach_of_run deposedLeader ran,back,fun law => not_lt_of_ge law.term back⟩

end Raft
end KvStorage
