import KvStorage.RaftStep

/-! What each critical section does to `nextIndex_` and `matchIndex_`, and which of them
leave a leader in office. -/
namespace KvStorage
open Exit

namespace Raft

variable {rf rf' : Raft n Cmd Snap}

theorem get_set (items : Vector Int n) (p q : Fin n) (value : Int) :
    (items.set p.val value p.isLt).get q = if q = p then value else items.get q := by
  rw [Vector.get_eq_getElem,Vector.getElem_set]
  by_cases same : q = p
  · rw [if_pos (congrArg Fin.val same.symm),if_pos same]
  · rw [if_neg fun eq => same (Fin.ext eq.symm),if_neg same]
    rfl

section Get
variable (rf) (p q : Fin n)

@[simp] theorem acknowledge_matchIndex (args : AppendEntriesArgs Cmd) :
    (rf.acknowledge p args).matchIndex.get q =
      if q = p then max (rf.matchIndex.get p) args.lastIndex else rf.matchIndex.get q :=
  get_set ..

@[simp] theorem acknowledge_nextIndex (args : AppendEntriesArgs Cmd) :
    (rf.acknowledge p args).nextIndex.get q =
      if q = p then max (rf.matchIndex.get p) args.lastIndex + 1 else rf.nextIndex.get q :=
  get_set ..

@[simp] theorem retryFrom_nextIndex (next : Int) :
    (rf.retryFrom p next).nextIndex.get q = if q = p then next else rf.nextIndex.get q :=
  get_set ..

@[simp] theorem snapshotSent_matchIndex (index : Int) :
    (rf.snapshotSent p index).matchIndex.get q = if q = p then index else rf.matchIndex.get q :=
  get_set ..

@[simp] theorem snapshotSent_nextIndex (index : Int) :
    (rf.snapshotSent p index).nextIndex.get q = if q = p then index + 1 else rf.nextIndex.get q :=
  get_set ..

@[simp] theorem elected_matchIndex : rf.elected.matchIndex.get q = 0 := Vector.get_replicate ..

@[simp] theorem elected_nextIndex : rf.elected.nextIndex.get q = rf.getLastLogIndex + 1 :=
  Vector.get_replicate ..
end Get

/-- The writers of the two arrays, and everything else. -/
inductive PeersStep (rf rf' : Raft n Cmd Snap) : NodeAction n Cmd Snap → Prop where
  | kept (next : rf'.nextIndex = rf.nextIndex) (matched : rf'.matchIndex = rf.matchIndex)
    (office : rf'.status = .Leader → rf.status = .Leader ∧ rf'.currentTerm = rf.currentTerm) :
    PeersStep rf rf' action
  | elected (eq : rf' = rf.elected) (votes : reply.votegranted = true ∧ reply.term = rf.currentTerm) :
    PeersStep rf rf' (.sendRequestVote reply voteNums)
  | acknowledged (leader : rf.status = .Leader) (current : reply.term = rf.currentTerm)
    (success : reply.success = true) (next : rf'.nextIndex = (rf.acknowledge peerId args).nextIndex)
    (matched : rf'.matchIndex = (rf.acknowledge peerId args).matchIndex) :
    PeersStep rf rf' (.sendAppendEntries peerId args reply appendNums)
  | refused (leader : rf.status = .Leader) (current : reply.term = rf.currentTerm)
    (failed : reply.success = false) (eq : rf' = rf.retryFrom peerId reply.updatenextindex) :
    PeersStep rf rf' (.sendAppendEntries peerId args reply appendNums)
  | snapshotSent (leader : rf.status = .Leader) (current : rf.currentTerm = req.term)
    (answered : resp.term ≤ rf.currentTerm)
    (eq : rf' = rf.snapshotSent peerId req.lastsnapshotincludeindex) :
    PeersStep rf rf' (.leaderSendSnapshot peerId req resp)

/-- A section that leaves the node out of office. -/
theorem PeersStep.out {action : NodeAction n Cmd Snap} (next : rf'.nextIndex = rf.nextIndex)
    (matched : rf'.matchIndex = rf.matchIndex)
    (out : rf'.status = .Follower ∨ rf'.status = .Candidate) : PeersStep rf rf' action := by
  refine .kept next matched fun office => ?_
  rcases out with out | out <;> cases office.symm.trans out

theorem follow_fields (rf : Raft n Cmd Snap) (term : Int) :
    (rf.follow term).nextIndex = rf.nextIndex ∧ (rf.follow term).matchIndex = rf.matchIndex ∧
      (rf.follow term).status = .Follower := by
  unfold follow observe
  split <;> exact ⟨rfl,rfl,rfl⟩

theorem commitRound_peers (rf : Raft n Cmd Snap) (args : AppendEntriesArgs Cmd) :
    (rf.commitRound args).nextIndex = rf.nextIndex ∧ (rf.commitRound args).matchIndex = rf.matchIndex := by
  unfold commitRound
  split <;> exact ⟨rfl,rfl⟩

theorem peersStep_handle [DecidableEq Cmd] {action : NodeAction n Cmd Snap} (done : rf.handle action = .ok rf') :
    PeersStep rf rf' action := by
  cases action with
  | doElection =>
    obtain rfl := Except.ok.inj done
    by_cases leader : rf.status = .Leader
    · rw [doElection_leader leader]; exact .kept rfl rfl fun _ => ⟨leader,rfl⟩
    · rw [doElection_candidate leader]; exact .out rfl rfl (.inr rfl)
  | requestVoteImpl args =>
    obtain ⟨reply,done⟩ := map_fst_ok.mp done
    have observed : (rf.observe args.term).nextIndex = rf.nextIndex ∧
        (rf.observe args.term).matchIndex = rf.matchIndex ∧
        ((rf.observe args.term).status = .Leader →
          rf.status = .Leader ∧ (rf.observe args.term).currentTerm = rf.currentTerm) := by
      unfold observe
      split
      · exact ⟨rfl,rfl,by simp [stepDown]⟩
      · exact ⟨rfl,rfl,fun leader => ⟨leader,rfl⟩⟩
    obtain ⟨next,matched,office⟩ := observed
    rcases requestVoteImpl_cases rf args with ⟨_,_,_,eq⟩ | ⟨_,_,_,eq⟩ | ⟨_,_,_,_,_,_,eq⟩
    all_goals obtain ⟨rfl,rfl⟩ := Prod.mk.inj (Except.ok.inj (eq.symm.trans done))
    · exact .kept rfl rfl fun leader => ⟨leader,rfl⟩
    · exact .kept next matched office
    · exact .kept next matched office
  | sendRequestVote reply voteNums =>
    obtain ⟨answer,done⟩ := map_fst_ok.mp done
    rcases sendRequestVote_ok done with ⟨_,rfl,_⟩ | ⟨rfl,_⟩ | ⟨rfl,_⟩ | ⟨rfl,_,_,current,granted,_⟩
    · exact .out rfl rfl (.inl rfl)
    · exact .kept rfl rfl fun leader => ⟨leader,rfl⟩
    · exact .kept rfl rfl fun leader => ⟨leader,rfl⟩
    · exact .elected rfl ⟨granted,current⟩
  | doHeartBeat =>
    simp only [handle] at done
    split at done
    · obtain rfl := Except.ok.inj done; exact .kept rfl rfl fun leader => ⟨leader,rfl⟩
    · cases done
  | appendEntriesimpl args =>
    obtain ⟨reply,done⟩ := map_fst_ok.mp done
    obtain ⟨next,matched,follower⟩ := follow_fields rf args.term
    rcases appendEntriesimpl_ok done with ⟨_,_,rfl⟩ | ⟨_,_,_,rfl⟩ | ⟨_,_,_,_,merged,merge,_,_,rfl⟩
    · exact .kept rfl rfl fun leader => ⟨leader,rfl⟩
    · exact .out next matched (.inl follower)
    · have frame := mergeEntries_frame merge
      have fields : (merged.commitTo args.leadercommit).nextIndex = merged.nextIndex ∧
          (merged.commitTo args.leadercommit).matchIndex = merged.matchIndex ∧
          (merged.commitTo args.leadercommit).status = merged.status := by
        unfold commitTo
        split <;> exact ⟨rfl,rfl,rfl⟩
      refine .out ?_ ?_ (.inl (fields.2.2.trans ((congrArg Raft.status frame).trans follower)))
      · exact fields.1.trans ((congrArg Raft.nextIndex frame).trans next)
      · exact fields.2.1.trans ((congrArg Raft.matchIndex frame).trans matched)
  | sendAppendEntries peerId args reply appendNums =>
    obtain ⟨answer,done⟩ := map_fst_ok.mp done
    rcases sendAppendEntries_ok done with ⟨_,_,rfl,_⟩ | ⟨rfl,_⟩ | ⟨leader,current,failed,eq,_⟩ |
      ⟨leader,current,success,_,eq,_⟩ | ⟨leader,current,success,_,eq,_,_⟩
    · exact .out rfl rfl (.inl rfl)
    · exact .kept rfl rfl fun leader => ⟨leader,rfl⟩
    · exact .refused leader current failed eq
    · exact .acknowledged leader current success (congrArg _ eq) (congrArg _ eq)
    · obtain ⟨next,matched⟩ := commitRound_peers (rf.acknowledge peerId args) args
      exact .acknowledged leader current success ((congrArg _ eq).trans next) ((congrArg _ eq).trans matched)
  | installSnapshotImpl args =>
    obtain ⟨answer,done⟩ := map_fst_ok.mp done
    have fields : (rf.followDurably args.term).nextIndex = rf.nextIndex ∧
        (rf.followDurably args.term).matchIndex = rf.matchIndex := by
      unfold followDurably
      split <;> exact ⟨rfl,rfl⟩
    rcases installSnapshotImpl_cases rf args with ⟨_,eq⟩ | ⟨_,_,eq⟩ | ⟨_,_,eq⟩
    all_goals obtain ⟨rfl,rfl⟩ := Prod.mk.inj (Except.ok.inj (eq.symm.trans done))
    · exact .kept rfl rfl fun leader => ⟨leader,rfl⟩
    · exact .out fields.1 fields.2 (.inl rfl)
    · exact .out fields.1 fields.2 (.inl rfl)
  | leaderSendSnapshot peerId req resp =>
    obtain rfl := Except.ok.inj done
    rcases leaderSendSnapshot_cases rf peerId req resp with eq | ⟨_,_,eq⟩ | ⟨leader,current,eq⟩
    · rw [eq]; exact .kept rfl rfl fun leader => ⟨leader,rfl⟩
    · rw [eq]; exact .out rfl rfl (.inl rfl)
    · have answered : resp.term ≤ rf.currentTerm := by
        by_contra higher
        have deposed : (rf.leaderSendSnapshot peerId req resp).status = .Follower := by
          simp only [leaderSendSnapshot,leader,current,ne_eq,not_true_eq_false,or_self,if_false]
          rw [if_pos (by omega)]
          rfl
        rw [eq] at deposed
        cases leader.symm.trans deposed
      exact .snapshotSent leader current answered eq
  | start command =>
    obtain rfl := Except.ok.inj done
    by_cases leader : rf.status = .Leader
    · rw [start_leader leader]; exact .kept rfl rfl fun _ => ⟨leader,rfl⟩
    · rw [start_other leader]; exact .kept rfl rfl fun leader => ⟨leader,rfl⟩
  | snapshot index data =>
    rcases snapshot_ok done with ⟨rfl,_⟩ | ⟨_,_,_,_,rfl⟩
    · exact .kept rfl rfl fun leader => ⟨leader,rfl⟩
    · exact .kept rfl rfl fun leader => ⟨leader,rfl⟩
  | getApplyLogs =>
    obtain ⟨messages,done⟩ := map_fst_ok.mp done
    rw [(getApplyLogs_ok done).2.1]
    exact .kept rfl rfl fun leader => ⟨leader,rfl⟩
  | crash => cases done

end Raft
end KvStorage
