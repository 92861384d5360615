import KvStorage.RaftHandlers

/-! What each critical section can do: one lemma a handler, listing every normal
outcome and, for an exit, what it leaves on disk. Later proofs use these and never
unfold a handler again. -/
namespace KvStorage.Raft
open Exit

variable {rf rf' : Raft n Cmd Snap} {left : Persister Cmd Snap}

@[simp] theorem myAssert_ok {condition : Prop} [Decidable condition] {u : Unit} :
    rf.myAssert condition = .ok u ↔ condition := assert_ok

@[simp] theorem myAssert_error {condition : Prop} [Decidable condition] :
    rf.myAssert condition = .error left ↔ ¬ condition ∧ rf.persister = left := assert_error

/-! ### Terms -/

section Observe
variable (rf) (term : Int)

@[simp] theorem observe_logs : (rf.observe term).logs = rf.logs := by
  unfold observe; split <;> rfl
@[simp] theorem observe_raftId : (rf.observe term).raftId = rf.raftId := by
  unfold observe; split <;> rfl
@[simp] theorem observe_persister : (rf.observe term).persister = rf.persister := by
  unfold observe; split <;> rfl
@[simp] theorem observe_base :
    (rf.observe term).lastSnapshotIncludeIndex = rf.lastSnapshotIncludeIndex := by
  unfold observe; split <;> rfl
@[simp] theorem observe_baseTerm :
    (rf.observe term).lastSnapshotIncludeTerm = rf.lastSnapshotIncludeTerm := by
  unfold observe; split <;> rfl
@[simp] theorem observe_commitIndex : (rf.observe term).commitIndex = rf.commitIndex := by
  unfold observe; split <;> rfl
@[simp] theorem observe_lastApplied : (rf.observe term).lastApplied = rf.lastApplied := by
  unfold observe; split <;> rfl

theorem observe_currentTerm : (rf.observe term).currentTerm = max rf.currentTerm term := by
  unfold observe
  split
  · next higher => exact (max_eq_right (le_of_lt higher)).symm
  · next notHigher => exact (max_eq_left (not_lt.mp notHigher)).symm

theorem observe_of_le (current : rf.currentTerm ≤ term) :
    (rf.observe term).currentTerm = term := by
  rw [observe_currentTerm]; omega

end Observe

/-! ### Elections -/

theorem doElection_leader (leader : rf.status = .Leader) : rf.doElection = (rf,[]) := by
  simp [doElection,leader]

/-- A candidate's state: the next term, its own vote, both on disk. -/
def candidate (rf : Raft n Cmd Snap) : Raft n Cmd Snap :=
  { rf with
    status := .Candidate, currentTerm := rf.currentTerm + 1, votedFor := (rf.raftId.val : Int) }.persist

theorem doElection_candidate (notLeader : rf.status ≠ .Leader) :
    rf.doElection = (rf.candidate,rf.otherPeers.map fun i =>
      (i,⟨rf.currentTerm + 1,rf.raftId.val,rf.getLastLogIndex,rf.getLastLogTerm⟩)) := by
  simp only [doElection,if_neg notLeader]
  rfl

theorem requestVoteImpl_cases (rf : Raft n Cmd Snap) (args : RequestVoteArgs) :
    (args.term < rf.currentTerm ∧ ∃ reply, reply.votegranted = false ∧
      rf.requestVoteImpl args = .ok (rf.persist,reply)) ∨
    (rf.currentTerm ≤ args.term ∧ ∃ reply, reply.votegranted = false ∧
      rf.requestVoteImpl args = .ok ((rf.observe args.term).persist,reply)) ∨
    (rf.currentTerm ≤ args.term ∧ rf.upToDate args.lastlogindex args.lastlogterm = true ∧
      ((rf.observe args.term).votedFor = -1 ∨ (rf.observe args.term).votedFor = args.candidateid) ∧
      ∃ reply, reply.votegranted = true ∧ reply.term = args.term ∧
      rf.requestVoteImpl args =
        .ok ({ rf.observe args.term with votedFor := args.candidateid }.persist,reply)) := by
  by_cases stale : args.term < rf.currentTerm
  · exact .inl ⟨stale,_,rfl,by simp only [requestVoteImpl,if_pos stale]; rfl⟩
  have current : rf.currentTerm ≤ args.term := by omega
  have same : args.term = (rf.observe args.term).currentTerm := (observe_of_le rf _ current).symm
  have dates : (rf.observe args.term).upToDate args.lastlogindex args.lastlogterm =
      rf.upToDate args.lastlogindex args.lastlogterm := by
    simp [upToDate,getLastLogIndexAndTerm]
  simp only [requestVoteImpl,if_neg stale,myAssert,assert,if_pos same,dates]
  let denied : RequestVoteReply :=
    { term := (rf.observe args.term).currentTerm, votegranted := false, votestate := .Voted }
  by_cases newer : rf.upToDate args.lastlogindex args.lastlogterm = true
  · by_cases taken : (rf.observe args.term).votedFor ≠ -1 ∧
        (rf.observe args.term).votedFor ≠ args.candidateid
    · refine .inr (.inl ⟨current,denied,rfl,?_⟩)
      simp only [newer,not_true_eq_false,if_false,if_pos taken]; rfl
    · refine .inr (.inr ⟨current,newer,by omega,
        { term := (rf.observe args.term).currentTerm, votegranted := true, votestate := .Normal },
        rfl,same.symm,?_⟩)
      simp only [newer,not_true_eq_false,if_false,if_neg taken]; rfl
  · refine .inr (.inl ⟨current,denied,rfl,?_⟩)
    simp only [newer]; rfl

/-- A new leader: every peer's progress starts over at the end of its log. -/
def elected (rf : Raft n Cmd Snap) : Raft n Cmd Snap :=
  { rf with
    status := .Leader
    nextIndex := Vector.replicate n (rf.getLastLogIndex + 1)
    matchIndex := Vector.replicate n 0 }

theorem sendRequestVote_ok {reply : RequestVoteReply} {voteNums votes : Int} {promoted : Bool}
    (done : rf.sendRequestVote reply voteNums = .ok (rf',votes,promoted)) :
    (rf.currentTerm < reply.term ∧ rf' = (rf.stepDown reply.term).persist ∧
      votes = voteNums ∧ promoted = false) ∨
    (rf' = rf ∧ votes = voteNums ∧ promoted = false) ∨
    (rf' = rf ∧ votes = voteNums + 1 ∧ promoted = false ∧ reply.term = rf.currentTerm ∧
      reply.votegranted = true ∧ voteNums + 1 < rf.majority) ∨
    (rf' = rf.elected ∧ votes = 0 ∧ promoted = true ∧ reply.term = rf.currentTerm ∧
      reply.votegranted = true ∧ rf.majority ≤ voteNums + 1 ∧ rf.status ≠ .Leader) := by
  simp only [sendRequestVote] at done
  split at done
  · next higher =>
    simp only [pure_ok,Prod.mk.injEq] at done
    exact .inl ⟨by omega,done.1.symm,done.2.1.symm,done.2.2.symm⟩
  split at done
  · simp only [pure_ok,Prod.mk.injEq] at done
    exact .inr (.inl ⟨done.1.symm,done.2.1.symm,done.2.2.symm⟩)
  split at done
  · simp only [pure_ok,Prod.mk.injEq] at done
    exact .inr (.inl ⟨done.1.symm,done.2.1.symm,done.2.2.symm⟩)
  split at done
  · next notHigher notLower granted enough =>
    simp only [bind_ok,myAssert_ok,pure_ok,Prod.mk.injEq] at done
    obtain ⟨_,notLeader,rfl,rfl,rfl⟩ := done
    exact .inr (.inr (.inr ⟨rfl,rfl,rfl,by omega,by simpa using granted,enough,notLeader⟩))
  · next notHigher notLower granted few =>
    simp only [pure_ok,Prod.mk.injEq] at done
    exact .inr (.inr (.inl ⟨done.1.symm,done.2.1.symm,done.2.2.symm,by omega,
      by simpa using granted,by omega⟩))

theorem sendRequestVote_error {reply : RequestVoteReply} {voteNums : Int}
    (exit : rf.sendRequestVote reply voteNums = .error left) : left = rf.persister := by
  simp only [sendRequestVote] at exit
  split at exit
  · simp at exit
  split at exit
  · simp at exit
  split at exit
  · simp at exit
  split at exit
  · simp only [bind_error,myAssert_error,pure_error,and_false,exists_const,or_false] at exit
    exact exit.2.symm
  · simp at exit

/-! ### Log reads -/

theorem getSlicesIndexFromLogIndex_ok {logIndex : Int} {k : Nat} :
    rf.getSlicesIndexFromLogIndex logIndex = .ok k ↔
      rf.lastSnapshotIncludeIndex < logIndex ∧ logIndex ≤ rf.getLastLogIndex ∧
      (k : Int) = logIndex - rf.lastSnapshotIncludeIndex - 1 := by
  simp only [getSlicesIndexFromLogIndex,bind_ok,myAssert_ok,pure_ok,exists_const,gt_iff_lt]
  constructor
  · rintro ⟨above,below,rfl⟩; exact ⟨above,below,by omega⟩
  · rintro ⟨above,below,eq⟩; exact ⟨above,below,by omega⟩

theorem getSlicesIndexFromLogIndex_error {logIndex : Int}
    (exit : rf.getSlicesIndexFromLogIndex logIndex = .error left) : left = rf.persister := by
  simp only [getSlicesIndexFromLogIndex,bind_error,myAssert_error,pure_error,and_false,exists_const,
    or_false] at exit
  grind

theorem entryAt_ok {logIndex : Int} {entry : LogEntry Cmd} :
    rf.entryAt logIndex = .ok entry ↔
      rf.lastSnapshotIncludeIndex < logIndex ∧ logIndex ≤ rf.getLastLogIndex ∧
      rf.logs[(logIndex - rf.lastSnapshotIncludeIndex - 1).toNat]? = some entry := by
  simp only [entryAt,bind_ok,lookup_ok,getSlicesIndexFromLogIndex_ok]
  constructor
  · rintro ⟨k,⟨above,below,eq⟩,found⟩
    have : (logIndex - rf.lastSnapshotIncludeIndex - 1).toNat = k := by omega
    exact ⟨above,below,this ▸ found⟩
  · rintro ⟨above,below,found⟩
    exact ⟨_,⟨above,below,by omega⟩,found⟩

theorem entryAt_error {logIndex : Int} (exit : rf.entryAt logIndex = .error left) :
    left = rf.persister := by
  simp only [entryAt,bind_error,lookup_error] at exit
  rcases exit with exit | ⟨k,_,_,eq⟩
  · exact getSlicesIndexFromLogIndex_error exit
  · exact eq.symm

theorem getLogTermFromLogIndex_ok {logIndex term : Int} :
    rf.getLogTermFromLogIndex logIndex = .ok term ↔
      rf.lastSnapshotIncludeIndex ≤ logIndex ∧ logIndex ≤ rf.getLastLogIndex ∧
      ((logIndex = rf.lastSnapshotIncludeIndex ∧ term = rf.lastSnapshotIncludeTerm) ∨
        ∃ entry, rf.entryAt logIndex = .ok entry ∧ entry.logterm = term) := by
  simp only [getLogTermFromLogIndex,bind_ok,myAssert_ok,exists_const,ge_iff_le]
  constructor
  · rintro ⟨above,below,found⟩
    refine ⟨above,below,?_⟩
    split at found
    · next eq => exact .inl ⟨eq,(pure_ok.mp found).symm⟩
    · simp only [bind_ok,pure_ok] at found
      exact .inr found
  · rintro ⟨above,below,⟨eq,rfl⟩ | ⟨entry,found,rfl⟩⟩
    · exact ⟨above,below,by simp [eq]⟩
    · have strict := (entryAt_ok.mp found).1
      refine ⟨above,below,?_⟩
      rw [if_neg (by omega)]
      simp [found]

theorem getLogTermFromLogIndex_error {logIndex : Int}
    (exit : rf.getLogTermFromLogIndex logIndex = .error left) : left = rf.persister := by
  simp only [getLogTermFromLogIndex,bind_error,myAssert_error,myAssert_ok] at exit
  rcases exit with ⟨_,eq⟩ | ⟨_,_,⟨_,eq⟩ | ⟨_,_,exit⟩⟩
  · exact eq.symm
  · exact eq.symm
  · split at exit
    · simp at exit
    · simp only [bind_error,pure_error,and_false,exists_false,or_false] at exit
      exact entryAt_error exit

theorem matchLog_ok {logIndex logTerm : Int} {matched : Bool} :
    rf.matchLog logIndex logTerm = .ok matched ↔
      ∃ term, rf.getLogTermFromLogIndex logIndex = .ok term ∧ matched = (logTerm == term) := by
  simp only [matchLog,bind_ok,myAssert_ok,exists_const,pure_ok]
  constructor
  · rintro ⟨_,term,found,rfl⟩; exact ⟨term,found,rfl⟩
  · rintro ⟨term,found,rfl⟩
    have bounds := getLogTermFromLogIndex_ok.mp found
    exact ⟨⟨bounds.1,bounds.2.1⟩,term,found,rfl⟩

theorem matchLog_error {logIndex logTerm : Int}
    (exit : rf.matchLog logIndex logTerm = .error left) : left = rf.persister := by
  simp only [matchLog,bind_error,myAssert_error,pure_error,and_false,exists_const,or_false] at exit
  rcases exit with ⟨_,eq⟩ | ⟨_,_,exit⟩
  · exact eq.symm
  · exact getLogTermFromLogIndex_error exit

/-! ### Log replication -/

/-- Where every accepted `AppendEntries` starts: the term observed, the node a follower. -/
def follow (rf : Raft n Cmd Snap) (term : Int) : Raft n Cmd Snap :=
  { rf.observe term with status := .Follower }

section CommitTo
variable (rf) (leadercommit : Int)

@[simp] theorem commitTo_currentTerm : (rf.commitTo leadercommit).currentTerm = rf.currentTerm := by
  unfold commitTo; split <;> rfl
@[simp] theorem commitTo_persister : (rf.commitTo leadercommit).persister = rf.persister := by
  unfold commitTo; split <;> rfl
@[simp] theorem commitTo_lastApplied : (rf.commitTo leadercommit).lastApplied = rf.lastApplied := by
  unfold commitTo; split <;> rfl
@[simp] theorem commitTo_logs : (rf.commitTo leadercommit).logs = rf.logs := by
  unfold commitTo; split <;> rfl
@[simp] theorem commitTo_getLastLogIndex :
    (rf.commitTo leadercommit).getLastLogIndex = rf.getLastLogIndex := by
  unfold commitTo; split <;> rfl
end CommitTo

variable [DecidableEq Cmd]

/-- One received entry: appended, written over an entry of another term, or already there. -/
theorem mergeEntry_ok {log : LogEntry Cmd} (done : rf.mergeEntry log = .ok rf') :
    (rf.getLastLogIndex < log.logindex ∧ rf' = { rf with logs := rf.logs ++ [log] }) ∨
    ∃ mine, rf.entryAt log.logindex = .ok mine ∧
      ((mine.logterm ≠ log.logterm ∧ rf' = { rf with
          logs := rf.logs.set (log.logindex - rf.lastSnapshotIncludeIndex - 1).toNat log }) ∨
        (mine.logterm = log.logterm ∧ mine.command = log.command ∧ rf' = rf)) := by
  simp only [mergeEntry] at done
  split at done
  · next beyond => exact .inl ⟨beyond,(pure_ok.mp done).symm⟩
  · simp only [bind_ok,lookup_ok,myAssert_ok,getSlicesIndexFromLogIndex_ok] at done
    obtain ⟨k,⟨above,below,eq⟩,mine,found,_,agrees,done⟩ := done
    have slices : k = (log.logindex - rf.lastSnapshotIncludeIndex - 1).toNat := by omega
    subst slices
    refine .inr ⟨mine,entryAt_ok.mpr ⟨above,below,found⟩,?_⟩
    split at done
    · next differs => exact .inl ⟨differs,(pure_ok.mp done).symm⟩
    · next same =>
      have same : mine.logterm = log.logterm := not_not.mp same
      exact .inr ⟨same,by_contra fun other => agrees ⟨same,other⟩,(pure_ok.mp done).symm⟩

/-- Merging touches the log only. -/
theorem mergeEntry_frame {log : LogEntry Cmd} (done : rf.mergeEntry log = .ok rf') :
    rf' = { rf with logs := rf'.logs } := by
  rcases mergeEntry_ok done with ⟨_,rfl⟩ | ⟨_,_,⟨_,rfl⟩ | ⟨_,_,rfl⟩⟩ <;> rfl

theorem mergeEntry_error {log : LogEntry Cmd} (exit : rf.mergeEntry log = .error left) :
    left = rf.persister := by
  simp only [mergeEntry] at exit
  split at exit
  · simp at exit
  · simp only [bind_error,lookup_error,myAssert_error] at exit
    rcases exit with exit | ⟨_,_,⟨_,eq⟩ | ⟨_,_,⟨_,eq⟩ | ⟨_,_,exit⟩⟩⟩
    · exact getSlicesIndexFromLogIndex_error exit
    · exact eq.symm
    · exact eq.symm
    · split at exit <;> simp at exit

theorem mergeEntries_frame {entries : List (LogEntry Cmd)}
    (done : rf.mergeEntries entries = .ok rf') : rf' = { rf with logs := rf'.logs } := by
  induction entries generalizing rf with
  | nil => rw [← pure_ok.mp done]
  | cons log rest ih =>
    simp only [mergeEntries,bind_ok] at done
    obtain ⟨middle,first,later⟩ := done
    rw [ih later,mergeEntry_frame first]

theorem mergeEntries_error {entries : List (LogEntry Cmd)}
    (exit : rf.mergeEntries entries = .error left) : left = rf.persister := by
  induction entries generalizing rf with
  | nil => exact absurd exit pure_error
  | cons log rest ih =>
    simp only [mergeEntries,bind_error] at exit
    rcases exit with exit | ⟨middle,first,later⟩
    · exact mergeEntry_error exit
    · rw [ih later,mergeEntry_frame first]

/-- Every normal outcome: a stale leader, a refusal, or a merge and commit. -/
theorem appendEntriesimpl_ok {args : AppendEntriesArgs Cmd} {reply : AppendEntriesReply}
    (done : rf.appendEntriesimpl args = .ok (rf',reply)) :
    (args.term < rf.currentTerm ∧ reply.success = false ∧ rf' = rf) ∨
    (rf.currentTerm ≤ args.term ∧ reply.success = false ∧ reply.term = args.term ∧
      rf' = (rf.follow args.term).persist) ∨
    (rf.currentTerm ≤ args.term ∧ reply.success = true ∧ reply.term = args.term ∧
      (rf.follow args.term).getLogTermFromLogIndex args.prevlogindex = .ok args.prevlogterm ∧
      ∃ merged, (rf.follow args.term).mergeEntries args.entries = .ok merged ∧
        args.lastIndex ≤ merged.getLastLogIndex ∧
        (merged.commitTo args.leadercommit).commitIndex ≤ merged.getLastLogIndex ∧
        rf' = (merged.commitTo args.leadercommit).persist) := by
  by_cases stale : args.term < rf.currentTerm
  · simp only [appendEntriesimpl,if_pos stale,pure_ok,Prod.mk.injEq] at done
    exact .inl ⟨stale,by rw [← done.2],done.1.symm⟩
  have current : rf.currentTerm ≤ args.term := by omega
  have same := observe_of_le rf _ current
  simp only [appendEntriesimpl,if_neg stale,bind_ok,myAssert_ok] at done
  obtain ⟨_,_,done⟩ := done
  split at done
  · simp only [pure_ok,Prod.mk.injEq] at done
    exact .inr (.inl ⟨current,by rw [← done.2],by rw [← done.2]; exact same,done.1.symm⟩)
  split at done
  · simp only [pure_ok,Prod.mk.injEq] at done
    exact .inr (.inl ⟨current,by rw [← done.2],by rw [← done.2]; exact same,done.1.symm⟩)
  simp only [bind_ok,matchLog_ok] at done
  obtain ⟨matched,⟨term,found,rfl⟩,done⟩ := done
  split at done
  · next eq =>
    have eq : args.prevlogterm = term := by simpa using eq
    simp only [bind_ok,myAssert_ok,pure_ok,Prod.mk.injEq] at done
    obtain ⟨merged,merge,_,reached,_,bounded,rfl,rfl⟩ := done
    have frame := congrArg Raft.currentTerm (mergeEntries_frame merge)
    refine .inr (.inr ⟨current,rfl,?_,by rw [eq]; exact found,merged,merge,reached,?_,rfl⟩)
    · exact (commitTo_currentTerm ..).trans (frame.trans same)
    · simpa only [commitTo_getLastLogIndex] using bounded
  · simp only [bind_ok,pure_ok,Prod.mk.injEq] at done
    obtain ⟨hint,_,rfl,rfl⟩ := done
    exact .inr (.inl ⟨current,rfl,same,rfl⟩)

omit [DecidableEq Cmd] in
theorem conflictHint_error {prevlogindex default : Int} {rounds : Nat}
    (exit : rf.conflictHint prevlogindex default rounds = .error left) : left = rf.persister := by
  induction rounds with
  | zero => exact absurd exit pure_error
  | succ remaining ih =>
    simp only [conflictHint,bind_error] at exit
    rcases exit with exit | ⟨_,_,exit | ⟨_,_,exit⟩⟩
    · exact getLogTermFromLogIndex_error exit
    · exact getLogTermFromLogIndex_error exit
    · split at exit
      · exact absurd exit pure_error
      · exact ih exit

/-- No exit of `appendEntriesimpl` runs the deferred `persist`. -/
theorem appendEntriesimpl_error {args : AppendEntriesArgs Cmd}
    (exit : rf.appendEntriesimpl args = .error left) : left = rf.persister := by
  have disk : (rf.follow args.term).persister = rf.persister := observe_persister rf args.term
  simp only [appendEntriesimpl] at exit
  split at exit
  · exact absurd exit pure_error
  simp only [bind_error,myAssert_error] at exit
  rcases exit with ⟨_,eq⟩ | ⟨_,_,exit⟩
  · exact eq.symm.trans disk
  split at exit
  · exact absurd exit pure_error
  split at exit
  · exact absurd exit pure_error
  simp only [bind_error] at exit
  rcases exit with exit | ⟨_,_,exit⟩
  · exact (matchLog_error exit).trans disk
  split at exit
  · simp only [bind_error,myAssert_error,pure_error,and_false,exists_false,or_false] at exit
    rcases exit with exit | ⟨merged,merge,exit⟩
    · exact (mergeEntries_error exit).trans disk
    have frame : merged.persister = rf.persister :=
      (congrArg Raft.persister (mergeEntries_frame merge)).trans disk
    rcases exit with ⟨_,eq⟩ | ⟨_,_,_,eq⟩
    · exact eq.symm.trans frame
    · exact eq.symm.trans ((commitTo_persister ..).trans frame)
  · simp only [bind_error,pure_error,and_false,exists_false,or_false] at exit
    exact (conflictHint_error exit).trans disk

omit [DecidableEq Cmd]

/-- The commit that a majority of successes triggers: only for entries of this term. -/
def commitRound (rf : Raft n Cmd Snap) (args : AppendEntriesArgs Cmd) : Raft n Cmd Snap :=
  if args.lastLogTerm? = some rf.currentTerm then
    { rf with commitIndex := max rf.commitIndex args.lastIndex } else rf

theorem sendAppendEntries_ok {peerId : Fin n} {args : AppendEntriesArgs Cmd}
    {reply : AppendEntriesReply} {appendNums successes : Int}
    (done : rf.sendAppendEntries peerId args reply appendNums = .ok (rf',successes)) :
    (rf.currentTerm < reply.term ∧ reply.appstate ≠ Disconnected ∧
      rf' = rf.stepDown reply.term ∧ successes = appendNums) ∨
    (rf' = rf ∧ successes = appendNums) ∨
    (rf.status = .Leader ∧ reply.term = rf.currentTerm ∧ reply.success = false ∧
      rf' = rf.retryFrom peerId reply.updatenextindex ∧
      successes = appendNums) ∨
    (rf.status = .Leader ∧ reply.term = rf.currentTerm ∧ reply.success = true ∧
      appendNums + 1 < rf.majority ∧ rf' = rf.acknowledge peerId args ∧
      successes = appendNums + 1) ∨
    (rf.status = .Leader ∧ reply.term = rf.currentTerm ∧ reply.success = true ∧
      rf.majority ≤ appendNums + 1 ∧ rf' = (rf.acknowledge peerId args).commitRound args ∧
      rf'.commitIndex ≤ rf.getLastLogIndex ∧ successes = 0) := by
  simp only [sendAppendEntries] at done
  split at done
  · simp only [pure_ok,Prod.mk.injEq] at done
    exact .inr (.inl ⟨done.1.symm,done.2.symm⟩)
  next connected =>
  split at done
  · next higher =>
    simp only [pure_ok,Prod.mk.injEq] at done
    exact .inl ⟨by omega,connected,done.1.symm,done.2.symm⟩
  split at done
  · simp only [pure_ok,Prod.mk.injEq] at done
    exact .inr (.inl ⟨done.1.symm,done.2.symm⟩)
  split at done
  · simp only [pure_ok,Prod.mk.injEq] at done
    exact .inr (.inl ⟨done.1.symm,done.2.symm⟩)
  next leader =>
  have leader : rf.status = .Leader := by simpa using leader
  simp only [bind_ok,myAssert_ok] at done
  obtain ⟨_,same,done⟩ := done
  split at done
  · next failed =>
    have failed : reply.success = false := by simpa using failed
    split at done
    · simp only [pure_ok,Prod.mk.injEq] at done
      exact .inr (.inr (.inl ⟨leader,same,failed,done.1.symm,done.2.symm⟩))
    · simp only [pure_ok,Prod.mk.injEq] at done
      exact .inr (.inl ⟨done.1.symm,done.2.symm⟩)
  · next succeeded =>
    have succeeded : reply.success = true := by simpa using succeeded
    simp only [bind_ok,myAssert_ok] at done
    obtain ⟨_,_,done⟩ := done
    split at done
    · next enough =>
      simp only [bind_ok,myAssert_ok,pure_ok,Prod.mk.injEq] at done
      obtain ⟨_,bounded,rfl,rfl⟩ := done
      exact .inr (.inr (.inr (.inr ⟨leader,same,succeeded,enough,rfl,bounded,rfl⟩)))
    · next few =>
      simp only [pure_ok,Prod.mk.injEq] at done
      exact .inr (.inr (.inr (.inl ⟨leader,same,succeeded,not_le.mp few,done.1.symm,done.2.symm⟩)))

theorem sendAppendEntries_error {peerId : Fin n} {args : AppendEntriesArgs Cmd}
    {reply : AppendEntriesReply} {appendNums : Int}
    (exit : rf.sendAppendEntries peerId args reply appendNums = .error left) :
    left = rf.persister := by
  simp only [sendAppendEntries] at exit
  split at exit
  · exact absurd exit pure_error
  split at exit
  · exact absurd exit pure_error
  split at exit
  · exact absurd exit pure_error
  split at exit
  · exact absurd exit pure_error
  simp only [bind_error,myAssert_error] at exit
  rcases exit with ⟨_,eq⟩ | ⟨_,_,exit⟩
  · exact eq.symm
  split at exit
  · split at exit <;> exact absurd exit pure_error
  simp only [bind_error,myAssert_error] at exit
  rcases exit with ⟨_,eq⟩ | ⟨_,_,exit⟩
  · exact eq.symm
  split at exit
  · simp only [bind_error,myAssert_error,pure_error,and_false,exists_false,or_false] at exit
    rw [← exit.2]; split <;> rfl
  · exact absurd exit pure_error

theorem entriesAfter_ok {preLogIndex : Int} {entries : List (LogEntry Cmd)}
    (done : rf.entriesAfter preLogIndex = .ok entries) :
    entries = rf.logs.drop (preLogIndex - rf.lastSnapshotIncludeIndex).toNat := by
  simp only [entriesAfter] at done
  split at done
  · simp only [bind_ok,pure_ok,getSlicesIndexFromLogIndex_ok] at done
    obtain ⟨k,⟨_,_,eq⟩,rfl⟩ := done
    congr 1
    omega
  · next edge =>
    have : (preLogIndex - rf.lastSnapshotIncludeIndex).toNat = 0 := by omega
    rw [← pure_ok.mp done,this,List.drop_zero]

theorem getPrevLogInfo_ok {peer : Fin n} {preIndex preTerm : Int}
    (done : rf.getPrevLogInfo peer = .ok (preIndex,preTerm)) :
    preIndex = rf.nextIndex.get peer - 1 ∧
    ((preIndex = rf.lastSnapshotIncludeIndex ∧ preTerm = rf.lastSnapshotIncludeTerm) ∨
      ∃ entry, rf.entryAt preIndex = .ok entry ∧ entry.logterm = preTerm) := by
  simp only [getPrevLogInfo] at done
  split at done
  · next edge =>
    change rf.nextIndex.get peer = _ at edge
    obtain ⟨rfl,rfl⟩ := Prod.mk.inj (pure_ok.mp done)
    exact ⟨by omega,.inl ⟨rfl,rfl⟩⟩
  · simp only [bind_ok,pure_ok,Prod.mk.injEq] at done
    obtain ⟨entry,found,rfl,rfl⟩ := done
    exact ⟨rfl,.inr ⟨entry,found,rfl⟩⟩

/-- The args built for one peer continue the leader's log from just below `nextIndex_`. -/
theorem heartBeatPeer_ok {peer : Fin n} {thread : Spawned n Cmd}
    (done : rf.heartBeatPeer peer = .ok thread) :
    (thread = .leaderSendSnapshot peer ∧ rf.nextIndex.get peer ≤ rf.lastSnapshotIncludeIndex) ∨
    ∃ args : AppendEntriesArgs Cmd, thread = .sendAppendEntries peer args ∧
      args.term = rf.currentTerm ∧ args.leaderid = rf.raftId.val ∧
      args.leadercommit = rf.commitIndex ∧ args.lastIndex = rf.getLastLogIndex ∧
      rf.lastSnapshotIncludeIndex ≤ args.prevlogindex ∧
      args.prevlogindex = rf.nextIndex.get peer - 1 ∧
      rf.getLogTermFromLogIndex args.prevlogindex = .ok args.prevlogterm ∧
      args.entries = rf.logs.drop (args.prevlogindex - rf.lastSnapshotIncludeIndex).toNat := by
  simp only [heartBeatPeer,bind_ok,myAssert_ok] at done
  obtain ⟨_,_,done⟩ := done
  split at done
  · next behind => exact .inl ⟨(pure_ok.mp done).symm,behind⟩
  next ahead =>
  change ¬ rf.nextIndex.get peer ≤ _ at ahead
  simp only [bind_ok,myAssert_ok,pure_ok] at done
  obtain ⟨⟨preIndex,preTerm⟩,previous,entries,chosen,_,reached,rfl⟩ := done
  obtain ⟨before,held⟩ := getPrevLogInfo_ok previous
  have above : rf.lastSnapshotIncludeIndex ≤ preIndex := by omega
  have below : preIndex ≤ rf.getLastLogIndex := by
    simp only [AppendEntriesArgs.lastIndex] at reached
    omega
  exact .inr ⟨_,rfl,rfl,rfl,rfl,reached,above,before,
    getLogTermFromLogIndex_ok.mpr ⟨above,below,held⟩,entriesAfter_ok chosen⟩

theorem heartBeatPeer_error {peer : Fin n} (exit : rf.heartBeatPeer peer = .error left) :
    left = rf.persister := by
  simp only [heartBeatPeer,bind_error,myAssert_error] at exit
  rcases exit with ⟨_,eq⟩ | ⟨_,_,exit⟩
  · exact eq.symm
  split at exit
  · exact absurd exit pure_error
  simp only [bind_error,myAssert_error,pure_error,and_false,exists_false,or_false] at exit
  rcases exit with exit | ⟨_,_,exit | ⟨_,_,_,eq⟩⟩
  · simp only [getPrevLogInfo] at exit
    split at exit
    · exact absurd exit pure_error
    · simp only [bind_error,pure_error,and_false,exists_false,or_false] at exit
      exact entryAt_error exit
  · simp only [entriesAfter] at exit
    split at exit
    · simp only [bind_error,pure_error,and_false,exists_false,or_false] at exit
      exact getSlicesIndexFromLogIndex_error exit
    · exact absurd exit pure_error
  · exact eq.symm

/-- Every started thread is one peer's, in the order of the loop. -/
theorem heartBeatLoop_spec {peers : List (Fin n)} {threads : List (Spawned n Cmd)}
    {exit : Option (Persister Cmd Snap)} (loop : rf.heartBeatLoop peers = (threads,exit)) :
    (∀ thread ∈ threads, ∃ peer ∈ peers, rf.heartBeatPeer peer = .ok thread) ∧
    (∀ left, exit = some left → left = rf.persister) := by
  induction peers generalizing threads with
  | nil => cases loop; simp
  | cons peer rest ih =>
    simp only [heartBeatLoop] at loop
    split at loop
    · next left failed =>
      obtain ⟨rfl,rfl⟩ := Prod.mk.inj loop
      refine ⟨by simp,?_⟩
      rintro _ ⟨⟩
      exact heartBeatPeer_error failed
    · next thread started =>
      obtain ⟨rfl,rfl⟩ := Prod.mk.inj loop
      obtain ⟨later,ends⟩ := ih rfl
      refine ⟨?_,ends⟩
      intro other member
      rcases List.mem_cons.mp member with rfl | member
      · exact ⟨peer,List.mem_cons_self,started⟩
      · obtain ⟨q,inRest,eq⟩ := later other member
        exact ⟨q,List.mem_cons_of_mem _ inRest,eq⟩

theorem doHeartBeat_spec {threads : List (Spawned n Cmd)} {exit : Option (Persister Cmd Snap)}
    (round : rf.doHeartBeat = (threads,exit)) :
    (∀ thread ∈ threads, rf.status = .Leader ∧
      ∃ peer, peer ≠ rf.raftId ∧ rf.heartBeatPeer peer = .ok thread) ∧
    (∀ left, exit = some left → left = rf.persister) := by
  simp only [doHeartBeat] at round
  split at round
  · cases round; simp
  · next leader =>
    obtain ⟨started,ends⟩ := heartBeatLoop_spec round
    refine ⟨?_,ends⟩
    intro thread member
    obtain ⟨peer,inPeers,eq⟩ := started thread member
    exact ⟨by simpa using leader,peer,by simpa [otherPeers] using inPeers,eq⟩

/-! ### Snapshots -/

theorem leaderSendSnapshot_cases (rf : Raft n Cmd Snap) (peerId : Fin n)
    (req : InstallSnapshotRequest Snap) (resp : InstallSnapshotResponse) :
    rf.leaderSendSnapshot peerId req resp = rf ∨
    (rf.status = .Leader ∧ rf.currentTerm < resp.term ∧
      rf.leaderSendSnapshot peerId req resp = (rf.stepDown resp.term).persist) ∨
    (rf.status = .Leader ∧ rf.currentTerm = req.term ∧
      rf.leaderSendSnapshot peerId req resp = rf.snapshotSent peerId req.lastsnapshotincludeindex) := by
  by_cases outdated : rf.status ≠ .Leader ∨ rf.currentTerm ≠ req.term
  · exact .inl (by simp only [leaderSendSnapshot,if_pos outdated])
  simp only [leaderSendSnapshot,if_neg outdated]
  have leader : rf.status = .Leader := by_contra fun h => outdated (.inl h)
  have same : rf.currentTerm = req.term := by_contra fun h => outdated (.inr h)
  split
  · next higher => exact .inr (.inl ⟨leader,higher,rfl⟩)
  · exact .inr (.inr ⟨leader,same,rfl⟩)

/-- A term seen in an `InstallSnapshot` is on disk before anything else happens. -/
def followDurably (rf : Raft n Cmd Snap) (term : Int) : Raft n Cmd Snap :=
  { (if term > rf.currentTerm then (rf.stepDown term).persist else rf) with status := .Follower }

/-- The state that continues a received snapshot with the entries `logs`. -/
def installed (rf : Raft n Cmd Snap) (args : InstallSnapshotRequest Snap)
    (logs : List (LogEntry Cmd)) : Raft n Cmd Snap :=
  { rf with
    logs := logs
    commitIndex := max rf.commitIndex args.lastsnapshotincludeindex
    lastApplied := max rf.lastApplied args.lastsnapshotincludeindex
    lastSnapshotIncludeIndex := args.lastsnapshotincludeindex
    lastSnapshotIncludeTerm := args.lastsnapshotincludeterm }

/-- The entries kept: those above the snapshot when the log reaches above it, else none. -/
def keptAbove (rf : Raft n Cmd Snap) (index : Int) : List (LogEntry Cmd) :=
  if index < rf.getLastLogIndex then
    rf.logs.drop (index - rf.lastSnapshotIncludeIndex).toNat
  else []

/-- The range assertion behind the erase cannot fail for an index above the base. -/
theorem entriesAbove_eq {index : Int} (above : rf.lastSnapshotIncludeIndex < index) :
    rf.entriesAbove index = .ok (rf.keptAbove index) := by
  by_cases longer : index < rf.getLastLogIndex
  · have slices : rf.getSlicesIndexFromLogIndex index =
        .ok (index - rf.lastSnapshotIncludeIndex - 1).toNat :=
      getSlicesIndexFromLogIndex_ok.mpr ⟨above,by omega,by omega⟩
    have shift : (index - rf.lastSnapshotIncludeIndex - 1).toNat + 1 =
        (index - rf.lastSnapshotIncludeIndex).toNat := by omega
    simp only [entriesAbove,gt_iff_lt,if_pos longer,slices,keptAbove,← shift]
    rfl
  · simp only [entriesAbove,gt_iff_lt,if_neg longer,keptAbove]
    rfl

section FollowDurably
variable (rf) (term : Int)

@[simp] theorem followDurably_logs : (rf.followDurably term).logs = rf.logs := by
  unfold followDurably; split <;> rfl
@[simp] theorem followDurably_lastApplied : (rf.followDurably term).lastApplied = rf.lastApplied := by
  unfold followDurably; split <;> rfl
@[simp] theorem followDurably_base :
    (rf.followDurably term).lastSnapshotIncludeIndex = rf.lastSnapshotIncludeIndex := by
  unfold followDurably; split <;> rfl
@[simp] theorem followDurably_getLastLogIndex :
    (rf.followDurably term).getLastLogIndex = rf.getLastLogIndex := by
  unfold followDurably; split <;> rfl
theorem followDurably_of_le (current : rf.currentTerm ≤ term) :
    (rf.followDurably term).currentTerm = term := by
  unfold followDurably
  split
  · rfl
  · next notHigher => exact le_antisymm current (not_lt.mp notHigher)
end FollowDurably

/-- `installSnapshotImpl` never exits: refused, already covered, or installed. -/
theorem installSnapshotImpl_cases (rf : Raft n Cmd Snap) (args : InstallSnapshotRequest Snap) :
    (args.term < rf.currentTerm ∧
      rf.installSnapshotImpl args = .ok (rf,{ term := rf.currentTerm },none)) ∨
    (rf.currentTerm ≤ args.term ∧ args.lastsnapshotincludeindex ≤ rf.lastSnapshotIncludeIndex ∧
      rf.installSnapshotImpl args = .ok (rf.followDurably args.term,{},none)) ∨
    (rf.currentTerm ≤ args.term ∧ rf.lastSnapshotIncludeIndex < args.lastsnapshotincludeindex ∧
      rf.installSnapshotImpl args =
        .ok (((rf.followDurably args.term).installed args
            (rf.keptAbove args.lastsnapshotincludeindex)).saveSnapshot args.data,
          { term := args.term },
          some (.snapshot args.data args.lastsnapshotincludeterm args.lastsnapshotincludeindex))) := by
  by_cases stale : args.term < rf.currentTerm
  · exact .inl ⟨stale,by simp only [installSnapshotImpl,if_pos stale]; rfl⟩
  have current : rf.currentTerm ≤ args.term := by omega
  have unfolded : rf.installSnapshotImpl args =
      if args.lastsnapshotincludeindex ≤ (rf.followDurably args.term).lastSnapshotIncludeIndex then
        .ok (rf.followDurably args.term,{},none)
      else ((rf.followDurably args.term).entriesAbove args.lastsnapshotincludeindex).bind fun logs =>
        .ok (((rf.followDurably args.term).installed args logs).saveSnapshot args.data,
          { term := (rf.followDurably args.term).currentTerm },
          some (.snapshot args.data args.lastsnapshotincludeterm args.lastsnapshotincludeindex)) := by
    simp only [installSnapshotImpl,if_neg stale]
    rfl
  by_cases covered : args.lastsnapshotincludeindex ≤ rf.lastSnapshotIncludeIndex
  · exact .inr (.inl ⟨current,covered,by rw [unfolded,followDurably_base,if_pos covered]⟩)
  refine .inr (.inr ⟨current,not_le.mp covered,?_⟩)
  have above : (rf.followDurably args.term).lastSnapshotIncludeIndex <
      args.lastsnapshotincludeindex := by rw [followDurably_base]; exact not_le.mp covered
  have kept : (rf.followDurably args.term).keptAbove args.lastsnapshotincludeindex =
      rf.keptAbove args.lastsnapshotincludeindex := by simp [keptAbove]
  rw [unfolded,if_neg (not_le.mpr above),entriesAbove_eq above,kept,followDurably_of_le rf _ current]
  rfl

/-- The log cut at `index`, with what was below it in the saved snapshot. -/
def compacted (rf : Raft n Cmd Snap) (index term : Int) : Raft n Cmd Snap :=
  { rf with
    logs := rf.logs.drop (index - rf.lastSnapshotIncludeIndex).toNat
    lastSnapshotIncludeIndex := index
    lastSnapshotIncludeTerm := term
    commitIndex := max rf.commitIndex index
    lastApplied := max rf.lastApplied index }

theorem snapshot_ok {index : Int} {data : Option Snap} (done : rf.snapshot index data = .ok rf') :
    (rf' = rf ∧ (index ≤ rf.lastSnapshotIncludeIndex ∨ rf.commitIndex < index)) ∨
    (rf.lastSnapshotIncludeIndex < index ∧ index ≤ rf.commitIndex ∧
      ∃ term, rf.getLogTermFromLogIndex index = .ok term ∧
        rf' = (rf.compacted index term).saveSnapshot data) := by
  simp only [snapshot] at done
  split at done
  · next rejected => exact .inl ⟨(pure_ok.mp done).symm,by omega⟩
  next accepted =>
  simp only [bind_ok,myAssert_ok,pure_ok,getSlicesIndexFromLogIndex_ok] at done
  obtain ⟨term,found,k,⟨above,below,eq⟩,_,_,rfl⟩ := done
  have shift : k + 1 = (index - rf.lastSnapshotIncludeIndex).toNat := by omega
  exact .inr ⟨by omega,by omega,term,found,by rw [shift]; rfl⟩

/-- The last assertion of `snapshot` runs after `Save`. -/
theorem snapshot_error {index : Int} {data : Option Snap}
    (exit : rf.snapshot index data = .error left) :
    left = rf.persister ∨
    (rf.lastSnapshotIncludeIndex < index ∧ index ≤ rf.commitIndex ∧
      ∃ term, rf.getLogTermFromLogIndex index = .ok term ∧
        left = ((rf.compacted index term).saveSnapshot data).persister) := by
  simp only [snapshot] at exit
  split at exit
  · exact absurd exit pure_error
  next accepted =>
  simp only [bind_error,myAssert_error,pure_error,and_false,exists_false,or_false,
    getSlicesIndexFromLogIndex_ok] at exit
  rcases exit with exit | ⟨term,found,exit | ⟨k,⟨above,below,eq⟩,_,rfl⟩⟩
  · exact .inl (getLogTermFromLogIndex_error exit)
  · exact .inl (getSlicesIndexFromLogIndex_error exit)
  · have shift : k + 1 = (index - rf.lastSnapshotIncludeIndex).toNat := by omega
    exact .inr ⟨by omega,by omega,term,found,by rw [shift]; rfl⟩

/-! ### Commands -/

/-- A leader's log with one more entry of its own term. -/
def appended (rf : Raft n Cmd Snap) (command : Cmd) : Raft n Cmd Snap :=
  let entry : LogEntry Cmd := ⟨command,rf.currentTerm,rf.getNewCommandIndex⟩
  { rf with logs := rf.logs ++ [entry] }.persist

theorem start_leader (leader : rf.status = .Leader) (command : Cmd) :
    rf.start command = (rf.appended command,rf.getLastLogIndex + 1,rf.currentTerm,true) := by
  have last : (rf.appended command).getLastLogIndex = rf.getLastLogIndex + 1 := by
    simp [appended,persist,getLastLogIndex,getLastLogIndexAndTerm,getNewCommandIndex]
  rw [start,if_neg (not_not.mpr leader),← last]
  rfl

theorem start_other (notLeader : rf.status ≠ .Leader) (command : Cmd) :
    rf.start command = (rf,-1,-1,false) := by
  simp [start,notLeader]

/-- The batch holds the next `rounds` entries in order. -/
theorem applyLoop_ok {rounds : Nat} {messages : List (ApplyMsg Cmd Snap)}
    (done : rf.applyLoop rounds = .ok (rf',messages)) :
    rf' = { rf with lastApplied := rf.lastApplied + rounds } ∧ messages.length = rounds ∧
    ∀ i < rounds, ∃ entry, rf.entryAt (rf.lastApplied + 1 + i) = .ok entry ∧
      messages[i]? = some (.command entry.command (rf.lastApplied + 1 + i)) := by
  induction rounds generalizing rf rf' messages with
  | zero =>
    obtain ⟨rfl,rfl⟩ := Prod.mk.inj (pure_ok.mp done)
    simp
  | succ rounds ih =>
    simp only [applyLoop,bind_ok,myAssert_ok,pure_ok,Prod.mk.injEq] at done
    obtain ⟨entry,found,_,_,⟨next,later⟩,rest,rfl,rfl⟩ := done
    obtain ⟨eq,length,items⟩ := ih rest
    refine ⟨?_,congrArg (· + 1) length,?_⟩
    · have sum : rf.lastApplied + 1 + rounds = rf.lastApplied + ((rounds + 1 : Nat) : Int) := by omega
      rw [eq]
      simp only [sum]
    · intro i bound
      cases i with
      | zero => exact ⟨entry,by simpa [entryAt_ok,getLastLogIndex,getLastLogIndexAndTerm] using found,by simp⟩
      | succ i =>
        obtain ⟨entry',found',at'⟩ := items i (by omega)
        have shift : rf.lastApplied + 1 + ((i + 1 : Nat) : Int) = rf.lastApplied + 1 + 1 + i := by
          omega
        rw [shift]
        exact ⟨entry',found',at'⟩

theorem applyLoop_error {rounds : Nat} (exit : rf.applyLoop rounds = .error left) :
    left = rf.persister := by
  induction rounds generalizing rf with
  | zero => exact absurd exit pure_error
  | succ rounds ih =>
    simp only [applyLoop,bind_error,myAssert_error,pure_error,and_false,exists_false,or_false] at exit
    rcases exit with exit | ⟨_,_,⟨_,eq⟩ | ⟨_,_,exit⟩⟩
    · exact entryAt_error exit
    · exact eq.symm
    · have later := ih exit
      exact later

theorem getApplyLogs_ok {messages : List (ApplyMsg Cmd Snap)}
    (done : rf.getApplyLogs = .ok (rf',messages)) :
    rf.commitIndex ≤ rf.getLastLogIndex ∧
    rf' = { rf with lastApplied := max rf.lastApplied rf.commitIndex } ∧
    messages.length = (rf.commitIndex - rf.lastApplied).toNat ∧
    ∀ i < messages.length, ∃ entry, rf.entryAt (rf.lastApplied + 1 + i) = .ok entry ∧
      messages[i]? = some (.command entry.command (rf.lastApplied + 1 + i)) := by
  simp only [getApplyLogs,bind_ok,myAssert_ok] at done
  obtain ⟨_,bounded,loop⟩ := done
  obtain ⟨eq,length,items⟩ := applyLoop_ok loop
  refine ⟨bounded,?_,length,by rw [length]; exact items⟩
  rw [eq]
  congr 1
  omega

theorem getApplyLogs_error (exit : rf.getApplyLogs = .error left) : left = rf.persister := by
  simp only [getApplyLogs,bind_error,myAssert_error] at exit
  rcases exit with ⟨_,eq⟩ | ⟨_,_,exit⟩
  · exact eq.symm
  · exact applyLoop_error exit

end KvStorage.Raft
