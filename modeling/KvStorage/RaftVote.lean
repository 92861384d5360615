import KvStorage.RaftSpec

/-! One vote a term, as the files of one node guarantee it. Memory may run ahead of
the files by a term, never by a vote, and no critical section, not even one that
exits, takes back a term or a vote that is on disk. -/
namespace KvStorage
open Exit

/-- The later image has no smaller term and, in the same term, the same vote. -/
structure VoteKept (before after : BoostPersistRaftNode Cmd) : Prop where
  term : before.currentTerm ≤ after.currentTerm
  vote : after.currentTerm = before.currentTerm → before.votedFor ≠ -1 →
    after.votedFor = before.votedFor

theorem VoteKept.refl (image : BoostPersistRaftNode Cmd) : VoteKept image image :=
  ⟨le_rfl,fun _ _ => rfl⟩

theorem VoteKept.trans {a b c : BoostPersistRaftNode Cmd} (one : VoteKept a b)
    (two : VoteKept b c) : VoteKept a c := by
  obtain ⟨term₁,vote₁⟩ := one
  obtain ⟨term₂,vote₂⟩ := two
  refine ⟨by omega,fun same voted => ?_⟩
  have first := vote₁ (by omega) voted
  exact (vote₂ (by omega) (by rwa [first])).trans first

namespace Raft

/-- Memory agrees with the vote on disk, or has moved on to a later term. -/
structure VoteDurable (rf : Raft n Cmd Snap) : Prop where
  term : rf.persister.image.currentTerm ≤ rf.currentTerm
  vote : rf.currentTerm = rf.persister.image.currentTerm →
    rf.persister.image.votedFor = rf.votedFor

/-- What every critical section keeps. -/
structure VoteStep (rf rf' : Raft n Cmd Snap) : Prop where
  raftId : rf'.raftId = rf.raftId
  durable : rf.VoteDurable → rf'.VoteDurable
  kept : rf.VoteDurable → VoteKept rf.persister.image rf'.persister.image

variable {rf rf' rf'' : Raft n Cmd Snap}

namespace VoteStep

theorem refl (rf : Raft n Cmd Snap) : VoteStep rf rf := ⟨rfl,id,fun _ => .refl _⟩

theorem trans (one : VoteStep rf rf') (two : VoteStep rf' rf'') : VoteStep rf rf'' :=
  ⟨two.raftId.trans one.raftId,two.durable ∘ one.durable,
    fun durable => (one.kept durable).trans (two.kept (one.durable durable))⟩

/-- A change of memory alone: within a term the vote stays. -/
theorem memory (raftId : rf'.raftId = rf.raftId) (disk : rf'.persister = rf.persister)
    (term : rf.currentTerm ≤ rf'.currentTerm)
    (vote : rf'.currentTerm = rf.currentTerm → rf'.votedFor = rf.votedFor) : VoteStep rf rf' := by
  refine ⟨raftId,fun durable => ?_,fun _ => by rw [disk]; exact .refl _⟩
  obtain ⟨below,voted⟩ := durable
  refine ⟨by rw [disk]; omega,fun same => ?_⟩
  rw [disk] at same ⊢
  rw [vote (by omega),voted (by omega)]

/-- Writing the memory out keeps what it already agrees with. -/
theorem written (rf : Raft n Cmd Snap) (disk : Persister Cmd Snap)
    (image : disk.image = rf.persistData) : VoteStep rf { rf with persister := disk } := by
  refine ⟨rfl,fun _ => ?_,fun ⟨term,vote⟩ => ?_⟩
  · exact ⟨by rw [image]; exact le_rfl,fun _ => by rw [image]; rfl⟩
  · change VoteKept _ disk.image
    rw [image]
    exact ⟨term,fun same _ => (vote same).symm⟩

theorem persist (one : VoteStep rf rf') : VoteStep rf rf'.persist :=
  one.trans (written rf' _ (persist_image rf'))

theorem saveSnapshot (one : VoteStep rf rf') (data : Option Snap) :
    VoteStep rf (rf'.saveSnapshot data) :=
  one.trans (written rf' _ (saveSnapshot_image rf' data))

end VoteStep

/-! ### Every critical section -/

theorem voteStep_stepDown {term : Int} (higher : rf.currentTerm < term) :
    VoteStep rf (rf.stepDown term) :=
  .memory rfl rfl (le_of_lt higher) fun same => absurd same (ne_of_gt higher)

theorem voteStep_observe (rf : Raft n Cmd Snap) (term : Int) : VoteStep rf (rf.observe term) := by
  unfold observe
  split
  · next higher => exact voteStep_stepDown higher
  · exact .refl rf

theorem voteStep_candidate (rf : Raft n Cmd Snap) : VoteStep rf rf.candidate :=
  VoteStep.persist (.memory rfl rfl (by simp) fun same => by simp at same)

/-- The granted vote was free or already the candidate's, and is written at once. -/
theorem voteStep_grant {candidateid : Int} (free : rf.votedFor = -1 ∨ rf.votedFor = candidateid) :
    VoteStep rf { rf with votedFor := candidateid }.persist := by
  refine ⟨rfl,fun _ => ⟨le_rfl,fun _ => rfl⟩,fun ⟨term,vote⟩ => ⟨term,fun same voted => ?_⟩⟩
  have agrees := vote same
  rcases free with free | free
  · exact absurd (agrees.trans free) voted
  · exact (agrees.trans free).symm

theorem voteStep_requestVoteImpl {args : RequestVoteArgs} {reply : RequestVoteReply}
    (done : rf.requestVoteImpl args = .ok (rf',reply)) : VoteStep rf rf' := by
  have observed := voteStep_observe rf args.term
  rcases requestVoteImpl_cases rf args with ⟨_,_,_,eq⟩ | ⟨_,_,_,eq⟩ | ⟨_,_,free,_,_,_,eq⟩
  · obtain ⟨rfl,rfl⟩ := Prod.mk.inj (Except.ok.inj (eq.symm.trans done))
    exact (VoteStep.refl rf).persist
  · obtain ⟨rfl,rfl⟩ := Prod.mk.inj (Except.ok.inj (eq.symm.trans done))
    exact observed.persist
  · obtain ⟨rfl,rfl⟩ := Prod.mk.inj (Except.ok.inj (eq.symm.trans done))
    exact observed.trans (voteStep_grant free)

/-- A granted vote is on disk when the reply leaves. -/
theorem requestVoteImpl_granted {args : RequestVoteArgs} {reply : RequestVoteReply}
    (done : rf.requestVoteImpl args = .ok (rf',reply)) (granted : reply.votegranted = true) :
    rf.currentTerm ≤ args.term ∧ rf.upToDate args.lastlogindex args.lastlogterm = true ∧
      reply.term = args.term ∧ rf'.persister.image.currentTerm = args.term ∧
      rf'.persister.image.votedFor = args.candidateid := by
  rcases requestVoteImpl_cases rf args with
    ⟨_,_,denied,eq⟩ | ⟨_,_,denied,eq⟩ | ⟨current,newer,_,_,_,same,eq⟩
  · obtain ⟨rfl,rfl⟩ := Prod.mk.inj (Except.ok.inj (eq.symm.trans done))
    simp [denied] at granted
  · obtain ⟨rfl,rfl⟩ := Prod.mk.inj (Except.ok.inj (eq.symm.trans done))
    simp [denied] at granted
  · obtain ⟨rfl,rfl⟩ := Prod.mk.inj (Except.ok.inj (eq.symm.trans done))
    exact ⟨current,newer,same,observe_of_le rf _ current,rfl⟩

theorem requestVoteImpl_not_error (rf : Raft n Cmd Snap) (args : RequestVoteArgs) :
    rf.requestVoteImpl args ≠ .error left := by
  rcases requestVoteImpl_cases rf args with ⟨_,_,_,eq⟩ | ⟨_,_,_,eq⟩ | ⟨_,_,_,_,_,_,eq⟩
  all_goals simp [eq]

theorem voteStep_sendRequestVote {reply : RequestVoteReply} {voteNums votes : Int} {promoted : Bool}
    (done : rf.sendRequestVote reply voteNums = .ok (rf',votes,promoted)) : VoteStep rf rf' := by
  rcases sendRequestVote_ok done with ⟨higher,rfl,_⟩ | ⟨rfl,_⟩ | ⟨rfl,_⟩ | ⟨rfl,_⟩
  · exact (voteStep_stepDown higher).persist
  · exact .refl _
  · exact .refl _
  · exact .memory rfl rfl le_rfl fun _ => rfl

theorem voteStep_follow (rf : Raft n Cmd Snap) (term : Int) : VoteStep rf (rf.follow term) :=
  (voteStep_observe rf term).trans (.memory rfl rfl le_rfl fun _ => rfl)

theorem voteStep_commitTo (rf : Raft n Cmd Snap) (leadercommit : Int) :
    VoteStep rf (rf.commitTo leadercommit) := by
  unfold commitTo
  split
  · exact .memory rfl rfl le_rfl fun _ => rfl
  · exact .refl rf

theorem voteStep_mergeEntries [DecidableEq Cmd] {entries : List (LogEntry Cmd)}
    (done : rf.mergeEntries entries = .ok rf') : VoteStep rf rf' := by
  rw [mergeEntries_frame done]
  exact .memory rfl rfl le_rfl fun _ => rfl

theorem voteStep_appendEntriesimpl [DecidableEq Cmd] {args : AppendEntriesArgs Cmd}
    {reply : AppendEntriesReply} (done : rf.appendEntriesimpl args = .ok (rf',reply)) :
    VoteStep rf rf' := by
  rcases appendEntriesimpl_ok done with
    ⟨_,_,rfl⟩ | ⟨_,_,_,rfl⟩ | ⟨_,_,_,_,merged,merge,_,_,rfl⟩
  · exact .refl _
  · exact (voteStep_follow rf args.term).persist
  · exact (((voteStep_follow rf args.term).trans (voteStep_mergeEntries merge)).trans
      (voteStep_commitTo merged args.leadercommit)).persist

theorem voteStep_sendAppendEntries {peerId : Fin n} {args : AppendEntriesArgs Cmd}
    {reply : AppendEntriesReply} {appendNums successes : Int}
    (done : rf.sendAppendEntries peerId args reply appendNums = .ok (rf',successes)) :
    VoteStep rf rf' := by
  have acknowledged : VoteStep rf (rf.acknowledge peerId args) :=
    .memory rfl rfl le_rfl fun _ => rfl
  rcases sendAppendEntries_ok done with
    ⟨higher,_,rfl,_⟩ | ⟨rfl,_⟩ | ⟨_,_,_,rfl,_⟩ | ⟨_,_,_,_,rfl,_⟩ | ⟨_,_,_,_,rfl,_⟩
  · exact voteStep_stepDown higher
  · exact .refl _
  · exact .memory rfl rfl le_rfl fun _ => rfl
  · exact acknowledged
  · refine acknowledged.trans ?_
    unfold commitRound
    split
    · exact .memory rfl rfl le_rfl fun _ => rfl
    · exact .refl _

theorem voteStep_leaderSendSnapshot (rf : Raft n Cmd Snap) (peerId : Fin n)
    (req : InstallSnapshotRequest Snap) (resp : InstallSnapshotResponse) :
    VoteStep rf (rf.leaderSendSnapshot peerId req resp) := by
  rcases leaderSendSnapshot_cases rf peerId req resp with eq | ⟨_,higher,eq⟩ | ⟨_,_,eq⟩
  · rw [eq]; exact .refl rf
  · rw [eq]; exact (voteStep_stepDown higher).persist
  · rw [eq]; exact .memory rfl rfl le_rfl fun _ => rfl

theorem voteStep_followDurably (rf : Raft n Cmd Snap) (term : Int) :
    VoteStep rf (rf.followDurably term) := by
  unfold followDurably
  split
  · next higher =>
    exact (voteStep_stepDown higher).persist.trans (.memory rfl rfl le_rfl fun _ => rfl)
  · exact .memory rfl rfl le_rfl fun _ => rfl

theorem voteStep_installSnapshotImpl {args : InstallSnapshotRequest Snap}
    {answer : InstallSnapshotResponse × Option (ApplyMsg Cmd Snap)}
    (done : rf.installSnapshotImpl args = .ok (rf',answer)) : VoteStep rf rf' := by
  have followed := voteStep_followDurably rf args.term
  rcases installSnapshotImpl_cases rf args with ⟨_,eq⟩ | ⟨_,_,eq⟩ | ⟨_,_,eq⟩
  · obtain ⟨rfl,rfl⟩ := Prod.mk.inj (Except.ok.inj (eq.symm.trans done))
    exact .refl rf
  · obtain ⟨rfl,rfl⟩ := Prod.mk.inj (Except.ok.inj (eq.symm.trans done))
    exact followed
  · obtain ⟨rfl,rfl⟩ := Prod.mk.inj (Except.ok.inj (eq.symm.trans done))
    have continued : VoteStep (rf.followDurably args.term) ((rf.followDurably args.term).installed
        args (rf.keptAbove args.lastsnapshotincludeindex)) := .memory rfl rfl le_rfl fun _ => rfl
    exact (followed.trans continued).saveSnapshot args.data

theorem installSnapshotImpl_not_error (rf : Raft n Cmd Snap) (args : InstallSnapshotRequest Snap) :
    rf.installSnapshotImpl args ≠ .error left := by
  rcases installSnapshotImpl_cases rf args with ⟨_,eq⟩ | ⟨_,_,eq⟩ | ⟨_,_,eq⟩
  all_goals simp [eq]

theorem voteStep_compacted (rf : Raft n Cmd Snap) (index term : Int) (data : Option Snap) :
    VoteStep rf ((rf.compacted index term).saveSnapshot data) :=
  have cut : VoteStep rf (rf.compacted index term) := .memory rfl rfl le_rfl fun _ => rfl
  cut.saveSnapshot data

theorem voteStep_snapshot {index : Int} {data : Option Snap}
    (done : rf.snapshot index data = .ok rf') : VoteStep rf rf' := by
  rcases snapshot_ok done with ⟨rfl,_⟩ | ⟨_,_,term,_,rfl⟩
  · exact .refl _
  · exact voteStep_compacted rf index term data

theorem voteKept_snapshot {index : Int} {data : Option Snap} (durable : rf.VoteDurable)
    (exit : rf.snapshot index data = .error left) : VoteKept rf.persister.image left.image := by
  rcases snapshot_error exit with rfl | ⟨_,_,term,_,rfl⟩
  · exact .refl _
  · exact (voteStep_compacted rf index term data).kept durable

theorem voteStep_start (rf : Raft n Cmd Snap) (command : Cmd) :
    VoteStep rf (rf.start command).1 := by
  by_cases leader : rf.status = .Leader
  · rw [start_leader leader]
    exact VoteStep.persist (.memory rfl rfl le_rfl fun _ => rfl)
  · rw [start_other leader]; exact .refl rf

theorem voteStep_getApplyLogs {messages : List (ApplyMsg Cmd Snap)}
    (done : rf.getApplyLogs = .ok (rf',messages)) : VoteStep rf rf' := by
  rw [(getApplyLogs_ok done).2.1]
  exact .memory rfl rfl le_rfl fun _ => rfl

/-- A restart reads the vote back from disk. -/
theorem voteDurable_init (raftId : Fin n) (disk : Persister Cmd Snap) :
    (init raftId disk).VoteDurable := by
  rw [init_eq]
  exact ⟨le_rfl,fun _ => rfl⟩

end Raft
end KvStorage
