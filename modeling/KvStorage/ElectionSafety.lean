import KvStorage.ClusterElection

/-! Every critical section keeps the ballots, so no run of a cluster, whatever is lost,
delayed or restarted, has two leaders in one term. -/
namespace KvStorage.Cluster

def Balanced (c : Cluster n Cmd Snap) : Prop := Ballots c.node c.elections c.Leads

variable {c c' : Cluster n Cmd Snap}

namespace Balanced

theorem initial : (Cluster.initial n Cmd Snap).Balanced where
  raftId v := Raft.init_raftId v {}
  durable v := Raft.voteDurable_init v {}
  wellformed found := by simp [Cluster.initial] at found
  backed voted := by obtain ⟨k,round,found,_⟩ := voted; simp [Cluster.initial] at found
  single voted := by obtain ⟨k,round,found,_⟩ := voted; simp [Cluster.initial] at found
  distinct found := by simp [Cluster.initial] at found
  spent found := by simp [Cluster.initial] at found
  elected won := by simp [Cluster.Leads,Cluster.initial] at won

theorem setNode (before : c.Balanced) {v : Fin n} {rf : Raft n Cmd Snap}
    (step : (c.node v).VoteStep rf) : (c.setNode v rf).Balanced :=
  Ballots.setNode before step

theorem crash (before : c.Balanced) {v : Fin n} {disk : Persister Cmd Snap}
    (kept : VoteKept (c.node v).persister.image disk.image) : (c.crash v disk).Balanced :=
  (Ballots.restart before kept).abandon v

/-- A section that exits leaves the vote on disk as it was. -/
theorem resume (before : c.Balanced) {v : Fin n} {result : Except (Persister Cmd Snap) α}
    {next : α → Cluster n Cmd Snap} (normal : ∀ value, result = .ok value → (next value).Balanced)
    (exit : ∀ left, result = .error left → left = (c.node v).persister) :
    (c.resume v result next).Balanced :=
  resume_of normal fun left failed => before.crash (by rw [exit left failed]; exact .refl _)

variable [DecidableEq Cmd]

theorem doElection (before : c.Balanced) (taken : c.step (.doElection v) = some c') :
    c'.Balanced := by
  have self := before.raftId v
  by_cases leader : (c.node v).status = .Leader
  · simp only [step,Raft.doElection_leader leader,setNode_same,Option.some.injEq] at taken
    subst taken
    have silent : ∀ {term}, ¬ (Round.launch v [] : VoteRound n).Asks term := by
      rintro _ ⟨p,t,held,_⟩
      obtain ⟨args,member,rfl⟩ := Round.launch_thread held
      simp at member
    exact Ballots.launch before (Round.launch_wellformed 0 (by simp))
      Round.launch_votedBy (fun asks => absurd asks silent) fun asks => absurd asks silent
  · simp only [step,Raft.doElection_candidate leader,Option.some.injEq] at taken
    subst taken
    have each : ∀ q ∈ (c.node v).otherPeers.map fun i =>
        (i,(⟨(c.node v).currentTerm + 1,(c.node v).raftId.val,(c.node v).getLastLogIndex,
          (c.node v).getLastLogTerm⟩ : RequestVoteArgs)),
        q.1 ≠ v ∧ q.2.candidateid = v.val ∧ q.2.term = (c.node v).currentTerm + 1 := by
      intro q member
      obtain ⟨i,other,rfl⟩ := List.mem_map.mp member
      exact ⟨by simpa [Raft.otherPeers,self] using other,by simp [self],rfl⟩
    have term : ∀ {T}, (Round.launch v ((c.node v).otherPeers.map fun i =>
        (i,(⟨(c.node v).currentTerm + 1,(c.node v).raftId.val,(c.node v).getLastLogIndex,
          (c.node v).getLastLogTerm⟩ : RequestVoteArgs))) : VoteRound n).Asks T →
        T = (c.node v).currentTerm + 1 := by
      rintro T ⟨p,t,held,rfl⟩
      obtain ⟨args,member,rfl⟩ := Round.launch_thread held
      exact (each _ member).2.2
    refine Ballots.launch (Ballots.setNode before (Raft.voteStep_candidate _))
      (Round.launch_wellformed _ each) Round.launch_votedBy (fun asks => ?_) fun asks voted => ?_
    · obtain rfl := term asks
      rw [Round.launch,Function.update_self]
      exact ⟨rfl,by simp [Raft.candidate,Raft.persistData,self]⟩
    · obtain rfl := term asks
      have reached := (before.backed voted.self).1
      have behind := (before.durable v).term
      simp only [Round.launch] at reached
      omega

theorem requestVoteImpl (before : c.Balanced) (taken : c.step (.requestVoteImpl k p) = some c') :
    c'.Balanced := by
  obtain ⟨round,t,found,held,sent,rfl⟩ := step_requestVoteImpl taken
  have ok := before.wellformed found
  have pending := ok.unanswered held sent
  refine resume_of ?_ fun left failed => absurd failed (Raft.requestVoteImpl_not_error _ _)
  rintro ⟨rf,reply⟩ done
  have step := Raft.voteStep_requestVoteImpl done
  refine Ballots.setElection (Ballots.setNode before step) found
    (ok.setThread held (t.answered reply) rfl (by simp [Thread.answered]) ?_ ?_ ?_ id (.inl le_rfl))
  · rintro _ ⟨⟩ granted
    exact (Raft.requestVoteImpl_granted done granted).2.2.1
  · simp [Thread.granted,pending]
  · intro granted
    obtain ⟨_,_,_,term,vote⟩ := Raft.requestVoteImpl_granted done (by simpa using granted)
    rw [Function.update_self]
    exact .inr ⟨term,vote.trans (ok.candidate held)⟩

theorem sendRequestVote (before : c.Balanced) (taken : c.step (.sendRequestVote k p) = some c') :
    c'.Balanced := by
  obtain ⟨round,t,reply,found,held,replied,waiting,rfl⟩ := step_sendRequestVote taken
  have ok := before.wellformed found
  refine before.resume ?_ fun left failed => Raft.sendRequestVote_error failed
  rintro ⟨rf,votes,promoted⟩ done
  have moved := Ballots.setNode before (Raft.voteStep_sendRequestVote done)
  have finish : ∀ {counter : Int}, (counter ≤ round.counter ∨ (counter ≤ round.counter + 1 ∧
      t.waiting = true ∧ t.finished.granted = true ∧ t.finished.waiting = false)) →
      round.Revised (Function.update c.node round.src rf)
        { round.setThread p t.finished with counter } :=
    ok.setThread held t.finished rfl (ok.unanswered (t := t) held) (ok.sameTerm (t := t) held) id .inl fun _ => rfl
  have quiet : ∀ {counter : Int}, round.Revised (Function.update c.node round.src rf)
      { round.setThread p t.finished with counter } → promoted = false → votes = counter →
      (((c.setNode round.src rf).setElection k
        { round.setThread p t.finished with counter := votes }).record
        (if promoted then [.becomeLeader round.src rf.currentTerm] else [])).Balanced := by
    rintro _ revised rfl rfl
    exact (Ballots.setElection moved found revised).weaken fun won => by
      simpa [Leads,record,setElection,Cluster.setNode] using won
  rcases Raft.sendRequestVote_ok done with
    ⟨_,_,same,unpromoted⟩ | ⟨_,same,unpromoted⟩ | ⟨_,more,unpromoted,_,granted,_⟩ |
    ⟨rfl,rfl,rfl,sameTerm,granted,enough,_⟩
  · exact quiet (finish (.inl le_rfl)) unpromoted same
  · exact quiet (finish (.inl le_rfl)) unpromoted same
  · have counts : t.finished.granted = true := by
      rw [Thread.granted,Thread.finished_reply,replied]; exact granted
    exact quiet (finish (.inr ⟨le_rfl,waiting,counts,rfl⟩)) unpromoted more
  · have counts : t.finished.granted = true := by
      rw [Thread.granted,Thread.finished_reply,replied]; exact granted
    have enough : ((n / 2 + 1 : Nat) : Int) ≤ round.counter + 1 := enough
    have grown : round.counter + 1 ≤ 1 + ((round.setThread p t.finished).counted.card : Int) :=
      (finish (.inr ⟨le_rfl,waiting,counts,rfl⟩)).wellformed.counter
    have reset := finish (.inr ⟨show (0 : Int) ≤ round.counter + 1 by omega,waiting,counts,rfl⟩)
    have term := ok.sameTerm held replied granted
    refine Ballots.promote (Ballots.setElection moved found reset)
      (List.getElem?_set_self (List.getElem?_eq_some_iff.mp found).1)
      (reset.asks.mpr ((ok.asks held).mpr rfl)) ?_ le_rfl fun {w T} won => ?_
    · change ((n / 2 + 1 : Nat) : Int) + 0 ≤ 1 + ((round.setThread p t.finished).counted.card : Int)
      omega
    · simp only [Leads,record,setElection,Cluster.setNode,List.mem_append,if_true,
        List.mem_singleton,Event.becomeLeader.injEq] at won
      rcases won with won | ⟨rfl,rfl⟩
      · exact .inl won
      · exact .inr ⟨rfl,sameTerm.symm.trans term⟩

theorem doHeartBeat (before : c.Balanced) (taken : c.step (.doHeartBeat v) = some c') :
    c'.Balanced := by
  obtain ⟨threads,exit,round,⟨_,rfl⟩ | ⟨left,rfl,rfl⟩⟩ := step_doHeartBeat taken
  · exact before
  · have sent : (c.launchHeartbeat v threads).Balanced := before
    have same := (Raft.doHeartBeat_spec round).2 left rfl
    exact sent.crash (by rw [same]; exact .refl _)

theorem appendEntriesimpl (before : c.Balanced)
    (taken : c.step (.appendEntriesimpl k p) = some c') : c'.Balanced := by
  obtain ⟨round,t,_,_,_,rfl⟩ := step_appendEntriesimpl taken
  have lost : (c.setHeartbeat k (round.setThread p t.unanswered)).Balanced := before
  refine lost.resume ?_ fun left failed => Raft.appendEntriesimpl_error failed
  rintro ⟨rf,reply⟩ done
  exact before.setNode (Raft.voteStep_appendEntriesimpl done)

theorem sendAppendEntries (before : c.Balanced)
    (taken : c.step (.sendAppendEntries k p) = some c') : c'.Balanced := by
  obtain ⟨round,t,reply,_,_,_,_,rfl⟩ := step_sendAppendEntries taken
  refine before.resume ?_ fun left failed => Raft.sendAppendEntries_error failed
  rintro ⟨rf,successes⟩ done
  exact before.setNode (Raft.voteStep_sendAppendEntries done)

theorem installSnapshotImpl (before : c.Balanced)
    (taken : c.step (.installSnapshotImpl k) = some c') : c'.Balanced := by
  obtain ⟨call,_,_,rfl⟩ := step_installSnapshotImpl taken
  refine resume_of ?_ fun left failed => absurd failed (Raft.installSnapshotImpl_not_error _ _)
  rintro ⟨rf,answer⟩ done
  exact before.setNode (Raft.voteStep_installSnapshotImpl done)

theorem snapshot (before : c.Balanced)
    (taken : c.step (.snapshot v index data) = some c') : c'.Balanced := by
  obtain rfl := Option.some.inj taken
  exact resume_of (fun rf done => before.setNode (Raft.voteStep_snapshot done))
    fun left failed => before.crash (Raft.voteKept_snapshot (before.durable v) failed)

omit [DecidableEq Cmd] in
theorem becomeLeader_notMem_applied (v w : Fin n) (term : Int) (messages : List (ApplyMsg Cmd Snap)) :
    Event.becomeLeader w term ∉ applied v messages := by
  induction messages using applied.induct <;> simp_all [applied]

theorem getApplyLogs (before : c.Balanced)
    (taken : c.step (.getApplyLogs v) = some c') : c'.Balanced := by
  obtain rfl := Option.some.inj taken
  refine before.resume ?_ fun left failed => Raft.getApplyLogs_error failed
  rintro ⟨rf,messages⟩ done
  refine Ballots.weaken (before.setNode (Raft.voteStep_getApplyLogs done)) fun {w T} won => ?_
  simpa [Leads,record,becomeLeader_notMem_applied] using won

theorem step (before : c.Balanced) {a : Action n Cmd Snap} (taken : c.step a = some c') :
    c'.Balanced := by
  cases a with
  | doElection v => exact before.doElection taken
  | requestVoteImpl k p => exact before.requestVoteImpl taken
  | sendRequestVote k p => exact before.sendRequestVote taken
  | doHeartBeat v => exact before.doHeartBeat taken
  | appendEntriesimpl k p => exact before.appendEntriesimpl taken
  | sendAppendEntries k p => exact before.sendAppendEntries taken
  | snapshotRequest k =>
    obtain ⟨src,dst,_,rfl⟩ := step_snapshotRequest taken
    exact before
  | installSnapshotImpl k => exact before.installSnapshotImpl taken
  | leaderSendSnapshot k =>
    obtain ⟨call,reply,_,_,_,rfl⟩ := step_leaderSendSnapshot taken
    exact before.setNode (Raft.voteStep_leaderSendSnapshot _ _ _ _)
  | start v command =>
    obtain rfl := Option.some.inj taken
    exact before.setNode (Raft.voteStep_start _ _)
  | snapshot v index data => exact before.snapshot taken
  | getApplyLogs v => exact before.getApplyLogs taken
  | crash v =>
    obtain rfl := Option.some.inj taken
    exact before.crash (.refl _)

end Balanced

theorem balanced_of_reach {ok : Cluster n Cmd Snap → Action n Cmd Snap → Prop} [DecidableEq Cmd]
    (reach : Reach ok c) : c.Balanced :=
  Run.Reach.invariant Balanced .initial (fun _ _ _ _ before _ taken => before.step taken) reach

/-- In no run do two nodes become leader in the same term. -/
theorem election_safety [DecidableEq Cmd] (reach : c.Reachable)
    (one : .becomeLeader w term ∈ c.history) (two : .becomeLeader w' term ∈ c.history) : w = w' :=
  (balanced_of_reach reach).leader_unique one two

/-- Node 0 wins term 1, its voter restarts and wins term 2 while a reply is still out. -/
def twoTerms : List (Action 3 Nat Unit) :=
  [.doElection 0,.requestVoteImpl 0 1,.requestVoteImpl 0 2,.sendRequestVote 0 1,.crash 1,
    .doElection 1,.requestVoteImpl 1 2,.sendRequestVote 1 2,.sendRequestVote 0 2]

theorem twoTerms_history : (Run.run step (initial 3 Nat Unit) twoTerms).map history =
    some [.becomeLeader 0 1,.becomeLeader 1 2] := by decide +kernel

theorem election_safety_twoTerms : ∃ (c : Cluster 3 Nat Unit) (w w' : Fin 3), c.Reachable ∧
    .becomeLeader w 2 ∈ c.history ∧ .becomeLeader w' 2 ∈ c.history ∧ w = w' := by
  obtain ⟨c,ran,events⟩ := Option.map_eq_some_iff.mp twoTerms_history
  have reach : c.Reachable := Run.reach_of_run twoTerms ran
  have won : .becomeLeader 1 2 ∈ c.history := by rw [events]; decide
  exact ⟨c,1,1,reach,won,won,election_safety reach won won⟩

end KvStorage.Cluster
