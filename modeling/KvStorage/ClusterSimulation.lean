import KvStorage.ClusterRefinement

/-! Every clean step of a cluster is a run of moves of the abstract protocol. A step is
clean unless it takes one of the two branches that leave a foreign suffix in a log. -/
namespace KvStorage
open Replication

/-- The step keeps no old suffix behind what it takes over. -/
def Cluster.Clean (c : Cluster n Cmd Snap) : Action n Cmd Snap → Prop
  | .appendEntriesimpl k p => ∀ round ∈ c.heartbeats[k]?, ∀ t ∈ round.thread p,
    ¬ (c.node p).Overwrites t.args
  | .installSnapshotImpl k => ∀ call ∈ c.snapshots[k]?,
    ¬ (c.node call.dst).KeepsForeign call.thread.args
  | _ => True

instance [DecidableEq Cmd] [DecidableEq Snap] (c : Cluster n Cmd Snap) (a : Action n Cmd Snap) :
    Decidable (c.Clean a) :=
  match a with
  | .appendEntriesimpl k p => inferInstanceAs (Decidable
      (∀ round ∈ c.heartbeats[k]?, ∀ t ∈ round.thread p, ¬ (c.node p).Overwrites t.args))
  | .installSnapshotImpl k => inferInstanceAs (Decidable
      (∀ call ∈ c.snapshots[k]?, ¬ (c.node call.dst).KeepsForeign call.thread.args))
  | .doElection _ | .requestVoteImpl .. | .sendRequestVote .. | .doHeartBeat _
  | .sendAppendEntries .. | .snapshotRequest _ | .leaderSendSnapshot _ | .start ..
  | .snapshot .. | .getApplyLogs _ | .crash _ => .isTrue trivial

structure Simulates (s : Ghost n Cmd) (c : Cluster n Cmd Snap) : Prop where
  replicated : Replicated s c.node c.Leads
  traffic : Traffic s c.elections c.heartbeats c.snapshots c.history

/-- Some reachable state of the protocol accounts for the whole cluster. -/
def Cluster.Simulated (c : Cluster n Cmd Snap) : Prop := ∃ s, Simulates s c

namespace Simulates

variable {s : Ghost n Cmd} {c c' : Cluster n Cmd Snap}

theorem initial : Simulates (.empty 0) (Cluster.initial n Cmd Snap) where
  replicated := by
    refine ⟨.refl,fun v => ?_,False.elim,False.elim⟩
    have start : (Cluster.initial n Cmd Snap).node v = Raft.init v {} := rfl
    rw [start,Raft.init_eq]
    have empty : Holds (Persister.image ({} : Persister Cmd Snap)) [] 0 :=
      ⟨rfl,le_rfl,rfl,rfl,fun i e found => by simp at found⟩
    exact ⟨rfl,⟨rfl,rfl,rfl⟩,⟨0,empty,.inl rfl⟩,⟨0,rfl,le_rfl,.inl rfl⟩,nofun⟩
  traffic := by
    refine ⟨fun member => by simp [Cluster.initial] at member,fun voted => ?_,
      fun member => by simp [Cluster.initial] at member,
      fun member => by simp [Cluster.initial] at member,
      fun member => by simp [Cluster.initial] at member⟩
    obtain ⟨k,round,found,_⟩ := voted
    simp [Cluster.initial] at found

/-- A crash from the node's own files. -/
theorem crash (sim : Simulates s c) (balanced : c.Balanced) (v : Fin n) :
    Simulates s (c.crash v (c.node v).persister) :=
  ⟨sim.replicated.restart balanced.leader_unique v,sim.traffic.abandon v⟩

/-- A critical section that ends normally or exits without having written. -/
theorem resume (sim : Simulates s c) (balanced : c.Balanced) {v : Fin n}
    {result : Except (Persister Cmd Snap) α} {next : α → Cluster n Cmd Snap}
    (normal : ∀ value, result = .ok value → (next value).Simulated)
    (exit : ∀ left, result = .error left → left = (c.node v).persister) :
    (c.resume v result next).Simulated :=
  Cluster.resume_of normal fun left failed => ⟨s,exit left failed ▸ sim.crash balanced v⟩

variable [DecidableEq Cmd]

omit [DecidableEq Cmd] in
/-- A new round whose only vote so far is its candidate's own. -/
theorem launch (sim : Simulates s c) {round : VoteRound n}
    (asks : ∀ {p t}, round.thread p = some t → AsksFor s round.src t.args)
    (unvoted : ∀ {v}, round.VotedBy v → v = round.src)
    (own : ∀ {T}, round.Asks T → (∀ L, ¬ s.elected T L) → ∃ L, s.voted round.src T round.src L) :
    Simulates s { c with elections := c.elections ++ [round] } where
  replicated := sim.replicated
  traffic := { sim.traffic with
    asks := by
      intro round' p t member held
      rcases List.mem_append.mp member with old | new
      · exact sim.traffic.asks old held
      · obtain rfl := List.mem_singleton.mp new
        exact asks held
    polls := by
      rintro v T w ⟨k,round',found,rfl,asked,votes⟩ vacant
      rcases Nat.lt_or_ge k c.elections.length with less | more
      · rw [List.getElem?_append_left less] at found
        exact sim.traffic.polls ⟨k,round',found,rfl,asked,votes⟩ vacant
      · rw [List.getElem?_append_right more,List.getElem?_singleton] at found
        split at found
        · obtain rfl := Option.some.inj found
          rw [unvoted votes]
          exact own asked vacant
        · simp at found }

theorem doElection (sim : Simulates s c) (balanced : c.Balanced)
    (taken : c.step (.doElection v) = some c') : c'.Simulated := by
  by_cases leader : (c.node v).status = .Leader
  · simp only [Cluster.step,Raft.doElection_leader leader,Cluster.setNode_same,Option.some.injEq] at taken
    subst taken
    have idle : ∀ {p t}, (Round.launch v [] : VoteRound n).thread p ≠ some t := by
      intro p t held
      obtain ⟨args,member,rfl⟩ := Round.launch_thread held
      simp at member
    refine ⟨s,sim.launch (fun held => absurd held idle) Round.launch_votedBy ?_⟩
    rintro T ⟨p,t,held,_⟩
    exact absurd held idle
  simp only [Cluster.step,Raft.doElection_candidate leader,Option.some.injEq] at taken
  subst taken
  have sound := sim.replicated.sound
  have rel := sim.replicated.refines v
  have durable := (balanced.durable v).term
  have rise : s.term v < (c.node v).currentTerm + 1 := by rw [rel.term]; omega
  have positive : 1 ≤ (c.node v).currentTerm + 1 := by
    have := sim.replicated.nonneg v
    omega
  have order : (c.node v).persister.image.currentTerm ≤
      (c.node v).candidate.persister.image.currentTerm := durable.trans (Int.le_add_one le_rfl)
  obtain ⟨s₁,made,grows₁,here₁⟩ :=
    sim.replicated.quiet balanced.leader_unique Raft.quiet_candidate order
  have term : s₁.term v = (c.node v).currentTerm + 1 := by rw [made]; exact Function.update_self ..
  have log : s₁.log = s.log := by rw [made]; rfl
  have asked : s₁.asked = s.asked := by rw [made]; rfl
  obtain ⟨b,holds,_⟩ := rel.holds
  have first : ∀ L, ¬ s₁.asked v ((c.node v).currentTerm + 1) L := fun L again => by
    rw [asked] at again
    have := (sound.askedTerm again).1
    omega
  have below : ∀ e ∈ s₁.log v, e.logterm < (c.node v).currentTerm + 1 := fun e member => by
    rw [log] at member
    have := sound.logTerm e member
    omega
  have ask : Ghost.Step s₁ (s₁.ask v ((c.node v).currentTerm + 1)) := .ask term first below
  have here₂ := here₁.record ask rfl rfl rfl rfl
  have grows₂ := Replication.Step.grows ask
  have campaign : (s₁.ask v ((c.node v).currentTerm + 1)).asked v ((c.node v).currentTerm + 1)
    (s₁.log v) := .inr ⟨rfl,rfl,rfl⟩
  -- its own vote counts only while the term has no leader
  obtain ⟨s₃,here₃,grows₃,voted⟩ : ∃ s₃, Replicated s₃ (c.setNode v (c.node v).candidate).node c.Leads ∧
      Grows (s₁.ask v ((c.node v).currentTerm + 1)) s₃ ∧
      ((∀ L, ¬ s₃.elected ((c.node v).currentTerm + 1) L) →
        ∃ L, s₃.voted v ((c.node v).currentTerm + 1) v L) := by
    by_cases vacant : ∀ L, ¬ s₁.elected ((c.node v).currentTerm + 1) L
    · have vote : Ghost.Step (s₁.ask v ((c.node v).currentTerm + 1)) _ :=
        .vote term campaign (.refl _ _) vacant
      exact ⟨_,here₂.record vote rfl rfl rfl rfl,Replication.Step.grows vote,
        fun _ => ⟨_,.inr ⟨rfl,rfl,rfl,rfl⟩⟩⟩
    · exact ⟨_,here₂,⟨fun _ => le_rfl,id,id,id,id,id⟩,fun none => absurd none vacant⟩
  have self := balanced.raftId v
  have each : ∀ {p t}, (Round.launch v ((c.node v).otherPeers.map fun i =>
      (i,(⟨(c.node v).currentTerm + 1,(c.node v).raftId.val,(c.node v).getLastLogIndex,
        (c.node v).getLastLogTerm⟩ : RequestVoteArgs))) : VoteRound n).thread p = some t →
      t.args = ⟨(c.node v).currentTerm + 1,(c.node v).raftId.val,(c.node v).getLastLogIndex,
        (c.node v).getLastLogTerm⟩ := by
    intro p t held
    obtain ⟨args,member,rfl⟩ := Round.launch_thread held
    obtain ⟨i,_,eq⟩ := List.mem_map.mp member
    exact (congrArg Prod.snd eq).symm
  have moved : Simulates s₃ (c.setNode v (c.node v).candidate) :=
    ⟨here₃,((sim.traffic.mono grows₁).mono grows₂).mono grows₃⟩
  refine ⟨s₃,moved.launch (fun held => ?_) Round.launch_votedBy ?_⟩
  · rw [each held]
    refine ⟨positive,s₁.log v,grows₃.asked campaign,?_,?_⟩
    · rw [log]; exact holds.getLastLogIndex
    · rw [log]; exact holds.getLastLogTerm
  · rintro T ⟨p,t,held,rfl⟩ vacant
    rw [each held] at vacant ⊢
    exact voted vacant

theorem requestVoteImpl (sim : Simulates s c) (balanced : c.Balanced)
    (taken : c.step (.requestVoteImpl k p) = some c') : c'.Simulated := by
  obtain ⟨round,t,found,held,sent,rfl⟩ := Cluster.step_requestVoteImpl taken
  have ok := balanced.wellformed found
  have pending := ok.unanswered held sent
  refine Cluster.resume_of ?_ fun left failed => absurd failed (Raft.requestVoteImpl_not_error _ _)
  rintro ⟨rf,reply⟩ done
  have order := ((Raft.voteStep_requestVoteImpl done).kept (balanced.durable p)).term
  obtain ⟨s₁,made,grows₁,here₁⟩ :=
    sim.replicated.quiet balanced.leader_unique (Raft.quiet_requestVoteImpl done) order
  obtain ⟨positive,L,asked,index,term⟩ := sim.traffic.asks (List.mem_of_getElem? found) held
  obtain ⟨b,holds,_⟩ := (sim.replicated.refines p).holds
  -- a granted vote is a move only while the term has no leader
  obtain ⟨s₂,here₂,grows₂,voted⟩ : ∃ s₂, Replicated s₂ (c.setNode p rf).node c.Leads ∧ Grows s₁ s₂ ∧
      (reply.votegranted = true → (∀ L, ¬ s₂.elected t.args.term L) →
        ∃ L, s₂.voted p t.args.term round.src L) := by
    by_cases counts : reply.votegranted = true ∧ ∀ L, ¬ s₁.elected t.args.term L
    · obtain ⟨granted,vacant⟩ := counts
      obtain ⟨_,newer,_,diskTerm,_⟩ := Raft.requestVoteImpl_granted done granted
      have here : s₁.term p = t.args.term := by
        rw [made]; exact (Function.update_self ..).trans diskTerm
      have log : s₁.log = s.log := by rw [made]; rfl
      rw [index,term] at newer
      have dates : UpToDate LogEntry.logterm L (s₁.log p) := by rw [log]; exact holds.upToDate newer
      have vote : Ghost.Step s₁ _ := .vote here (grows₁.asked asked) dates vacant
      exact ⟨_,here₁.record vote rfl rfl rfl rfl,Replication.Step.grows vote,
        fun _ _ => ⟨_,.inr ⟨rfl,rfl,rfl,rfl⟩⟩⟩
    · exact ⟨s₁,here₁,⟨fun _ => le_rfl,id,id,id,id,id⟩,fun granted vacant =>
        absurd ⟨granted,vacant⟩ counts⟩
  refine ⟨s₂,here₂,((sim.traffic.mono grows₁).mono grows₂).setElection ok found held
    (t.answered reply) rfl fun granted => .inr (voted (by simpa using granted))⟩

theorem sendRequestVote (sim : Simulates s c) (balanced : c.Balanced) (balanced' : c'.Balanced)
    (taken : c.step (.sendRequestVote k p) = some c') : c'.Simulated := by
  obtain ⟨round,t,reply,found,held,replied,waiting,rfl⟩ := Cluster.step_sendRequestVote taken
  have ok := balanced.wellformed found
  have finish : ∀ {s'} {counter : Int}, Grows s s' →
      Traffic s' (c.elections.set k { round.setThread p t.finished with counter }) c.heartbeats
        c.snapshots c.history := fun grows =>
    (sim.traffic.mono grows).setElection ok found held t.finished rfl .inl
  cases done : (c.node round.src).sendRequestVote reply round.counter with
  | error left =>
    exact ⟨s,Raft.sendRequestVote_error done ▸ sim.crash balanced round.src⟩
  | ok value =>
  obtain ⟨rf,votes,promoted⟩ := value
  rw [done] at balanced'
  have order := ((Raft.voteStep_sendRequestVote done).kept (balanced.durable round.src)).term
  have unpromoted : (c.node round.src).Quiet rf → promoted = false →
      Cluster.Simulated (((c.setNode round.src rf).setElection k
        { round.setThread p t.finished with counter := votes }).record
        (if promoted then [.becomeLeader round.src rf.currentTerm] else [])) := by
    rintro quiet rfl
    rw [if_neg (by simp),Cluster.record_nil]
    obtain ⟨s₁,_,grows,here⟩ := sim.replicated.quiet balanced.leader_unique quiet order
    exact ⟨s₁,here,finish grows⟩
  rcases Raft.sendRequestVote_ok done with
    ⟨_,rfl,_,same⟩ | ⟨rfl,_,same⟩ | ⟨rfl,_,same,_⟩ | ⟨rfl,rfl,rfl,sameTerm,granted,enough,_⟩
  · exact unpromoted (Raft.quiet_stepDown _).persist same
  · exact unpromoted (.refl _) same
  · exact unpromoted (.refl _) same
  · have rel := sim.replicated.refines round.src
    obtain ⟨positive,L,asked,_⟩ := sim.traffic.asks (List.mem_of_getElem? found) held
    have term : t.args.term = (c.node round.src).currentTerm :=
      (ok.sameTerm held replied granted).symm.trans sameTerm
    rw [term] at positive asked
    have reached := (balanced.backed (v := round.src) (w := round.src)
      ⟨k,round,found,rfl,(ok.asks held).mpr term,.inl rfl⟩).1
    have durable := le_antisymm (balanced.durable round.src).term reached
    let next := (((c.setNode round.src (c.node round.src).elected).setElection k
      { round.setThread p t.finished with counter := 0 }).record
      [.becomeLeader round.src (c.node round.src).elected.currentTerm])
    have balanced' : next.Balanced := balanced'
    have old : ∀ {w t}, c.Leads w t → next.Leads w t := fun won => List.mem_append_left _ won
    have won : next.Leads round.src (c.node round.src).currentTerm := by
      simp [next,Cluster.Leads,Cluster.record,Raft.elected]
    have vacant : ∀ L, ¬ s.elected (c.node round.src).currentTerm L := fun L already => by
      obtain ⟨w,led⟩ := sim.replicated.known already
      have same := balanced'.leader_unique (old led) won
      exact balanced.unpromoted found held waiting enough (term ▸ same ▸ led)
    obtain ⟨A,most,voted⟩ := balanced'.elected won
    obtain ⟨s₁,adv,rel₁⟩ := rel.elected sim.replicated.sound positive durable asked vacant A most
      (fun u member => (finish ⟨fun _ => le_rfl,id,id,id,id,id⟩).polls (voted u member) vacant) won
    have traffic₁ : Traffic s₁ next.elections c.heartbeats c.snapshots c.history := finish adv.grows
    refine ⟨s₁,sim.replicated.move adv old balanced'.leader_unique rel₁,{ traffic₁ with
      applied := fun {u i x} member => ?_ }⟩
    have member : .apply u i x ∈ next.history := member
    exact traffic₁.applied ((List.mem_append.mp member).resolve_right (by simp))

theorem doHeartBeat (sim : Simulates s c) (balanced : c.Balanced)
    (taken : c.step (.doHeartBeat v) = some c') : c'.Simulated := by
  obtain ⟨threads,exit,round,result⟩ := Cluster.step_doHeartBeat taken
  have spec := Raft.doHeartBeat_spec round
  have rel := sim.replicated.refines v
  have self := balanced.raftId v
  have request : ∀ {p t}, (Round.launch v (threads.filterMap Raft.Spawned.append?) :
      HeartbeatRound n Cmd).thread p = some t → (c.node v).status = .Leader ∧ p ≠ v ∧
      t.args.term = (c.node v).currentTerm ∧ Carries s (s.log v) t.args ∧ t.reply = none := by
    intro p t held
    obtain ⟨args,member,rfl⟩ := Round.launch_thread held
    obtain ⟨thread,started,eq⟩ := List.mem_filterMap.mp member
    obtain ⟨leader,peer,other,done⟩ := spec.1 thread started
    cases thread with
    | leaderSendSnapshot => simp [Raft.Spawned.append?] at eq
    | sendAppendEntries =>
      cases eq
      obtain ⟨rfl,term,carries⟩ := carries_of_heartBeatPeer rel leader done
      exact ⟨leader,self ▸ other,term,carries,rfl⟩
  have sends : Heartbeat s (Round.launch v (threads.filterMap Raft.Spawned.append?)) := by
    by_cases leader : (c.node v).status = .Leader
    · exact .inr ⟨_,s.log v,(rel.leader leader).acked,fun held => (request held).2.1,
        fun held => (request held).2.2.1,fun held => (request held).2.2.2.1,
        fun held _ => (request held).2.2.2.2,
        fun held replied => by simp [(request held).2.2.2.2] at replied,
        le_add_of_nonneg_right (Int.natCast_nonneg _)⟩
    · exact .inl fun p => Option.eq_none_iff_forall_ne_some.mpr fun t held =>
        leader (request held).1
  have sent : Simulates s (c.launchHeartbeat v threads) := ⟨sim.replicated,{ sim.traffic with
    sends := fun member => (List.mem_append.mp member).elim sim.traffic.sends fun new =>
      List.mem_singleton.mp new ▸ sends }⟩
  have still : (c.launchHeartbeat v threads).Balanced := balanced
  rcases result with ⟨_,rfl⟩ | ⟨left,rfl,rfl⟩
  · exact ⟨s,sent⟩
  · exact ⟨s,spec.2 left rfl ▸ sent.crash still v⟩

omit [DecidableEq Cmd] in
/-- A node moves on while a heartbeat round does. -/
theorem setHeartbeat {s' : Ghost n Cmd} (sim : Simulates s c) (grows : Grows s s')
    (here : Replicated s' (Function.update c.node v rf) c.Leads) {round : HeartbeatRound n Cmd}
    (sends : Heartbeat s' round) : Simulates s' ((c.setNode v rf).setHeartbeat k round) :=
  ⟨here,(sim.traffic.mono grows).setHeartbeat sends⟩

theorem appendEntriesimpl (sim : Simulates s c) (balanced : c.Balanced)
    (clean : c.Clean (.appendEntriesimpl k p))
    (taken : c.step (.appendEntriesimpl k p) = some c') : c'.Simulated := by
  obtain ⟨round,t,found,held,sent,rfl⟩ := Cluster.step_appendEntriesimpl taken
  have rel := sim.replicated.refines p
  have durable := (balanced.durable p).term
  rcases sim.traffic.sends (List.mem_of_getElem? found) with idle | ⟨T,M,sends⟩
  · simp [idle] at held
  have pending := sends.unanswered held sent
  have lost : Simulates s (c.setHeartbeat k (round.setThread p t.unanswered)) :=
    ⟨sim.replicated,sim.traffic.setHeartbeat (.inr ⟨T,M,sends.setThread held t.unanswered rfl
      (by simp) (by simp [pending]) id id (.inl le_rfl)⟩)⟩
  refine lost.resume balanced ?_ fun left failed => Raft.appendEntriesimpl_error failed
  rintro ⟨rf,reply⟩ done
  have answered : ∀ {s'}, Grows s s' → (reply.success = true → reply.term = T ∧ s'.acked p T M) →
      Heartbeat s' (round.setThread p (t.answered reply)) := fun grows success =>
    .inr ⟨T,M,(sends.mono grows).setThread held (t.answered reply) rfl (by simp)
      (by rintro _ ⟨⟩; exact success) (by simp [pending]) id (.inl le_rfl)⟩
  have order := ((Raft.voteStep_appendEntriesimpl done).kept (balanced.durable p)).term
  have failed : (c.node p).Quiet rf → reply.success = false →
      Cluster.Simulated ((c.setNode p rf).setHeartbeat k (round.setThread p (t.answered reply))) := by
    intro quiet failed
    obtain ⟨s₁,_,grows,here⟩ := sim.replicated.quiet balanced.leader_unique quiet order
    exact ⟨s₁,sim.setHeartbeat grows here (answered grows (by simp [failed]))⟩
  rcases Raft.appendEntriesimpl_ok done with
    ⟨_,refused,rfl⟩ | ⟨_,refused,_,rfl⟩ | ⟨current,_,same,matched,merged,merge,_,_,rfl⟩
  · exact failed (.refl _) refused
  · exact failed (Raft.quiet_follow _).persist refused
  · have carries := sends.carries held
    have term := sends.term held
    obtain ⟨s₁,adv,rel₁,acked⟩ := rel.merged sim.replicated.sound sim.replicated.numbered carries
      durable current matched merge (clean round found t held)
    exact ⟨s₁,sim.setHeartbeat adv.grows
      (sim.replicated.move adv id balanced.leader_unique rel₁)
      (answered adv.grows fun _ => ⟨same.trans term,term ▸ acked⟩)⟩

theorem sendAppendEntries (sim : Simulates s c) (balanced : c.Balanced)
    (taken : c.step (.sendAppendEntries k p) = some c') : c'.Simulated := by
  obtain ⟨round,t,reply,found,held,replied,waiting,rfl⟩ := Cluster.step_sendAppendEntries taken
  rcases sim.traffic.sends (List.mem_of_getElem? found) with idle | ⟨T,M,sends⟩
  · simp [idle] at held
  have finish : ∀ {counter : Int}, (counter ≤ round.counter ∨ (counter ≤ round.counter + 1 ∧
      t.waiting = true ∧ t.finished.reply.any (·.success) = true ∧ t.finished.waiting = false)) →
      Sends s { round.setThread p t.finished with counter } T M :=
    sends.setThread held t.finished rfl (sends.unanswered (t := t) held)
      (sends.success (t := t) held) id fun _ => rfl
  refine sim.resume balanced ?_ fun left failed => Raft.sendAppendEntries_error failed
  rintro ⟨rf,successes⟩ done
  have order := ((Raft.voteStep_sendAppendEntries done).kept (balanced.durable round.src)).term
  have quiet : (c.node round.src).Quiet rf → Sends s { round.setThread p t.finished with
      counter := successes } T M → Cluster.Simulated ((c.setNode round.src rf).setHeartbeat k
        { round.setThread p t.finished with counter := successes }) := by
    intro quiet finished
    obtain ⟨s₁,_,grows,here⟩ := sim.replicated.quiet balanced.leader_unique quiet order
    exact ⟨s₁,sim.setHeartbeat grows here (.inr ⟨T,M,finished.mono grows⟩)⟩
  rcases Raft.sendAppendEntries_ok done with ⟨_,_,rfl,rfl⟩ | ⟨rfl,rfl⟩ | ⟨_,_,_,rfl,rfl⟩ |
    ⟨_,_,ok,_,rfl,rfl⟩ | ⟨leader,same,ok,enough,rfl,bounded,rfl⟩
  · exact quiet (Raft.quiet_stepDown _) (finish (.inl le_rfl))
  · exact quiet (.refl _) (finish (.inl le_rfl))
  · exact quiet (.memory rfl rfl rfl rfl rfl fun leader => ⟨leader,rfl⟩) (finish (.inl le_rfl))
  · have counts : t.finished.reply.any (·.success) = true := by simp [replied,ok]
    exact quiet (Raft.quiet_acknowledge _ _) (finish (.inr ⟨le_rfl,waiting,counts,rfl⟩))
  · have counts : t.finished.reply.any (·.success) = true := by simp [replied,ok]
    have full := (finish (.inr ⟨le_rfl,waiting,counts,rfl⟩)).majority enough
    have reset := finish (.inr ⟨show (0 : Int) ≤ round.counter + 1 by
      have : ((n / 2 + 1 : Nat) : Int) ≤ round.counter + 1 := enough
      omega,waiting,counts,rfl⟩)
    have term : T = (c.node round.src).currentTerm :=
      (sends.success held replied ok).1.symm.trans same
    obtain ⟨adv,rel₁⟩ := (sim.replicated.refines round.src).quiet
      (Raft.quiet_acknowledge p t.args) le_rfl
    have sent := sends.term held
    have rel₂ := rel₁.commitRound leader ((sends.carries held).mono adv.grows) (sent.trans term)
      (full.imp fun _ some => ⟨some.1,fun u member => sent ▸ adv.grows.acked (some.2 u member)⟩)
    exact ⟨_,sim.setHeartbeat adv.grows (sim.replicated.move adv id balanced.leader_unique rel₂)
      (.inr ⟨T,M,reset.mono adv.grows⟩)⟩

theorem snapshotRequest (sim : Simulates s c) (balanced : c.Balanced)
    (taken : c.step (.snapshotRequest k) = some c') : c'.Simulated := by
  obtain ⟨src,dst,_,rfl⟩ := Cluster.step_snapshotRequest taken
  obtain ⟨b,holds,known⟩ := (sim.replicated.refines src).holds
  have durable := (balanced.durable src).term
  have cut : ((s.log src).take b).length = b := List.length_take_of_le holds.bound
  have front : (s.log src).take b <+: s.log src := List.take_prefix ..
  refine ⟨s,sim.replicated,{ sim.traffic with
    restores := fun member => (List.mem_append.mp member).elim sim.traffic.restores fun new => ?_ }⟩
  obtain rfl := List.mem_singleton.mp new
  refine ⟨(s.log src).take b,?_,?_,known.mono ((sim.replicated.refines src).term ▸ durable)⟩
  · rw [cut]; exact holds.base
  · rw [← termAt_shorter front le_rfl,cut]; exact holds.baseTerm

theorem installSnapshotImpl (sim : Simulates s c) (balanced : c.Balanced)
    (clean : c.Clean (.installSnapshotImpl k))
    (taken : c.step (.installSnapshotImpl k) = some c') : c'.Simulated := by
  obtain ⟨call,found,_,rfl⟩ := Cluster.step_installSnapshotImpl taken
  refine Cluster.resume_of ?_ fun left failed => absurd failed (Raft.installSnapshotImpl_not_error _ _)
  rintro ⟨rf,reply,message⟩ done
  have rel := sim.replicated.refines call.dst
  have restores := sim.traffic.restores (List.mem_of_getElem? found)
  have durable := (balanced.durable call.dst).term
  have order := ((Raft.voteStep_installSnapshotImpl done).kept (balanced.durable call.dst)).term
  have quiet : (c.node call.dst).Quiet rf → Cluster.Simulated ((c.setNode call.dst rf).setSnapshot k
      { call with thread := call.thread.answered reply }) := by
    intro quiet
    obtain ⟨s₁,_,grows,here⟩ := sim.replicated.quiet balanced.leader_unique quiet order
    exact ⟨s₁,here,(sim.traffic.mono grows).setSnapshot (restores.mono grows)⟩
  rcases Raft.installSnapshotImpl_cases (c.node call.dst) call.thread.args with
    ⟨_,eq⟩ | ⟨_,_,eq⟩ | ⟨current,above,eq⟩
  · obtain ⟨rfl,_⟩ := Prod.mk.inj (Except.ok.inj (eq.symm.trans done))
    exact quiet (.refl _)
  · obtain ⟨rfl,_⟩ := Prod.mk.inj (Except.ok.inj (eq.symm.trans done))
    exact quiet (Raft.quiet_followDurably _)
  · obtain ⟨rfl,_⟩ := Prod.mk.inj (Except.ok.inj (eq.symm.trans done))
    obtain ⟨s₁,adv,rel₁⟩ := rel.installed sim.replicated.sound sim.replicated.numbered restores
      durable current above (clean call found)
    exact ⟨s₁,sim.replicated.move adv id balanced.leader_unique rel₁,
      (sim.traffic.mono adv.grows).setSnapshot (restores.mono adv.grows)⟩

theorem leaderSendSnapshot (sim : Simulates s c) (balanced : c.Balanced)
    (taken : c.step (.leaderSendSnapshot k) = some c') : c'.Simulated := by
  obtain ⟨call,reply,found,_,_,rfl⟩ := Cluster.step_leaderSendSnapshot taken
  have restores := sim.traffic.restores (List.mem_of_getElem? found)
  have order := ((Raft.voteStep_leaderSendSnapshot (c.node call.src) call.dst call.thread.args
    reply).kept (balanced.durable call.src)).term
  obtain ⟨s₁,_,grows,here⟩ := sim.replicated.quiet balanced.leader_unique
    (Raft.quiet_leaderSendSnapshot call.dst call.thread.args reply) order
  exact ⟨s₁,here,(sim.traffic.mono grows).setSnapshot (restores.mono grows)⟩

theorem start (sim : Simulates s c) (balanced : c.Balanced)
    (taken : c.step (.start v command) = some c') : c'.Simulated := by
  obtain rfl := Option.some.inj taken
  by_cases leader : (c.node v).status = .Leader
  · rw [Raft.start_leader leader]
    obtain ⟨s₁,adv,rel⟩ := (sim.replicated.refines v).appended leader command
    exact ⟨s₁,sim.replicated.move adv id balanced.leader_unique rel,sim.traffic.mono adv.grows⟩
  · rw [Raft.start_other leader,Cluster.setNode_same]
    exact ⟨s,sim⟩

theorem snapshot (sim : Simulates s c) (balanced : c.Balanced)
    (taken : c.step (.snapshot v index data) = some c') : c'.Simulated := by
  obtain rfl := Option.some.inj taken
  have rel := sim.replicated.refines v
  have durable := (balanced.durable v).term
  refine Cluster.resume_of (fun rf done => ?_) fun left failed => ?_
  · rcases Raft.snapshot_ok done with ⟨rfl,_⟩ | ⟨above,below,term,found,rfl⟩
    · rw [Cluster.setNode_same]; exact ⟨s,sim⟩
    · obtain ⟨adv,rel₁⟩ := rel.compacted data above below found durable
      exact ⟨_,sim.replicated.move adv id balanced.leader_unique rel₁,sim.traffic.mono adv.grows⟩
  · rcases Raft.snapshot_error failed with rfl | ⟨above,below,term,found,rfl⟩
    · exact ⟨s,sim.crash balanced v⟩
    · obtain ⟨adv,rel₁⟩ := rel.compacted data above below found durable
      exact ⟨_,sim.replicated.move adv id balanced.leader_unique rel₁.restart,
        (sim.traffic.mono adv.grows).abandon v⟩

omit [DecidableEq Cmd] in
theorem mem_applied {v u : Fin n} {i : Int} {x : Cmd} {messages : List (ApplyMsg Cmd Snap)}
    (member : .apply u i x ∈ applied v messages) : .command x i ∈ messages := by
  induction messages using applied.induct <;> simp_all [applied]
  rcases member with ⟨_,rfl,rfl⟩ | member
  · exact .inl ⟨rfl,rfl⟩
  · simp_all

omit [DecidableEq Cmd] in
theorem leads_applied (v : Fin n) (messages : List (ApplyMsg Cmd Snap)) :
    (c.record (applied v messages)).Leads = c.Leads := by
  funext w t
  simp [Cluster.Leads,Cluster.record,Cluster.Balanced.becomeLeader_notMem_applied]

theorem getApplyLogs (sim : Simulates s c) (balanced : c.Balanced)
    (taken : c.step (.getApplyLogs v) = some c') : c'.Simulated := by
  obtain rfl := Option.some.inj taken
  refine sim.resume balanced ?_ fun left failed => Raft.getApplyLogs_error failed
  rintro ⟨rf,messages⟩ done
  have rel := sim.replicated.refines v
  obtain ⟨b,holds,_⟩ := rel.holds
  obtain ⟨k,commit,bound,known⟩ := rel.commit
  obtain ⟨_,_,length,items⟩ := Raft.getApplyLogs_ok done
  have order := ((Raft.voteStep_getApplyLogs done).kept (balanced.durable v)).term
  obtain ⟨s₁,_,grows,here⟩ :=
    sim.replicated.quiet balanced.leader_unique (Raft.quiet_getApplyLogs done) order
  have traffic := sim.traffic.mono grows
  refine ⟨s₁,?_,{ traffic with applied := fun {u i x} member => ?_ }⟩
  · have leads := leads_applied (c := c.setNode v rf) v messages
    exact leads.symm ▸ here
  · rcases List.mem_append.mp member with old | new
    · exact traffic.applied old
    obtain ⟨j,inside,at'⟩ := List.mem_iff_getElem.mp (mem_applied new)
    obtain ⟨entry,found,eq⟩ := items j inside
    rw [List.getElem?_eq_getElem inside,at',Option.some.injEq,ApplyMsg.command.injEq] at eq
    obtain ⟨rfl,rfl⟩ := eq
    obtain ⟨m,index,_,there⟩ := holds.entryAt.mp found
    refine ⟨_,_,grows.known known,m,entry,index,?_,rfl⟩
    rw [List.getElem?_take_of_lt (by omega),there]

/-- A clean step is a run of protocol moves. -/
theorem step (sim : Simulates s c) (balanced : c.Balanced) {a : Action n Cmd Snap}
    (clean : c.Clean a) (taken : c.step a = some c') : c'.Simulated := by
  have balanced' := balanced.step taken
  cases a with
  | doElection v => exact sim.doElection balanced taken
  | requestVoteImpl k p => exact sim.requestVoteImpl balanced taken
  | sendRequestVote k p => exact sim.sendRequestVote balanced balanced' taken
  | doHeartBeat v => exact sim.doHeartBeat balanced taken
  | appendEntriesimpl k p => exact sim.appendEntriesimpl balanced clean taken
  | sendAppendEntries k p => exact sim.sendAppendEntries balanced taken
  | snapshotRequest k => exact sim.snapshotRequest balanced taken
  | installSnapshotImpl k => exact sim.installSnapshotImpl balanced clean taken
  | leaderSendSnapshot k => exact sim.leaderSendSnapshot balanced taken
  | start v command => exact sim.start balanced taken
  | snapshot v index data => exact sim.snapshot balanced taken
  | getApplyLogs v => exact sim.getApplyLogs balanced taken
  | crash v =>
    obtain rfl := Option.some.inj taken
    exact ⟨s,sim.crash balanced v⟩

end Simulates

/-- A cluster all of whose steps are clean refines the abstract protocol. -/
theorem Cluster.simulated_of_clean [DecidableEq Cmd] {c : Cluster n Cmd Snap}
    (reach : Cluster.Reach Cluster.Clean c) : c.Simulated :=
  Run.Reach.invariant Cluster.Simulated ⟨_,.initial⟩
    (fun _ _ _ before ⟨_,sim⟩ clean taken =>
      sim.step (Cluster.balanced_of_reach before) clean taken) reach

end KvStorage
