import KvStorage.ClusterAppends

/-! No log, snapshot or message holds a term above its holder's own. A snapshot that a process finds
on its disk is of a term before any that it leads: one it takes or installs later is committed. -/
namespace KvStorage
open Exit

structure BoostPersistRaftNode.Dated (image : BoostPersistRaftNode Cmd) : Prop where
  base : image.lastSnapshotIncludeTerm ≤ image.currentTerm
  entries : ∀ entry ∈ image.logs, entry.logterm ≤ image.currentTerm

namespace Raft

/-- No term in memory or on disk is above the one beside it. -/
structure Dated (rf : Raft n Cmd Snap) : Prop where
  memory : rf.persistData.Dated
  saved : rf.persister.image.Dated

/-- What is cut off above the commit index is of a term before this one. -/
def Older (rf : Raft n Cmd Snap) : Prop :=
  rf.commitIndex < rf.lastSnapshotIncludeIndex → rf.lastSnapshotIncludeTerm < rf.currentTerm

variable {rf rf' : Raft n Cmd Snap} {left : Persister Cmd Snap}

/-- What every section does to the terms of a dated node. -/
structure DateStep (rf rf' : Raft n Cmd Snap) : Prop where
  dated : rf'.Dated
  term : rf.currentTerm ≤ rf'.currentTerm
  base : rf.lastSnapshotIncludeIndex ≤ rf'.lastSnapshotIncludeIndex
  older : rf.Older ∨ rf.currentTerm < rf'.currentTerm → rf'.Older

namespace DateStep

theorem refl (dated : rf.Dated) : DateStep rf rf := by
  refine ⟨dated,le_rfl,le_rfl,fun older => ?_⟩
  exact older.resolve_right (lt_irrefl _)

/-- A section that cuts nothing off the log. -/
theorem uncut (dated : rf.Dated) (entries : ∀ entry ∈ rf'.logs, entry ∈ rf.logs ∨ entry.logterm ≤ rf'.currentTerm)
    (base : rf'.lastSnapshotIncludeIndex = rf.lastSnapshotIncludeIndex)
    (baseTerm : rf'.lastSnapshotIncludeTerm = rf.lastSnapshotIncludeTerm) (commit : rf.commitIndex ≤ rf'.commitIndex)
    (term : rf.currentTerm ≤ rf'.currentTerm)
    (disk : rf'.persister = rf.persister ∨ rf'.persister.image = rf'.persistData) : DateStep rf rf' := by
  have bound : rf.lastSnapshotIncludeTerm ≤ rf.currentTerm := dated.memory.base
  have memory : rf'.persistData.Dated := by
    refine ⟨?_,fun entry member => ?_⟩
    · change rf'.lastSnapshotIncludeTerm ≤ rf'.currentTerm
      omega
    · rcases entries entry member with old | fresh
      · exact (dated.memory.entries entry old).trans term
      · exact fresh
  refine ⟨⟨memory,?_⟩,term,base.ge,fun older beyond => ?_⟩
  · rcases disk with same | image
    · rw [same]
      exact dated.saved
    · rw [image]
      exact memory
  · rcases older with older | later
    · have := older (by omega)
      omega
    · omega

/-- A section that leaves log and snapshot alone. -/
theorem kept (dated : rf.Dated) (logs : rf'.logs = rf.logs)
    (base : rf'.lastSnapshotIncludeIndex = rf.lastSnapshotIncludeIndex)
    (baseTerm : rf'.lastSnapshotIncludeTerm = rf.lastSnapshotIncludeTerm) (commit : rf.commitIndex ≤ rf'.commitIndex)
    (term : rf.currentTerm ≤ rf'.currentTerm)
    (disk : rf'.persister = rf.persister ∨ rf'.persister.image = rf'.persistData) : DateStep rf rf' :=
  .uncut dated (fun _ member => .inl (logs ▸ member)) base baseTerm commit term disk

/-- A section that cuts the log at an index it commits. -/
theorem cut (dated : rf.Dated) (entries : ∀ entry ∈ rf'.logs, entry ∈ rf.logs)
    (baseTerm : rf'.lastSnapshotIncludeTerm ≤ rf'.currentTerm) (term : rf.currentTerm ≤ rf'.currentTerm)
    (base : rf.lastSnapshotIncludeIndex ≤ rf'.lastSnapshotIncludeIndex)
    (commit : rf'.lastSnapshotIncludeIndex ≤ rf'.commitIndex) (disk : rf'.persister.image = rf'.persistData) :
    DateStep rf rf' := by
  have memory : rf'.persistData.Dated :=
    ⟨baseTerm,fun entry member => (dated.memory.entries entry (entries entry member)).trans term⟩
  exact ⟨⟨memory,disk ▸ memory⟩,term,base,fun _ beyond => absurd beyond (not_lt.mpr commit)⟩

end DateStep

theorem Dated.restart (saved : left.image.Dated) (raftId : Fin n) : (init raftId left).Dated := by
  rw [init_eq]
  exact ⟨saved,saved⟩

/-! ### Every critical section -/

theorem dateStep_requestVoteImpl (dated : rf.Dated) {args : RequestVoteArgs} {reply : RequestVoteReply}
    (done : rf.requestVoteImpl args = .ok (rf',reply)) : DateStep rf rf' := by
  have term : rf.currentTerm ≤ (rf.observe args.term).currentTerm := by
    rw [observe_currentTerm]
    exact le_max_left ..
  rcases requestVoteImpl_cases rf args with ⟨_,_,_,eq⟩ | ⟨_,_,_,eq⟩ | ⟨_,_,_,_,_,_,eq⟩
  all_goals obtain ⟨rfl,rfl⟩ := Prod.mk.inj (Except.ok.inj (eq.symm.trans done))
  · exact .kept dated rfl rfl rfl le_rfl le_rfl (.inr rfl)
  · exact .kept dated (observe_logs ..) (observe_base ..) (observe_baseTerm ..) (observe_commitIndex ..).ge term (.inr rfl)
  · exact .kept dated (observe_logs ..) (observe_base ..) (observe_baseTerm ..) (observe_commitIndex ..).ge term (.inr rfl)

theorem follow_dates (rf : Raft n Cmd Snap) (term : Int) :
    (rf.follow term).logs = rf.logs ∧ (rf.follow term).lastSnapshotIncludeIndex = rf.lastSnapshotIncludeIndex ∧
      (rf.follow term).lastSnapshotIncludeTerm = rf.lastSnapshotIncludeTerm ∧
      (rf.follow term).commitIndex = rf.commitIndex ∧ (rf.follow term).currentTerm = max rf.currentTerm term :=
  ⟨observe_logs ..,observe_base ..,observe_baseTerm ..,observe_commitIndex ..,observe_currentTerm ..⟩

theorem commitTo_dates (rf : Raft n Cmd Snap) (leadercommit : Int) :
    (rf.commitTo leadercommit).lastSnapshotIncludeIndex = rf.lastSnapshotIncludeIndex ∧
      (rf.commitTo leadercommit).lastSnapshotIncludeTerm = rf.lastSnapshotIncludeTerm := by
  unfold commitTo
  split <;> exact ⟨rfl,rfl⟩

section Merge
variable [DecidableEq Cmd]

theorem mergeEntry_mem {log entry : LogEntry Cmd} (done : rf.mergeEntry log = .ok rf') (member : entry ∈ rf'.logs) :
    entry ∈ rf.logs ∨ entry = log := by
  rcases mergeEntry_ok done with ⟨_,rfl⟩ | ⟨_,_,⟨_,rfl⟩ | ⟨_,_,rfl⟩⟩
  · exact (List.mem_append.mp member).imp_right List.mem_singleton.mp
  · exact List.mem_or_eq_of_mem_set member
  · exact .inl member

theorem mergeEntries_mem {entries : List (LogEntry Cmd)} {entry : LogEntry Cmd}
    (done : rf.mergeEntries entries = .ok rf') (member : entry ∈ rf'.logs) :
    entry ∈ rf.logs ∨ entry ∈ entries := by
  induction entries generalizing rf with
  | nil =>
    rw [← pure_ok.mp done] at member
    exact .inl member
  | cons log rest ih =>
    simp only [mergeEntries,bind_ok] at done
    obtain ⟨middle,first,later⟩ := done
    rcases ih later with old | fresh
    · rcases mergeEntry_mem first old with old | rfl
      · exact .inl old
      · exact .inr List.mem_cons_self
    · exact .inr (List.mem_cons_of_mem _ fresh)

/-- What a message that a section takes in may hold. -/
def Bounded : NodeAction n Cmd Snap → Prop
  | .appendEntriesimpl args => ∀ entry ∈ args.entries, entry.logterm ≤ args.term
  | .installSnapshotImpl args => args.lastsnapshotincludeterm ≤ args.term
  | _ => True

theorem dateStep_appendEntriesimpl (dated : rf.Dated) {args : AppendEntriesArgs Cmd} {reply : AppendEntriesReply}
    (bounded : ∀ entry ∈ args.entries, entry.logterm ≤ args.term) (commit : rf.commitIndex ≤ rf'.commitIndex)
    (done : rf.appendEntriesimpl args = .ok (rf',reply)) : DateStep rf rf' := by
  obtain ⟨logs,base,baseTerm,commits,term⟩ := follow_dates rf args.term
  have later : rf.currentTerm ≤ (rf.follow args.term).currentTerm := term ▸ le_max_left ..
  rcases appendEntriesimpl_ok done with ⟨_,_,rfl⟩ | ⟨_,_,_,rfl⟩ | ⟨_,_,_,_,merged,merge,_,_,rfl⟩
  · exact .refl dated
  · exact .kept dated logs base baseTerm commits.ge later (.inr rfl)
  · have frame := mergeEntries_frame merge
    obtain ⟨base',baseTerm'⟩ := commitTo_dates merged args.leadercommit
    have same : (merged.commitTo args.leadercommit).currentTerm = (rf.follow args.term).currentTerm :=
      (commitTo_currentTerm ..).trans ((congrArg Raft.currentTerm frame).trans rfl)
    refine .uncut dated (fun entry member => ?_) ?_ ?_ commit (later.trans same.ge) (.inr rfl)
    · change entry ∈ (merged.commitTo args.leadercommit).logs at member
      rw [commitTo_logs] at member
      rcases mergeEntries_mem merge member with old | sent
      · exact .inl (logs ▸ old)
      · refine .inr ((bounded entry sent).trans ?_)
        exact (le_max_right ..).trans (same.trans term).ge
    · exact base'.trans ((congrArg Raft.lastSnapshotIncludeIndex frame).trans base)
    · exact baseTerm'.trans ((congrArg Raft.lastSnapshotIncludeTerm frame).trans baseTerm)

omit [DecidableEq Cmd] in
theorem dateStep_installSnapshotImpl (dated : rf.Dated) {args : InstallSnapshotRequest Snap}
    {answer : InstallSnapshotResponse × Option (ApplyMsg Cmd Snap)}
    (bounded : args.lastsnapshotincludeterm ≤ args.term)
    (done : rf.installSnapshotImpl args = .ok (rf',answer)) : DateStep rf rf' := by
  have kept : rf.currentTerm ≤ args.term → DateStep rf (rf.followDurably args.term) := by
    intro current
    refine .kept dated (followDurably_logs ..) (followDurably_base ..) ?_ ?_ ?_ ?_
    · unfold followDurably
      split <;> rfl
    · unfold followDurably
      split <;> exact le_rfl
    · rw [followDurably_of_le _ _ current]
      exact current
    · unfold followDurably
      split
      · exact .inr rfl
      · exact .inl rfl
  rcases installSnapshotImpl_cases rf args with ⟨_,eq⟩ | ⟨current,_,eq⟩ | ⟨current,above,eq⟩
  all_goals obtain ⟨rfl,rfl⟩ := Prod.mk.inj (Except.ok.inj (eq.symm.trans done))
  · exact .refl dated
  · exact kept current
  · have term := followDurably_of_le rf args.term current
    refine .cut dated (fun entry member => ?_) ?_ ?_ above.le (le_max_right ..) rfl
    · change entry ∈ rf.keptAbove _ at member
      unfold keptAbove at member
      split at member
      · exact List.mem_of_mem_drop member
      · cases member
    · change args.lastsnapshotincludeterm ≤ (rf.followDurably args.term).currentTerm
      rwa [term]
    · change rf.currentTerm ≤ (rf.followDurably args.term).currentTerm
      rwa [term]

omit [DecidableEq Cmd] in
theorem Dated.getLogTerm (dated : rf.Dated) {i term : Int} (found : rf.getLogTermFromLogIndex i = .ok term) :
    term ≤ rf.currentTerm := by
  obtain ⟨_,_,⟨_,rfl⟩ | ⟨entry,there,rfl⟩⟩ := getLogTermFromLogIndex_ok.mp found
  · exact dated.memory.base
  · exact dated.memory.entries entry (List.mem_of_getElem? (entryAt_ok.mp there).2.2)

omit [DecidableEq Cmd] in
theorem dateStep_compacted (dated : rf.Dated) {index term : Int} (data : Option Snap)
    (above : rf.lastSnapshotIncludeIndex < index) (found : rf.getLogTermFromLogIndex index = .ok term) :
    DateStep rf ((rf.compacted index term).saveSnapshot data) :=
  .cut dated (fun _ => List.mem_of_mem_drop) (dated.getLogTerm found) le_rfl above.le (le_max_right ..) rfl

theorem dateStep_handle {action : NodeAction n Cmd Snap} (dated : rf.Dated) (bounded : Bounded action)
    (commit : rf.commitIndex ≤ rf'.commitIndex) (done : rf.handle action = .ok rf') : DateStep rf rf' := by
  cases action with
  | doElection =>
    obtain rfl := Except.ok.inj done
    by_cases leader : rf.status = .Leader
    · rw [doElection_leader leader]
      exact .refl dated
    · rw [doElection_candidate leader]
      exact .kept dated rfl rfl rfl le_rfl (lt_add_one _).le (.inr rfl)
  | requestVoteImpl args =>
    obtain ⟨reply,done⟩ := map_fst_ok.mp done
    exact dateStep_requestVoteImpl dated done
  | sendRequestVote reply voteNums =>
    obtain ⟨answer,done⟩ := map_fst_ok.mp done
    rcases sendRequestVote_ok done with ⟨higher,rfl,_⟩ | ⟨rfl,_⟩ | ⟨rfl,_⟩ | ⟨rfl,_⟩
    · exact .kept dated rfl rfl rfl le_rfl higher.le (.inr rfl)
    · exact .refl dated
    · exact .refl dated
    · exact .kept dated rfl rfl rfl le_rfl le_rfl (.inl rfl)
  | doHeartBeat =>
    simp only [handle] at done
    split at done
    · obtain rfl := Except.ok.inj done
      exact .refl dated
    · cases done
  | appendEntriesimpl args =>
    obtain ⟨reply,done⟩ := map_fst_ok.mp done
    exact dateStep_appendEntriesimpl dated bounded commit done
  | sendAppendEntries peerId args reply appendNums =>
    obtain ⟨answer,done⟩ := map_fst_ok.mp done
    rcases sendAppendEntries_ok done with ⟨higher,_,rfl,_⟩ | ⟨rfl,_⟩ | ⟨_,_,_,rfl,_⟩ | ⟨_,_,_,_,rfl,_⟩ |
      ⟨_,_,_,_,rfl,_,_⟩
    · exact .kept dated rfl rfl rfl le_rfl higher.le (.inl rfl)
    · exact .refl dated
    · exact .kept dated rfl rfl rfl le_rfl le_rfl (.inl rfl)
    · exact .kept dated rfl rfl rfl le_rfl le_rfl (.inl rfl)
    · unfold commitRound at commit ⊢
      split
      · exact .kept dated rfl rfl rfl (le_max_left ..) le_rfl (.inl rfl)
      · exact .kept dated rfl rfl rfl le_rfl le_rfl (.inl rfl)
  | installSnapshotImpl args =>
    obtain ⟨answer,done⟩ := map_fst_ok.mp done
    exact dateStep_installSnapshotImpl dated bounded done
  | leaderSendSnapshot peerId req resp =>
    obtain rfl := Except.ok.inj done
    rcases leaderSendSnapshot_cases rf peerId req resp with eq | ⟨_,higher,eq⟩ | ⟨_,_,eq⟩
    · rw [eq]
      exact .refl dated
    · rw [eq]
      exact .kept dated rfl rfl rfl le_rfl higher.le (.inr rfl)
    · rw [eq]
      exact .kept dated rfl rfl rfl le_rfl le_rfl (.inl rfl)
  | start command =>
    obtain rfl := Except.ok.inj done
    by_cases leader : rf.status = .Leader
    · rw [start_leader leader]
      refine .uncut dated (fun entry member => ?_) rfl rfl le_rfl le_rfl (.inr rfl)
      rcases List.mem_append.mp member with old | fresh
      · exact .inl old
      · rw [List.mem_singleton.mp fresh]
        exact .inr le_rfl
    · rw [start_other leader]
      exact .refl dated
  | snapshot index data =>
    rcases snapshot_ok done with ⟨rfl,_⟩ | ⟨above,_,term,found,rfl⟩
    · exact .refl dated
    · exact dateStep_compacted dated data above found
  | getApplyLogs =>
    obtain ⟨messages,done⟩ := map_fst_ok.mp done
    rw [(getApplyLogs_ok done).2.1]
    exact .kept dated rfl rfl rfl le_rfl le_rfl (.inl rfl)
  | crash => cases done

/-- A process that ends leaves files that a restart may read. -/
theorem Dated.exit {action : NodeAction n Cmd Snap} (dated : rf.Dated) (exit : rf.handle action = .error left)
    (raftId : Fin n) : (init raftId left).Dated := by
  refine .restart ?_ raftId
  rcases exit_files exit with rfl | ⟨index,data,rfl,failed⟩
  · exact dated.saved
  · rcases snapshot_error failed with rfl | ⟨above,_,term,found,rfl⟩
    · exact dated.saved
    · exact (dateStep_compacted dated data above found).dated.saved

end Merge
end Raft

namespace Cluster

variable {c c' : Cluster n Cmd Snap}

/-- The terms in memory, on disk and on their way, and how old the snapshot of a candidate is. -/
structure Dated (c : Cluster n Cmd Snap) : Prop where
  nodes : ∀ v, (c.node v).Dated
  rounds : ∀ round ∈ c.heartbeats, ∀ p t, round.thread p = some t → ∀ entry ∈ t.args.entries, entry.logterm ≤ t.args.term
  calls : ∀ call ∈ c.snapshots, call.thread.args.lastsnapshotincludeterm ≤ call.thread.args.term
  sent : ∀ call ∈ c.snapshots, call.thread.waiting = true →
    call.thread.args.lastsnapshotincludeindex ≤ (c.node call.src).lastSnapshotIncludeIndex
  asked : ∀ round ∈ c.elections, ∀ p t, round.thread p = some t → t.waiting = true →
    t.args.term = (c.node round.src).currentTerm → (c.node round.src).Older
  office : ∀ v, (c.node v).status = .Leader → (c.node v).Older

namespace Dated

theorem initial : (Cluster.initial n Cmd Snap).Dated where
  nodes v := by
    have saved : (Persister.image ({} : Persister Cmd Snap)).Dated := ⟨le_rfl,nofun⟩
    exact .restart saved v
  rounds _ member := by cases member
  calls _ member := by cases member
  sent _ member := by cases member
  asked _ member := by cases member
  office v leader := by
    have follower : (Raft.init v ({} : Persister Cmd Snap)).status = .Follower := by rw [Raft.init_eq]
    cases follower.symm.trans leader

variable [DecidableEq Cmd] {action : Action n Cmd Snap}

omit [DecidableEq Cmd] in
theorem bounded (dated : c.Dated) {v : Fin n} {a : NodeAction n Cmd Snap} (runs : c.handles action = some (v,a)) :
    Raft.Bounded a := by
  cases a with
  | appendEntriesimpl args =>
    obtain ⟨k,round,thread,_,found,held,rfl⟩ := handles_appendEntriesimpl runs
    exact dated.rounds round (List.mem_of_getElem? found) v thread held
  | installSnapshotImpl args =>
    obtain ⟨k,call,_,found,_,rfl⟩ := handles_installSnapshotImpl runs
    exact dated.calls call (List.mem_of_getElem? found)
  | _ => trivial

/-- The node's part in an action: a section that keeps the order of its terms, or a restart. -/
theorem moves (dated : c.Dated) (appending : c.Appending) (taken : c.step action = some c') (v : Fin n) :
    (c.node v).DateStep (c'.node v) ∨
      (c'.node v).Dated ∧ (c'.node v).status = .Follower ∧ ∃ mid left, c' = Cluster.crash mid v left := by
  rcases node_cases taken v with same | ⟨a,rf,runs,done,node⟩ | ⟨_,left,mid,_,exit,_,crashed⟩
  · rw [same]
    exact .inl (.refl (dated.nodes v))
  · have advances := (Raft.indexStep_handle (appending.continues runs) done).advances (appending.indexed v)
    rw [node]
    exact .inl (Raft.dateStep_handle (dated.nodes v) (dated.bounded runs) advances.commit done)
  · refine .inr ⟨?_,?_,mid,left,crashed⟩
    · rw [crashed]
      change Raft.Dated (Function.update mid.node v _ v)
      rw [Function.update_self]
      exact (dated.nodes v).exit exit v
    · rw [crashed]
      exact crash_status mid v left

theorem sent_step (dated : c.Dated) (appending : c.Appending) (taken : c.step action = some c')
    {call : SnapshotCall n Snap} (member : call ∈ c'.snapshots) (waiting : call.thread.waiting = true) :
    call.thread.args.lastsnapshotincludeindex ≤ (c'.node call.src).lastSnapshotIncludeIndex := by
  rcases call_back taken member with ⟨before,there,src,args,waits⟩ | ⟨node,args⟩
  · rw [← args]
    have sent := dated.sent before there (waits waiting)
    rw [src] at sent
    rcases dated.moves appending taken call.src with step | ⟨_,_,mid,left,crashed⟩
    · exact sent.trans step.base
    · rw [crashed] at member
      obtain ⟨kept,_,same⟩ := List.mem_map.mp member
      rw [← same] at waiting
      obtain ⟨still,other⟩ := abandon_waiting waiting
      exact absurd (congrArg SnapshotCall.src (still.symm.trans same)) other
  · rw [args,node]
    exact le_rfl

theorem asked_step (dated : c.Dated) (appending : c.Appending) (taken : c.step action = some c') {round : VoteRound n}
    (member : round ∈ c'.elections) {p : Fin n} {t : VoteThread} (held : round.thread p = some t)
    (waiting : t.waiting = true) (term : t.args.term = (c'.node round.src).currentTerm) :
    (c'.node round.src).Older := by
  rcases dated.moves appending taken round.src with step | ⟨_,_,mid,left,crashed⟩
  · rcases vote_back taken member held waiting with ⟨before,there,src,first,old,args,waits⟩ | election
    · rcases step.term.lt_or_eq with later | same
      · exact step.older (.inr later)
      · rw [← src] at same step
        rw [← args,← src,← same] at term
        rw [← src]
        exact step.older (.inl (dated.asked before there p first old waits term))
    · by_cases leader : (c.node round.src).status = .Leader
      · exact step.older (.inl (dated.office _ leader))
      · have node : c'.node round.src = (c.node round.src).doElection.1 := by
          subst election
          rw [← Option.some.inj taken]
          exact Function.update_self ..
        refine step.older (.inr ?_)
        rw [node,Raft.doElection_candidate leader]
        exact lt_add_one _
  · rw [crashed] at member
    obtain ⟨before,_,same⟩ := List.mem_map.mp member
    rw [← same] at held
    obtain ⟨still,other⟩ := abandon_votes held waiting
    exact absurd (congrArg Round.src (still.symm.trans same)) other

theorem office_step (dated : c.Dated) (appending : c.Appending) (taken : c.step action = some c') (v : Fin n)
    (still : (c'.node v).status = .Leader) : (c'.node v).Older := by
  rcases dated.moves appending taken v with step | ⟨_,follower,_⟩
  · by_cases leader : (c.node v).status = .Leader
    · exact step.older (.inl (dated.office v leader))
    · obtain ⟨k,p,round,t,_,_,_,found,held,_,waiting,src,term,_⟩ := elected_thread appending.balanced taken leader still
      subst src
      exact step.older (.inl (dated.asked round (List.mem_of_getElem? found) p t held waiting term))
  · cases follower.symm.trans still

theorem step (dated : c.Dated) (appending : c.Appending) (taken : c.step action = some c') : c'.Dated := by
  refine ⟨fun v => ?_,fun round' member p t' held => ?_,fun call member => ?_,?_,?_,dated.office_step appending taken⟩
  · rcases dated.moves appending taken v with step | ⟨restarted,_⟩
    · exact step.dated
    · exact restarted
  · rcases heartbeat_back appending.unanswered taken member with ⟨round,before,moved⟩ | ⟨v,_,moved⟩
    · obtain ⟨t,first,args,_⟩ := moved.back held
      rw [args]
      exact dated.rounds round before p t first
    · obtain ⟨t,first,args,_⟩ := moved.back held
      have built := (Raft.heartbeatRound_built first).1
      intro entry sent
      rw [args,built.entries] at sent
      rw [args,built.term]
      exact (dated.nodes v).memory.entries entry (List.mem_of_mem_drop sent)
  · rcases call_back taken member with ⟨before,there,_,args,_⟩ | ⟨_,args⟩
    · rw [← args]
      exact dated.calls before there
    · rw [args]
      exact (dated.nodes call.src).memory.base
  · exact fun call member waiting => dated.sent_step appending taken member waiting
  · exact fun round member p t held waiting term => dated.asked_step appending taken member held waiting term

end Dated
end Cluster
end KvStorage
