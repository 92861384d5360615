import KvStorage.ClusterMoves

/-! What heartbeat rounds say about their sender, in every run of a cluster: all args of a round end
at one index of one term, which the sender keeps as long as it leads, and the counter of a round
is backed by distinct peers that answered with success. -/
namespace KvStorage
open Exit

namespace Raft

variable {rf rf' : Raft n Cmd Snap}

/-! ### A leader's log while it leads -/

/-- Entries above the base stay, new ones come behind the last, and only committed ones are cut. -/
structure Tenure (rf rf' : Raft n Cmd Snap) : Prop where
  kept : ∀ {i entry}, rf.entryAt i = .ok entry → rf'.lastSnapshotIncludeIndex < i →
    rf'.entryAt i = .ok entry
  fresh : ∀ {i entry}, rf'.entryAt i = .ok entry → rf.entryAt i = .ok entry ∨ rf.getLastLogIndex < i
  base : rf'.lastSnapshotIncludeIndex = rf.lastSnapshotIncludeIndex ∨
    rf'.lastSnapshotIncludeIndex ≤ rf.commitIndex

theorem Tenure.same (logs : rf'.logs = rf.logs)
    (base : rf'.lastSnapshotIncludeIndex = rf.lastSnapshotIncludeIndex) : Tenure rf rf' := by
  have last : rf'.getLastLogIndex = rf.getLastLogIndex := by
    simp only [getLastLogIndex,getLastLogIndexAndTerm,logs,base]
    cases rf.logs.getLast? <;> rfl
  have reads : ∀ {i entry}, rf'.entryAt i = .ok entry ↔ rf.entryAt i = .ok entry := by
    intro i entry
    rw [entryAt_ok,entryAt_ok,last,logs,base]
  exact ⟨fun found _ => reads.mpr found,fun found => .inl (reads.mp found),.inl base⟩

theorem tenure_appended (indexed : rf.Indexed) (command : Cmd) : Tenure rf (rf.appended command) := by
  have step : IndexStep rf (rf.appended command) := by
    have extended : IndexStep rf { rf with
        logs := rf.logs ++ [⟨command,rf.currentTerm,rf.getNewCommandIndex⟩] } := by
      refine .relog fun indexed => ⟨indexed.memory.numbered.append ?_,by simp⟩
      have last := indexed.last
      simp only [getNewCommandIndex,persistData]
      omega
    exact extended.persist
  have after := (step.indexed indexed).memory
  have last := indexed.last
  refine ⟨fun {i entry} found above => ?_,fun {i entry} found => ?_,.inl rfl⟩
  · obtain ⟨above,there⟩ := held_iff.mp ((entryAt_iff indexed.memory.numbered).mp found)
    refine (entryAt_iff after.numbered).mpr (held_iff.mpr ⟨above,?_⟩)
    change (rf.logs ++ [_])[(i - rf.lastSnapshotIncludeIndex - 1).toNat]? = _
    rw [List.getElem?_append_left (List.getElem?_eq_some_iff.mp there).1,there]
  · obtain ⟨above,there⟩ := held_iff.mp ((entryAt_iff after.numbered).mp found)
    change (rf.logs ++ [_])[(i - rf.lastSnapshotIncludeIndex - 1).toNat]? = _ at there
    change rf.lastSnapshotIncludeIndex < i at above
    rcases Nat.lt_or_ge (i - rf.lastSnapshotIncludeIndex - 1).toNat rf.logs.length with old | new
    · rw [List.getElem?_append_left old] at there
      exact .inl ((entryAt_iff indexed.memory.numbered).mpr (held_iff.mpr ⟨above,there⟩))
    · exact .inr (by omega)

theorem tenure_compacted (indexed : rf.Indexed) {index term : Int} (data : Option Snap)
    (above : rf.lastSnapshotIncludeIndex < index) (committed : index ≤ rf.commitIndex) :
    Tenure rf ((rf.compacted index term).saveSnapshot data) := by
  have step : IndexStep rf (rf.compacted index term) :=
    indexStep_compacted above (committed.trans indexed.committed)
  have after := ((step.saveSnapshot data).indexed indexed).memory
  have shift : ∀ i, index < i → (rf.logs.drop (index - rf.lastSnapshotIncludeIndex).toNat)[(i - index - 1).toNat]? =
      rf.logs[(i - rf.lastSnapshotIncludeIndex - 1).toNat]? := by
    intro i inside
    rw [List.getElem?_drop]
    congr 1
    omega
  refine ⟨fun {i entry} found inside => ?_,fun {i entry} found => .inl ?_,.inr committed⟩
  · obtain ⟨_,there⟩ := held_iff.mp ((entryAt_iff indexed.memory.numbered).mp found)
    exact (entryAt_iff after.numbered).mpr (held_iff.mpr ⟨inside,(shift i inside).trans there⟩)
  · obtain ⟨inside,there⟩ := held_iff.mp ((entryAt_iff after.numbered).mp found)
    change index < i at inside
    exact (entryAt_iff indexed.memory.numbered).mpr (held_iff.mpr ⟨by omega,(shift i inside).symm.trans there⟩)

variable [DecidableEq Cmd] {action : NodeAction n Cmd Snap}

theorem tenure_handle (indexed : rf.Indexed) (done : rf.handle action = .ok rf')
    (leader : rf.status = .Leader) (still : rf'.status = .Leader) : Tenure rf rf' := by
  cases action with
  | doElection =>
    obtain rfl := Except.ok.inj done
    rw [doElection_leader leader]; exact .same rfl rfl
  | requestVoteImpl args =>
    obtain ⟨reply,done⟩ := map_fst_ok.mp done
    rcases requestVoteImpl_cases rf args with ⟨_,_,_,eq⟩ | ⟨_,_,_,eq⟩ | ⟨_,_,_,_,_,_,eq⟩
    all_goals obtain ⟨rfl,rfl⟩ := Prod.mk.inj (Except.ok.inj (eq.symm.trans done))
    · exact .same rfl rfl
    · exact .same (observe_logs ..) (observe_base ..)
    · exact .same (observe_logs ..) (observe_base ..)
  | sendRequestVote reply voteNums =>
    obtain ⟨answer,done⟩ := map_fst_ok.mp done
    rcases sendRequestVote_ok done with ⟨_,rfl,_⟩ | ⟨rfl,_⟩ | ⟨rfl,_⟩ | ⟨rfl,_⟩ <;> exact .same rfl rfl
  | doHeartBeat =>
    simp only [handle] at done
    split at done
    · obtain rfl := Except.ok.inj done; exact .same rfl rfl
    · cases done
  | appendEntriesimpl args =>
    obtain ⟨reply,done⟩ := map_fst_ok.mp done
    rcases appendEntriesimpl_ok done with ⟨_,_,rfl⟩ | ⟨_,_,_,rfl⟩ | ⟨_,_,_,_,merged,merge,_,_,rfl⟩
    · exact .same rfl rfl
    · cases still
    · have out := (congrArg Raft.status (mergeEntries_frame merge))
      have kept : (merged.commitTo args.leadercommit).status = merged.status := by
        unfold commitTo
        split <;> rfl
      cases still.symm.trans (kept.trans out)
  | sendAppendEntries peerId args reply appendNums =>
    obtain ⟨answer,done⟩ := map_fst_ok.mp done
    rcases sendAppendEntries_ok done with ⟨_,_,rfl,_⟩ | ⟨rfl,_⟩ | ⟨_,_,_,rfl,_⟩ | ⟨_,_,_,_,rfl,_⟩ |
      ⟨_,_,_,_,rfl,_,_⟩
    · exact .same rfl rfl
    · exact .same rfl rfl
    · exact .same rfl rfl
    · exact .same rfl rfl
    · unfold commitRound
      split <;> exact .same rfl rfl
  | installSnapshotImpl args =>
    obtain ⟨answer,done⟩ := map_fst_ok.mp done
    rcases installSnapshotImpl_cases rf args with ⟨_,eq⟩ | ⟨_,_,eq⟩ | ⟨_,_,eq⟩
    all_goals obtain ⟨rfl,rfl⟩ := Prod.mk.inj (Except.ok.inj (eq.symm.trans done))
    · exact .same rfl rfl
    · cases still
    · cases still
  | leaderSendSnapshot peerId req resp =>
    obtain rfl := Except.ok.inj done
    rcases leaderSendSnapshot_cases rf peerId req resp with eq | ⟨_,_,eq⟩ | ⟨_,_,eq⟩
    all_goals rw [eq]; exact .same rfl rfl
  | start command =>
    obtain rfl := Except.ok.inj done
    rw [start_leader leader]; exact tenure_appended indexed command
  | snapshot index data =>
    rcases snapshot_ok done with ⟨rfl,_⟩ | ⟨above,committed,_,_,rfl⟩
    · exact .same rfl rfl
    · exact tenure_compacted indexed data above committed
  | getApplyLogs =>
    obtain ⟨messages,done⟩ := map_fst_ok.mp done
    rw [(getApplyLogs_ok done).2.1]
    exact .same rfl rfl
  | crash => cases done

/-- A leader that is still in office is in the same term. -/
theorem term_handle (done : rf.handle action = .ok rf') (leader : rf.status = .Leader)
    (still : rf'.status = .Leader) : rf'.currentTerm = rf.currentTerm := by
  cases peersStep_handle done with
  | kept _ _ office => exact (office still).2
  | elected eq _ => rw [eq]; rfl
  | acknowledged _ _ success =>
    obtain ⟨answer,done⟩ := map_fst_ok.mp done
    rcases sendAppendEntries_ok done with ⟨_,_,rfl,_⟩ | ⟨rfl,_⟩ | ⟨_,_,_,rfl,_⟩ | ⟨_,_,_,_,rfl,_⟩ |
      ⟨_,_,_,_,rfl,_,_⟩
    · cases still
    · rfl
    · rfl
    · rfl
    · unfold commitRound
      split <;> rfl
  | refused _ _ _ eq => rw [eq]; rfl
  | snapshotSent _ _ _ eq => rw [eq]; rfl

omit [DecidableEq Cmd] in
/-- The args end inside the log, at an entry that is committed or still has the term they say. -/
structure Reaches (rf : Raft n Cmd Snap) (args : AppendEntriesArgs Cmd) : Prop where
  last : args.lastIndex ≤ rf.getLastLogIndex
  entry : ∀ T, args.lastLogTerm? = some T → args.lastIndex ≤ rf.commitIndex ∨
    ∃ entry, rf.entryAt args.lastIndex = .ok entry ∧ entry.logterm = T

omit [DecidableEq Cmd] in
theorem Reaches.tenure {args : AppendEntriesArgs Cmd} (reaches : rf.Reaches args) (tenure : Tenure rf rf')
    (advances : rf.Advances rf') : rf'.Reaches args := by
  refine ⟨reaches.last.trans advances.last,fun T term => ?_⟩
  rcases reaches.entry T term with committed | ⟨entry,found,same⟩
  · exact .inl (committed.trans advances.commit)
  · by_cases committed : args.lastIndex ≤ rf'.commitIndex
    · exact .inl committed
    · have above := (entryAt_ok.mp found).1
      have commit := advances.commit
      refine .inr ⟨entry,tenure.kept found ?_,same⟩
      rcases tenure.base with base | base <;> omega

omit [DecidableEq Cmd] in
/-- The args that `doHeartBeat` builds end at the leader's last entry. -/
theorem reaches_built (indexed : rf.Indexed) {args : AppendEntriesArgs Cmd}
    (last : args.lastIndex = rf.getLastLogIndex)
    (entries : args.entries = rf.logs.drop (args.prevlogindex - rf.lastSnapshotIncludeIndex).toNat) :
    rf.Reaches args := by
  refine ⟨last.le,fun T term => .inr ?_⟩
  obtain ⟨entry,found,same⟩ := Option.map_eq_some_iff.mp term
  refine ⟨entry,?_,same⟩
  rw [entries,List.getLast?_drop] at found
  split at found
  · cases found
  · have inside := List.getLast?_eq_getElem? .. ▸ found
    have bound := (List.getElem?_eq_some_iff.mp inside).1
    have length := indexed.last
    rw [entryAt_iff indexed.memory.numbered,held_iff,last]
    refine ⟨by omega,?_⟩
    rw [length,← inside]
    congr 1
    omega

end Raft

/-- What all threads of a heartbeat round share, and what its counter stands for. -/
structure Round.Alike (round : Round n (AppendEntriesArgs Cmd) AppendEntriesReply) : Prop where
  peer : ∀ {p t}, round.thread p = some t → p ≠ round.src
  unanswered : ∀ {p t}, round.thread p = some t → t.inFlight = true → t.reply = none
  sameTerm : ∀ {p t reply}, round.thread p = some t → t.reply = some reply → reply.success = true →
    reply.term = t.args.term
  consecutive : ∀ {p t}, round.thread p = some t → Consecutive (t.args.prevlogindex + 1) t.args.entries
  term : ∀ {p q t x}, round.thread p = some t → round.thread q = some x → t.args.term = x.args.term
  last : ∀ {p q t x}, round.thread p = some t → round.thread q = some x → t.args.lastIndex = x.args.lastIndex
  counter : round.counter ≤ 1 + ((round.tally (·.success)).card : Int)

theorem Round.Continues.alike [DecidableEq Cmd] {node : Fin n → Raft n Cmd Snap}
    {round round' : Round n (AppendEntriesArgs Cmd) AppendEntriesReply} (moved : round.Continues node round')
    (alike : round.Alike) : round'.Alike := by
  refine ⟨?_,?_,?_,?_,?_,?_,?_⟩
  · intro p t' held
    obtain ⟨t,before,_⟩ := moved.back held
    rw [moved.src]
    exact alike.peer before
  · intro p t' held sent
    obtain ⟨t,before,_,_,sends,_⟩ := moved.back held
    obtain ⟨sent,same⟩ := sends sent
    rw [same]
    exact alike.unanswered before sent
  · intro p t' reply held replied success
    obtain ⟨t,before,args,_,_,replies⟩ := moved.back held
    rw [args]
    rcases replies reply replied with old | ⟨rf,done⟩
    · exact alike.sameTerm before old success
    · rcases Raft.appendEntriesimpl_ok done with ⟨_,failed,_⟩ | ⟨_,failed,_⟩ | ⟨_,_,term,_⟩
      · cases success.symm.trans failed
      · cases success.symm.trans failed
      · exact term
  · intro p t' held
    obtain ⟨t,before,args,_⟩ := moved.back held
    rw [args]
    exact alike.consecutive before
  · intro p q t' x' held found
    obtain ⟨t,before,args,_⟩ := moved.back held
    obtain ⟨x,before',args',_⟩ := moved.back found
    rw [args,args']
    exact alike.term before before'
  · intro p q t' x' held found
    obtain ⟨t,before,args,_⟩ := moved.back held
    obtain ⟨x,before',args',_⟩ := moved.back found
    rw [args,args']
    exact alike.last before before'
  · have counter := alike.counter
    have grown := moved.counter
    omega

namespace Raft

variable {rf : Raft n Cmd Snap}

/-- What a thread of a new round carries. -/
structure Built (rf : Raft n Cmd Snap) (peer : Fin n) (args : AppendEntriesArgs Cmd) : Prop where
  leader : rf.status = .Leader
  peer : peer ≠ rf.raftId
  term : args.term = rf.currentTerm
  last : args.lastIndex = rf.getLastLogIndex
  above : rf.lastSnapshotIncludeIndex ≤ args.prevlogindex
  entries : args.entries = rf.logs.drop (args.prevlogindex - rf.lastSnapshotIncludeIndex).toNat

/-- The new round of `doHeartBeat`. -/
def heartbeatRound (v : Fin n) (rf : Raft n Cmd Snap) : Round n (AppendEntriesArgs Cmd) AppendEntriesReply :=
  Round.launch v (rf.doHeartBeat.1.filterMap Spawned.append?)

theorem heartbeatRound_built {v p : Fin n} {t : Thread (AppendEntriesArgs Cmd) AppendEntriesReply}
    (held : (heartbeatRound v rf).thread p = some t) : rf.Built p t.args ∧ t.reply = none := by
  obtain ⟨args,asked,rfl⟩ := Round.launch_thread held
  obtain ⟨thread,started,carries⟩ := List.mem_filterMap.mp asked
  obtain ⟨leader,peer,other,built⟩ := (doHeartBeat_spec rfl).1 thread started
  rcases heartBeatPeer_ok built with ⟨rfl,_⟩ | ⟨args',rfl,term,_,_,last,above,_,_,entries⟩
  · cases carries
  · cases carries
    exact ⟨⟨leader,other,term,last,above,entries⟩,rfl⟩

theorem Built.consecutive {peer : Fin n} {args : AppendEntriesArgs Cmd} (built : rf.Built peer args)
    (numbered : rf.Numbered) : Consecutive (args.prevlogindex + 1) args.entries := by
  have dropped := numbered.drop (args.prevlogindex - rf.lastSnapshotIncludeIndex).toNat
  have above := built.above
  rw [← built.entries] at dropped
  convert dropped using 1
  omega

theorem heartbeatRound_alike {v : Fin n} (self : rf.raftId = v) (numbered : rf.Numbered) :
    (heartbeatRound v rf).Alike := by
  refine ⟨?_,?_,?_,?_,?_,?_,?_⟩
  · intro p t held
    have other := (heartbeatRound_built held).1.peer
    rwa [self] at other
  · exact fun held _ => (heartbeatRound_built held).2
  · intro p t reply held replied _
    rw [(heartbeatRound_built held).2] at replied
    cases replied
  · exact fun held => (heartbeatRound_built held).1.consecutive numbered
  · intro p q t x held found
    rw [(heartbeatRound_built held).1.term,(heartbeatRound_built found).1.term]
  · intro p q t x held found
    rw [(heartbeatRound_built held).1.last,(heartbeatRound_built found).1.last]
  · have start : (heartbeatRound v rf).counter = 1 := rfl
    omega

end Raft

namespace Cluster

variable {c c' : Cluster n Cmd Snap}

/-- Rounds and calls in flight against the nodes that sent them. -/
structure Appending (c : Cluster n Cmd Snap) : Prop where
  balanced : c.Balanced
  indexed : ∀ v, (c.node v).Indexed
  office : ∀ v, (c.node v).status = .Leader → c.Leads v (c.node v).currentTerm
  alike : ∀ round ∈ c.heartbeats, round.Alike
  led : ∀ round ∈ c.heartbeats, ∀ p t, round.thread p = some t → c.Leads round.src t.args.term
  reaches : ∀ round ∈ c.heartbeats, ∀ p t, round.thread p = some t → (c.node round.src).status = .Leader →
    (c.node round.src).currentTerm = t.args.term → (c.node round.src).Reaches t.args
  calls : ∀ call ∈ c.snapshots, call.thread.waiting = true →
    0 ≤ call.thread.args.lastsnapshotincludeindex ∧
      call.thread.args.lastsnapshotincludeindex ≤ (c.node call.src).getLastLogIndex

/-- A process that starts again is a follower. -/
theorem crash_status (c : Cluster n Cmd Snap) (v : Fin n) (left : Persister Cmd Snap) :
    ((c.crash v left).node v).status = .Follower := by
  change Raft.status (Function.update c.node v _ v) = _
  rw [Function.update_self,Raft.init_eq]

namespace Appending

theorem initial : (Cluster.initial n Cmd Snap).Appending where
  balanced := .initial
  indexed v := by
    have saved : (Persister.image ({} : Persister Cmd Snap)).Indexed := ⟨le_rfl,.nil⟩
    exact .restart v saved
  office v leader := by
    have follower : (Raft.init v ({} : Persister Cmd Snap)).status = .Follower := by rw [Raft.init_eq]
    cases follower.symm.trans leader
  alike _ member := by cases member
  led _ member := by cases member
  reaches _ member := by cases member
  calls _ member := by cases member

variable {action : Action n Cmd Snap}

theorem unanswered (appending : c.Appending) : c.Unanswered :=
  fun round member _ _ held sent => (appending.alike round member).unanswered held sent

theorem continues (appending : c.Appending) {v : Fin n} {a : NodeAction n Cmd Snap}
    (runs : c.handles action = some (v,a)) : Raft.Continues a := by
  cases a with
  | appendEntriesimpl args =>
    obtain ⟨k,round,thread,_,found,held,rfl⟩ := handles_appendEntriesimpl runs
    exact (appending.alike round (List.mem_of_getElem? found)).consecutive held
  | _ => trivial

theorem launched (appending : c.Appending) (v : Fin n) :
    (Raft.heartbeatRound v (c.node v)).Alike ∧ ∀ p t, (Raft.heartbeatRound v (c.node v)).thread p = some t →
      c.Leads v t.args.term ∧ (c.node v).Reaches t.args := by
  have indexed := appending.indexed v
  refine ⟨Raft.heartbeatRound_alike (appending.balanced.raftId v) indexed.memory.numbered,fun p t held => ?_⟩
  have built := (Raft.heartbeatRound_built held).1
  refine ⟨?_,Raft.reaches_built indexed built.last built.entries⟩
  rw [built.term]
  exact appending.office v built.leader

variable [DecidableEq Cmd]

/-- The node's part in an action: a section that advances its counters, or a restart as follower. -/
theorem advances (appending : c.Appending) (taken : c.step action = some c') (v : Fin n) :
    (c.node v).Advances (c'.node v) ∨
      (c'.node v).status = .Follower ∧ ∃ mid left, c' = Cluster.crash mid v left := by
  rcases node_cases taken v with same | ⟨a,rf,runs,done,node⟩ | ⟨_,left,mid,_,_,_,crashed⟩
  · rw [same]
    exact .inl ⟨le_rfl,le_rfl,le_rfl⟩
  · rw [node]
    exact .inl ((Raft.indexStep_handle (appending.continues runs) done).advances (appending.indexed v))
  · refine .inr ⟨?_,mid,left,crashed⟩
    rw [crashed]
    exact crash_status mid v left

theorem indexed_step (appending : c.Appending) (taken : c.step action = some c') (v : Fin n) :
    (c'.node v).Indexed := by
  have indexed := appending.indexed v
  rcases node_cases taken v with same | ⟨a,rf,runs,done,node⟩ | ⟨_,left,mid,_,exit,_,crashed⟩
  · rwa [same]
  · rw [node]
    exact (Raft.indexStep_handle (appending.continues runs) done).indexed indexed
  · rw [crashed]
    change Raft.Indexed (Function.update mid.node v _ v)
    rw [Function.update_self]
    have restarted := indexed.exit exit
    rwa [appending.balanced.raftId v] at restarted

/-- A leader before and after a step: one term, one log that only grew. -/
theorem tenure (appending : c.Appending) (taken : c.step action = some c') {v : Fin n}
    (leader : (c.node v).status = .Leader) (still : (c'.node v).status = .Leader) :
    (c'.node v).currentTerm = (c.node v).currentTerm ∧ Raft.Tenure (c.node v) (c'.node v) ∧
      (c.node v).Advances (c'.node v) := by
  rcases appending.advances taken v with advances | ⟨follower,_⟩
  · rcases node_cases taken v with same | ⟨a,rf,runs,done,node⟩ | ⟨_,left,mid,_,_,_,crashed⟩
    · rw [same]
      exact ⟨rfl,.same rfl rfl,le_rfl,le_rfl,le_rfl⟩
    · rw [node] at still advances ⊢
      exact ⟨Raft.term_handle done leader still,Raft.tenure_handle (appending.indexed v) done leader still,advances⟩
    · rw [crashed] at still
      cases (crash_status mid v left).symm.trans still
  · cases follower.symm.trans still

theorem office_step (appending : c.Appending) (taken : c.step action = some c') (v : Fin n)
    (still : (c'.node v).status = .Leader) : c'.Leads v (c'.node v).currentTerm := by
  by_cases leader : (c.node v).status = .Leader
  · rw [(appending.tenure taken leader still).1]
    exact leads_step taken (appending.office v leader)
  · exact (leads_elected appending.balanced taken leader still).2

/-- A round of a leader in its term was sent by it in this term of office. -/
theorem reaches_continued (appending : c.Appending) (taken : c.step action = some c')
    {round : Round n (AppendEntriesArgs Cmd) AppendEntriesReply} (member : round ∈ c.heartbeats) {p : Fin n}
    {t : Thread (AppendEntriesArgs Cmd) AppendEntriesReply} (held : round.thread p = some t)
    (still : (c'.node round.src).status = .Leader) (term : (c'.node round.src).currentTerm = t.args.term) :
    (c'.node round.src).Reaches t.args := by
  by_cases leader : (c.node round.src).status = .Leader
  · obtain ⟨same,tenure,advances⟩ := appending.tenure taken leader still
    exact (appending.reaches round member p t held leader (same.symm.trans term)).tenure tenure advances
  · have unled := (leads_elected appending.balanced taken leader still).1
    rw [term] at unled
    exact absurd (appending.led round member p t held) unled

/-- A call that still waits belongs to a process that did not end. -/
theorem calls_step (appending : c.Appending) (taken : c.step action = some c') {call : SnapshotCall n Snap}
    (member : call ∈ c'.snapshots) (waiting : call.thread.waiting = true) :
    0 ≤ call.thread.args.lastsnapshotincludeindex ∧
      call.thread.args.lastsnapshotincludeindex ≤ (c'.node call.src).getLastLogIndex := by
  have advances : (c.node call.src).getLastLogIndex ≤ (c'.node call.src).getLastLogIndex := by
    rcases appending.advances taken call.src with advances | ⟨_,mid,left,crashed⟩
    · exact advances.last
    · rw [crashed] at member
      obtain ⟨before,_,same⟩ := List.mem_map.mp member
      rw [← same] at waiting
      obtain ⟨kept,other⟩ := abandon_waiting waiting
      exact absurd (congrArg SnapshotCall.src (kept.symm.trans same)) other
  rcases call_back taken member with ⟨before,there,src,args,waits⟩ | ⟨node,args⟩
  · obtain ⟨base,last⟩ := appending.calls before there (waits waiting)
    rw [src,args] at last
    rw [args] at base
    exact ⟨base,last.trans advances⟩
  · have indexed := appending.indexed call.src
    have base := indexed.base
    have last := indexed.last
    rw [args,node]
    refine ⟨base,?_⟩
    simp only [Raft.snapshotRequest]
    omega

theorem step (appending : c.Appending) (taken : c.step action = some c') : c'.Appending := by
  have back {round' : Round n (AppendEntriesArgs Cmd) AppendEntriesReply} (member : round' ∈ c'.heartbeats) :=
    heartbeat_back appending.unanswered taken member
  refine ⟨appending.balanced.step taken,appending.indexed_step taken,appending.office_step taken,?_,?_,?_,?_⟩
  · intro round' member
    rcases back member with ⟨round,before,moved⟩ | ⟨v,_,moved⟩
    · exact moved.alike (appending.alike round before)
    · exact moved.alike (appending.launched v).1
  · intro round' member p t' held
    rcases back member with ⟨round,before,moved⟩ | ⟨v,_,moved⟩
    · obtain ⟨t,first,args,_⟩ := moved.back held
      rw [moved.src,args]
      exact leads_step taken (appending.led round before p t first)
    · obtain ⟨t,first,args,_⟩ := moved.back held
      rw [moved.src,args]
      exact leads_step taken ((appending.launched v).2 p t first).1
  · intro round' member p t' held leader term
    rcases back member with ⟨round,before,moved⟩ | ⟨v,beat,moved⟩
    · obtain ⟨t,first,args,_⟩ := moved.back held
      rw [moved.src] at leader term ⊢
      rw [args] at term ⊢
      exact appending.reaches_continued taken before first leader term
    · obtain ⟨t,first,args,_⟩ := moved.back held
      rw [moved.src] at leader term ⊢
      rw [args]
      subst beat
      have sent := ((appending.launched v).2 p t first).2
      obtain ⟨threads,exit,_,⟨_,rfl⟩ | ⟨left,_,rfl⟩⟩ := step_doHeartBeat taken
      · exact sent
      · cases (crash_status _ v left).symm.trans leader
  · exact fun call member waiting => appending.calls_step taken member waiting

end Appending

theorem appending_of_reach {ok : Cluster n Cmd Snap → Action n Cmd Snap → Prop} [DecidableEq Cmd]
    (reach : Reach ok c) : c.Appending :=
  Run.Reach.invariant Appending .initial (fun _ _ _ _ before _ taken => before.step taken) reach

end Cluster
end KvStorage
