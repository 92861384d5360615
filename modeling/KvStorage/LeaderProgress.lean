import KvStorage.ClusterAppends

/-! `nextIndex_` and `matchIndex_` of a leader through late and reordered replies. Successes take a
maximum; the hint of a refusal and the index of an answered snapshot are written as they come. -/
namespace KvStorage
open Exit

namespace Raft

variable {rf : Raft n Cmd Snap} {peerId : Fin n} {args : AppendEntriesArgs Cmd} {reply : AppendEntriesReply}
  {appendNums : Int}

/-- The refusals whose hint `sendAppendEntries` writes. -/
structure Retries (rf : Raft n Cmd Snap) (reply : AppendEntriesReply) : Prop where
  leader : rf.status = .Leader
  connected : reply.appstate ≠ Disconnected
  current : reply.term = rf.currentTerm
  refused : reply.success = false
  hinted : reply.updatenextindex ≠ -100

theorem sendAppendEntries_retry (retries : rf.Retries reply) : rf.sendAppendEntries peerId args reply appendNums =
    .ok (rf.retryFrom peerId reply.updatenextindex,appendNums) := by
  have refused : ¬ reply.success = true := by simp [retries.refused]
  simp only [sendAppendEntries,if_neg retries.connected,retries.current]
  refine (if_neg (lt_irrefl _)).trans ((if_neg (lt_irrefl _)).trans ((if_neg (not_not.mpr retries.leader)).trans ?_))
  refine bind_ok.mpr ⟨(),myAssert_ok.mpr trivial,?_⟩
  exact (if_pos refused).trans (if_pos retries.hinted)

/-- The successes that `sendAppendEntries` counts. -/
structure Takes (rf : Raft n Cmd Snap) (reply : AppendEntriesReply) : Prop where
  leader : rf.status = .Leader
  connected : reply.appstate ≠ Disconnected
  current : reply.term = rf.currentTerm
  success : reply.success = true

/-- Any other refusal leaves a leader in office as it is. -/
theorem sendAppendEntries_ignored {rf' : Raft n Cmd Snap} {successes : Int} (refused : reply.success = false)
    (other : ¬ rf.Retries reply) (current : reply.term = rf.currentTerm)
    (done : rf.sendAppendEntries peerId args reply appendNums = .ok (rf',successes)) : rf' = rf := by
  by_cases connected : reply.appstate = Disconnected
  · simp only [sendAppendEntries,if_pos connected,pure_ok] at done
    exact (congrArg Prod.fst done).symm
  by_cases leader : rf.status = .Leader
  · have silent : reply.updatenextindex = -100 :=
      by_contra fun hinted => other ⟨leader,connected,current,refused,hinted⟩
    simp only [sendAppendEntries,if_neg connected,current,lt_irrefl,if_false,leader,refused,silent,ne_eq,
      not_true_eq_false,Bool.false_eq_true,not_false_eq_true,if_true,bind_ok,pure_ok] at done
    obtain ⟨_,_,done⟩ := done
    exact (congrArg Prod.fst done).symm
  · simp only [sendAppendEntries,if_neg connected,current,lt_irrefl,if_false,ne_eq,leader,not_false_eq_true,
      if_true,pure_ok] at done
    exact (congrArg Prod.fst done).symm

/-- Between what a peer is known to hold and the end of the leader's log. -/
def Tracked (rf : Raft n Cmd Snap) (p : Fin n) : Prop :=
  rf.matchIndex.get p < rf.nextIndex.get p ∧ rf.nextIndex.get p ≤ rf.getLastLogIndex + 1

end Raft

namespace Cluster

variable {c c' : Cluster n Cmd Snap}

/-- What a step leaves to each leader, and to one that was leader in the same term before it. -/
structure Progress (c c' : Cluster n Cmd Snap) : Prop where
  tracked : ∀ v, (c'.node v).status = .Leader → ∀ p, (c'.node v).Tracked p
  advances : ∀ v, (c.node v).status = .Leader → (c'.node v).status = .Leader →
    (c'.node v).currentTerm = (c.node v).currentTerm →
    ∀ p, (c.node v).matchIndex.get p ≤ (c'.node v).matchIndex.get p

/-- A hint that is written lies above what the peer holds and inside the log, and a snapshot that is
answered is not older than what the peer holds. -/
def InOrder (c : Cluster n Cmd Snap) : Action n Cmd Snap → Prop
  | .sendAppendEntries k p => ∀ round ∈ c.heartbeats[k]?, ∀ t ∈ round.thread p, ∀ reply ∈ t.reply,
    (c.node round.src).Retries reply → (c.node round.src).matchIndex.get p < reply.updatenextindex ∧
      reply.updatenextindex ≤ (c.node round.src).getLastLogIndex + 1
  | .leaderSendSnapshot k => ∀ call ∈ c.snapshots[k]?, ∀ resp ∈ call.thread.reply,
    (c.node call.src).status = .Leader → (c.node call.src).currentTerm = call.thread.args.term →
    resp.term ≤ (c.node call.src).currentTerm →
    (c.node call.src).matchIndex.get call.dst ≤ call.thread.args.lastsnapshotincludeindex
  | _ => True

/-- No leader counts on more than its own log. -/
def Matched (c : Cluster n Cmd Snap) : Prop :=
  ∀ v, (c.node v).status = .Leader → ∀ p, (c.node v).matchIndex.get p ≤ (c.node v).getLastLogIndex

/-- What an action is to the two arrays of a node that is leader after it. -/
inductive LeaderMove (c c' : Cluster n Cmd Snap) (action : Action n Cmd Snap) (v : Fin n) : Prop where
  | kept (leader : (c.node v).status = .Leader) (next : (c'.node v).nextIndex = (c.node v).nextIndex)
    (matched : (c'.node v).matchIndex = (c.node v).matchIndex) : LeaderMove c c' action v
  | elected (before : (c.node v).status ≠ .Leader) (eq : c'.node v = (c.node v).elected) : LeaderMove c c' action v
  | acknowledged (k : Nat) (p : Fin n) (round : Round n (AppendEntriesArgs Cmd) AppendEntriesReply)
    (t : Thread (AppendEntriesArgs Cmd) AppendEntriesReply) (reply : AppendEntriesReply)
    (call : action = .sendAppendEntries k p) (found : c.heartbeats[k]? = some round)
    (held : round.thread p = some t) (replied : t.reply = some reply) (src : round.src = v)
    (takes : (c.node v).Takes reply) (inside : t.args.lastIndex ≤ (c.node v).getLastLogIndex)
    (next : (c'.node v).nextIndex = ((c.node v).acknowledge p t.args).nextIndex)
    (matched : (c'.node v).matchIndex = ((c.node v).acknowledge p t.args).matchIndex) : LeaderMove c c' action v
  | refused (k : Nat) (p : Fin n) (round : Round n (AppendEntriesArgs Cmd) AppendEntriesReply)
    (t : Thread (AppendEntriesArgs Cmd) AppendEntriesReply) (reply : AppendEntriesReply)
    (call : action = .sendAppendEntries k p) (found : c.heartbeats[k]? = some round)
    (held : round.thread p = some t) (replied : t.reply = some reply) (src : round.src = v)
    (retries : (c.node v).Retries reply) (eq : c'.node v = (c.node v).retryFrom p reply.updatenextindex) :
    LeaderMove c c' action v
  | snapshotSent (k : Nat) (call : SnapshotCall n Snap) (resp : InstallSnapshotResponse)
    (taken : action = .leaderSendSnapshot k) (found : c.snapshots[k]? = some call)
    (replied : call.thread.reply = some resp) (src : call.src = v) (leader : (c.node v).status = .Leader)
    (current : (c.node v).currentTerm = call.thread.args.term) (answered : resp.term ≤ (c.node v).currentTerm)
    (inside : call.thread.args.lastsnapshotincludeindex ≤ (c.node v).getLastLogIndex)
    (eq : c'.node v = (c.node v).snapshotSent call.dst call.thread.args.lastsnapshotincludeindex) :
    LeaderMove c c' action v

variable [DecidableEq Cmd] {action : Action n Cmd Snap}

theorem leaderMove (appending : c.Appending) (taken : c.step action = some c') {v : Fin n}
    (still : (c'.node v).status = .Leader) : LeaderMove c c' action v := by
  rcases node_cases taken v with same | ⟨a,rf,runs,done,node⟩ | ⟨_,left,mid,_,_,_,crashed⟩
  · rw [same] at still
    exact .kept still (by rw [same]) (by rw [same])
  · rw [node] at still
    cases Raft.peersStep_handle done with
    | kept next matched office => exact .kept (office still).1 (node ▸ next) (node ▸ matched)
    | elected eq =>
      obtain ⟨answer,ran⟩ := map_fst_ok.mp done
      rcases Raft.sendRequestVote_ok ran with ⟨_,rfl,_⟩ | ⟨rfl,_⟩ | ⟨rfl,_⟩ | ⟨_,_,_,_,_,_,other⟩
      · cases still
      · exact .kept still (by rw [node]) (by rw [node])
      · exact .kept still (by rw [node]) (by rw [node])
      · exact .elected other (node.trans eq)
    | @acknowledged p args reply appendNums leader current success next matched =>
      obtain ⟨k,round,thread,rfl,found,held,rfl,replied,rfl,_⟩ := handles_sendAppendEntries runs
      have member := List.mem_of_getElem? found
      have term := (appending.alike round member).sameTerm held replied success
      have reaches := appending.reaches round member p thread held leader (current.symm.trans term)
      by_cases connected : reply.appstate = Disconnected
      · obtain ⟨answer,ran⟩ := map_fst_ok.mp done
        simp only [Raft.sendAppendEntries,if_pos connected,pure_ok] at ran
        have same : c.node round.src = rf := congrArg Prod.fst ran
        exact .kept leader (by rw [node,same]) (by rw [node,same])
      · exact .acknowledged k p round thread reply rfl found held replied rfl ⟨leader,connected,current,success⟩
          reaches.last (node ▸ next) (node ▸ matched)
    | @refused p args reply appendNums leader current failed eq =>
      obtain ⟨k,round,thread,rfl,found,held,rfl,replied,rfl,_⟩ := handles_sendAppendEntries runs
      by_cases retries : (c.node round.src).Retries reply
      · exact .refused k p round thread reply rfl found held replied rfl retries (node.trans eq)
      · obtain ⟨answer,ran⟩ := map_fst_ok.mp done
        have same := Raft.sendAppendEntries_ignored failed retries current ran
        exact .kept leader (by rw [node,same]) (by rw [node,same])
    | @snapshotSent dst req resp leader current answered eq =>
      obtain ⟨k,call,rfl,found,rfl,rfl,rfl,replied⟩ := handles_leaderSendSnapshot runs
      have waiting := (step_leaderSendSnapshot_at taken found replied).1.1
      have inside := (appending.calls call (List.mem_of_getElem? found) waiting).2
      exact .snapshotSent k call resp rfl found replied rfl leader current answered inside (node.trans eq)
  · rw [crashed] at still
    cases (crash_status mid v left).symm.trans still

theorem Matched.step (appending : c.Appending) (matched : c.Matched) (taken : c.step action = some c') :
    c'.Matched := by
  intro v still p
  have base := (appending.indexed v).base
  have last := (appending.indexed v).last
  cases leaderMove appending taken still with
  | kept leader next same =>
    rw [same]
    exact (matched v leader p).trans (appending.tenure taken leader still).2.2.last
  | elected before eq =>
    rw [eq,Raft.elected_matchIndex]
    change 0 ≤ (c.node v).getLastLogIndex
    omega
  | acknowledged k q round t reply call found held replied src takes inside next same =>
    have grown := (appending.tenure taken takes.leader still).2.2.last
    have own := matched v takes.leader p
    rw [same,Raft.acknowledge_matchIndex]
    split
    · next here =>
      subst here
      exact (max_le own inside).trans grown
    · exact own.trans grown
  | refused k q round t reply call found held replied src retries eq =>
    rw [eq]
    exact matched v retries.leader p
  | snapshotSent k call resp call found replied src leader current answered inside eq =>
    rw [eq,Raft.snapshotSent_matchIndex]
    split
    · exact inside
    · exact matched v leader p

/-- The cluster between two steps that made progress. -/
structure Tracking (c : Cluster n Cmd Snap) : Prop where
  appending : c.Appending
  matched : c.Matched
  tracked : ∀ v, (c.node v).status = .Leader → ∀ p, (c.node v).Tracked p

omit [DecidableEq Cmd] in
theorem Tracking.initial : (Cluster.initial n Cmd Snap).Tracking := by
  have out : ∀ v, ((Cluster.initial n Cmd Snap).node v).status ≠ .Leader := by
    intro v
    change (Raft.init v ({} : Persister Cmd Snap)).status ≠ .Leader
    rw [Raft.init_eq]
    exact nofun
  exact ⟨.initial,fun v leader => absurd leader (out v),fun v leader => absurd leader (out v)⟩

/-- A hint that is in order lies where `nextIndex_` should. -/
theorem Tracking.tracked_step (tracking : c.Tracking) (inOrder : c.InOrder action) (taken : c.step action = some c')
    {v : Fin n} (still : (c'.node v).status = .Leader) (p : Fin n) : (c'.node v).Tracked p := by
  have base := (tracking.appending.indexed v).base
  have last := (tracking.appending.indexed v).last
  cases leaderMove tracking.appending taken still with
  | kept leader next matched =>
    obtain ⟨above,inside⟩ := tracking.tracked v leader p
    have grown := (tracking.appending.tenure taken leader still).2.2.last
    rw [Raft.Tracked,next,matched]
    exact ⟨above,by omega⟩
  | elected before eq =>
    rw [eq,Raft.Tracked,Raft.elected_matchIndex,Raft.elected_nextIndex]
    refine ⟨?_,le_rfl⟩
    omega
  | acknowledged k q round t reply call found held replied src takes inside next matched =>
    obtain ⟨above,below⟩ := tracking.tracked v takes.leader p
    have own := tracking.matched v takes.leader q
    have grown := (tracking.appending.tenure taken takes.leader still).2.2.last
    rw [Raft.Tracked,next,matched,Raft.acknowledge_matchIndex,Raft.acknowledge_nextIndex]
    split
    · exact ⟨lt_add_one _,by omega⟩
    · exact ⟨above,by omega⟩
  | refused k q round t reply call found held replied src retries eq =>
    subst call src
    obtain ⟨above,inside⟩ := inOrder round found t held reply replied retries
    rw [eq,Raft.Tracked,Raft.retryFrom_nextIndex]
    split
    · next here => exact ⟨here ▸ above,inside⟩
    · exact tracking.tracked _ retries.leader p
  | snapshotSent k call resp named found replied src leader current answered inside eq =>
    rw [eq,Raft.Tracked,Raft.snapshotSent_matchIndex,Raft.snapshotSent_nextIndex]
    split
    · exact ⟨lt_add_one _,add_le_add_left inside 1⟩
    · exact tracking.tracked v leader p

/-- A snapshot that is in order takes nothing back. -/
theorem Tracking.advances_step (tracking : c.Tracking) (inOrder : c.InOrder action) (taken : c.step action = some c')
    {v : Fin n} (leader : (c.node v).status = .Leader) (still : (c'.node v).status = .Leader) (p : Fin n) :
    (c.node v).matchIndex.get p ≤ (c'.node v).matchIndex.get p := by
  cases leaderMove tracking.appending taken still with
  | kept _ next matched => rw [matched]
  | elected before eq => exact absurd leader before
  | acknowledged k q round t reply call found held replied src takes inside next matched =>
    rw [matched,Raft.acknowledge_matchIndex]
    split
    · next here => exact here ▸ le_max_left _ _
    · exact le_rfl
  | refused k q round t reply call found held replied src retries eq =>
    rw [eq]
    exact le_rfl
  | snapshotSent k call resp named found replied src leader current answered inside eq =>
    subst named src
    have fresh := inOrder call found resp replied leader current answered
    rw [eq,Raft.snapshotSent_matchIndex]
    split
    · next here => exact here ▸ fresh
    · exact le_rfl

theorem Tracking.progress (tracking : c.Tracking) (inOrder : c.InOrder action) (taken : c.step action = some c') :
    c.Progress c' :=
  ⟨fun _ still p => tracking.tracked_step inOrder taken still p,
    fun _ leader still _ p => tracking.advances_step inOrder taken leader still p⟩

/-- A step that leaves the leaders' arrays in order was itself in order. -/
theorem Progress.inOrder (progress : c.Progress c') (taken : c.step action = some c') : c.InOrder action := by
  cases action with
  | sendAppendEntries k p =>
    intro round found t held reply replied retries
    obtain ⟨_,rfl⟩ := step_sendAppendEntries_at taken found held replied
    rw [Raft.sendAppendEntries_retry retries] at progress
    have tracked := progress.tracked round.src
    change (Function.update c.node round.src _ round.src).status = _ →
      ∀ p, (Function.update c.node round.src _ round.src).Tracked p at tracked
    rw [Function.update_self] at tracked
    have tracked := tracked retries.leader p
    rw [Raft.Tracked,Raft.retryFrom_nextIndex,if_pos rfl] at tracked
    exact tracked
  | leaderSendSnapshot k =>
    intro call found resp replied leader current answered
    obtain ⟨_,rfl⟩ := step_leaderSendSnapshot_at taken found replied
    have sent : (c.node call.src).leaderSendSnapshot call.dst call.thread.args resp =
        (c.node call.src).snapshotSent call.dst call.thread.args.lastsnapshotincludeindex := by
      have office : ¬ ((c.node call.src).status ≠ .Leader ∨ (c.node call.src).currentTerm ≠ call.thread.args.term) := by
        simp [leader,current]
      rw [Raft.leaderSendSnapshot,if_neg office,if_neg (not_lt.mpr answered)]
      rfl
    rw [sent] at progress
    have advances := progress.advances call.src leader
    change (Function.update c.node call.src _ call.src).status = _ →
      (Function.update c.node call.src _ call.src).currentTerm = _ →
      ∀ p, _ ≤ (Function.update c.node call.src _ call.src).matchIndex.get p at advances
    rw [Function.update_self] at advances
    have advances := advances leader rfl call.dst
    rw [Raft.snapshotSent_matchIndex,if_pos rfl] at advances
    exact advances
  | _ => trivial

/-- In every run, both arrays of every leader are in order after each step, and no `matchIndex_` goes back,
exactly when the hints and snapshots it processes are in order. -/
theorem progress_iff_inOrder (actions : List (Action n Cmd Snap)) :
    Run.Each step (fun c action => ∀ c', c.step action = some c' → c.Progress c') (initial n Cmd Snap) actions ↔
      Run.Each step InOrder (initial n Cmd Snap) actions := by
  apply Run.each_iff Tracking _ _ actions .initial
  · intro c action c' tracking taken
    exact ⟨fun progress => (progress c' taken).inOrder taken,fun inOrder _ taken => tracking.progress inOrder taken⟩
  · intro c action c' tracking taken progress
    exact ⟨tracking.appending.step taken,tracking.matched.step tracking.appending taken,(progress c' taken).tracked⟩

/-- Index 2 reaches the peer in an append while the snapshot of index 1 is on its way to it. -/
def lateSnapshot : List (Action 3 Nat Unit) :=
  [.doElection 0,.requestVoteImpl 0 1,.sendRequestVote 0 1,.start 0 7,.start 0 8,.doHeartBeat 0,
    .appendEntriesimpl 0 1,.sendAppendEntries 0 1,.snapshot 0 1 (some ()),.doHeartBeat 0,.snapshotRequest 0,
    .appendEntriesimpl 0 2,.sendAppendEntries 0 2,.installSnapshotImpl 0]

theorem lateSnapshot_goes_back : ∃ c c' : Cluster 3 Nat Unit, c.Reachable ∧
    c.snapshots.map (·.thread.reply) = [some ⟨1⟩] ∧ c.step (.leaderSendSnapshot 0) = some c' ∧
    (c.node 0).status = .Leader ∧ (c'.node 0).status = .Leader ∧
    (c'.node 0).currentTerm = (c.node 0).currentTerm ∧ (c.node 0).matchIndex.get 2 = 2 ∧
    (c'.node 0).matchIndex.get 2 = 1 := by
  have runs : (Run.run step (initial 3 Nat Unit) lateSnapshot).any (fun c =>
      c.snapshots.map (·.thread.reply) = [some ⟨1⟩] ∧ (c.node 0).status = .Leader ∧
        (c.node 0).matchIndex.get 2 = 2 ∧ (c.step (.leaderSendSnapshot 0)).any fun c' =>
          (c'.node 0).status = .Leader ∧ (c'.node 0).currentTerm = (c.node 0).currentTerm ∧
            (c'.node 0).matchIndex.get 2 = 1) = true := by decide +kernel
  obtain ⟨c,ran,rest⟩ := (Option.any_eq_true ..).mp runs
  obtain ⟨replied,leader,before,step⟩ := of_decide_eq_true rest
  obtain ⟨c',taken,after⟩ := (Option.any_eq_true ..).mp step
  obtain ⟨still,term,moved⟩ := of_decide_eq_true after
  exact ⟨c,c',Run.reach_of_run lateSnapshot ran,replied,taken,leader,still,term,before,moved⟩

end Cluster
end KvStorage
