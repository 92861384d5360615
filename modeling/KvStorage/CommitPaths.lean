import KvStorage.LeaderProgress
import KvStorage.LogTerms
import KvStorage.LogRange

/-! The two ways to commit: the counter of one heartbeat round, and the scan over `matchIndex_`. The
scan finds an entry that no round committed when a majority holds it by way of several rounds. -/
namespace KvStorage
open Exit

namespace Raft

variable {rf rf' : Raft n Cmd Snap}

/-- The leader and the peers it knows to hold index `N`. -/
def replicas (rf : Raft n Cmd Snap) (N : Int) : Nat :=
  1 + (rf.otherPeers.filter fun j => rf.matchIndex.get j ≥ N).length

/-- No entry of the current term above `commitIndex_` is on a majority. -/
def Settled (rf : Raft n Cmd Snap) : Prop :=
  ∀ N, rf.commitIndex < N → rf.getLogTermFromLogIndex N = .ok rf.currentTerm → (rf.replicas N : Int) < rf.majority

/-! ### The scan -/

theorem commitScan_settled {logIndex : Int} {rounds : Nat}
    (few : ∀ N, logIndex - rounds < N → N ≤ logIndex → rf.getLogTermFromLogIndex N = .ok rf.currentTerm →
      (rf.replicas N : Int) < rf.majority) (done : rf.commitScan logIndex rounds = .ok rf') : rf' = rf := by
  induction rounds generalizing logIndex with
  | zero => exact (pure_ok.mp done).symm
  | succ rounds ih =>
    simp only [commitScan,bind_ok] at done
    obtain ⟨term,found,done⟩ := done
    split at done
    · next enough =>
      obtain ⟨rfl,most⟩ := enough
      exact absurd (few logIndex (by omega) le_rfl found) (not_lt.mpr most)
    · exact ih (fun N above below => few N (by omega) (by omega)) done

/-- The scan stops at the first index that is on a majority, and commits it. -/
theorem commitScan_raises (numbered : rf.Numbered) {N logIndex : Int} {rounds : Nat}
    (found : rf.getLogTermFromLogIndex N = .ok rf.currentTerm) (most : rf.majority ≤ rf.replicas N)
    (above : logIndex - rounds < N) (below : N ≤ logIndex) (last : logIndex ≤ rf.getLastLogIndex) :
    ∃ M, N ≤ M ∧ rf.commitScan logIndex rounds = .ok { rf with commitIndex := M } := by
  induction rounds generalizing logIndex with
  | zero => omega
  | succ rounds ih =>
    have base := (getLogTermFromLogIndex_ok.mp found).1
    obtain ⟨term,there⟩ := getLogTermFromLogIndex_inside numbered (i := logIndex) (by omega) last
    by_cases enough : term = rf.currentTerm ∧ ((1 + (rf.otherPeers.filter fun j =>
        rf.matchIndex[j] ≥ logIndex).length : Nat) : Int) ≥ rf.majority
    · refine ⟨logIndex,below,?_⟩
      simp only [commitScan,there]
      exact if_pos enough
    · have lower : N ≤ logIndex - 1 := by
        by_contra here
        obtain rfl : N = logIndex := by omega
        exact enough ⟨Except.ok.inj (there.symm.trans found),most⟩
      obtain ⟨M,reached,rest⟩ := ih (by omega) lower (by omega)
      refine ⟨M,reached,?_⟩
      simp only [commitScan,there]
      exact (if_neg enough).trans rest

theorem settled_iff_unchanged (indexed : rf.Indexed) :
    rf.Settled ↔ ∀ rf', rf.leaderUpdateCommitIndex = .ok rf' → rf'.commitIndex = rf.commitIndex := by
  have committed := indexed.committed
  have length : rf.getLastLogIndex - (rf.getLastLogIndex - rf.commitIndex).toNat = rf.commitIndex := by omega
  constructor
  · intro settled rf' done
    have same := commitScan_settled (fun N above _ found => settled N (length ▸ above) found) done
    rw [same]
  · intro unchanged N above found
    by_contra most
    have below := (getLogTermFromLogIndex_ok.mp found).2.1
    obtain ⟨M,reached,done⟩ := commitScan_raises indexed.memory.numbered found (not_lt.mp most)
      (length.symm ▸ above) below le_rfl
    have same : M = rf.commitIndex := unchanged _ done
    omega

/-- The scan would leave the commit index where it is. -/
structure PathsAgree (rf : Raft n Cmd Snap) : Prop where
  unchanged : ∀ rf', rf.leaderUpdateCommitIndex = .ok rf' → rf'.commitIndex = rf.commitIndex
  settled : rf.Settled

theorem pathsAgree_iff (indexed : rf.Indexed) : rf.PathsAgree ↔ rf.Settled :=
  ⟨PathsAgree.settled,fun settled => ⟨(settled_iff_unchanged indexed).mp settled,settled⟩⟩

/-! ### One reply -/

theorem replicas_beyond {N : Int} (beyond : ∀ j, rf.matchIndex.get j < N) : rf.replicas N = 1 := by
  have none : (rf.otherPeers.filter fun j => rf.matchIndex.get j ≥ N) = [] := by
    rw [List.filter_eq_nil_iff]
    intro j _ held
    exact absurd (of_decide_eq_true held) (not_le.mpr (beyond j))
  rw [replicas,none]
  rfl

theorem length_filter_gain (one two : Fin n → Bool) {items : List (Fin n)} (nodup : items.Nodup) {p : Fin n}
    (member : p ∈ items) (before : one p = false) (after : two p = true) (other : ∀ j, j ≠ p → two j = one j) :
    (items.filter two).length = (items.filter one).length + 1 := by
  induction items with
  | nil => cases member
  | cons j rest ih =>
    obtain ⟨absent,nodup⟩ := List.nodup_cons.mp nodup
    rcases List.mem_cons.mp member with rfl | inside
    · have same : rest.filter two = rest.filter one :=
        List.filter_congr fun q there => other q fun eq => absent (eq ▸ there)
      rw [List.filter_cons_of_pos after,List.filter_cons_of_neg (by simp [before]),same]
      rfl
    · have apart : j ≠ p := fun eq => absent (eq ▸ inside)
      have rest := ih nodup inside
      rw [List.filter_cons,List.filter_cons,other j apart]
      split
      · simp only [List.length_cons]
        omega
      · exact rest

theorem replicas_acknowledge {p : Fin n} (peer : p ≠ rf.raftId) (args : AppendEntriesArgs Cmd) (N : Int) :
    (rf.acknowledge p args).replicas N =
      if rf.matchIndex.get p < N ∧ N ≤ args.lastIndex then rf.replicas N + 1 else rf.replicas N := by
  have member : p ∈ rf.otherPeers := by simp [otherPeers,peer]
  have nodup : rf.otherPeers.Nodup := (List.nodup_finRange n).filter _
  have moved := fun j => acknowledge_matchIndex rf p j args
  change 1 + (rf.otherPeers.filter fun j => (rf.acknowledge p args).matchIndex.get j ≥ N).length = _
  split
  · next gained =>
    rw [length_filter_gain (fun j => decide (rf.matchIndex.get j ≥ N)) _ nodup member,replicas]
    · omega
    · exact decide_eq_false (not_le.mpr gained.1)
    · rw [moved,if_pos rfl]
      exact decide_eq_true (gained.2.trans (le_max_right ..))
    · intro j other
      rw [moved,if_neg other]
  · next same =>
    rw [replicas]
    congr 2
    refine List.filter_congr fun j _ => ?_
    rw [moved]
    split
    · next here =>
      subst here
      refine decide_eq_decide.mpr ⟨fun held => ?_,fun held => le_max_of_le_left held⟩
      rcases le_max_iff.mp held with old | new
      · exact old
      · by_contra below
        exact same ⟨not_le.mp below,new⟩
    · rfl

/-- What `sendAppendEntries` makes of a success reply. -/
def counted (rf : Raft n Cmd Snap) (p : Fin n) (args : AppendEntriesArgs Cmd) (appendNums : Int) : Raft n Cmd Snap :=
  if rf.majority ≤ appendNums + 1 then (rf.acknowledge p args).commitRound args else rf.acknowledge p args

/-- An index that `p` brings to a majority is committed by the counter: the reply completes its round
too, and the round ends with an entry of the current term. -/
def Completes (rf : Raft n Cmd Snap) (p : Fin n) (args : AppendEntriesArgs Cmd) (appendNums : Int) : Prop :=
  ∀ N, rf.commitIndex < N → rf.matchIndex.get p < N → N ≤ args.lastIndex →
    rf.getLogTermFromLogIndex N = .ok rf.currentTerm → rf.majority ≤ rf.replicas N + 1 →
    rf.majority ≤ appendNums + 1 ∧ args.lastLogTerm? = some rf.currentTerm

theorem counted_fields (rf : Raft n Cmd Snap) (p : Fin n) (args : AppendEntriesArgs Cmd) (appendNums : Int) :
    (rf.counted p args appendNums).commitIndex =
        (if rf.majority ≤ appendNums + 1 ∧ args.lastLogTerm? = some rf.currentTerm then
          max rf.commitIndex args.lastIndex else rf.commitIndex) ∧
      (rf.counted p args appendNums).getLogTermFromLogIndex = rf.getLogTermFromLogIndex ∧
      (rf.counted p args appendNums).currentTerm = rf.currentTerm ∧
      (rf.counted p args appendNums).replicas = (rf.acknowledge p args).replicas := by
  unfold counted
  by_cases enough : rf.majority ≤ appendNums + 1
  · rw [if_pos enough,commitRound]
    by_cases current : args.lastLogTerm? = some rf.currentTerm
    · rw [if_pos (show args.lastLogTerm? = some (rf.acknowledge p args).currentTerm from current),if_pos ⟨enough,current⟩]
      exact ⟨rfl,rfl,rfl,rfl⟩
    · rw [if_neg (show ¬ args.lastLogTerm? = some (rf.acknowledge p args).currentTerm from current),
        if_neg fun both => current both.2]
      exact ⟨rfl,rfl,rfl,rfl⟩
  · rw [if_neg enough,if_neg fun both => enough both.1]
    exact ⟨rfl,rfl,rfl,rfl⟩

/-- Where nothing was left on a majority before, nothing is left after the reply exactly if it completes
its round with every index it brings to a majority. -/
theorem settled_counted_iff (settled : rf.Settled) {p : Fin n} (peer : p ≠ rf.raftId) (args : AppendEntriesArgs Cmd)
    (appendNums : Int) : (rf.counted p args appendNums).Settled ↔ rf.Completes p args appendNums := by
  obtain ⟨commit,terms,term,replicas⟩ := counted_fields rf p args appendNums
  have majority : (rf.counted p args appendNums).majority = rf.majority := rfl
  constructor
  · intro after N above gained reached found most
    by_contra missed
    rw [if_neg missed] at commit
    have few := after N (commit ▸ above) (by rw [terms,term]; exact found)
    rw [replicas,replicas_acknowledge peer,if_pos ⟨gained,reached⟩,majority] at few
    omega
  · intro completes N above found
    rw [terms,term] at found
    rw [replicas,replicas_acknowledge peer,majority]
    have lower : rf.commitIndex < N := by
      rw [commit] at above
      split at above <;> omega
    split
    · next gained =>
      by_contra most
      have both := completes N lower gained.1 gained.2 found (by omega)
      rw [commit,if_pos both] at above
      omega
    · exact settled N lower found

theorem replicas_le (raftId : rf'.raftId = rf.raftId) {N : Int}
    (back : ∀ j, N ≤ rf'.matchIndex.get j → N ≤ rf.matchIndex.get j) : rf'.replicas N ≤ rf.replicas N := by
  have peers : rf'.otherPeers = rf.otherPeers := by rw [otherPeers,otherPeers,raftId]
  have sub := List.monotone_filter_right rf.otherPeers fun j (held : decide (rf'.matchIndex.get j ≥ N) = true) =>
    decide_eq_true (back j (of_decide_eq_true held))
  have length := sub.length_le
  rw [replicas,replicas,peers]
  exact Nat.add_le_add_left length 1

/-- A leader that gains no replica of an old entry stays settled: its new entries are its own alone. -/
theorem Settled.carried (settled : rf.Settled) (tenure : Tenure rf rf') (advances : rf.Advances rf') (older : rf'.Older)
    (term : rf'.currentTerm = rf.currentTerm) (raftId : rf'.raftId = rf.raftId) (two : 2 ≤ n)
    (few : ∀ j, rf.matchIndex.get j ≤ rf.getLastLogIndex)
    (back : ∀ N, rf'.lastSnapshotIncludeIndex < N → ∀ j, N ≤ rf'.matchIndex.get j → N ≤ rf.matchIndex.get j) :
    rf'.Settled := by
  intro N above found
  have commit := advances.commit
  obtain ⟨_,_,⟨rfl,same⟩ | ⟨entry,there,same⟩⟩ := getLogTermFromLogIndex_ok.mp found
  · exact absurd (older above) (not_lt.mpr same.le)
  · have inside := (entryAt_ok.mp there).1
    have fewer := replicas_le raftId (back N inside)
    have most : rf'.majority = rf.majority := rfl
    rcases tenure.fresh there with old | fresh
    · obtain ⟨base,last,_⟩ := entryAt_ok.mp old
      have before := settled N (by omega) (getLogTermFromLogIndex_ok.mpr ⟨base.le,last,.inr ⟨entry,old,same.trans term⟩⟩)
      omega
    · have alone : rf.replicas N = 1 := replicas_beyond fun j => (few j).trans_lt fresh
      have majority : rf.majority = (n / 2 + 1 : Nat) := rfl
      omega

theorem settled_elected (indexed : rf.Indexed) (two : 2 ≤ n) : rf.elected.Settled := by
  intro N above _
  have uncommitted := indexed.uncommitted
  have alone : rf.elected.replicas N = 1 := by
    refine replicas_beyond fun j => ?_
    rw [elected_matchIndex]
    change rf.commitIndex < N at above
    omega
  have majority : rf.elected.majority = (n / 2 + 1 : Nat) := rfl
  omega

theorem sendAppendEntries_takes {p : Fin n} {args : AppendEntriesArgs Cmd} {reply : AppendEntriesReply}
    {appendNums successes : Int} (takes : rf.Takes reply)
    (done : rf.sendAppendEntries p args reply appendNums = .ok (rf',successes)) :
    rf' = rf.counted p args appendNums := by
  have taken : ¬ ¬ reply.success = true := not_not.mpr takes.success
  simp only [sendAppendEntries,if_neg takes.connected,takes.current,gt_iff_lt,lt_irrefl,if_false,ne_eq,takes.leader,
    not_true_eq_false,if_neg taken,bind_ok,myAssert_ok] at done
  obtain ⟨_,_,_,_,done⟩ := done
  unfold counted
  split at done
  · next enough =>
    simp only [bind_ok,myAssert_ok,pure_ok,Prod.mk.injEq] at done
    obtain ⟨_,_,rfl,_⟩ := done
    exact (if_pos enough).symm
  · next fewer =>
    simp only [pure_ok,Prod.mk.injEq] at done
    rw [← done.1]
    exact (if_neg fewer).symm

end Raft

namespace Cluster

variable {c c' : Cluster n Cmd Snap} [DecidableEq Cmd] {action : Action n Cmd Snap}

/-- Both ways to commit agree right after a leader took a success reply. -/
def AgreesAfter (c : Cluster n Cmd Snap) : Action n Cmd Snap → Prop
  | .sendAppendEntries k p => ∀ round ∈ c.heartbeats[k]?, ∀ t ∈ round.thread p, ∀ reply ∈ t.reply,
    (c.node round.src).Takes reply → ∀ c', c.step (.sendAppendEntries k p) = some c' → (c'.node round.src).PathsAgree
  | _ => True

omit [DecidableEq Cmd] in
/-- A success that brings an index to a majority completes the majority of its own round. -/
def InOneRound (c : Cluster n Cmd Snap) : Action n Cmd Snap → Prop
  | .sendAppendEntries k p => ∀ round ∈ c.heartbeats[k]?, ∀ t ∈ round.thread p, ∀ reply ∈ t.reply,
    (c.node round.src).Takes reply → (c.node round.src).Completes p t.args round.counter
  | _ => True

/-- The cluster between two steps after which the paths agreed. -/
structure Committing (c : Cluster n Cmd Snap) : Prop where
  appending : c.Appending
  matched : c.Matched
  dated : c.Dated
  settled : 2 ≤ n → ∀ v, (c.node v).status = .Leader → (c.node v).Settled

omit [DecidableEq Cmd] in
theorem Committing.initial : (Cluster.initial n Cmd Snap).Committing := by
  have tracking : (Cluster.initial n Cmd Snap).Tracking := .initial
  refine ⟨tracking.appending,tracking.matched,.initial,fun _ v leader => ?_⟩
  have out : (Raft.init v ({} : Persister Cmd Snap)).status = .Follower := by rw [Raft.init_eq]
  cases out.symm.trans leader

/-- The section that takes a success reply ends normally. -/
theorem Committing.counted (committing : c.Committing) {k : Nat} {p : Fin n}
    {round : Round n (AppendEntriesArgs Cmd) AppendEntriesReply} {t : Thread (AppendEntriesArgs Cmd) AppendEntriesReply}
    {reply : AppendEntriesReply} (taken : c.step (.sendAppendEntries k p) = some c')
    (found : c.heartbeats[k]? = some round) (held : round.thread p = some t) (replied : t.reply = some reply)
    (takes : (c.node round.src).Takes reply) :
    c'.node round.src = (c.node round.src).counted p t.args round.counter := by
  have member := List.mem_of_getElem? found
  have term := (committing.appending.alike round member).sameTerm held replied takes.success
  have reaches := committing.appending.reaches round member p t held takes.leader (takes.current.symm.trans term)
  obtain ⟨_,rfl⟩ := step_sendAppendEntries_at taken found held replied
  cases done : (c.node round.src).sendAppendEntries p t.args reply round.counter with
  | error left =>
    have inside : (c.node round.src).matchIndex.get p ≤ (c.node round.src).getLastLogIndex :=
      committing.matched round.src takes.leader p
    exact absurd done (Raft.sendAppendEntries_inside (committing.appending.indexed _) fun _ => ⟨inside,reaches.last⟩)
  | ok result =>
    obtain ⟨rf,successes⟩ := result
    change Function.update c.node round.src rf round.src = _
    rw [Function.update_self]
    exact Raft.sendAppendEntries_takes takes done

theorem Committing.step (committing : c.Committing) (taken : c.step action = some c')
    (agrees : c.AgreesAfter action) : c'.Committing := by
  obtain ⟨appending,matched,dated,settled⟩ := committing
  have later := appending.step taken
  have dated' := dated.step appending taken
  refine ⟨later,matched.step appending taken,dated',fun two v still => ?_⟩
  have raftId : (c'.node v).raftId = (c.node v).raftId :=
    (later.balanced.raftId v).trans (appending.balanced.raftId v).symm
  -- a leader that stays in office keeps what it has settled unless a peer gains entries
  have carried (leader : (c.node v).status = .Leader) (back : ∀ N, (c'.node v).lastSnapshotIncludeIndex < N →
      ∀ j, N ≤ (c'.node v).matchIndex.get j → N ≤ (c.node v).matchIndex.get j) : (c'.node v).Settled := by
    obtain ⟨term,tenure,advances⟩ := appending.tenure taken leader still
    exact (settled two v leader).carried tenure advances (dated'.office v still) term raftId two (matched v leader) back
  cases leaderMove appending taken still with
  | kept leader next same =>
    refine carried leader fun N above j held => ?_
    rwa [same] at held
  | elected before eq =>
    rw [eq]
    exact Raft.settled_elected (appending.indexed v) two
  | acknowledged k p round t reply call found held replied src takes inside next same =>
    subst call src
    exact (agrees round found t held reply replied takes c' taken).settled
  | refused k p round t reply call found held replied src retries eq =>
    refine carried retries.leader fun N above j held => ?_
    rwa [eq] at held
  | snapshotSent k call resp named found replied src leader current answered inside eq =>
    subst named src
    refine carried leader fun N above j held => ?_
    have waiting := (step_leaderSendSnapshot_at taken found replied).1.1
    have sent := dated.sent call (List.mem_of_getElem? found) waiting
    rw [eq] at above held
    change (c.node call.src).lastSnapshotIncludeIndex < N at above
    rw [Raft.snapshotSent_matchIndex] at held
    split at held
    · omega
    · exact held

/-- In every run, the scan over `matchIndex_` agrees with the counters after each success reply exactly
when no reply brings an index to a majority across several rounds. -/
theorem paths_agree_iff (actions : List (Action n Cmd Snap)) :
    Run.Each step AgreesAfter (initial n Cmd Snap) actions ↔
      Run.Each step InOneRound (initial n Cmd Snap) actions := by
  apply Run.each_iff Committing _ _ actions .initial
  · intro c action c' committing taken
    cases action with
    | sendAppendEntries k p =>
      have same : ∀ round ∈ c.heartbeats[k]?, ∀ t ∈ round.thread p, ∀ reply ∈ t.reply, (c.node round.src).Takes reply →
          ((c'.node round.src).PathsAgree ↔ (c.node round.src).Completes p t.args round.counter) := by
        intro round found t held reply replied takes
        have peer := (committing.appending.alike round (List.mem_of_getElem? found)).peer held
        have two : 2 ≤ n := by
          have apart := Fin.val_ne_of_ne peer
          omega
        rw [Raft.pathsAgree_iff (committing.appending.indexed_step taken _),
          committing.counted taken found held replied takes]
        apply Raft.settled_counted_iff (committing.settled two _ takes.leader)
        rwa [committing.appending.balanced.raftId]
      constructor
      · intro agrees round found t held reply replied takes
        exact (same round found t held reply replied takes).mp (agrees round found t held reply replied takes c' taken)
      · intro one round found t held reply replied takes next ran
        obtain rfl := Option.some.inj (taken.symm.trans ran)
        exact (same round found t held reply replied takes).mpr (one round found t held reply replied takes)
    | _ => exact Iff.rfl
  · intro c action c' committing taken agrees
    exact committing.step taken agrees

/-- Index 1 is taken by peer 1 in one round and by peer 2 in the next: with the leader, three of five. -/
def twoRounds : List (Action 5 Nat Unit) :=
  [.doElection 0,.requestVoteImpl 0 1,.sendRequestVote 0 1,.requestVoteImpl 0 2,.sendRequestVote 0 2,.start 0 7,
    .doHeartBeat 0,.appendEntriesimpl 0 1,.sendAppendEntries 0 1,.doHeartBeat 0,.appendEntriesimpl 1 2]

theorem twoRounds_disagree : ∃ c c' : Cluster 5 Nat Unit, c.Reachable ∧
    c.step (.sendAppendEntries 1 2) = some c' ∧ ¬ c.AgreesAfter (.sendAppendEntries 1 2) ∧
    (c'.node 0).commitIndex = 0 ∧
    (c'.node 0).leaderUpdateCommitIndex.toOption.map (·.commitIndex) = some 1 := by
  have runs : (Run.run step (initial 5 Nat Unit) twoRounds).any (fun c =>
      (c.heartbeats[1]?.any fun round => (round.thread 2).any fun t => t.reply.any fun reply =>
        round.src = 0 ∧ (c.node 0).status = .Leader ∧ reply.appstate ≠ Disconnected ∧
          reply.term = (c.node 0).currentTerm ∧ reply.success = true) = true ∧
      (c.step (.sendAppendEntries 1 2)).any fun c' => (c'.node 0).commitIndex = 0 ∧
        (c'.node 0).leaderUpdateCommitIndex.toOption.map (·.commitIndex) = some 1) = true := by decide +kernel
  obtain ⟨c,ran,rest⟩ := (Option.any_eq_true ..).mp runs
  obtain ⟨answered,moved⟩ := of_decide_eq_true rest
  obtain ⟨round,found,asked⟩ := (Option.any_eq_true ..).mp answered
  obtain ⟨t,held,replies⟩ := (Option.any_eq_true ..).mp asked
  obtain ⟨reply,replied,takes⟩ := (Option.any_eq_true ..).mp replies
  obtain ⟨src,leader,connected,current,success⟩ := of_decide_eq_true takes
  obtain ⟨c',taken,after⟩ := (Option.any_eq_true ..).mp moved
  obtain ⟨uncommitted,scanned⟩ := of_decide_eq_true after
  refine ⟨c,c',Run.reach_of_run twoRounds ran,taken,fun agrees => ?_,uncommitted,scanned⟩
  have paths := agrees round found t held reply replied (src ▸ ⟨leader,connected,current,success⟩) c' taken
  rw [src] at paths
  cases scan : (c'.node 0).leaderUpdateCommitIndex with
  | error left => simp [scan,Except.toOption] at scanned
  | ok rf =>
    have same := paths.unchanged rf scan
    simp [scan,Except.toOption,same,uncommitted] at scanned

end Cluster
end KvStorage
