import KvStorage.Cluster
import KvStorage.LogIndexes
import KvStorage.LeaderIndexes

/-! One node from its start on, with the args its heartbeat rounds built. Every call to
`getSlicesIndexFromLogIndex`, `getLogTermFromLogIndex` and `matchLog` is in range, and where
no restart finds a compacted log, what is applied is committed. -/
namespace KvStorage
open Exit

/-- A node and the args built since its process started. -/
structure Sender (n : Nat) (Cmd Snap : Type) where
  node : Raft n Cmd Snap
  built : List (Fin n × AppendEntriesArgs Cmd)

namespace Raft

variable {rf rf' : Raft n Cmd Snap} {left : Persister Cmd Snap}

/-- The args of the threads that `doHeartBeat` starts. -/
def builds (rf : Raft n Cmd Snap) : NodeAction n Cmd Snap → List (Fin n × AppendEntriesArgs Cmd)
  | .doHeartBeat => rf.doHeartBeat.1.filterMap Spawned.append?
  | _ => []

/-! ### Calls inside the range -/

theorem getSlicesIndexFromLogIndex_inside {i : Int} (above : rf.lastSnapshotIncludeIndex < i)
    (below : i ≤ rf.getLastLogIndex) : rf.getSlicesIndexFromLogIndex i ≠ .error left := by
  have slices := getSlicesIndexFromLogIndex_ok (k := (i - rf.lastSnapshotIncludeIndex - 1).toNat) |>.mpr
    ⟨above,below,by omega⟩
  rw [slices]
  exact nofun

theorem heartBeatPeer_inside (numbered : rf.Numbered) {peer : Fin n}
    (low : 1 ≤ rf.nextIndex.get peer) (high : rf.nextIndex.get peer ≤ rf.getLastLogIndex + 1) :
    rf.heartBeatPeer peer ≠ .error left := by
  intro exit
  have last := getLastLogIndex_eq numbered
  simp only [heartBeatPeer,bind_error,myAssert_error] at exit
  rcases exit with ⟨few,_⟩ | ⟨_,_,exit⟩
  · exact few low
  split at exit
  · exact pure_error exit
  next ahead =>
  change ¬ rf.nextIndex.get peer ≤ _ at ahead
  simp only [bind_error,myAssert_error,pure_error,and_false,exists_false,or_false] at exit
  rcases exit with exit | ⟨⟨preIndex,preTerm⟩,previous,exit⟩
  · simp only [getPrevLogInfo] at exit
    split at exit
    · exact pure_error exit
    next inside =>
    change ¬ rf.nextIndex.get peer = _ at inside
    simp only [bind_error,pure_error,and_false,exists_false,or_false] at exit
    obtain ⟨entry,found,_⟩ := entryAt_inside numbered (i := rf.nextIndex.get peer - 1) (by omega) (by omega)
    cases found.symm.trans exit
  obtain ⟨before,_⟩ := getPrevLogInfo_ok previous
  rcases exit with exit | ⟨entries,chosen,short,_⟩
  · simp only [entriesAfter] at exit
    split at exit
    · simp only [bind_error,pure_error,and_false,exists_false,or_false] at exit
      exact getSlicesIndexFromLogIndex_inside (by omega) (by omega) exit
    · exact pure_error exit
  · refine short ?_
    rw [entriesAfter_ok chosen]
    simp only [AppendEntriesArgs.lastIndex,List.length_drop]
    omega

theorem heartBeatLoop_inside {peers : List (Fin n)}
    (each : ∀ peer left, rf.heartBeatPeer peer ≠ .error left) : (rf.heartBeatLoop peers).2 = none := by
  induction peers with
  | nil => rfl
  | cons peer rest ih =>
    simp only [heartBeatLoop]
    split
    · next left failed => exact absurd failed (each peer left)
    · exact ih

theorem snapshot_inside (numbered : rf.Numbered) (committed : rf.commitIndex ≤ rf.getLastLogIndex)
    {index : Int} {data : Option Snap} : rf.snapshot index data ≠ .error left := by
  intro exit
  simp only [snapshot] at exit
  split at exit
  · exact pure_error exit
  next accepted =>
  obtain ⟨term,found⟩ := getLogTermFromLogIndex_inside numbered (i := index) (by omega) (by omega)
  simp only [bind_error,myAssert_error,pure_error,and_false,exists_false,or_false,found,
    getSlicesIndexFromLogIndex_ok] at exit
  rcases exit with exit | ⟨_,same,exit | ⟨k,⟨above,_,eq⟩,short,_⟩⟩
  · cases exit
  · exact getSlicesIndexFromLogIndex_inside (by omega) (by omega) exit
  · obtain rfl := Except.ok.inj same
    have shift : k + 1 = (index - rf.lastSnapshotIncludeIndex).toNat := by omega
    rw [shift] at short
    exact short ((add_comm _ _).trans (getLastLogIndex_eq (compacted_numbered numbered above term)).symm)

theorem applyLoop_inside {rounds : Nat} (numbered : rf.Numbered)
    (compacted : rf.lastSnapshotIncludeIndex ≤ rf.lastApplied)
    (bounded : ∀ i < rounds, rf.lastApplied + 1 + i ≤ rf.getLastLogIndex) :
    rf.applyLoop rounds ≠ .error left := by
  intro exit
  induction rounds generalizing rf with
  | zero => exact pure_error exit
  | succ rounds ih =>
    simp only [applyLoop,bind_error,myAssert_error,pure_error,and_false,exists_false,or_false] at exit
    let next : Raft n Cmd Snap := { rf with lastApplied := rf.lastApplied + 1 }
    have numbered' : next.Numbered := numbered
    have above : next.lastSnapshotIncludeIndex < rf.lastApplied + 1 := by
      change rf.lastSnapshotIncludeIndex < _
      omega
    have below : rf.lastApplied + 1 ≤ next.getLastLogIndex := by
      have := bounded 0 (by omega)
      change _ ≤ rf.getLastLogIndex
      omega
    obtain ⟨entry,found,index⟩ := entryAt_inside numbered' above below
    rcases exit with exit | ⟨other,there,⟨wrong,_⟩ | ⟨_,_,later⟩⟩
    · cases found.symm.trans exit
    · obtain rfl := Except.ok.inj (found.symm.trans there)
      exact wrong index
    · refine ih numbered' (le_of_lt above) (fun i few => ?_) later
      have := bounded (i + 1) (by omega)
      change rf.lastApplied + 1 + 1 + i ≤ rf.getLastLogIndex
      omega

theorem getApplyLogs_inside (numbered : rf.Numbered) (compacted : rf.lastSnapshotIncludeIndex ≤ rf.lastApplied)
    (committed : rf.commitIndex ≤ rf.getLastLogIndex) : rf.getApplyLogs ≠ .error left := by
  intro exit
  simp only [getApplyLogs,bind_error,myAssert_error] at exit
  rcases exit with ⟨beyond,_⟩ | ⟨_,_,loop⟩
  · exact beyond committed
  · exact applyLoop_inside numbered compacted (fun i few => by omega) loop

theorem sendAppendEntries_inside (indexed : rf.Indexed) {peerId : Fin n} {args : AppendEntriesArgs Cmd}
    {reply : AppendEntriesReply} {appendNums : Int}
    (reached : reply.success = true →
      rf.matchIndex.get peerId ≤ rf.getLastLogIndex ∧ args.lastIndex ≤ rf.getLastLogIndex) :
    rf.sendAppendEntries peerId args reply appendNums ≠ .error left := by
  intro exit
  have committed := indexed.committed
  simp only [sendAppendEntries] at exit
  split at exit
  · exact pure_error exit
  split at exit
  · exact pure_error exit
  split at exit
  · exact pure_error exit
  split at exit
  · exact pure_error exit
  simp only [bind_error,myAssert_error] at exit
  rcases exit with ⟨other,_⟩ | ⟨_,_,exit⟩
  · exact other (by omega)
  split at exit
  · split at exit <;> exact pure_error exit
  next succeeded =>
  obtain ⟨matched,inside⟩ := reached (by simpa using succeeded)
  simp only [bind_error,myAssert_error] at exit
  rcases exit with ⟨beyond,_⟩ | ⟨_,_,exit⟩
  · refine beyond ?_
    change (rf.acknowledge peerId args).nextIndex.get peerId ≤ rf.getLastLogIndex + 1
    rw [acknowledge_nextIndex,if_pos rfl]
    omega
  split at exit
  · simp only [bind_error,myAssert_error,pure_error,and_false,exists_false,or_false] at exit
    refine exit.1 ?_
    change Raft.commitIndex (if _ then _ else _) ≤ rf.getLastLogIndex
    split
    · exact max_le committed inside
    · exact committed
  · exact pure_error exit

/-! ### The one assertion about contents -/

/-- The loop of `appendEntriesimpl` reaches an entry that the log holds at the same index and of
the same term, with another command. -/
structure Contradicts [DecidableEq Cmd] (rf : Raft n Cmd Snap) (args : AppendEntriesArgs Cmd) : Prop where
  matched : (rf.follow args.term).matchLog args.prevlogindex args.prevlogterm = .ok true
  stopped : ∃ before log after reached mine, args.entries = before ++ log :: after ∧
    (rf.follow args.term).mergeEntries before = .ok reached ∧
    reached.entryAt log.logindex = .ok mine ∧ mine.logterm = log.logterm ∧ mine.command ≠ log.command

variable [DecidableEq Cmd]

theorem mergeEntry_inside (numbered : rf.Numbered) {log : LogEntry Cmd}
    (above : rf.lastSnapshotIncludeIndex < log.logindex) (exit : rf.mergeEntry log = .error left) :
    ∃ mine, rf.entryAt log.logindex = .ok mine ∧ mine.logterm = log.logterm ∧
      mine.command ≠ log.command := by
  simp only [mergeEntry] at exit
  split at exit
  · exact absurd exit pure_error
  next within =>
  obtain ⟨mine,found,_⟩ := entryAt_inside numbered above (by omega)
  obtain ⟨k,slices,there⟩ := bind_ok.mp found
  simp only [bind_error,myAssert_error,slices] at exit
  rcases exit with exit | ⟨_,same,exit | ⟨mine',there',⟨clash,_⟩ | ⟨_,_,exit⟩⟩⟩
  · cases exit
  · obtain rfl := Except.ok.inj same
    cases there.symm.trans exit
  · obtain rfl := Except.ok.inj same
    obtain rfl := Except.ok.inj (there.symm.trans there')
    exact ⟨mine,found,not_not.mp clash⟩
  · split at exit <;> exact absurd exit pure_error

theorem mergeEntries_inside (indexed : rf.Indexed) {first : Int} {entries : List (LogEntry Cmd)}
    (numbered : Consecutive first entries) (above : rf.lastSnapshotIncludeIndex < first)
    (close : first ≤ rf.getLastLogIndex + 1) (exit : rf.mergeEntries entries = .error left) :
    ∃ before log after reached mine, entries = before ++ log :: after ∧
      rf.mergeEntries before = .ok reached ∧ reached.entryAt log.logindex = .ok mine ∧
      mine.logterm = log.logterm ∧ mine.command ≠ log.command := by
  induction entries generalizing rf first with
  | nil => exact absurd exit pure_error
  | cons log rest ih =>
    have index : log.logindex = first := by simpa using numbered 0 log rfl
    simp only [mergeEntries,bind_error] at exit
    rcases exit with exit | ⟨middle,merged,later⟩
    · obtain ⟨mine,found,clash⟩ := mergeEntry_inside indexed.memory.numbered (by omega) exit
      exact ⟨[],log,rest,rf,mine,rfl,rfl,found,clash⟩
    · have step := indexStep_mergeEntry (fun _ => index ▸ close) merged
      have reached := mergeEntry_reaches indexed (index ▸ close) merged
      have base := congrArg Raft.lastSnapshotIncludeIndex (mergeEntry_frame merged)
      obtain ⟨before,other,after,end',mine,rfl,most,clash⟩ :=
        ih (step.indexed indexed) numbered.tail (by rw [base]; simp only; omega) (by omega) later
      exact ⟨log :: before,other,after,end',mine,rfl,by simp only [mergeEntries,merged]; exact most,clash⟩

omit [DecidableEq Cmd] in
theorem conflictHint_inside (numbered : rf.Numbered) {prevlogindex default : Int} {rounds : Nat}
    (above : rf.lastSnapshotIncludeIndex ≤ prevlogindex) (below : prevlogindex ≤ rf.getLastLogIndex)
    (bounded : rf.lastSnapshotIncludeIndex + rounds ≤ rf.getLastLogIndex + 1) :
    rf.conflictHint prevlogindex default rounds ≠ .error left := by
  intro exit
  obtain ⟨term,found⟩ := getLogTermFromLogIndex_inside numbered above below
  induction rounds with
  | zero => exact pure_error exit
  | succ remaining ih =>
    obtain ⟨other,read⟩ := getLogTermFromLogIndex_inside numbered
      (i := rf.lastSnapshotIncludeIndex + remaining) (by omega) (by omega)
    simp only [conflictHint,bind_error,read,found] at exit
    rcases exit with exit | ⟨_,_,exit | ⟨_,_,exit⟩⟩
    · cases exit
    · cases exit
    · split at exit
      · exact pure_error exit
      · exact ih (by omega) exit

/-- In range, only an entry with another command stops the handler. -/
theorem appendEntriesimpl_inside (indexed : rf.Indexed) {args : AppendEntriesArgs Cmd}
    (numbered : Consecutive (args.prevlogindex + 1) args.entries)
    (exit : rf.appendEntriesimpl args = .error left) : rf.Contradicts args := by
  have followed := (indexStep_follow rf args.term).indexed indexed
  simp only [appendEntriesimpl] at exit
  split at exit
  · exact absurd exit pure_error
  next current =>
  have same := observe_of_le rf args.term (not_lt.mp current)
  simp only [bind_error,myAssert_error] at exit
  rcases exit with ⟨other,_⟩ | ⟨_,_,exit⟩
  · exact absurd same.symm other
  split at exit
  · exact absurd exit pure_error
  next within =>
  split at exit
  · exact absurd exit pure_error
  next above =>
  change ¬ args.prevlogindex > (rf.follow args.term).getLastLogIndex at within
  change ¬ args.prevlogindex < (rf.follow args.term).lastSnapshotIncludeIndex at above
  obtain ⟨term,found⟩ := getLogTermFromLogIndex_inside followed.memory.numbered (i := args.prevlogindex)
    (by omega) (by omega)
  have matched : (rf.follow args.term).matchLog args.prevlogindex args.prevlogterm =
      .ok (args.prevlogterm == term) := matchLog_ok.mpr ⟨term,found,rfl⟩
  simp only [bind_error] at exit
  rcases exit with exit | ⟨outcome,compared,exit⟩
  · cases matched.symm.trans exit
  obtain rfl := Except.ok.inj (matched.symm.trans compared)
  split at exit
  · next equal =>
    refine ⟨equal ▸ matched,?_⟩
    simp only [bind_error,myAssert_error,pure_error,and_false,exists_false,or_false] at exit
    rcases exit with exit | ⟨merged,merge,exit⟩
    · exact mergeEntries_inside followed numbered (by omega) (by omega) exit
    -- both assertions behind the loop follow from what it did
    have close : args.prevlogindex + 1 ≤ (rf.follow args.term).getLastLogIndex + 1 := by omega
    have step := indexStep_mergeEntries numbered (fun _ => close) merge
    have reaches := mergeEntries_reaches followed numbered close merge
    rcases exit with ⟨short,_⟩ | ⟨_,_,beyond,_⟩
    · refine absurd ?_ short
      simp only [AppendEntriesArgs.lastIndex]
      omega
    · exact absurd ((indexStep_commitTo merged _).indexed (step.indexed followed)).committed beyond
  · simp only [bind_error,pure_error,and_false,exists_false,or_false] at exit
    exact absurd exit (conflictHint_inside followed.memory.numbered (by omega) (by omega) (by
      change (rf.follow args.term).lastSnapshotIncludeIndex +
        ((args.prevlogindex - (rf.follow args.term).lastSnapshotIncludeIndex + 1).toNat : Int) ≤ _
      omega))

/-- The ends of a process that no range assertion takes part in. -/
inductive Stops (rf : Raft n Cmd Snap) : NodeAction n Cmd Snap → Prop where
  | crash : Stops rf .crash
  | electedTwice (leader : rf.status = .Leader) : Stops rf (.sendRequestVote reply voteNums)
  | contradicted (clash : rf.Contradicts args) : Stops rf (.appendEntriesimpl args)

end Raft

/-! ### A node and what it sent -/

namespace Sender
open Raft

def boot (raftId : Fin n) (disk : Persister Cmd Snap) : Sender n Cmd Snap := ⟨init raftId disk,[]⟩

/-- An exit takes the threads with it. -/
def step [DecidableEq Cmd] (s : Sender n Cmd Snap) (action : NodeAction n Cmd Snap) : Option (Sender n Cmd Snap) :=
  some (match s.node.handle action with
    | .ok rf => ⟨rf,s.built ++ s.node.builds action⟩
    | .error left => boot s.node.raftId left)

/-- Entries continue from `PrevLogIndex`, a success answers args built here, and any other
reply either comes too late or carries a higher term. -/
def Listed (s : Sender n Cmd Snap) : NodeAction n Cmd Snap → Prop
  | .appendEntriesimpl args => Consecutive (args.prevlogindex + 1) args.entries
  | .sendAppendEntries peerId args reply _ => if reply.success = true then (peerId,args) ∈ s.built
    else reply.term ≠ s.node.currentTerm
  | .leaderSendSnapshot _ req resp => req.term ≠ s.node.currentTerm ∨ s.node.currentTerm < resp.term
  | _ => True

instance [DecidableEq Cmd] (s : Sender n Cmd Snap) : (action : NodeAction n Cmd Snap) → Decidable (s.Listed action)
  | .appendEntriesimpl args => inferInstanceAs (Decidable (Consecutive (args.prevlogindex + 1) args.entries))
  | .sendAppendEntries peerId args reply _ => inferInstanceAs (Decidable (if reply.success = true then
      (peerId,args) ∈ s.built else reply.term ≠ s.node.currentTerm))
  | .leaderSendSnapshot _ req resp =>
    inferInstanceAs (Decidable (req.term ≠ s.node.currentTerm ∨ s.node.currentTerm < resp.term))
  | .doElection | .requestVoteImpl _ | .sendRequestVote .. | .doHeartBeat | .installSnapshotImpl _
  | .start _ | .snapshot .. | .getApplyLogs | .crash => isTrue trivial

/-- The node's indexes, and every index it keeps about a peer, lie inside its log. -/
structure Inside (s : Sender n Cmd Snap) : Prop where
  indexed : s.node.Indexed
  built : ∀ sent ∈ s.built, 0 ≤ sent.2.lastIndex ∧ sent.2.lastIndex ≤ s.node.getLastLogIndex
  matched : ∀ p, 0 ≤ s.node.matchIndex.get p ∧ s.node.matchIndex.get p ≤ s.node.getLastLogIndex
  next : s.node.status = .Leader →
    ∀ p, 1 ≤ s.node.nextIndex.get p ∧ s.node.nextIndex.get p ≤ s.node.getLastLogIndex + 1

variable {s s' : Sender n Cmd Snap} {rf : Raft n Cmd Snap} {action : NodeAction n Cmd Snap}
  {left : Persister Cmd Snap}

theorem inside_boot (raftId : Fin n) (saved : left.image.Indexed) : (boot raftId left).Inside := by
  have indexed := Indexed.restart raftId saved
  have last := indexed.last
  have base := indexed.base
  refine ⟨indexed,by simp [boot],fun p => ?_,fun office => ?_⟩
  · have fresh : (init raftId left).matchIndex.get p = 0 := by rw [init_eq]; exact Vector.get_replicate ..
    simp only [boot]
    omega
  · simp only [boot,init_eq] at office
    cases office

theorem Listed.continues (listed : s.Listed action) : Continues action := by
  cases action <;> first | exact listed | trivial

/-- The args of every started thread end at the last index. -/
theorem builds_lastIndex {sent : Fin n × AppendEntriesArgs Cmd} (member : sent ∈ s.node.builds action) :
    sent.2.lastIndex = s.node.getLastLogIndex := by
  cases action <;> simp only [builds,List.not_mem_nil] at member
  obtain ⟨thread,started,append⟩ := List.mem_filterMap.mp member
  obtain ⟨_,peer,_,done⟩ := (doHeartBeat_spec rfl).1 thread started
  rcases heartBeatPeer_ok done with ⟨rfl,_⟩ | ⟨args,rfl,_,_,_,reached,_⟩
  · cases append
  · obtain rfl := Option.some.inj append
    exact reached

variable [DecidableEq Cmd]

theorem Inside.handle (inside : s.Inside) (listed : s.Listed action)
    (done : s.node.handle action = .ok rf) : Inside ⟨rf,s.built ++ s.node.builds action⟩ := by
  obtain ⟨indexed,built,matched,next⟩ := inside
  have step := indexStep_handle listed.continues done
  have grown := (step.advances indexed).last
  have above : 0 ≤ s.node.getLastLogIndex := by rw [indexed.last]; have := indexed.base; omega
  have built' : ∀ sent ∈ s.built, 0 ≤ sent.2.lastIndex ∧ sent.2.lastIndex ≤ rf.getLastLogIndex :=
    fun sent member => ⟨(built sent member).1,(built sent member).2.trans grown⟩
  have within : ∀ p, 0 ≤ s.node.matchIndex.get p ∧ s.node.matchIndex.get p ≤ rf.getLastLogIndex :=
    fun p => ⟨(matched p).1,(matched p).2.trans grown⟩
  have peers : (∀ p, 0 ≤ rf.matchIndex.get p ∧ rf.matchIndex.get p ≤ rf.getLastLogIndex) ∧
      (rf.status = .Leader →
        ∀ p, 1 ≤ rf.nextIndex.get p ∧ rf.nextIndex.get p ≤ rf.getLastLogIndex + 1) := by
    cases peersStep_handle done with
    | kept sameNext sameMatched office =>
      refine ⟨fun p => sameMatched ▸ within p,fun leader p => ?_⟩
      have bounds := next (office leader).1 p
      rw [sameNext]
      omega
    | elected eq _ =>
      subst eq
      refine ⟨fun p => ?_,fun _ p => ?_⟩
      · rw [elected_matchIndex]; exact ⟨le_rfl,above.trans grown⟩
      · rw [elected_nextIndex]
        change 1 ≤ s.node.getLastLogIndex + 1 ∧ s.node.getLastLogIndex + 1 ≤ s.node.getLastLogIndex + 1
        omega
    | @acknowledged peerId args _ _ leader current success next' matched' =>
      have member : (peerId,args) ∈ s.built := by simpa [Listed,success] using listed
      have sent := built' _ member
      refine ⟨fun p => ?_,fun _ p => ?_⟩
      · have one := within p
        have two := within peerId
        rw [matched',acknowledge_matchIndex]
        split <;> simp only at sent <;> omega
      · have one := next leader p
        have two := within peerId
        rw [next',acknowledge_nextIndex]
        split <;> simp only at sent <;> omega
    | refused leader current failed _ =>
      simp only [Listed,failed,Bool.false_eq_true,if_false] at listed
      exact absurd current listed
    | snapshotSent leader current answered _ =>
      rcases listed with other | higher
      · exact absurd current.symm other
      · exact absurd answered (not_le.mpr higher)
  refine ⟨step.indexed indexed,fun sent member => ?_,peers.1,peers.2⟩
  rcases List.mem_append.mp member with old | fresh
  · exact built' sent old
  · rw [builds_lastIndex fresh]
    exact ⟨above,grown⟩

/-- In range, a listed action ends the process in one of the other ways only. -/
theorem Inside.stops (inside : s.Inside) (listed : s.Listed action)
    (exit : s.node.handle action = .error left) : s.node.Stops action := by
  obtain ⟨indexed,built,matched,next⟩ := inside
  cases action with
  | doElection => cases exit
  | requestVoteImpl args =>
    have exit := map_error.mp exit
    rcases requestVoteImpl_cases s.node args with ⟨_,_,_,eq⟩ | ⟨_,_,_,eq⟩ | ⟨_,_,_,_,_,_,eq⟩
    all_goals cases eq.symm.trans exit
  | sendRequestVote reply voteNums =>
    refine .electedTwice (by_contra fun once => ?_)
    have exit := map_error.mp exit
    simp only [sendRequestVote] at exit
    split at exit
    · exact pure_error exit
    split at exit
    · exact pure_error exit
    split at exit
    · exact pure_error exit
    split at exit
    · simp only [bind_error,myAssert_error,pure_error,and_false,exists_false,or_false] at exit
      exact exit.1 once
    · exact pure_error exit
  | doHeartBeat =>
    simp only [Raft.handle] at exit
    split at exit
    · cases exit
    · next files stopped =>
      simp only [doHeartBeat] at stopped
      split at stopped
      · cases stopped
      next leader =>
      have each : ∀ peer left, s.node.heartBeatPeer peer ≠ .error left := fun peer _ =>
        have bounds := next (not_not.mp leader) peer
        heartBeatPeer_inside indexed.memory.numbered bounds.1 bounds.2
      cases (heartBeatLoop_inside each).symm.trans stopped
  | appendEntriesimpl args => exact .contradicted (appendEntriesimpl_inside indexed listed (map_error.mp exit))
  | sendAppendEntries peerId args reply appendNums =>
    refine absurd (map_error.mp exit) (sendAppendEntries_inside indexed fun success => ?_)
    have member : (peerId,args) ∈ s.built := by simpa [Listed,success] using listed
    exact ⟨(matched peerId).2,(built _ member).2⟩
  | installSnapshotImpl args =>
    have exit := map_error.mp exit
    rcases installSnapshotImpl_cases s.node args with ⟨_,eq⟩ | ⟨_,_,eq⟩ | ⟨_,_,eq⟩
    all_goals cases eq.symm.trans exit
  | leaderSendSnapshot peerId req resp => cases exit
  | start command => cases exit
  | snapshot index data => exact absurd exit (snapshot_inside indexed.memory.numbered indexed.committed)
  | getApplyLogs => exact absurd (map_error.mp exit) (getApplyLogs_inside
    indexed.memory.numbered indexed.compacted indexed.committed)
  | crash => exact .crash

theorem Inside.step (inside : s.Inside) (listed : s.Listed action) (taken : s.step action = some s') :
    s'.Inside := by
  obtain rfl := Option.some.inj taken
  cases done : s.node.handle action with
  | ok rf => exact inside.handle listed done
  | error left =>
    have saved := (inside.indexed.exit done).saved
    rw [init_persister] at saved
    exact inside_boot s.node.raftId saved

theorem inside_reach (raftId : Fin n) {disk : Persister Cmd Snap} (saved : disk.image.Indexed)
    (reach : Run.Reach Sender.step Listed (boot raftId disk) s) : s.Inside :=
  reach.invariant Inside (inside_boot raftId saved) fun _ _ _ _ inside listed taken =>
    inside.step listed taken

/-- A leader of three commits two entries, compacts the first and restarts; the next leader
appends a third. -/
def compactedLeader : List (NodeAction 3 Nat Unit) :=
  [.doElection,.sendRequestVote ⟨1,true,.Normal⟩ 1,.start 7,.start 8,.doHeartBeat,
    .sendAppendEntries 1 ⟨1,0,0,0,[⟨7,1,1⟩,⟨8,1,2⟩],0⟩ ⟨1,true,0,AppNormal⟩ 1,.getApplyLogs,
    .snapshot 1 (some ()),.crash,.appendEntriesimpl ⟨2,1,2,1,[⟨9,2,3⟩],2⟩]

end Sender

/-! ### What is applied is committed -/

namespace Raft

/-- Neither the snapshot nor what the server was handed reaches beyond `commitIndex_`, and the
scan down to it stays above the snapshot. -/
structure AppliedCommitted (rf : Raft n Cmd Snap) : Prop where
  compacted : rf.lastSnapshotIncludeIndex ≤ rf.commitIndex
  applied : rf.lastApplied ≤ rf.commitIndex
  scanned : ∃ rf', rf.leaderUpdateCommitIndex = .ok rf'

variable {rf rf' : Raft n Cmd Snap} {left : Persister Cmd Snap}

theorem commitScan_inside (numbered : rf.Numbered) {logIndex : Int} {rounds : Nat}
    (above : rf.lastSnapshotIncludeIndex ≤ logIndex - rounds) (below : logIndex ≤ rf.getLastLogIndex) :
    ∃ rf', rf.commitScan logIndex rounds = .ok rf' := by
  induction rounds generalizing logIndex with
  | zero => exact ⟨rf,rfl⟩
  | succ rounds ih =>
    obtain ⟨term,found⟩ := getLogTermFromLogIndex_inside numbered (i := logIndex) (by omega) below
    have lower : rf.lastSnapshotIncludeIndex ≤ logIndex - 1 - rounds := by omega
    obtain ⟨rf',rest⟩ := ih lower (by omega)
    simp only [commitScan,found]
    by_cases enough : term = rf.currentTerm ∧ ((1 + (rf.otherPeers.filter fun j =>
        rf.matchIndex[j] ≥ logIndex).length : Nat) : Int) ≥ rf.majority
    · exact ⟨_,if_pos enough⟩
    · exact ⟨rf',(if_neg enough).trans rest⟩

theorem appliedCommitted_iff (indexed : rf.Indexed) :
    rf.AppliedCommitted ↔ rf.lastApplied ≤ rf.commitIndex := by
  refine ⟨AppliedCommitted.applied,fun applied => ⟨indexed.compacted.trans applied,applied,?_⟩⟩
  have compacted := indexed.compacted
  have committed := indexed.committed
  exact commitScan_inside indexed.memory.numbered (by omega) le_rfl

/-- `init` takes the base for applied and leaves the commit index at 0. -/
theorem init_appliedCommitted_iff (raftId : Fin n) (saved : left.image.Indexed) :
    (init raftId left).AppliedCommitted ↔ left.image.lastSnapshotIncludeIndex = 0 := by
  rw [appliedCommitted_iff (.restart raftId saved),init_eq]
  have base := saved.base
  simp only
  omega

variable [DecidableEq Cmd] {action : NodeAction n Cmd Snap}

/-- Installing and compacting move both counters, applying stops at the commit index. -/
theorem handle_applied (indexed : rf.Indexed) (continues : Continues action)
    (done : rf.handle action = .ok rf') (applied : rf.lastApplied ≤ rf.commitIndex) :
    rf'.lastApplied ≤ rf'.commitIndex := by
  have commit := (indexStep_handle continues done |>.advances indexed).commit
  by_cases install : ∃ args, action = .installSnapshotImpl args
  · obtain ⟨args,rfl⟩ := install
    obtain ⟨answer,done⟩ := map_fst_ok.mp done
    have followed := ((indexStep_followDurably rf args.term).advances indexed).commit
    have same := followDurably_lastApplied rf args.term
    rcases installSnapshotImpl_cases rf args with ⟨_,eq⟩ | ⟨_,_,eq⟩ | ⟨_,_,eq⟩
    all_goals obtain ⟨rfl,rfl⟩ := Prod.mk.inj (Except.ok.inj (eq.symm.trans done))
    · exact applied
    · rw [same]
      exact applied.trans followed
    · refine max_le_max_right args.lastsnapshotincludeindex ?_
      rw [same]
      exact applied.trans followed
  by_cases compact : ∃ index data, action = .snapshot index data
  · obtain ⟨index,data,rfl⟩ := compact
    rcases snapshot_ok done with ⟨rfl,_⟩ | ⟨_,_,_,_,rfl⟩
    · exact applied
    · exact max_le_max_right index applied
  by_cases apply : action = .getApplyLogs
  · subst apply
    obtain ⟨messages,done⟩ := map_fst_ok.mp done
    rw [(getApplyLogs_ok done).2.1]
    exact max_le applied le_rfl
  · push Not at install compact
    rw [handle_lastApplied done install compact apply]
    exact applied.trans commit

end Raft

namespace Sender
open Raft

variable [DecidableEq Cmd] {s s' : Sender n Cmd Snap} {action : NodeAction n Cmd Snap}
  {disk : Persister Cmd Snap}

/-- The process goes on, or the files it is restored from hold no snapshot. -/
def Uncompacted (s : Sender n Cmd Snap) (action : NodeAction n Cmd Snap) : Prop :=
  (s.node.handle action).toOption.isSome = true ∨
    s.node.persister.image.lastSnapshotIncludeIndex = 0

instance (s : Sender n Cmd Snap) (action : NodeAction n Cmd Snap) : Decidable (s.Uncompacted action) :=
  inferInstanceAs (Decidable (_ = true ∨ _ = (0 : Int)))

theorem appliedCommitted_step (inside : s.Inside) (applied : s.node.AppliedCommitted)
    (listed : s.Listed action) (taken : s.step action = some s') :
    s'.node.AppliedCommitted ↔ s.Uncompacted action := by
  obtain rfl := Option.some.inj taken
  have indexed := inside.indexed
  cases done : s.node.handle action with
  | ok rf =>
    have later := (indexStep_handle listed.continues done).indexed indexed
    refine iff_of_true ?_ (.inl (by rw [done]; rfl))
    exact (appliedCommitted_iff later).mpr (handle_applied indexed listed.continues done applied.applied)
  | error left =>
    have kept : left = s.node.persister := by
      rcases exit_files done with kept | ⟨_,_,_,failed⟩
      · exact kept
      · exact absurd failed (snapshot_inside indexed.memory.numbered indexed.committed)
    subst kept
    refine (init_appliedCommitted_iff s.node.raftId indexed.saved).trans ⟨.inr,?_⟩
    rintro (goes | scratch)
    · rw [done] at goes; cases goes
    · exact scratch

/-- In every run whose restarts find no compacted log; a restart that does breaks the order. -/
theorem applied_committed (raftId : Fin n) (disk : Persister Cmd Snap) (saved : disk.image.Indexed)
    (scratch : disk.image.lastSnapshotIncludeIndex = 0)
    (reach : Run.Reach Sender.step (fun s action => s.Listed action ∧ s.Uncompacted action)
      (boot raftId disk) s) :
    s.node.AppliedCommitted ∧ ∀ action s', s.Listed action → s.step action = some s' →
      (s'.node.AppliedCommitted ↔ s.Uncompacted action) := by
  have inside := inside_reach raftId saved (reach.weaken fun _ _ met => met.1)
  have applied : s.node.AppliedCommitted := by
    refine reach.invariant (fun s => s.node.AppliedCommitted)
      ((init_appliedCommitted_iff raftId saved).mpr scratch) fun s action s' before applied met taken => ?_
    have inside := inside_reach raftId saved (before.weaken fun _ _ met => met.1)
    exact (appliedCommitted_step inside applied met.1 taken).mpr met.2
  exact ⟨applied,fun action s' listed taken => appliedCommitted_step inside applied listed taken⟩

/-- The leader of `compactedLeader` up to its crash. -/
def compactingLeader : List (NodeAction 3 Nat Unit) := compactedLeader.take 8

theorem compactingLeader_counters :
    (Run.run (Run.guarded Sender.step fun s action => s.Listed action ∧ s.Uncompacted action)
      (boot 0 {}) compactingLeader).map
      (fun s => (s.node.lastSnapshotIncludeIndex,s.node.lastApplied,s.node.commitIndex)) =
      some (1,2,2) := by decide +kernel

theorem applied_committed_compactingLeader : ∃ s : Sender 3 Nat Unit,
    s.node.lastSnapshotIncludeIndex = 1 ∧ s.node.AppliedCommitted := by
  obtain ⟨s,ran,seen⟩ := Option.map_eq_some_iff.mp compactingLeader_counters
  have reach := Run.reach_of_guarded compactingLeader ran .start
  exact ⟨s,congrArg Prod.fst seen,(applied_committed 0 {} ⟨by decide,Consecutive.nil⟩ rfl reach).1⟩

/-- A node installs a snapshot of three entries and restarts. -/
def restored : List (NodeAction 3 Nat Unit) := [.installSnapshotImpl ⟨0,1,3,1,some ()⟩,.crash]

theorem restored_counters :
    (Run.run (Run.guarded Sender.step Listed) (boot 1 {}) restored).map (fun s =>
      (s.node.lastSnapshotIncludeIndex,s.node.lastApplied,s.node.commitIndex,
        s.node.leaderUpdateCommitIndex.toOption.isSome)) = some (3,3,0,false) := by decide +kernel

/-- After the restart the commit index is 0, below the snapshot, where a scan exits. -/
theorem applied_committed_fails : ∃ s : Sender 3 Nat Unit,
    Run.Reach Sender.step Listed (boot 1 {}) s ∧ s.node.commitIndex < s.node.lastSnapshotIncludeIndex ∧
    s.node.commitIndex < s.node.lastApplied ∧ s.node.leaderUpdateCommitIndex.toOption.isSome = false ∧
    ¬ s.node.AppliedCommitted := by
  obtain ⟨s,ran,seen⟩ := Option.map_eq_some_iff.mp restored_counters
  simp only [Prod.mk.injEq] at seen
  obtain ⟨base,applied,commit,scan⟩ := seen
  have reach : Run.Reach Sender.step Listed (boot 1 {}) s := Run.reach_of_guarded restored ran .start
  refine ⟨s,reach,by omega,by omega,scan,fun order => ?_⟩
  have below := order.compacted
  omega

end Sender
end KvStorage
