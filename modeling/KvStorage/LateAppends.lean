import KvStorage.Lib.LogMatching
import KvStorage.Lib.Run
import KvStorage.LogMerge

/-! One leader in one term, the args its heartbeat rounds ever built, and a follower that gets
them in any order and any number of times. Whatever is accepted agrees with the leader's log, and
no message undoes an agreement. -/
namespace KvStorage
open Exit LogMatching

namespace Raft

variable {rf rf' : Raft n Cmd Snap} {history : List (LogEntry Cmd)}

/-! ### A leader's whole log -/

/-- The log with the entries that were compacted put back in front. -/
def whole (history : List (LogEntry Cmd)) (rf : Raft n Cmd Snap) : Raft n Cmd Snap :=
  { rf with
    logs := history ++ rf.logs
    lastSnapshotIncludeIndex := rf.lastSnapshotIncludeIndex - history.length }

/-- `history` ends in the entry that the snapshot ends in. -/
structure Continued (history : List (LogEntry Cmd)) (rf : Raft n Cmd Snap) : Prop where
  numbered : (rf.whole history).Numbered
  edge : ∀ entry ∈ history.getLast?, entry.logterm = rf.lastSnapshotIncludeTerm

theorem Continued.own (continued : Continued history rf) : rf.Numbered := by
  intro k entry found
  have there : (history ++ rf.logs)[history.length + k]? = some entry := by
    rw [List.getElem?_append_right (Nat.le_add_right ..),Nat.add_sub_cancel_left,found]
  have := continued.numbered _ entry there
  simp only [whole] at this
  omega

theorem whole_held {i : Int} (above : rf.lastSnapshotIncludeIndex < i) :
    (rf.whole history).held i = rf.held i := by
  unfold held
  change (if rf.lastSnapshotIncludeIndex - history.length < i then
    (history ++ rf.logs)[(i - (rf.lastSnapshotIncludeIndex - history.length) - 1).toNat]? else none) = _
  rw [if_pos (by omega),if_pos above,List.getElem?_append_right (by omega)]
  congr 1
  omega

theorem whole_held_edge {i : Int} (edge : i = rf.lastSnapshotIncludeIndex)
    (above : rf.lastSnapshotIncludeIndex - history.length < i) :
    ∃ entry ∈ history.getLast?, (rf.whole history).held i = some entry := by
  have some_history : history ≠ [] := by
    rintro rfl
    simp only [List.length_nil] at above
    omega
  refine ⟨history.getLast some_history,List.getLast?_eq_getLast_of_ne_nil some_history,?_⟩
  have length := List.length_pos_iff.mpr some_history
  refine held_iff.mpr ⟨above,?_⟩
  change (history ++ rf.logs)[(i - (rf.lastSnapshotIncludeIndex - history.length) - 1).toNat]? = _
  have place : (i - (rf.lastSnapshotIncludeIndex - history.length) - 1).toNat = history.length - 1 := by omega
  rw [place,List.getElem?_append_left (by omega),← List.getLast?_eq_getElem?,
    List.getLast?_eq_getLast_of_ne_nil some_history]

theorem SameLog.whole (same : SameLog rf rf') (history : List (LogEntry Cmd)) :
    SameLog (rf.whole history) (rf'.whole history) :=
  ⟨congrArg (history ++ ·) same.logs,congrArg (· - _) same.base,same.baseTerm⟩

theorem SameLog.continued (same : SameLog rf rf') (continued : Continued history rf) : Continued history rf' :=
  ⟨(same.whole history).numbered continued.numbered,same.baseTerm ▸ continued.edge⟩

theorem held_mem (numbered : rf.Numbered) {i : Int} {entry : LogEntry Cmd} (here : entry ∈ rf.held i) :
    entry ∈ rf.logs ∧ entry.logindex = i :=
  ⟨List.mem_of_getElem? (held_iff.mp here).2,held_logindex numbered here⟩

/-- Log matching read off the lists. -/
theorem matches_held (mine : rf.Numbered) (theirs : rf'.Numbered)
    (lists : ∀ entry ∈ rf.logs, ∀ other ∈ rf'.logs, entry.logindex = other.logindex →
      entry.logterm = other.logterm → ∀ lower ∈ rf.logs, ∀ low ∈ rf'.logs,
      lower.logindex = low.logindex → lower.logindex ≤ entry.logindex → lower = low) :
    Matches LogEntry.logterm rf.held rf'.held := by
  intro i entry here other there sameTerm j below lower here' low there'
  obtain ⟨member,index⟩ := held_mem mine here
  obtain ⟨other_member,other_index⟩ := held_mem theirs there
  obtain ⟨lower_member,lower_index⟩ := held_mem mine here'
  obtain ⟨low_member,low_index⟩ := held_mem theirs there'
  exact lists entry member other other_member (index.trans other_index.symm) sameTerm
    lower lower_member low low_member (lower_index.trans low_index.symm) (by omega)

/-! ### Args taken from a log -/

/-- Entries without a gap from right above the origin. -/
structure Gapless (origin : Int) (log : Int → Option (LogEntry Cmd)) : Prop where
  bottom : ∀ i ≤ origin, log i = none
  filled : ∀ i j, origin < i → i ≤ j → (log j).isSome → (log i).isSome

theorem held_gapless (rf : Raft n Cmd Snap) : Gapless rf.lastSnapshotIncludeIndex rf.held := by
  refine ⟨fun i below => if_neg (not_lt.mpr below),fun i j above below here => ?_⟩
  obtain ⟨entry,found⟩ := Option.isSome_iff_exists.mp here
  have bound := (List.getElem?_eq_some_iff.mp (held_iff.mp found).2).1
  rw [held,if_pos above,List.getElem?_eq_getElem (by omega)]
  rfl

/-- A window of `log` behind an entry of the announced term, or behind the log's origin. -/
structure Taken (origin : Int) (log : Int → Option (LogEntry Cmd)) (args : AppendEntriesArgs Cmd) : Prop where
  numbered : Consecutive (args.prevlogindex + 1) args.entries
  window : ∀ (k : Nat) entry, args.entries[k]? = some entry → log (args.prevlogindex + 1 + k) = some entry
  anchored : args.prevlogindex ≤ origin ∨ ∃ entry ∈ log args.prevlogindex, entry.logterm = args.prevlogterm

theorem Taken.longer {origin t : Int} {log longer : Int → Option (LogEntry Cmd)} {args : AppendEntriesArgs Cmd}
    (taken : Taken origin log args) (grown : Extends LogEntry.logterm t log longer) : Taken origin longer args := by
  refine ⟨taken.numbered,fun k entry found => grown.kept _ _ (taken.window k entry found),?_⟩
  rcases taken.anchored with bottom | ⟨entry,there,same⟩
  · exact .inl bottom
  · exact .inr ⟨entry,grown.kept _ _ there,same⟩

/-- The index below the whole log. -/
def origin (history : List (LogEntry Cmd)) (rf : Raft n Cmd Snap) : Int :=
  rf.lastSnapshotIncludeIndex - history.length

theorem heartBeatPeer_taken (continued : Continued history rf) {peer : Fin n} {args : AppendEntriesArgs Cmd}
    (started : rf.heartBeatPeer peer = .ok (.sendAppendEntries peer args)) :
    args.term = rf.currentTerm ∧ Taken (rf.origin history) (rf.whole history).held args := by
  have numbered := continued.own
  rcases heartBeatPeer_ok started with ⟨wrong,_⟩ | ⟨args',same,term,_,_,_,above,_,read,entries⟩
  · cases wrong
  obtain ⟨_,rfl⟩ := Spawned.sendAppendEntries.inj same
  have shift : rf.lastSnapshotIncludeIndex + 1 +
      ((args.prevlogindex - rf.lastSnapshotIncludeIndex).toNat : Int) = args.prevlogindex + 1 := by omega
  have consecutive : Consecutive (args.prevlogindex + 1) args.entries := by
    have dropped := Consecutive.drop numbered (args.prevlogindex - rf.lastSnapshotIncludeIndex).toNat
    rwa [shift,← entries] at dropped
  refine ⟨term,consecutive,fun k entry found => ?_,?_⟩
  · rw [whole_held (by omega)]
    rw [entries,List.getElem?_drop] at found
    refine held_iff.mpr ⟨by omega,?_⟩
    have place : (args.prevlogindex + 1 + k - rf.lastSnapshotIncludeIndex - 1).toNat =
        (args.prevlogindex - rf.lastSnapshotIncludeIndex).toNat + k := by omega
    rw [place,found]
  · rcases (getLogTermFromLogIndex_ok.mp read).2.2 with ⟨edge,baseTerm⟩ | ⟨entry,found,same⟩
    · by_cases bottom : args.prevlogindex ≤ rf.origin history
      · exact .inl bottom
      · obtain ⟨entry,last,there⟩ : ∃ entry ∈ history.getLast?,
            (rf.whole history).held args.prevlogindex = some entry := whole_held_edge edge (not_le.mp bottom)
        exact .inr ⟨entry,there,(continued.edge entry last).trans baseTerm.symm⟩
    · have inside := (entryAt_ok.mp found).1
      exact .inr ⟨entry,(whole_held inside).trans ((entryAt_iff numbered).mp found),same⟩

/-! ### One message -/

variable [DecidableEq Cmd] {origin : Int} {log : Int → Option (LogEntry Cmd)} {args : AppendEntriesArgs Cmd}

omit [DecidableEq Cmd] in
theorem Taken.agrees (taken : Taken origin log args) (matching : Matches LogEntry.logterm rf.held log) :
    rf.Agrees args.entries := by
  intro received member mine here sameTerm
  obtain ⟨k,found⟩ := List.mem_iff_getElem?.mp member
  have index := taken.numbered k received found
  have there := taken.window k received found
  rw [← index] at there
  rw [matching.same here there sameTerm]

omit [DecidableEq Cmd] in
theorem Taken.agreeTo (taken : Taken origin log args) (gapless : Gapless origin log)
    (numbered : rf.Numbered) (matching : Matches LogEntry.logterm rf.held log)
    (read : rf.getLogTermFromLogIndex args.prevlogindex = .ok args.prevlogterm) :
    AgreeTo rf.held log args.prevlogindex := by
  rcases taken.anchored with below | ⟨other,there,otherTerm⟩
  · intro i inside entry _ other there
    rw [gapless.bottom i (by omega)] at there
    cases there
  rcases (getLogTermFromLogIndex_ok.mp read).2.2 with ⟨edge,_⟩ | ⟨entry,found,term⟩
  · intro i inside entry here
    have := (held_iff.mp here).1
    omega
  · exact matching _ entry ((entryAt_iff numbered).mp found) other there (term.trans otherTerm.symm)

omit [DecidableEq Cmd] in
/-- An accepted message lays its window over the log. -/
theorem accepted_held (taken : Taken origin log args) (numbered : rf.Numbered)
    (read : rf.getLogTermFromLogIndex args.prevlogindex = .ok args.prevlogterm) :
    (rf.accepted args).held = pasted rf.held log args.prevlogindex args.lastIndex := by
  obtain ⟨above,below,_⟩ := getLogTermFromLogIndex_ok.mp read
  have same := SameLog.follow rf args.term
  have after : SameLog ((rf.follow args.term).merged (args.prevlogindex + 1) args.entries) (rf.accepted args) :=
    (SameLog.commitTo _ _).persist
  funext i
  rw [after.held,merged_held (same.numbered numbered) (by rw [same.base]; omega) (by rw [same.last]; omega),
    same.held]
  unfold pasted
  by_cases inside : args.prevlogindex < i ∧ i ≤ args.lastIndex
  · have within := inside.2
    rw [AppendEntriesArgs.lastIndex] at within
    have found := List.getElem?_eq_getElem (l := args.entries) (i := (i - (args.prevlogindex + 1)).toNat) (by omega)
    have there := taken.window _ _ found
    have place : args.prevlogindex + 1 + ((i - (args.prevlogindex + 1)).toNat : Int) = i := by omega
    rw [place] at there
    rw [if_pos inside,if_neg (by omega),found,there]
  · have outside := inside
    rw [AppendEntriesArgs.lastIndex] at outside
    rw [if_neg inside,if_pos (by omega)]

/-- What a message of the log does to a follower of a matching log. -/
structure Delivered (origin : Int) (log : Int → Option (LogEntry Cmd)) (args : AppendEntriesArgs Cmd)
    (rf rf' : Raft n Cmd Snap) (reply : AppendEntriesReply) : Prop where
  numbered : rf'.Numbered
  bounded : rf'.commitIndex ≤ rf'.getLastLogIndex
  held : rf'.held = rf.held ∨
    AgreeTo rf.held log args.prevlogindex ∧ rf'.held = pasted rf.held log args.prevlogindex args.lastIndex
  reached : reply.success = true → ∀ i, rf'.lastSnapshotIncludeIndex < i → origin < i → i ≤ args.lastIndex →
    ∃ entry, rf'.held i = some entry ∧ log i = some entry

theorem delivers (taken : Taken origin log args) (gapless : Gapless origin log) (numbered : rf.Numbered)
    (bounded : rf.commitIndex ≤ rf.getLastLogIndex) (matching : Matches LogEntry.logterm rf.held log) :
    ∃ rf' reply, rf.appendEntriesimpl args = .ok (rf',reply) ∧ Delivered origin log args rf rf' reply := by
  by_cases current : rf.currentTerm ≤ args.term
  case neg =>
    refine ⟨rf,_,by rw [appendEntriesimpl,if_pos (not_le.mp current)]; rfl,numbered,bounded,.inl rfl,?_⟩
    rintro ⟨⟩
  by_cases read : rf.getLogTermFromLogIndex args.prevlogindex = .ok args.prevlogterm
  case neg =>
    obtain ⟨hint,_,done⟩ := appendEntriesimpl_refuses numbered current read
    have same := (SameLog.follow rf args.term).persist
    refine ⟨_,_,done,same.numbered numbered,?_,.inl same.held,by rintro ⟨⟩⟩
    rw [same.last]
    exact (observe_commitIndex rf args.term).trans_le bounded
  rcases appendEntriesimpl_accepts numbered bounded current taken.numbered read with ⟨_,done⟩ | ⟨clash,_⟩
  case inr => exact absurd (taken.agrees matching) clash
  obtain ⟨above,below,_⟩ := getLogTermFromLogIndex_ok.mp read
  obtain ⟨after,last,committed⟩ := accepted_indexes numbered bounded taken.numbered above below
  have overlaid := accepted_held taken numbered read
  have anchored := taken.agreeTo gapless numbered matching read
  refine ⟨_,_,done,after,committed,.inr ⟨anchored,overlaid⟩,fun _ i above high below => ?_⟩
  obtain ⟨entry,found,_⟩ := entryAt_inside after above (below.trans (last ▸ le_max_right ..))
  have here := (entryAt_iff after).mp found
  refine ⟨entry,here,?_⟩
  rw [overlaid,pasted] at here
  split at here
  · exact here
  next outside =>
  have low : i ≤ args.prevlogindex := by omega
  rcases taken.anchored with bottom | ⟨other,there,_⟩
  · omega
  · obtain ⟨known,holds⟩ := Option.isSome_iff_exists.mp
      (gapless.filled i args.prevlogindex high low (by rw [Option.mem_def.mp there]; rfl))
    rw [holds,anchored i low entry here known holds]

end Raft
/-! ### One leader, one follower -/

/-- The leader, every args its heartbeat rounds built, and a follower. -/
structure Stream (n : Nat) (Cmd Snap : Type) where
  leader : Raft n Cmd Snap
  built : List (AppendEntriesArgs Cmd)
  follower : Raft n Cmd Snap

inductive StreamAction (n : Nat) (Cmd : Type) where
  | start (command : Cmd)
  | doHeartBeat
  | sendAppendEntries (peerId : Fin n) (args : AppendEntriesArgs Cmd) (reply : AppendEntriesReply) (appendNums : Int)
  | appendEntriesimpl (args : AppendEntriesArgs Cmd)
  deriving DecidableEq

namespace Stream
open Raft

variable [DecidableEq Cmd] {history : List (LogEntry Cmd)}

/-- Replies move `nextIndex_`, `matchIndex_` and the commit index; delivered args may be delivered again. -/
def step (s : Stream n Cmd Snap) : StreamAction n Cmd → Option (Stream n Cmd Snap)
  | .start command => some { s with leader := (s.leader.start command).1 }
  | .doHeartBeat => some { s with built := s.built ++ (s.leader.builds .doHeartBeat).map Prod.snd }
  | .sendAppendEntries peerId args reply appendNums =>
    (s.leader.sendAppendEntries peerId args reply appendNums).toOption.map fun answer =>
      { s with leader := answer.1 }
  | .appendEntriesimpl args =>
    (s.follower.appendEntriesimpl args).toOption.map fun answer => { s with follower := answer.1 }

/-- No reply carries a higher term, and the follower gets what was built. -/
def OneTerm (s : Stream n Cmd Snap) : StreamAction n Cmd → Prop
  | .sendAppendEntries _ _ reply _ => reply.term ≤ s.leader.currentTerm
  | .appendEntriesimpl args => args ∈ s.built
  | _ => True

instance (s : Stream n Cmd Snap) : (action : StreamAction n Cmd) → Decidable (s.OneTerm action)
  | .sendAppendEntries _ _ reply _ => inferInstanceAs (Decidable (reply.term ≤ s.leader.currentTerm))
  | .appendEntriesimpl args => inferInstanceAs (Decidable (args ∈ s.built))
  | .start _ | .doHeartBeat => isTrue trivial

/-- The leader's log from the entries it compacted on. -/
def log (history : List (LogEntry Cmd)) (s : Stream n Cmd Snap) : Int → Option (LogEntry Cmd) :=
  (s.leader.whole history).held

omit [DecidableEq Cmd] in
theorem log_gapless (s : Stream n Cmd Snap) : Gapless (s.leader.origin history) (s.log history) :=
  held_gapless (s.leader.whole history)

/-- The leader is in office, everything sent is a window of its log, and the follower's log matches it. -/
structure Harmless (history : List (LogEntry Cmd)) (s : Stream n Cmd Snap) : Prop where
  office : s.leader.status = .Leader
  continued : Continued history s.leader
  taken : ∀ args ∈ s.built, Taken (s.leader.origin history) (s.log history) args
  numbered : s.follower.Numbered
  bounded : s.follower.commitIndex ≤ s.follower.getLastLogIndex
  matching : Matches LogEntry.logterm s.follower.held (s.log history)
  owns : Owns LogEntry.logterm s.leader.currentTerm s.follower.held (s.log history)

variable {s s' : Stream n Cmd Snap}

omit [DecidableEq Cmd] in
theorem appended_extends {rf : Raft n Cmd Snap} (continued : Continued history rf) (command : Cmd) :
    Continued history (rf.appended command) ∧ Extends LogEntry.logterm rf.currentTerm
      (rf.whole history).held ((rf.appended command).whole history).held := by
  have last := getLastLogIndex_eq continued.own
  have lists : ((rf.appended command).whole history).logs =
      (rf.whole history).logs ++ [⟨command,rf.currentTerm,rf.getNewCommandIndex⟩] :=
    (List.append_assoc ..).symm
  have size : (rf.whole history).logs.length = history.length + rf.logs.length := List.length_append
  have numbered : ((rf.appended command).whole history).Numbered := by
    rw [Raft.Numbered,lists]
    refine Consecutive.append continued.numbered ?_
    simp only [getNewCommandIndex,whole,List.length_append]
    omega
  refine ⟨⟨numbered,continued.edge⟩,fun i entry here => ?_,fun i old entry here => ?_⟩
  · obtain ⟨above,there⟩ := held_iff.mp here
    refine held_iff.mpr ⟨above,?_⟩
    rw [lists]
    exact (List.getElem?_append_left (List.getElem?_eq_some_iff.mp there).1).trans there
  · obtain ⟨above,there⟩ := held_iff.mp here
    change _[(i - (rf.whole history).lastSnapshotIncludeIndex - 1).toNat]? = _ at there
    have above' : (rf.whole history).lastSnapshotIncludeIndex < i := above
    rw [held,if_pos above',List.getElem?_eq_none_iff] at old
    rw [lists,List.getElem?_append_right old,List.getElem?_singleton] at there
    split at there
    case isFalse => cases there
    obtain rfl := Option.some.inj there
    refine ⟨rfl,fun j known => ?_⟩
    obtain ⟨other,found⟩ := Option.isSome_iff_exists.mp known
    have bound := (List.getElem?_eq_some_iff.mp (held_iff.mp found).2).1
    omega

omit [DecidableEq Cmd] in
/-- A reply of no higher term leaves the leader its office and its log. -/
theorem answered_sameLog {rf rf' : Raft n Cmd Snap} {peerId : Fin n} {args : AppendEntriesArgs Cmd}
    {reply : AppendEntriesReply} {appendNums successes : Int} (low : reply.term ≤ rf.currentTerm)
    (done : rf.sendAppendEntries peerId args reply appendNums = .ok (rf',successes)) :
    SameLog rf rf' ∧ rf'.status = rf.status ∧ rf'.currentTerm = rf.currentTerm := by
  have round : ∀ node : Raft n Cmd Snap, SameLog node (node.commitRound args) ∧
      (node.commitRound args).status = node.status ∧ (node.commitRound args).currentTerm = node.currentTerm := by
    intro node
    unfold commitRound
    split <;> exact ⟨⟨rfl,rfl,rfl⟩,rfl,rfl⟩
  rcases sendAppendEntries_ok done with
    ⟨higher,_⟩ | ⟨rfl,_⟩ | ⟨_,_,_,rfl,_⟩ | ⟨_,_,_,_,rfl,_⟩ | ⟨_,_,_,_,rfl,_,_⟩
  · omega
  · exact ⟨⟨rfl,rfl,rfl⟩,rfl,rfl⟩
  · exact ⟨⟨rfl,rfl,rfl⟩,rfl,rfl⟩
  · exact ⟨⟨rfl,rfl,rfl⟩,rfl,rfl⟩
  · obtain ⟨⟨logs,base,baseTerm⟩,status,term⟩ := round (rf.acknowledge peerId args)
    exact ⟨⟨logs,base,baseTerm⟩,status,term⟩

omit [DecidableEq Cmd] in
theorem built_taken {rf : Raft n Cmd Snap} (continued : Continued history rf)
    {sent : Fin n × AppendEntriesArgs Cmd} (member : sent ∈ rf.builds .doHeartBeat) :
    Taken (rf.origin history) (rf.whole history).held sent.2 := by
  obtain ⟨thread,started,append⟩ := List.mem_filterMap.mp member
  obtain ⟨_,peer,_,done⟩ := (doHeartBeat_spec rfl).1 thread started
  cases thread with
  | leaderSendSnapshot => cases append
  | sendAppendEntries p args =>
    obtain rfl := Option.some.inj append
    rcases heartBeatPeer_ok done with ⟨wrong,_⟩ | ⟨_,same,_⟩
    · cases wrong
    · obtain ⟨rfl,_⟩ := Spawned.sendAppendEntries.inj same
      exact (heartBeatPeer_taken continued done).2

theorem Harmless.step {action : StreamAction n Cmd} (harmless : s.Harmless history) (oneTerm : s.OneTerm action)
    (moved : s.step action = some s') : s'.Harmless history := by
  obtain ⟨office,continued,taken,numbered,bounded,matching,owns⟩ := harmless
  cases action with
  | start command =>
    obtain rfl := Option.some.inj moved
    obtain ⟨after,grown⟩ := appended_extends continued command
    have leads : (s.leader.start command).1 = s.leader.appended command := by
      rw [start_leader office]
    constructor
    all_goals simp only [leads,log]
    · exact office
    · exact after
    · exact fun args member => (taken args member).longer grown
    · exact numbered
    · exact bounded
    · exact matching.extends owns grown
    · exact owns.extends grown
  | doHeartBeat =>
    obtain rfl := Option.some.inj moved
    refine ⟨office,continued,fun args member => ?_,numbered,bounded,matching,owns⟩
    rcases List.mem_append.mp member with before | fresh
    · exact taken args before
    · obtain ⟨sent,built,rfl⟩ := List.mem_map.mp fresh
      exact built_taken continued built
  | sendAppendEntries peerId args reply appendNums =>
    obtain ⟨⟨next,nums⟩,ran,rfl⟩ := Option.map_eq_some_iff.mp moved
    obtain ⟨same,status,term⟩ := answered_sameLog oneTerm (toOption_some.mp ran)
    have whole : (next.whole history).held = (s.leader.whole history).held := (same.whole history).held
    have origin : next.origin history = s.leader.origin history := congrArg (· - _) same.base
    constructor
    all_goals simp only [log,whole,origin,term]
    · exact status.trans office
    · exact same.continued continued
    · exact taken
    · exact numbered
    · exact bounded
    · exact matching
    · exact owns
  | appendEntriesimpl args =>
    obtain ⟨⟨next,reply⟩,ran,rfl⟩ := Option.map_eq_some_iff.mp moved
    obtain ⟨rf',reply',done,after,committed,held,_⟩ :=
      delivers (taken args oneTerm) s.log_gapless numbered bounded matching
    obtain ⟨rfl,_⟩ := Prod.mk.inj (Except.ok.inj ((toOption_some.mp ran).symm.trans done))
    refine ⟨office,continued,taken,after,committed,?_,?_⟩
    · rcases held with same | ⟨anchored,overlaid⟩
      · exact same ▸ matching
      · exact overlaid ▸ matching.pasted anchored
    · rcases held with same | ⟨_,overlaid⟩
      · exact same ▸ owns
      · exact overlaid ▸ owns.pasted

/-- Every message the leader ever built is answered; an accepted one leaves the follower with the
leader's entries up to its end, and none makes it differ where it agreed. -/
theorem late_appends (leader follower : Raft n Cmd Snap) (history : List (LogEntry Cmd))
    (start : Harmless history ⟨leader,[],follower⟩)
    (reach : Run.Reach Stream.step OneTerm ⟨leader,[],follower⟩ s) : ∀ args ∈ s.built,
    ∃ rf' reply, s.follower.appendEntriesimpl args = .ok (rf',reply) ∧
      (reply.success = true → ∀ i, rf'.lastSnapshotIncludeIndex < i → s.leader.origin history < i →
        i ≤ args.lastIndex → ∃ entry, rf'.held i = some entry ∧ s.log history i = some entry) ∧
      ∀ i, s.follower.held i = s.log history i → rf'.held i = s.log history i := by
  have harmless := reach.invariant (Harmless history) start fun s action s' _ harmless oneTerm moved =>
    harmless.step oneTerm moved
  intro args member
  obtain ⟨rf',reply,done,_,_,held,reached⟩ := delivers (harmless.taken args member) s.log_gapless
    harmless.numbered harmless.bounded harmless.matching
  refine ⟨rf',reply,done,reached,fun i agreed => ?_⟩
  rcases held with same | ⟨_,overlaid⟩
  · rw [same]; exact agreed
  · rw [overlaid]; exact pasted_keeps agreed

/-- A leader of term 3 whose first entry is compacted. -/
def heldOffice : Raft 3 Nat Unit :=
  { init 0 {} with
    status := .Leader, currentTerm := 3, votedFor := 0, logs := [⟨6,2,2⟩], nextIndex := #v[3,2,2]
    lastSnapshotIncludeIndex := 1, lastSnapshotIncludeTerm := 1, lastApplied := 1, commitIndex := 1 }

/-- A follower that left the leader's log after the first entry. -/
def strayed : Raft 3 Nat Unit :=
  { init 1 {} with currentTerm := 1, logs := [⟨5,1,1⟩,⟨9,1,2⟩,⟨4,1,3⟩] }

/-- The longer of two messages is delivered first. -/
def overtaken : List (StreamAction 3 Nat) :=
  [.doHeartBeat,.start 7,.doHeartBeat,.appendEntriesimpl ⟨3,0,1,1,[⟨6,2,2⟩,⟨7,3,3⟩],1⟩]

theorem overtaken_built :
    (Run.run (Run.guarded Stream.step OneTerm) ⟨heldOffice,[],strayed⟩ overtaken).map
      (fun s => (s.built.head?,s.follower.logs)) =
      some (some ⟨3,0,1,1,[⟨6,2,2⟩],1⟩,[⟨5,1,1⟩,⟨6,2,2⟩,⟨7,3,3⟩]) := by decide +kernel

theorem strayed_harmless : Harmless [⟨5,1,1⟩] ⟨heldOffice,[],strayed⟩ := by
  refine ⟨rfl,⟨by decide,by decide⟩,by simp,by decide,by decide,matches_held (by decide) (by decide) (by decide),?_⟩
  intro i entry here sameTerm
  have older : ∀ entry ∈ strayed.logs, entry.logterm ≠ heldOffice.currentTerm := by decide
  exact absurd sameTerm (older entry (held_mem (by decide) here).1)

theorem late_appends_overtaken : ∃ s : Stream 3 Nat Unit, s.follower.logs = [⟨5,1,1⟩,⟨6,2,2⟩,⟨7,3,3⟩] ∧
    ∃ rf' reply, s.follower.appendEntriesimpl ⟨3,0,1,1,[⟨6,2,2⟩],1⟩ = .ok (rf',reply) ∧
      ∀ i, s.follower.held i = s.log [⟨5,1,1⟩] i → rf'.held i = s.log [⟨5,1,1⟩] i := by
  obtain ⟨s,ran,seen⟩ := Option.map_eq_some_iff.mp overtaken_built
  have reach : Run.Reach Stream.step OneTerm ⟨heldOffice,[],strayed⟩ s := Run.reach_of_guarded overtaken ran .start
  obtain ⟨first,logs⟩ := Prod.mk.inj seen
  obtain ⟨rf',reply,done,_,kept⟩ := late_appends heldOffice strayed [⟨5,1,1⟩] strayed_harmless reach
    ⟨3,0,1,1,[⟨6,2,2⟩],1⟩ (List.mem_of_mem_head? first)
  exact ⟨s,logs,rf',reply,done,kept⟩

end Stream
end KvStorage
