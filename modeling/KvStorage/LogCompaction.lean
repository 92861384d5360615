import KvStorage.LogIndexes
import KvStorage.LogRange

/-! Cutting the log at an index. `snapshot` changes no answer of the node, and an installed
snapshot is followed by the old entries above it only where the log does not contradict it. -/
namespace KvStorage
open Exit

namespace Raft

variable {rf rf' : Raft n Cmd Snap} {left : Persister Cmd Snap}

/-! ### An installed snapshot -/

/-- The log has an entry of this index and term. -/
def Holds (rf : Raft n Cmd Snap) (index term : Int) : Prop :=
  ∃ entry ∈ rf.logs, entry.logindex = index ∧ entry.logterm = term

instance (rf : Raft n Cmd Snap) (index term : Int) : Decidable (rf.Holds index term) :=
  inferInstanceAs (Decidable (∃ entry ∈ rf.logs, _))

/-- The node continues from the snapshot: what its log holds above it when the log holds the
snapshot's last entry, else nothing. -/
structure ContinuesFrom (rf rf' : Raft n Cmd Snap) (args : InstallSnapshotRequest Snap) : Prop where
  index : rf'.lastSnapshotIncludeIndex = args.lastsnapshotincludeindex
  term : rf'.lastSnapshotIncludeTerm = args.lastsnapshotincludeterm
  committed : args.lastsnapshotincludeindex ≤ rf'.commitIndex
  applied : args.lastsnapshotincludeindex ≤ rf'.lastApplied
  logs : rf'.logs = if rf.Holds args.lastsnapshotincludeindex args.lastsnapshotincludeterm
    then rf.logs.filter fun entry => args.lastsnapshotincludeindex < entry.logindex else []

theorem keptAbove_eq (numbered : rf.Numbered) {index : Int} (above : rf.lastSnapshotIncludeIndex < index) :
    rf.keptAbove index = rf.logs.filter fun entry => index < entry.logindex := by
  have last := getLastLogIndex_eq numbered
  have shift : index + 1 - (rf.lastSnapshotIncludeIndex + 1) = index - rf.lastSnapshotIncludeIndex := by
    omega
  rw [numbered.filter_above (by omega),shift,keptAbove]
  split
  · rfl
  · exact (List.drop_eq_nil_of_le (by omega)).symm

/-- An accepted snapshot is continued by what fits it exactly when the log does not reach above
it, or holds its last entry: the erase looks at indexes only, and keeps the tail of another leader. -/
theorem installSnapshotImpl_continues_iff (numbered : rf.Numbered) (args : InstallSnapshotRequest Snap)
    (current : rf.currentTerm ≤ args.term) (newer : rf.lastSnapshotIncludeIndex < args.lastsnapshotincludeindex) :
    (∃ rf' answer, rf.installSnapshotImpl args = .ok (rf',answer) ∧ rf.ContinuesFrom rf' args) ↔
      rf.getLastLogIndex ≤ args.lastsnapshotincludeindex ∨
      rf.Holds args.lastsnapshotincludeindex args.lastsnapshotincludeterm := by
  have last := getLastLogIndex_eq numbered
  rcases installSnapshotImpl_cases rf args with ⟨stale,_⟩ | ⟨_,covered,_⟩ | ⟨_,_,eq⟩
  · exact absurd current (not_le.mpr stale)
  · exact absurd newer (not_lt.mpr covered)
  rw [eq]
  constructor
  · rintro ⟨rf',answer,same,continues⟩
    obtain ⟨rfl,_⟩ := Prod.mk.inj (Except.ok.inj same)
    by_contra conflict
    obtain ⟨longer,contradicted⟩ := not_or.mp conflict
    have dropped : rf.keptAbove args.lastsnapshotincludeindex = [] :=
      continues.logs.trans (if_neg contradicted)
    rw [keptAbove,if_pos (not_le.mp longer),List.drop_eq_nil_iff] at dropped
    omega
  · intro fits
    refine ⟨_,_,rfl,⟨rfl,rfl,le_max_right ..,le_max_right ..,?_⟩⟩
    change rf.keptAbove args.lastsnapshotincludeindex = _
    split
    · exact keptAbove_eq numbered newer
    · next contradicted =>
      have short := fits.resolve_right contradicted
      rw [keptAbove,if_neg (not_lt.mpr short)]

/-- A follower with two entries of a leader of term 1. -/
def conflictingTail : Raft 3 Nat Unit :=
  { init 1 {} with currentTerm := 1, logs := [⟨7,1,1⟩,⟨8,1,2⟩] }

theorem installSnapshotImpl_continues_conflictingTail :
    ∃ rf' answer, conflictingTail.installSnapshotImpl ⟨0,1,1,1,some ()⟩ = .ok (rf',answer) ∧
      conflictingTail.ContinuesFrom rf' ⟨0,1,1,1,some ()⟩ :=
  (installSnapshotImpl_continues_iff (by decide) ⟨0,1,1,1,some ()⟩ (by decide) (by decide)).mpr
    (.inr (by decide))

/-- The snapshot of a leader of term 2 ends in another first entry; the second one stays behind it. -/
theorem installSnapshotImpl_continues_fails : ¬ ∀ (rf : Raft 3 Nat Unit) (args : InstallSnapshotRequest Unit),
    rf.Numbered → rf.currentTerm ≤ args.term → rf.lastSnapshotIncludeIndex < args.lastsnapshotincludeindex →
    ∃ rf' answer, rf.installSnapshotImpl args = .ok (rf',answer) ∧ rf.ContinuesFrom rf' args := by
  intro law
  obtain ⟨rf',answer,done,continues⟩ :=
    law conflictingTail ⟨0,2,1,2,some ()⟩ (by decide) (by decide) (by decide)
  have stays : ((conflictingTail.installSnapshotImpl ⟨0,2,1,2,some ()⟩).toOption.map fun r => r.1.logs) =
      some [⟨8,1,2⟩] := by decide
  rw [done] at stays
  have kept := Option.some.inj stays
  exact absurd (continues.logs.symm.trans kept) (by decide)

/-! ### A compacted log -/

/-- What a node answers, and what it sends to the peers whose next entry lies above `index`. -/
structure SameAnswers (rf rf' : Raft n Cmd Snap) (index : Int) : Prop where
  last : rf'.getLastLogIndexAndTerm = rf.getLastLogIndexAndTerm
  upToDate : ∀ i term, rf'.upToDate i term = rf.upToDate i term
  termAt : ∀ i ≥ index, ∀ term, rf'.getLogTermFromLogIndex i = .ok term ↔ rf.getLogTermFromLogIndex i = .ok term
  matchLog : ∀ i ≥ index, ∀ term matched,
    rf'.matchLog i term = .ok matched ↔ rf.matchLog i term = .ok matched
  newIndex : rf'.getNewCommandIndex = rf.getNewCommandIndex
  applies : ∀ messages, (∃ next, rf'.getApplyLogs = .ok (next,messages)) ↔
    ∃ next, rf.getApplyLogs = .ok (next,messages)
  sends : ∀ peer args, index < rf.nextIndex.get peer →
    (.sendAppendEntries peer args ∈ rf'.doHeartBeat.1 ↔ .sendAppendEntries peer args ∈ rf.doHeartBeat.1)

/-- What `snapshot` leaves of an index it accepts. -/
def cut (rf : Raft n Cmd Snap) (index term : Int) (data : Option Snap) : Raft n Cmd Snap :=
  (rf.compacted index term).saveSnapshot data

section Cut
variable {index term : Int} {data : Option Snap}

theorem cut_numbered (numbered : rf.Numbered) (above : rf.lastSnapshotIncludeIndex < index) :
    (rf.cut index term data).Numbered := compacted_numbered numbered above term

theorem cut_getLastLogIndex (numbered : rf.Numbered) (above : rf.lastSnapshotIncludeIndex < index)
    (below : index ≤ rf.getLastLogIndex) : (rf.cut index term data).getLastLogIndex = rf.getLastLogIndex := by
  have last := getLastLogIndex_eq numbered
  rw [getLastLogIndex_eq (cut_numbered numbered above)]
  change index + ((rf.logs.drop (index - rf.lastSnapshotIncludeIndex).toNat).length : Int) = _
  rw [List.length_drop]
  omega

theorem cut_entryAt (numbered : rf.Numbered) (above : rf.lastSnapshotIncludeIndex < index)
    {i : Int} (inside : index < i) {entry : LogEntry Cmd} :
    (rf.cut index term data).entryAt i = .ok entry ↔ rf.entryAt i = .ok entry := by
  have place : (index - rf.lastSnapshotIncludeIndex).toNat + (i - index - 1).toNat =
      (i - rf.lastSnapshotIncludeIndex - 1).toNat := by omega
  rw [entryAt_iff (cut_numbered numbered above),entryAt_iff numbered,held_iff,held_iff]
  change index < i ∧ (rf.logs.drop _)[(i - index - 1).toNat]? = _ ↔ _
  rw [List.getElem?_drop,place]
  exact and_congr_left fun _ => iff_of_true inside (above.trans inside)

/-- The stored index and term stand for the last entry that was cut. -/
theorem cut_getLogTermFromLogIndex (numbered : rf.Numbered) (above : rf.lastSnapshotIncludeIndex < index)
    (read : rf.getLogTermFromLogIndex index = .ok term) {i t : Int} (inside : index ≤ i) :
    (rf.cut index term data).getLogTermFromLogIndex i = .ok t ↔ rf.getLogTermFromLogIndex i = .ok t := by
  have below := (getLogTermFromLogIndex_ok.mp read).2.1
  rcases lt_or_eq_of_le inside with inside | rfl
  · rw [getLogTermFromLogIndex_ok,getLogTermFromLogIndex_ok,cut_getLastLogIndex numbered above below]
    simp only [cut_entryAt numbered above inside]
    change index ≤ i ∧ _ ∧ (i = index ∧ _ ∨ _) ↔ _
    constructor
    · rintro ⟨_,low,⟨edge,_⟩ | found⟩
      · omega
      · exact ⟨by omega,low,.inr found⟩
    · rintro ⟨_,low,⟨edge,_⟩ | found⟩
      · omega
      · exact ⟨by omega,low,.inr found⟩
  · rw [read,getLogTermFromLogIndex_ok,cut_getLastLogIndex numbered above below]
    constructor
    · rintro ⟨_,_,⟨_,rfl⟩ | ⟨entry,found,_⟩⟩
      · rfl
      · exact absurd (entryAt_ok.mp found).1 (lt_irrefl _)
    · intro same
      exact ⟨le_rfl,below,.inl ⟨rfl,(Except.ok.inj same).symm⟩⟩

theorem cut_getLastLogIndexAndTerm (numbered : rf.Numbered)
    (above : rf.lastSnapshotIncludeIndex < index) (read : rf.getLogTermFromLogIndex index = .ok term) :
    (rf.cut index term data).getLastLogIndexAndTerm = rf.getLastLogIndexAndTerm := by
  have below := (getLogTermFromLogIndex_ok.mp read).2.1
  have last := getLastLogIndex_eq numbered
  have split := List.take_append_drop (index - rf.lastSnapshotIncludeIndex).toNat rf.logs
  cases rest : rf.logs.drop (index - rf.lastSnapshotIncludeIndex).toNat with
  | cons log later =>
    rw [rest] at split
    simp only [getLastLogIndexAndTerm,cut,saveSnapshot,compacted,rest]
    rw [← split,List.getLast?_append]
    simp [List.getLast?_cons]
  | nil =>
    -- all of the log was cut: the entry at `index` is the last one
    have all := List.drop_eq_nil_iff.mp rest
    have whole : rf.getLastLogIndex = index := by omega
    obtain ⟨_,_,⟨edge,_⟩ | ⟨entry,found,same⟩⟩ := getLogTermFromLogIndex_ok.mp read
    · omega
    have there := (held_iff.mp ((entryAt_iff numbered).mp found)).2
    have place : (index - rf.lastSnapshotIncludeIndex - 1).toNat = rf.logs.length - 1 := by omega
    rw [place,← List.getLast?_eq_getElem?] at there
    have logindex : entry.logindex = index := by
      rw [← whole,getLastLogIndex,getLastLogIndexAndTerm,there]
    simp only [getLastLogIndexAndTerm,cut,saveSnapshot,compacted,rest,there,List.getLast?_nil]
    rw [logindex,same]

theorem heartBeatPeer_goes_iff (numbered : rf.Numbered) {peer : Fin n} :
    (∃ thread, rf.heartBeatPeer peer = .ok thread) ↔
      1 ≤ rf.nextIndex.get peer ∧ rf.nextIndex.get peer ≤ rf.getLastLogIndex + 1 := by
  have last := getLastLogIndex_eq numbered
  constructor
  · rintro ⟨thread,started⟩
    have positive : 1 ≤ rf.nextIndex.get peer := by
      simp only [heartBeatPeer,bind_ok,myAssert_ok] at started
      obtain ⟨_,low,_⟩ := started
      exact low
    rcases heartBeatPeer_ok started with ⟨_,behind⟩ | ⟨args,_,_,_,_,_,_,previous,read,_⟩
    · exact ⟨positive,by omega⟩
    · have below := (getLogTermFromLogIndex_ok.mp read).2.1
      exact ⟨positive,by omega⟩
  · rintro ⟨low,high⟩
    cases started : rf.heartBeatPeer peer with
    | ok thread => exact ⟨thread,rfl⟩
    | error left => exact absurd started (heartBeatPeer_inside numbered low high)

/-- The args for a peer above the cut are built from what the cut leaves. -/
theorem cut_heartBeatPeer (numbered : rf.Numbered) (above : rf.lastSnapshotIncludeIndex < index)
    (committed : index ≤ rf.commitIndex) (read : rf.getLogTermFromLogIndex index = .ok term) {peer : Fin n}
    (ahead : index < rf.nextIndex.get peer) {thread : Spawned n Cmd}
    (started : rf.heartBeatPeer peer = .ok thread) :
    (rf.cut index term data).heartBeatPeer peer = .ok thread := by
  have below := (getLogTermFromLogIndex_ok.mp read).2.1
  have after : (rf.cut index term data).Numbered := cut_numbered numbered above
  have lasts : (rf.cut index term data).getLastLogIndex = rf.getLastLogIndex :=
    cut_getLastLogIndex numbered above below
  obtain ⟨low,high⟩ := (heartBeatPeer_goes_iff numbered).mp ⟨_,started⟩
  obtain ⟨other,goes⟩ : ∃ thread, (rf.cut index term data).heartBeatPeer peer = .ok thread :=
    (heartBeatPeer_goes_iff after).mpr ⟨low,by rw [lasts]; exact high⟩
  rw [goes]
  rcases heartBeatPeer_ok started with ⟨_,behind⟩ |
    ⟨args,rfl,sameTerm,leader,commit,_,base,previous,before,entries⟩
  · omega
  rcases heartBeatPeer_ok goes with ⟨_,behind⟩ |
    ⟨args',rfl,sameTerm',leader',commit',_,base',previous',before',entries'⟩
  · exact absurd ahead (not_lt.mpr behind)
  have prev : args'.prevlogindex = args.prevlogindex := previous'.trans previous.symm
  have inside : index ≤ args.prevlogindex := by omega
  have prevTerm : args'.prevlogterm = args.prevlogterm := by
    rw [prev,cut_getLogTermFromLogIndex numbered above read inside,before] at before'
    exact (Except.ok.inj before').symm
  have later : args'.entries = args.entries := by
    have shift : (index - rf.lastSnapshotIncludeIndex).toNat + (args.prevlogindex - index).toNat =
        (args.prevlogindex - rf.lastSnapshotIncludeIndex).toNat := by omega
    rw [entries',entries,prev]
    change (rf.logs.drop _).drop (args.prevlogindex - index).toNat = _
    rw [List.drop_drop,shift]
  have commits : args'.leadercommit = args.leadercommit :=
    commit'.trans ((max_eq_left committed).trans commit.symm)
  have same : args' = args := by
    cases args
    cases args'
    simp only [AppendEntriesArgs.mk.injEq]
    exact ⟨sameTerm'.trans sameTerm.symm,leader'.trans leader.symm,prev,prevTerm,later,commits⟩
  rw [same]

theorem cut_heartBeatLoop (numbered : rf.Numbered) (above : rf.lastSnapshotIncludeIndex < index)
    (committed : index ≤ rf.commitIndex) (read : rf.getLogTermFromLogIndex index = .ok term)
    (peers : List (Fin n)) {peer : Fin n} {args : AppendEntriesArgs Cmd}
    (ahead : index < rf.nextIndex.get peer) :
    .sendAppendEntries peer args ∈ ((rf.cut index term data).heartBeatLoop peers).1 ↔
      .sendAppendEntries peer args ∈ (rf.heartBeatLoop peers).1 := by
  have below := (getLogTermFromLogIndex_ok.mp read).2.1
  have after : (rf.cut index term data).Numbered := cut_numbered numbered above
  have lasts : (rf.cut index term data).getLastLogIndex = rf.getLastLogIndex :=
    cut_getLastLogIndex numbered above below
  induction peers with
  | nil => rfl
  | cons p rest ih =>
    have goes : (∃ thread, (rf.cut index term data).heartBeatPeer p = .ok thread) ↔
        ∃ thread, rf.heartBeatPeer p = .ok thread := by
      rw [heartBeatPeer_goes_iff after,heartBeatPeer_goes_iff numbered,lasts]
      exact Iff.rfl
    cases started : rf.heartBeatPeer p with
    | error left =>
      cases started' : (rf.cut index term data).heartBeatPeer p with
      | error left' => simp only [heartBeatLoop,started,started']
      | ok thread =>
        obtain ⟨_,wrong⟩ := goes.mp ⟨_,started'⟩
        cases started.symm.trans wrong
    | ok thread =>
      obtain ⟨thread',started'⟩ := goes.mpr ⟨_,started⟩
      simp only [heartBeatLoop,started,started',List.mem_cons]
      refine or_congr ?_ ih
      by_cases here : index < rf.nextIndex.get p
      · have same : (rf.cut index term data).heartBeatPeer p = .ok thread :=
          cut_heartBeatPeer numbered above committed read here started
        rw [Except.ok.inj (started'.symm.trans same)]
      · -- another peer's thread on both sides
        have other : peer ≠ p := fun same => here (same ▸ ahead)
        constructor
        all_goals intro same; subst same
        · rcases heartBeatPeer_ok started' with ⟨wrong,_⟩ | ⟨_,wrong,_⟩
          · cases wrong
          · exact absurd (Spawned.sendAppendEntries.inj wrong).1 other
        · rcases heartBeatPeer_ok started with ⟨wrong,_⟩ | ⟨_,wrong,_⟩
          · cases wrong
          · exact absurd (Spawned.sendAppendEntries.inj wrong).1 other

/-- The next batch lies above the cut, so it is the same. -/
theorem cut_getApplyLogs (numbered : rf.Numbered) (above : rf.lastSnapshotIncludeIndex < index)
    (committed : index ≤ rf.commitIndex) (applied : index ≤ rf.lastApplied)
    (bounded : rf.commitIndex ≤ rf.getLastLogIndex) {messages : List (ApplyMsg Cmd Snap)} :
    (∃ next, (rf.cut index term data).getApplyLogs = .ok (next,messages)) ↔
      ∃ next, rf.getApplyLogs = .ok (next,messages) := by
  have last : (rf.cut index term data).getLastLogIndex = rf.getLastLogIndex :=
    cut_getLastLogIndex numbered above (committed.trans bounded)
  have runs : ∀ {left}, rf.getApplyLogs ≠ .error left :=
    getApplyLogs_inside numbered (le_of_lt (above.trans_le applied)) bounded
  have runs' : ∀ {left}, (rf.cut index term data).getApplyLogs ≠ .error left := by
    refine getApplyLogs_inside (cut_numbered numbered above) (le_max_right ..) ?_
    rw [last]
    exact max_le bounded (committed.trans bounded)
  have same : ∀ {next next' batch batch'}, rf.getApplyLogs = .ok (next,batch) →
      (rf.cut index term data).getApplyLogs = .ok (next',batch') → batch' = batch := by
    intro next next' batch batch' done done'
    obtain ⟨_,_,size,items⟩ := getApplyLogs_ok done
    obtain ⟨_,_,size',items'⟩ := getApplyLogs_ok done'
    change batch'.length = (max rf.commitIndex index - max rf.lastApplied index).toNat at size'
    have lengths : batch'.length = batch.length := by omega
    refine List.ext_getElem? fun i => ?_
    by_cases inside : i < batch.length
    · obtain ⟨entry,found,there⟩ := items i inside
      obtain ⟨entry',found',there'⟩ := items' i (lengths ▸ inside)
      have next : (rf.cut index term data).lastApplied = rf.lastApplied := max_eq_left applied
      rw [next] at found' there'
      have agree := (cut_entryAt numbered above (i := rf.lastApplied + 1 + i) (by omega)).mp found'
      rw [there,there',Except.ok.inj (found.symm.trans agree)]
    · rw [List.getElem?_eq_none (by omega),List.getElem?_eq_none (by omega)]
  constructor
  · rintro ⟨next',done'⟩
    cases done : rf.getApplyLogs with
    | error left => exact absurd done runs
    | ok answer => exact ⟨answer.1,by rw [same done done']⟩
  · rintro ⟨next,done⟩
    cases done' : (rf.cut index term data).getApplyLogs with
    | error left => exact absurd done' runs'
    | ok answer => exact ⟨answer.1,by rw [← same done done']⟩

end Cut

/-- A snapshot of what was applied changes no answer. -/
theorem snapshot_sameAnswers (numbered : rf.Numbered) (bounded : rf.commitIndex ≤ rf.getLastLogIndex)
    {index : Int} (data : Option Snap) (above : rf.lastSnapshotIncludeIndex < index)
    (committed : index ≤ rf.commitIndex) (applied : index ≤ rf.lastApplied) :
    ∃ rf', rf.snapshot index data = .ok rf' ∧ rf.SameAnswers rf' index := by
  cases done : rf.snapshot index data with
  | error left => exact absurd done (snapshot_inside numbered bounded)
  | ok rf' =>
    refine ⟨rf',rfl,?_⟩
    rcases snapshot_ok done with ⟨_,rejected⟩ | ⟨_,_,term,read,rfl⟩
    · omega
    have lasts : (rf.cut index term data).getLastLogIndexAndTerm = rf.getLastLogIndexAndTerm :=
      cut_getLastLogIndexAndTerm numbered above read
    have last : (rf.cut index term data).getLastLogIndex = rf.getLastLogIndex :=
      congrArg Prod.fst lasts
    have terms : ∀ i ≥ index, ∀ t, (rf.cut index term data).getLogTermFromLogIndex i = .ok t ↔
        rf.getLogTermFromLogIndex i = .ok t := fun i inside t =>
      cut_getLogTermFromLogIndex numbered above read inside
    constructor
    · exact lasts
    · intro i t
      change (rf.cut index term data).upToDate i t = _
      simp only [upToDate,lasts]
    · exact terms
    · intro i inside t matched
      change (rf.cut index term data).matchLog i t = _ ↔ _
      simp only [matchLog_ok,terms i inside]
    · exact congrArg (· + 1) last
    · exact fun messages => cut_getApplyLogs numbered above committed applied bounded
    · intro peer args ahead
      change _ ∈ (rf.cut index term data).doHeartBeat.1 ↔ _
      unfold doHeartBeat
      change _ ∈ (if rf.status ≠ .Leader then _ else (rf.cut index term data).heartBeatLoop rf.otherPeers).1 ↔ _
      split
      · exact Iff.rfl
      · exact cut_heartBeatLoop numbered above committed read rf.otherPeers ahead

/-- A leader that has committed two of its three entries and applied one. -/
def compactable : Raft 3 Nat Unit :=
  { init 0 {} with
    status := .Leader, currentTerm := 1, logs := [⟨7,1,1⟩,⟨8,1,2⟩,⟨9,1,3⟩]
    commitIndex := 2, lastApplied := 1, nextIndex := #v[4,3,2] }

theorem snapshot_sameAnswers_compactable :
    ∃ rf', compactable.snapshot 1 (some ()) = .ok rf' ∧ compactable.SameAnswers rf' 1 :=
  snapshot_sameAnswers (by decide) (by decide) (some ()) (by decide) (by decide) (by decide)

end Raft
end KvStorage
