import KvStorage.RaftStep

/-! Logical and physical indexes of one node's log. Entry `k` of `logs_` has the index
`lastSnapshotIncludeIndex_ + 1 + k` through appending, overwriting, compaction, installation
and restart, and the three counters stay inside the log. -/
namespace KvStorage
open Exit

/-- Entries numbered one after the other from `first`. -/
def Consecutive (first : Int) (entries : List (LogEntry Cmd)) : Prop :=
  ∀ (k : Nat) entry, entries[k]? = some entry → entry.logindex = first + k

namespace Consecutive

variable {first : Int} {entries : List (LogEntry Cmd)}

theorem iff_fin : Consecutive first entries ↔
    ∀ k : Fin entries.length, entries[k].logindex = first + k.val := by
  constructor
  · intro numbered k
    exact numbered k _ (List.getElem?_eq_getElem k.isLt)
  · intro numbered k entry found
    obtain ⟨bound,rfl⟩ := List.getElem?_eq_some_iff.mp found
    exact numbered ⟨k,bound⟩

instance : Decidable (Consecutive first entries) := decidable_of_iff _ iff_fin.symm

theorem nil : Consecutive first ([] : List (LogEntry Cmd)) := by simp [Consecutive]

theorem append (numbered : Consecutive first entries) {log : LogEntry Cmd}
    (index : log.logindex = first + entries.length) : Consecutive first (entries ++ [log]) := by
  intro k entry found
  rw [List.getElem?_append] at found
  split at found
  · exact numbered k entry found
  · next beyond =>
    rw [List.getElem?_singleton] at found
    split at found
    · next last =>
      obtain rfl := Option.some.inj found
      omega
    · cases found

theorem drop (numbered : Consecutive first entries) (d : Nat) :
    Consecutive (first + d) (entries.drop d) := by
  intro k entry found
  rw [List.getElem?_drop] at found
  have := numbered _ entry found
  omega

theorem set (numbered : Consecutive first entries) {log : LogEntry Cmd} {k : Nat}
    (index : log.logindex = first + k) : Consecutive first (entries.set k log) := by
  intro j entry found
  rw [List.getElem?_set] at found
  split at found
  · next here =>
    split at found
    · obtain rfl := Option.some.inj found
      omega
    · cases found
  · exact numbered j entry found

theorem tail {log : LogEntry Cmd} (numbered : Consecutive first (log :: entries)) :
    Consecutive (first + 1) entries := by
  intro k entry found
  have := numbered (k + 1) entry (by simpa using found)
  omega

/-- Above an index of the log lie the entries behind its place. -/
theorem filter_above (numbered : Consecutive first entries) {i : Int} (close : first ≤ i + 1) :
    entries.filter (fun entry => i < entry.logindex) = entries.drop (i + 1 - first).toNat := by
  induction entries generalizing first with
  | nil => simp
  | cons log rest ih =>
    have index : log.logindex = first := by simpa using numbered 0 log rfl
    have tail := numbered.tail
    by_cases inside : first ≤ i
    · have shift : (i + 1 - first).toNat = (i + 1 - (first + 1)).toNat + 1 := by omega
      rw [List.filter_cons_of_neg (by simp [index,inside]),shift,List.drop_succ_cons]
      exact ih tail (by omega)
    · have all : ∀ entry ∈ log :: rest, i < entry.logindex := by
        intro entry member
        obtain ⟨k,found⟩ := List.mem_iff_getElem?.mp member
        have := numbered k entry found
        omega
      have whole : (i + 1 - first).toNat = 0 := by omega
      rw [whole,List.drop_zero,List.filter_eq_self]
      simpa using all

/-- Below an index lie the entries before its place. -/
theorem filter_below (numbered : Consecutive first entries) {i : Int} (above : first ≤ i) :
    entries.filter (fun entry => entry.logindex < i) = entries.take (i - first).toNat := by
  induction entries generalizing first with
  | nil => simp
  | cons log rest ih =>
    have index : log.logindex = first := by simpa using numbered 0 log rfl
    rcases lt_or_eq_of_le above with inside | rfl
    · have shift : (i - first).toNat = (i - (first + 1)).toNat + 1 := by omega
      rw [List.filter_cons_of_pos (by simp [index,inside]),shift,List.take_succ_cons,
        ih numbered.tail (by omega)]
    · rw [sub_self,Int.toNat_zero,List.take_zero,List.filter_eq_nil_iff]
      intro entry member
      obtain ⟨k,found⟩ := List.mem_iff_getElem?.mp member
      have := numbered k entry found
      simp only [decide_eq_true_eq]
      omega

end Consecutive

/-- A saved log that starts right above a base of at least 0. -/
structure BoostPersistRaftNode.Indexed (image : BoostPersistRaftNode Cmd) : Prop where
  base : 0 ≤ image.lastSnapshotIncludeIndex
  numbered : Consecutive (image.lastSnapshotIncludeIndex + 1) image.logs

namespace Raft

/-- `logs_` starts right above the base. -/
def Numbered (rf : Raft n Cmd Snap) : Prop := Consecutive (rf.lastSnapshotIncludeIndex + 1) rf.logs

instance (rf : Raft n Cmd Snap) : Decidable rf.Numbered :=
  inferInstanceAs (Decidable (Consecutive (rf.lastSnapshotIncludeIndex + 1) rf.logs))

/-- Entry `k` is the one of index base + 1 + k, and the counters are in order. -/
structure LogIndexes (rf : Raft n Cmd Snap) : Prop where
  numbered : ∀ (k : Nat) entry, rf.logs[k]? = some entry →
    entry.logindex = rf.lastSnapshotIncludeIndex + 1 + k
  compacted : rf.lastSnapshotIncludeIndex ≤ rf.lastApplied
  applied : rf.lastApplied ≤ rf.getLastLogIndex
  committed : rf.commitIndex ≤ rf.getLastLogIndex

/-- Nothing that is counted goes back. -/
structure Advances (rf rf' : Raft n Cmd Snap) : Prop where
  last : rf.getLastLogIndex ≤ rf'.getLastLogIndex
  commit : rf.commitIndex ≤ rf'.commitIndex
  applied : rf.lastApplied ≤ rf'.lastApplied

/-- The order of the counters, in memory and for what a restart will read. -/
structure Indexed (rf : Raft n Cmd Snap) : Prop where
  memory : rf.persistData.Indexed
  saved : rf.persister.image.Indexed
  compacted : rf.lastSnapshotIncludeIndex ≤ rf.lastApplied
  applied : rf.lastApplied ≤ rf.getLastLogIndex
  committed : rf.commitIndex ≤ rf.getLastLogIndex
  uncommitted : 0 ≤ rf.commitIndex

variable {rf rf' rf'' : Raft n Cmd Snap} {left : Persister Cmd Snap}

theorem getLastLogIndex_eq (numbered : rf.Numbered) :
    rf.getLastLogIndex = rf.lastSnapshotIncludeIndex + rf.logs.length := by
  rw [getLastLogIndex,getLastLogIndexAndTerm,List.getLast?_eq_getElem?]
  cases found : rf.logs[rf.logs.length - 1]? with
  | none =>
    have empty := List.getElem?_eq_none_iff.mp found
    simp only
    omega
  | some last =>
    have index := numbered _ last found
    have bound := (List.getElem?_eq_some_iff.mp found).1
    simp only
    omega

namespace Indexed

theorem logIndexes (indexed : rf.Indexed) : rf.LogIndexes :=
  ⟨indexed.memory.numbered,indexed.compacted,indexed.applied,indexed.committed⟩

theorem base (indexed : rf.Indexed) : 0 ≤ rf.lastSnapshotIncludeIndex := indexed.memory.base

theorem last (indexed : rf.Indexed) :
    rf.getLastLogIndex = rf.lastSnapshotIncludeIndex + rf.logs.length :=
  getLastLogIndex_eq indexed.memory.numbered

/-- A restart takes the base for applied and forgets what was committed. -/
theorem restart (raftId : Fin n) (saved : left.image.Indexed) : (init raftId left).Indexed := by
  have memory : (init raftId left).persistData.Indexed := by rw [init_persistData]; exact saved
  have last := getLastLogIndex_eq memory.numbered
  have base := saved.base
  rw [init_eq] at memory last ⊢
  constructor
  · exact memory
  · exact saved
  · simp only; omega
  · rw [last]; simp only; omega
  · rw [last]; simp only; omega
  · exact le_rfl

end Indexed

/-! ### Reads inside the range -/

/-- `logs_[getSlicesIndexFromLogIndex(i)]` is the entry of index `i`. -/
theorem entryAt_inside (numbered : rf.Numbered) {i : Int}
    (above : rf.lastSnapshotIncludeIndex < i) (below : i ≤ rf.getLastLogIndex) :
    ∃ entry, rf.entryAt i = .ok entry ∧ entry.logindex = i := by
  have last := getLastLogIndex_eq numbered
  have bound : (i - rf.lastSnapshotIncludeIndex - 1).toNat < rf.logs.length := by omega
  have found := List.getElem?_eq_getElem bound
  refine ⟨_,entryAt_ok.mpr ⟨above,below,found⟩,?_⟩
  rw [numbered _ _ found]
  omega

/-- The entry of index `i`, where the log has one. -/
def held (rf : Raft n Cmd Snap) (i : Int) : Option (LogEntry Cmd) :=
  if rf.lastSnapshotIncludeIndex < i then rf.logs[(i - rf.lastSnapshotIncludeIndex - 1).toNat]? else none

theorem held_iff {i : Int} {entry : LogEntry Cmd} : rf.held i = some entry ↔
    rf.lastSnapshotIncludeIndex < i ∧ rf.logs[(i - rf.lastSnapshotIncludeIndex - 1).toNat]? = some entry := by
  unfold held
  split
  · next above => exact (and_iff_right above).symm
  · next below => simp [below]

/-- Reading above the base is reading the list. -/
theorem entryAt_iff (numbered : rf.Numbered) {i : Int} {entry : LogEntry Cmd} :
    rf.entryAt i = .ok entry ↔ rf.held i = some entry := by
  rw [entryAt_ok,held_iff]
  refine ⟨fun ⟨above,_,found⟩ => ⟨above,found⟩,fun ⟨above,found⟩ => ⟨above,?_,found⟩⟩
  have last := getLastLogIndex_eq numbered
  have bound := (List.getElem?_eq_some_iff.mp found).1
  omega

theorem held_logindex (numbered : rf.Numbered) {i : Int} {entry : LogEntry Cmd}
    (found : rf.held i = some entry) : entry.logindex = i := by
  obtain ⟨above,there⟩ := held_iff.mp found
  have := numbered _ _ there
  omega

theorem getLogTermFromLogIndex_inside (numbered : rf.Numbered) {i : Int}
    (above : rf.lastSnapshotIncludeIndex ≤ i) (below : i ≤ rf.getLastLogIndex) :
    ∃ term, rf.getLogTermFromLogIndex i = .ok term := by
  by_cases edge : i = rf.lastSnapshotIncludeIndex
  · exact ⟨_,getLogTermFromLogIndex_ok.mpr ⟨above,below,.inl ⟨edge,rfl⟩⟩⟩
  · obtain ⟨entry,found,_⟩ := entryAt_inside numbered (i := i) (by omega) below
    exact ⟨_,getLogTermFromLogIndex_ok.mpr ⟨above,below,.inr ⟨entry,found,rfl⟩⟩⟩

/-! ### Every critical section -/

/-- What every critical section keeps. -/
structure IndexStep (rf rf' : Raft n Cmd Snap) : Prop where
  indexed : rf.Indexed → rf'.Indexed
  advances : rf.Indexed → rf.Advances rf'

namespace IndexStep

theorem refl (rf : Raft n Cmd Snap) : IndexStep rf rf :=
  ⟨id,fun _ => ⟨le_rfl,le_rfl,le_rfl⟩⟩

theorem trans (one : IndexStep rf rf') (two : IndexStep rf' rf'') : IndexStep rf rf'' := by
  refine ⟨two.indexed ∘ one.indexed,fun indexed => ?_⟩
  obtain ⟨last₁,commit₁,applied₁⟩ := one.advances indexed
  obtain ⟨last₂,commit₂,applied₂⟩ := two.advances (one.indexed indexed)
  exact ⟨last₁.trans last₂,commit₁.trans commit₂,applied₁.trans applied₂⟩

/-- The log keeps its shape, in memory and on disk, and the counters move inside it. -/
theorem moved (shape : rf.Indexed → rf'.persistData.Indexed)
    (disk : rf'.persister = rf.persister ∨ rf'.persister.image = rf'.persistData)
    (counters : rf.Indexed → rf.Advances rf' ∧ rf'.lastSnapshotIncludeIndex ≤ rf'.lastApplied ∧
      rf'.lastApplied ≤ rf'.getLastLogIndex ∧ rf'.commitIndex ≤ rf'.getLastLogIndex) :
    IndexStep rf rf' := by
  refine ⟨fun indexed => ?_,fun indexed => (counters indexed).1⟩
  obtain ⟨⟨_,commit,_⟩,compacted,applied,committed⟩ := counters indexed
  refine ⟨shape indexed,?_,compacted,applied,committed,indexed.uncommitted.trans commit⟩
  rcases disk with kept | image
  · rw [kept]; exact indexed.saved
  · rw [image]; exact shape indexed

/-- A change that does not concern the log. -/
theorem same (disk : rf'.persister = rf.persister) (logs : rf'.logs = rf.logs)
    (base : rf'.lastSnapshotIncludeIndex = rf.lastSnapshotIncludeIndex)
    (commit : rf'.commitIndex = rf.commitIndex) (applied : rf'.lastApplied = rf.lastApplied) :
    IndexStep rf rf' := by
  have shape : rf.Indexed → rf'.persistData.Indexed := fun indexed =>
    ⟨by simpa only [persistData,base] using indexed.memory.base,
      by simpa only [persistData,base,logs] using indexed.memory.numbered⟩
  refine .moved shape (.inl disk) fun indexed => ?_
  have last : rf'.getLastLogIndex = rf.getLastLogIndex := by
    rw [getLastLogIndex_eq (shape indexed).numbered,indexed.last,base,logs]
  obtain ⟨_,_,compacted,bounded,committed,_⟩ := indexed
  exact ⟨⟨by omega,by omega,by omega⟩,by omega,by omega,by omega⟩

/-- Another log of the same numbering that is no shorter. -/
theorem relog {logs : List (LogEntry Cmd)}
    (shape : rf.Indexed → Consecutive (rf.lastSnapshotIncludeIndex + 1) logs ∧
      rf.logs.length ≤ logs.length) : IndexStep rf { rf with logs := logs } := by
  have numbered : rf.Indexed → BoostPersistRaftNode.Indexed
      ⟨rf.currentTerm,rf.votedFor,rf.lastSnapshotIncludeIndex,rf.lastSnapshotIncludeTerm,logs⟩ :=
    fun indexed => ⟨indexed.memory.base,(shape indexed).1⟩
  refine .moved numbered (.inl rfl) fun indexed => ?_
  have longer : getLastLogIndex { rf with logs := logs } = rf.lastSnapshotIncludeIndex + logs.length :=
    getLastLogIndex_eq (numbered indexed).numbered
  have last := indexed.last
  have grown := (shape indexed).2
  obtain ⟨_,_,compacted,applied,committed,_⟩ := indexed
  refine ⟨⟨?_,le_rfl,le_rfl⟩,compacted,?_,?_⟩
  all_goals rw [longer]
  · omega
  · exact applied.trans (by omega)
  · exact committed.trans (by omega)

/-- Writing the memory out saves a log of the same shape. -/
theorem written (rf : Raft n Cmd Snap) (disk : Persister Cmd Snap)
    (image : disk.image = rf.persistData) : IndexStep rf { rf with persister := disk } :=
  ⟨fun indexed => ⟨indexed.memory,image ▸ indexed.memory,indexed.compacted,indexed.applied,
    indexed.committed,indexed.uncommitted⟩,fun _ => ⟨le_rfl,le_rfl,le_rfl⟩⟩

theorem persist (one : IndexStep rf rf') : IndexStep rf rf'.persist :=
  one.trans (written rf' _ (persist_image rf'))

theorem saveSnapshot (one : IndexStep rf rf') (data : Option Snap) :
    IndexStep rf (rf'.saveSnapshot data) :=
  one.trans (written rf' _ (saveSnapshot_image rf' data))

end IndexStep

theorem indexStep_stepDown (rf : Raft n Cmd Snap) (term : Int) : IndexStep rf (rf.stepDown term) :=
  .same rfl rfl rfl rfl rfl

theorem indexStep_observe (rf : Raft n Cmd Snap) (term : Int) : IndexStep rf (rf.observe term) :=
  .same (observe_persister ..) (observe_logs ..) (observe_base ..) (observe_commitIndex ..)
    (observe_lastApplied ..)

theorem indexStep_requestVoteImpl {args : RequestVoteArgs} {reply : RequestVoteReply}
    (done : rf.requestVoteImpl args = .ok (rf',reply)) : IndexStep rf rf' := by
  have observed := indexStep_observe rf args.term
  rcases requestVoteImpl_cases rf args with ⟨_,_,_,eq⟩ | ⟨_,_,_,eq⟩ | ⟨_,_,_,_,_,_,eq⟩
  all_goals obtain ⟨rfl,rfl⟩ := Prod.mk.inj (Except.ok.inj (eq.symm.trans done))
  · exact (IndexStep.refl rf).persist
  · exact observed.persist
  · have granted : IndexStep (rf.observe args.term)
        { rf.observe args.term with votedFor := args.candidateid } := .same rfl rfl rfl rfl rfl
    exact (observed.trans granted).persist

theorem indexStep_sendRequestVote {reply : RequestVoteReply} {voteNums votes : Int} {promoted : Bool}
    (done : rf.sendRequestVote reply voteNums = .ok (rf',votes,promoted)) : IndexStep rf rf' := by
  rcases sendRequestVote_ok done with ⟨_,rfl,_⟩ | ⟨rfl,_⟩ | ⟨rfl,_⟩ | ⟨rfl,_⟩
  · exact (indexStep_stepDown rf reply.term).persist
  · exact .refl _
  · exact .refl _
  · exact .same rfl rfl rfl rfl rfl

theorem indexStep_commitTo (rf : Raft n Cmd Snap) (leadercommit : Int) :
    IndexStep rf (rf.commitTo leadercommit) := by
  unfold commitTo
  split
  case isFalse => exact .refl rf
  next ahead =>
  refine .moved Indexed.memory (.inl rfl) fun indexed => ?_
  obtain ⟨_,_,compacted,applied,committed,_⟩ := indexed
  refine ⟨⟨le_rfl,?_,le_rfl⟩,compacted,applied,?_⟩
  · simp only; omega
  · exact min_le_right ..

theorem indexStep_commitRound (rf : Raft n Cmd Snap) (args : AppendEntriesArgs Cmd)
    (bounded : (rf.commitRound args).commitIndex ≤ rf.getLastLogIndex) :
    IndexStep rf (rf.commitRound args) := by
  unfold commitRound at bounded ⊢
  split
  case isFalse => exact .refl rf
  next current =>
  rw [if_pos current] at bounded
  exact .moved Indexed.memory (.inl rfl) fun indexed =>
    ⟨⟨le_rfl,le_max_left ..,le_rfl⟩,indexed.compacted,indexed.applied,bounded⟩

theorem indexStep_sendAppendEntries {peerId : Fin n} {args : AppendEntriesArgs Cmd}
    {reply : AppendEntriesReply} {appendNums successes : Int}
    (done : rf.sendAppendEntries peerId args reply appendNums = .ok (rf',successes)) :
    IndexStep rf rf' := by
  have acknowledged : IndexStep rf (rf.acknowledge peerId args) := .same rfl rfl rfl rfl rfl
  rcases sendAppendEntries_ok done with
    ⟨_,_,rfl,_⟩ | ⟨rfl,_⟩ | ⟨_,_,_,rfl,_⟩ | ⟨_,_,_,_,rfl,_⟩ | ⟨_,_,_,_,rfl,bounded,_⟩
  · exact indexStep_stepDown rf reply.term
  · exact .refl _
  · exact .same rfl rfl rfl rfl rfl
  · exact acknowledged
  · exact acknowledged.trans (indexStep_commitRound _ args bounded)

theorem indexStep_leaderSendSnapshot (rf : Raft n Cmd Snap) (peerId : Fin n)
    (req : InstallSnapshotRequest Snap) (resp : InstallSnapshotResponse) :
    IndexStep rf (rf.leaderSendSnapshot peerId req resp) := by
  rcases leaderSendSnapshot_cases rf peerId req resp with eq | ⟨_,_,eq⟩ | ⟨_,_,eq⟩
  · rw [eq]; exact .refl rf
  · rw [eq]; exact (indexStep_stepDown rf resp.term).persist
  · rw [eq]; exact .same rfl rfl rfl rfl rfl

/-- A new entry of the leader's own takes the index behind the last. -/
theorem indexStep_start (rf : Raft n Cmd Snap) (command : Cmd) : IndexStep rf (rf.start command).1 := by
  by_cases leader : rf.status = .Leader
  case neg => rw [start_other leader]; exact .refl rf
  rw [start_leader leader]
  have extended : IndexStep rf { rf with
      logs := rf.logs ++ [⟨command,rf.currentTerm,rf.getNewCommandIndex⟩] } := by
    refine .relog fun indexed => ⟨indexed.memory.numbered.append ?_,by simp⟩
    have last := indexed.last
    simp only [getNewCommandIndex,persistData]
    omega
  exact extended.persist

/-! ### Received entries -/

section Merge
variable [DecidableEq Cmd]

/-- An entry of an index at most one past the end is appended, overwrites its own place or is kept. -/
theorem indexStep_mergeEntry {log : LogEntry Cmd}
    (close : rf.Indexed → log.logindex ≤ rf.getLastLogIndex + 1)
    (done : rf.mergeEntry log = .ok rf') : IndexStep rf rf' := by
  rcases mergeEntry_ok done with ⟨beyond,rfl⟩ | ⟨mine,found,⟨_,rfl⟩ | ⟨_,_,rfl⟩⟩
  · refine .relog fun indexed => ⟨indexed.memory.numbered.append ?_,by simp⟩
    have last := indexed.last
    have close := close indexed
    simp only [persistData]
    omega
  · obtain ⟨above,below,_⟩ := entryAt_ok.mp found
    refine .relog fun indexed => ⟨indexed.memory.numbered.set ?_,by simp⟩
    simp only [persistData]
    omega
  · exact .refl _

/-- Merging an entry brings the log up to its index. -/
theorem mergeEntry_reaches {log : LogEntry Cmd} (indexed : rf.Indexed)
    (close : log.logindex ≤ rf.getLastLogIndex + 1) (done : rf.mergeEntry log = .ok rf') :
    log.logindex ≤ rf'.getLastLogIndex := by
  have step := indexStep_mergeEntry (fun _ => close) done
  rcases mergeEntry_ok done with ⟨beyond,rfl⟩ | ⟨mine,found,_⟩
  · have longer := (step.indexed indexed).last
    have last := indexed.last
    rw [longer]
    simp only [List.length_append,List.length_singleton]
    omega
  · obtain ⟨_,below,_⟩ := entryAt_ok.mp found
    exact below.trans (step.advances indexed).last

theorem indexStep_mergeEntries {first : Int} {entries : List (LogEntry Cmd)}
    (numbered : Consecutive first entries) (close : rf.Indexed → first ≤ rf.getLastLogIndex + 1)
    (done : rf.mergeEntries entries = .ok rf') : IndexStep rf rf' := by
  induction entries generalizing rf first with
  | nil => exact pure_ok.mp done ▸ .refl rf
  | cons log rest ih =>
    simp only [mergeEntries,bind_ok] at done
    obtain ⟨middle,merged,later⟩ := done
    have index : log.logindex = first := by simpa using numbered 0 log rfl
    have step := indexStep_mergeEntry (fun indexed => index ▸ close indexed) merged
    refine ⟨fun indexed => ?_,fun indexed => ?_⟩
    all_goals
      have reached := mergeEntry_reaches indexed (index ▸ close indexed) merged
      have tail := ih numbered.tail (fun _ => by omega) later
    · exact (step.trans tail).indexed indexed
    · exact (step.trans tail).advances indexed

/-- After the merge the log reaches the last received entry. -/
theorem mergeEntries_reaches {first : Int} {entries : List (LogEntry Cmd)} (indexed : rf.Indexed)
    (numbered : Consecutive first entries) (close : first ≤ rf.getLastLogIndex + 1)
    (done : rf.mergeEntries entries = .ok rf') : first + entries.length ≤ rf'.getLastLogIndex + 1 := by
  induction entries generalizing rf first with
  | nil =>
    obtain rfl := pure_ok.mp done
    simpa using close
  | cons log rest ih =>
    simp only [mergeEntries,bind_ok] at done
    obtain ⟨middle,merged,later⟩ := done
    have index : log.logindex = first := by simpa using numbered 0 log rfl
    have step := indexStep_mergeEntry (fun _ => index ▸ close) merged
    have reached := mergeEntry_reaches indexed (index ▸ close) merged
    have tail := ih (step.indexed indexed) numbered.tail (by omega) later
    rw [List.length_cons]
    omega

omit [DecidableEq Cmd] in
theorem indexStep_follow (rf : Raft n Cmd Snap) (term : Int) : IndexStep rf (rf.follow term) :=
  (indexStep_observe rf term).trans (.same rfl rfl rfl rfl rfl)

theorem indexStep_appendEntriesimpl {args : AppendEntriesArgs Cmd} {reply : AppendEntriesReply}
    (numbered : Consecutive (args.prevlogindex + 1) args.entries)
    (done : rf.appendEntriesimpl args = .ok (rf',reply)) : IndexStep rf rf' := by
  have followed := indexStep_follow rf args.term
  rcases appendEntriesimpl_ok done with
    ⟨_,_,rfl⟩ | ⟨_,_,_,rfl⟩ | ⟨_,_,_,found,merged,merge,_,_,rfl⟩
  · exact .refl _
  · exact followed.persist
  · obtain ⟨_,below,_⟩ := getLogTermFromLogIndex_ok.mp found
    have step := indexStep_mergeEntries numbered (fun _ => by omega) merge
    exact ((followed.trans step).trans (indexStep_commitTo merged args.leadercommit)).persist

end Merge

/-! ### Snapshots and applied entries -/

/-- Cutting the log at an index inside it, or dropping all of it for an index beyond it. -/
theorem indexStep_cut {index term : Int} {logs : List (LogEntry Cmd)}
    (above : rf.lastSnapshotIncludeIndex < index)
    (shape : rf.Indexed → Consecutive (index + 1) logs ∧
      max rf.getLastLogIndex index = index + logs.length) :
    IndexStep rf ({ rf with
      logs := logs
      lastSnapshotIncludeIndex := index
      lastSnapshotIncludeTerm := term
      commitIndex := max rf.commitIndex index
      lastApplied := max rf.lastApplied index }) := by
  have cut : rf.Indexed → BoostPersistRaftNode.Indexed
      ⟨rf.currentTerm,rf.votedFor,index,term,logs⟩ := fun indexed =>
    ⟨(le_of_lt above).trans' indexed.base,(shape indexed).1⟩
  refine .moved cut (.inl rfl) fun indexed => ?_
  have last : getLastLogIndex { rf with
      logs := logs
      lastSnapshotIncludeIndex := index
      lastSnapshotIncludeTerm := term
      commitIndex := max rf.commitIndex index
      lastApplied := max rf.lastApplied index } = max rf.getLastLogIndex index := by
    have numbered : Numbered { rf with
        logs := logs
        lastSnapshotIncludeIndex := index
        lastSnapshotIncludeTerm := term
        commitIndex := max rf.commitIndex index
        lastApplied := max rf.lastApplied index } := (shape indexed).1
    exact (getLastLogIndex_eq numbered).trans (shape indexed).2.symm
  obtain ⟨_,_,_,applied,committed,_⟩ := indexed
  refine ⟨⟨?_,le_max_left ..,le_max_left ..⟩,le_max_right ..,?_,?_⟩
  all_goals rw [last]
  · exact le_max_left ..
  · exact max_le_max_right _ applied
  · exact max_le_max_right _ committed

theorem keptAbove_shape {index : Int} (indexed : rf.Indexed) (above : rf.lastSnapshotIncludeIndex < index) :
    Consecutive (index + 1) (rf.keptAbove index) ∧
      max rf.getLastLogIndex index = index + (rf.keptAbove index).length := by
  have last := indexed.last
  unfold keptAbove
  split
  · have shift : rf.lastSnapshotIncludeIndex + 1 +
        ((index - rf.lastSnapshotIncludeIndex).toNat : Int) = index + 1 := by omega
    refine ⟨shift ▸ indexed.memory.numbered.drop _,?_⟩
    rw [List.length_drop]
    omega
  · refine ⟨.nil,?_⟩
    simp only [List.length_nil]
    omega

theorem indexStep_followDurably (rf : Raft n Cmd Snap) (term : Int) :
    IndexStep rf (rf.followDurably term) := by
  unfold followDurably
  split
  · exact (indexStep_stepDown rf term).persist.trans (.same rfl rfl rfl rfl rfl)
  · exact .same rfl rfl rfl rfl rfl

theorem indexStep_installSnapshotImpl {args : InstallSnapshotRequest Snap}
    {answer : InstallSnapshotResponse × Option (ApplyMsg Cmd Snap)}
    (done : rf.installSnapshotImpl args = .ok (rf',answer)) : IndexStep rf rf' := by
  have followed := indexStep_followDurably rf args.term
  rcases installSnapshotImpl_cases rf args with ⟨_,eq⟩ | ⟨_,_,eq⟩ | ⟨_,above,eq⟩
  all_goals obtain ⟨rfl,rfl⟩ := Prod.mk.inj (Except.ok.inj (eq.symm.trans done))
  · exact .refl rf
  · exact followed
  · have kept : (rf.followDurably args.term).keptAbove args.lastsnapshotincludeindex =
        rf.keptAbove args.lastsnapshotincludeindex := by simp [keptAbove]
    have above : (rf.followDurably args.term).lastSnapshotIncludeIndex <
        args.lastsnapshotincludeindex := by rw [followDurably_base]; exact above
    rw [← kept]
    have cut : IndexStep _ ((rf.followDurably args.term).installed args
        ((rf.followDurably args.term).keptAbove args.lastsnapshotincludeindex)) :=
      indexStep_cut above fun indexed => keptAbove_shape indexed above
    exact (followed.trans cut).saveSnapshot args.data

theorem compacted_numbered (numbered : rf.Numbered) {index : Int} (above : rf.lastSnapshotIncludeIndex < index)
    (term : Int) : (rf.compacted index term).Numbered := by
  have shift : rf.lastSnapshotIncludeIndex + 1 +
      ((index - rf.lastSnapshotIncludeIndex).toNat : Int) = index + 1 := by omega
  have dropped := Consecutive.drop numbered (index - rf.lastSnapshotIncludeIndex).toNat
  rw [shift] at dropped
  exact dropped

theorem indexStep_compacted {index term : Int} (above : rf.lastSnapshotIncludeIndex < index)
    (below : index ≤ rf.getLastLogIndex) : IndexStep rf (rf.compacted index term) := by
  refine indexStep_cut above fun indexed => ?_
  have last := indexed.last
  refine ⟨compacted_numbered indexed.memory.numbered above term,?_⟩
  rw [List.length_drop]
  omega

theorem indexStep_snapshot {index : Int} {data : Option Snap}
    (done : rf.snapshot index data = .ok rf') : IndexStep rf rf' := by
  rcases snapshot_ok done with ⟨rfl,_⟩ | ⟨above,_,term,found,rfl⟩
  · exact .refl _
  · obtain ⟨_,below,_⟩ := getLogTermFromLogIndex_ok.mp found
    exact (indexStep_compacted above below).saveSnapshot data

theorem indexStep_getApplyLogs {messages : List (ApplyMsg Cmd Snap)}
    (done : rf.getApplyLogs = .ok (rf',messages)) : IndexStep rf rf' := by
  obtain ⟨bounded,rfl,_,_⟩ := getApplyLogs_ok done
  refine .moved Indexed.memory (.inl rfl) fun indexed => ?_
  obtain ⟨_,_,compacted,applied,_,_⟩ := indexed
  exact ⟨⟨le_rfl,le_rfl,le_max_left ..⟩,le_max_of_le_left compacted,max_le applied bounded,bounded⟩

variable [DecidableEq Cmd]

/-- A caller's entries continue from `PrevLogIndex`; nothing else is asked of any action. -/
def Continues : NodeAction n Cmd Snap → Prop
  | .appendEntriesimpl args => Consecutive (args.prevlogindex + 1) args.entries
  | _ => True

theorem indexStep_handle {action : NodeAction n Cmd Snap} (continues : Continues action)
    (done : rf.handle action = .ok rf') : IndexStep rf rf' := by
  cases action with
  | doElection =>
    obtain rfl := Except.ok.inj done
    by_cases leader : rf.status = .Leader
    · rw [doElection_leader leader]; exact .refl _
    · rw [doElection_candidate leader]
      have voted : IndexStep rf { rf with
          status := .Candidate, currentTerm := rf.currentTerm + 1, votedFor := (rf.raftId.val : Int) } :=
        .same rfl rfl rfl rfl rfl
      exact voted.persist
  | requestVoteImpl args =>
    obtain ⟨reply,done⟩ := map_fst_ok.mp done
    exact indexStep_requestVoteImpl done
  | sendRequestVote reply voteNums =>
    obtain ⟨answer,done⟩ := map_fst_ok.mp done
    exact indexStep_sendRequestVote done
  | doHeartBeat =>
    simp only [handle] at done
    split at done
    · obtain rfl := Except.ok.inj done; exact .refl _
    · cases done
  | appendEntriesimpl args =>
    obtain ⟨reply,done⟩ := map_fst_ok.mp done
    exact indexStep_appendEntriesimpl continues done
  | sendAppendEntries peerId args reply appendNums =>
    obtain ⟨answer,done⟩ := map_fst_ok.mp done
    exact indexStep_sendAppendEntries done
  | installSnapshotImpl args =>
    obtain ⟨answer,done⟩ := map_fst_ok.mp done
    exact indexStep_installSnapshotImpl done
  | leaderSendSnapshot peerId req resp =>
    obtain rfl := Except.ok.inj done
    exact indexStep_leaderSendSnapshot ..
  | start command =>
    obtain rfl := Except.ok.inj done
    exact indexStep_start ..
  | snapshot index data => exact indexStep_snapshot done
  | getApplyLogs =>
    obtain ⟨messages,done⟩ := map_fst_ok.mp done
    exact indexStep_getApplyLogs done
  | crash => cases done

/-- Only the last assertion of `snapshot` exits with files other than those before. -/
theorem exit_files {action : NodeAction n Cmd Snap} (exit : rf.handle action = .error left) :
    left = rf.persister ∨ ∃ index data, action = .snapshot index data ∧
      rf.snapshot index data = .error left := by
  cases action with
  | doElection => cases exit
  | requestVoteImpl args =>
    have exit := map_error.mp exit
    rcases requestVoteImpl_cases rf args with ⟨_,_,_,eq⟩ | ⟨_,_,_,eq⟩ | ⟨_,_,_,_,_,_,eq⟩
    all_goals cases eq.symm.trans exit
  | sendRequestVote reply voteNums => exact .inl (sendRequestVote_error (map_error.mp exit))
  | doHeartBeat =>
    simp only [handle] at exit
    split at exit
    · cases exit
    · next files stopped =>
      obtain rfl := Except.error.inj exit
      exact .inl ((doHeartBeat_spec rfl).2 _ stopped)
  | appendEntriesimpl args => exact .inl (appendEntriesimpl_error (map_error.mp exit))
  | sendAppendEntries peerId args reply appendNums =>
    exact .inl (sendAppendEntries_error (map_error.mp exit))
  | installSnapshotImpl args =>
    have exit := map_error.mp exit
    rcases installSnapshotImpl_cases rf args with ⟨_,eq⟩ | ⟨_,_,eq⟩ | ⟨_,_,eq⟩
    all_goals cases eq.symm.trans exit
  | leaderSendSnapshot peerId req resp => cases exit
  | start command => cases exit
  | snapshot index data => exact .inr ⟨index,data,rfl,exit⟩
  | getApplyLogs => exact .inl (getApplyLogs_error (map_error.mp exit))
  | crash => exact .inl (Except.error.inj exit).symm

/-- A restart finds a log in shape whatever step the process ended in. -/
theorem Indexed.exit {action : NodeAction n Cmd Snap} (indexed : rf.Indexed)
    (exit : rf.handle action = .error left) : (init rf.raftId left).Indexed := by
  refine .restart rf.raftId ?_
  rcases exit_files exit with rfl | ⟨index,data,rfl,failed⟩
  · exact indexed.saved
  rcases snapshot_error failed with rfl | ⟨above,_,term,found,rfl⟩
  · exact indexed.saved
  · obtain ⟨_,below,_⟩ := getLogTermFromLogIndex_ok.mp found
    exact ((indexStep_compacted above below).saveSnapshot data |>.indexed indexed).saved

end Raft
end KvStorage
