import KvStorage.LogIndexes
import KvStorage.LogRange

/-! What the merge loop of `appendEntriesimpl` makes of a log: the received entries in their
places, with everything around them as it was. The old entries behind them stay, whatever the
received ones changed below. -/
namespace KvStorage
open Exit

/-- `entries` in place of what is at `d`. -/
def splice (logs : List α) (d : Nat) (entries : List α) : List α :=
  logs.take d ++ entries ++ logs.drop (d + entries.length)

section Splice
variable {logs entries : List α} {d k : Nat}

theorem splice_length (inside : d ≤ logs.length) :
    (splice logs d entries).length = max logs.length (d + entries.length) := by
  simp only [splice,List.length_append,List.length_take,List.length_drop]
  omega

theorem getElem?_splice (inside : d ≤ logs.length) : (splice logs d entries)[k]? =
    if k < d ∨ d + entries.length ≤ k then logs[k]? else entries[k - d]? := by
  have front : (logs.take d).length = d := List.length_take_of_le inside
  have middle : (logs.take d ++ entries).length = d + entries.length := by
    rw [List.length_append,front]
  simp only [splice]
  by_cases low : k < d
  · rw [if_pos (.inl low),List.getElem?_append_left (by omega),List.getElem?_append_left (by omega),
      List.getElem?_take_of_lt low]
  by_cases high : d + entries.length ≤ k
  · rw [if_pos (.inr high),List.getElem?_append_right (by omega),List.getElem?_drop,middle]
    congr 1
    omega
  · rw [if_neg (by omega),List.getElem?_append_left (by omega),List.getElem?_append_right (by omega),front]

theorem splice_nil : splice logs d [] = logs := by
  rw [splice,List.append_nil,List.length_nil,Nat.add_zero,List.take_append_drop]

/-- One entry after the other. -/
theorem splice_cons {x : α} (inside : d ≤ logs.length) :
    splice (splice logs d [x]) (d + 1) entries = splice logs d (x :: entries) := by
  have longer : d + 1 ≤ (splice logs d [x]).length := by
    rw [splice_length inside,List.length_singleton]
    exact le_max_right ..
  refine List.ext_getElem? fun k => ?_
  rw [getElem?_splice longer,getElem?_splice inside,getElem?_splice inside]
  simp only [List.length_cons,List.length_nil]
  rcases lt_trichotomy k d with low | rfl | high
  · rw [if_pos (.inl (by omega)),if_pos (.inl low),if_pos (.inl low)]
  · rw [if_pos (.inl (by omega)),if_neg (by omega),if_neg (by omega),Nat.sub_self]
    rfl
  · by_cases beyond : d + 1 + entries.length ≤ k
    · rw [if_pos (.inr beyond),if_pos (.inr (by omega)),if_pos (.inr (by omega))]
    · have shift : k - d = k - (d + 1) + 1 := by omega
      rw [if_neg (by omega),if_neg (by omega),shift,List.getElem?_cons_succ]

end Splice

theorem Consecutive.splice {first : Int} {logs entries : List (LogEntry Cmd)} {d : Nat}
    (mine : Consecutive first logs) (theirs : Consecutive (first + d) entries) (inside : d ≤ logs.length) :
    Consecutive first (splice logs d entries) := by
  intro k entry found
  rw [getElem?_splice inside] at found
  split at found
  · exact mine k entry found
  · have := theirs _ entry found
    omega

namespace Raft

variable {rf rf' : Raft n Cmd Snap} {left : Persister Cmd Snap}

/-! ### Nodes of one log -/

/-- The same entries above the same base. -/
structure SameLog (rf rf' : Raft n Cmd Snap) : Prop where
  logs : rf'.logs = rf.logs
  base : rf'.lastSnapshotIncludeIndex = rf.lastSnapshotIncludeIndex
  baseTerm : rf'.lastSnapshotIncludeTerm = rf.lastSnapshotIncludeTerm

namespace SameLog

theorem held (same : SameLog rf rf') : rf'.held = rf.held := by
  funext i
  simp only [Raft.held,same.logs,same.base]

theorem numbered (same : SameLog rf rf') (numbered : rf.Numbered) : rf'.Numbered := by
  rw [Numbered,same.logs,same.base]
  exact numbered

theorem last (same : SameLog rf rf') : rf'.getLastLogIndex = rf.getLastLogIndex := by
  simp only [getLastLogIndex,getLastLogIndexAndTerm,same.logs,same.base,same.baseTerm]

theorem termAt (same : SameLog rf rf') (numbered : rf.Numbered) {i term : Int} :
    rf'.getLogTermFromLogIndex i = .ok term ↔ rf.getLogTermFromLogIndex i = .ok term := by
  simp only [getLogTermFromLogIndex_ok,entryAt_iff numbered,entryAt_iff (same.numbered numbered),
    same.held,same.last,same.base,same.baseTerm]

theorem trans {mid : Raft n Cmd Snap} (one : SameLog rf mid) (two : SameLog mid rf') : SameLog rf rf' :=
  ⟨two.logs.trans one.logs,two.base.trans one.base,two.baseTerm.trans one.baseTerm⟩

theorem follow (rf : Raft n Cmd Snap) (term : Int) : SameLog rf (rf.follow term) :=
  ⟨observe_logs rf term,observe_base rf term,observe_baseTerm rf term⟩

theorem persist (same : SameLog rf rf') : SameLog rf rf'.persist := ⟨same.logs,same.base,same.baseTerm⟩

theorem commitTo (rf : Raft n Cmd Snap) (leadercommit : Int) : SameLog rf (rf.commitTo leadercommit) := by
  unfold Raft.commitTo
  split <;> exact ⟨rfl,rfl,rfl⟩

end SameLog

/-! ### Received entries in their places -/

/-- Where the log has an entry of the same index and term, it has the same command. -/
def Agrees (rf : Raft n Cmd Snap) (entries : List (LogEntry Cmd)) : Prop :=
  ∀ log ∈ entries, ∀ mine ∈ rf.held log.logindex, mine.logterm = log.logterm → mine.command = log.command

instance [DecidableEq Cmd] (rf : Raft n Cmd Snap) (entries : List (LogEntry Cmd)) : Decidable (rf.Agrees entries) :=
  inferInstanceAs (Decidable (∀ log ∈ entries, ∀ mine ∈ rf.held log.logindex, _))

/-- The log with the received entries in their places. -/
def merged (rf : Raft n Cmd Snap) (first : Int) (entries : List (LogEntry Cmd)) : Raft n Cmd Snap :=
  { rf with logs := splice rf.logs (first - rf.lastSnapshotIncludeIndex - 1).toNat entries }

section Merged
variable {first : Int} {entries : List (LogEntry Cmd)}

theorem merged_numbered (numbered : rf.Numbered) (theirs : Consecutive first entries)
    (above : rf.lastSnapshotIncludeIndex < first) (close : first ≤ rf.getLastLogIndex + 1) :
    (rf.merged first entries).Numbered := by
  have last := getLastLogIndex_eq numbered
  refine Consecutive.splice numbered (d := (first - rf.lastSnapshotIncludeIndex - 1).toNat) ?_ (by omega)
  have place : rf.lastSnapshotIncludeIndex + 1 +
      ((first - rf.lastSnapshotIncludeIndex - 1).toNat : Int) = first := by omega
  rw [← place] at theirs
  exact theirs

theorem merged_getLastLogIndex (numbered : rf.Numbered) (theirs : Consecutive first entries)
    (above : rf.lastSnapshotIncludeIndex < first) (close : first ≤ rf.getLastLogIndex + 1) :
    (rf.merged first entries).getLastLogIndex = max rf.getLastLogIndex (first + entries.length - 1) := by
  have last := getLastLogIndex_eq numbered
  rw [getLastLogIndex_eq (merged_numbered numbered theirs above close)]
  change rf.lastSnapshotIncludeIndex + ((splice rf.logs _ entries).length : Int) = _
  rw [splice_length (by omega)]
  omega

/-- Inside the received range the received entry, elsewhere the old one. -/
theorem merged_held (numbered : rf.Numbered) (above : rf.lastSnapshotIncludeIndex < first)
    (close : first ≤ rf.getLastLogIndex + 1) (i : Int) : (rf.merged first entries).held i =
      if i < first ∨ first + entries.length ≤ i then rf.held i else entries[(i - first).toNat]? := by
  have last := getLastLogIndex_eq numbered
  unfold held
  change (if rf.lastSnapshotIncludeIndex < i then
    (splice rf.logs _ entries)[(i - rf.lastSnapshotIncludeIndex - 1).toNat]? else none) = _
  by_cases low : rf.lastSnapshotIncludeIndex < i
  · rw [if_pos low,if_pos low,getElem?_splice (by omega)]
    by_cases outside : i < first ∨ first + entries.length ≤ i
    · rw [if_pos outside,if_pos (by omega)]
    · rw [if_neg outside,if_neg (by omega)]
      congr 1
      omega
  · rw [if_neg low,if_neg low,if_pos (.inl (by omega))]

end Merged

theorem merged_cons {log : LogEntry Cmd} {rest : List (LogEntry Cmd)} (numbered : rf.Numbered)
    (above : rf.lastSnapshotIncludeIndex < log.logindex) (close : log.logindex ≤ rf.getLastLogIndex + 1) :
    (rf.merged log.logindex [log]).merged (log.logindex + 1) rest = rf.merged log.logindex (log :: rest) := by
  have last := getLastLogIndex_eq numbered
  have next : (log.logindex + 1 - rf.lastSnapshotIncludeIndex - 1).toNat =
      (log.logindex - rf.lastSnapshotIncludeIndex - 1).toNat + 1 := by omega
  simp only [merged,next]
  rw [splice_cons (by omega)]

variable [DecidableEq Cmd]

theorem mergeEntry_merged (numbered : rf.Numbered) {log : LogEntry Cmd}
    (above : rf.lastSnapshotIncludeIndex < log.logindex) (close : log.logindex ≤ rf.getLastLogIndex + 1)
    (done : rf.mergeEntry log = .ok rf') : rf' = rf.merged log.logindex [log] := by
  have last := getLastLogIndex_eq numbered
  rcases mergeEntry_ok done with ⟨beyond,rfl⟩ | ⟨mine,read,outcome⟩
  · have place : (log.logindex - rf.lastSnapshotIncludeIndex - 1).toNat = rf.logs.length := by omega
    simp only [merged,splice,place,List.take_length,List.drop_eq_nil_of_le (Nat.le_add_right ..),
      List.append_nil]
  · have found := (entryAt_iff numbered).mp read
    have index := held_logindex numbered found
    obtain ⟨_,there⟩ := held_iff.mp found
    obtain ⟨bound,here⟩ := List.getElem?_eq_some_iff.mp there
    rcases outcome with ⟨_,rfl⟩ | ⟨sameTerm,sameCommand,rfl⟩
    · simp only [merged,splice,List.set_eq_take_append_cons_drop,if_pos bound,List.length_singleton,
        List.append_assoc,List.singleton_append]
    · have same : mine = log := LogEntry.ext sameCommand sameTerm index
      have kept : splice rf'.logs (log.logindex - rf'.lastSnapshotIncludeIndex - 1).toNat [log] = rf'.logs := by
        refine List.ext_getElem? fun k => ?_
        rw [getElem?_splice (by omega)]
        split
        · rfl
        · next at' =>
          have spot : k = (log.logindex - rf'.lastSnapshotIncludeIndex - 1).toNat := by
            rw [List.length_singleton] at at'
            omega
          subst spot
          rw [Nat.sub_self,there,same]
          rfl
      simp only [merged,kept]

theorem mergeEntry_goes_iff (numbered : rf.Numbered) {log : LogEntry Cmd}
    (above : rf.lastSnapshotIncludeIndex < log.logindex) :
    (∃ rf', rf.mergeEntry log = .ok rf') ↔ rf.Agrees [log] := by
  simp only [Agrees,List.forall_mem_singleton]
  constructor
  · rintro ⟨rf',done⟩ mine found same
    rcases mergeEntry_ok done with ⟨beyond,_⟩ | ⟨other,read,outcome⟩
    · have last := (entryAt_ok.mp ((entryAt_iff numbered).mpr found)).2.1
      omega
    · obtain rfl := Option.some.inj (((entryAt_iff numbered).mp read).symm.trans found)
      rcases outcome with ⟨differs,_⟩ | ⟨_,agrees,_⟩
      · exact absurd same differs
      · exact agrees
  · intro agrees
    cases done : rf.mergeEntry log with
    | ok rf' => exact ⟨rf',rfl⟩
    | error left =>
      obtain ⟨mine,read,same,clash⟩ := mergeEntry_inside numbered above done
      exact absurd (agrees mine ((entryAt_iff numbered).mp read) same) clash

/-- The loop ends exactly when nothing contradicts it, with every received entry in its place. -/
theorem mergeEntries_ok_iff {first : Int} {entries : List (LogEntry Cmd)} (numbered : rf.Numbered)
    (theirs : Consecutive first entries) (above : rf.lastSnapshotIncludeIndex < first)
    (close : first ≤ rf.getLastLogIndex + 1) :
    rf.mergeEntries entries = .ok rf' ↔ rf.Agrees entries ∧ rf' = rf.merged first entries := by
  induction entries generalizing rf first with
  | nil =>
    simp only [mergeEntries,pure_ok,merged,splice_nil]
    constructor
    · intro same
      exact ⟨by simp [Agrees],same.symm⟩
    · intro agreed
      exact agreed.2.symm
  | cons log rest ih =>
    obtain rfl : log.logindex = first := by simpa using theirs 0 log rfl
    have one : Consecutive log.logindex [log] := Consecutive.nil.append (by simp)
    have numbered' := merged_numbered numbered one above close
    have last' : log.logindex + 1 ≤ (rf.merged log.logindex [log]).getLastLogIndex + 1 := by
      rw [merged_getLastLogIndex numbered one above close,List.length_singleton]
      omega
    have above' : (rf.merged log.logindex [log]).lastSnapshotIncludeIndex < log.logindex + 1 := by
      change rf.lastSnapshotIncludeIndex < _
      omega
    have tail := ih numbered' theirs.tail above' last'
    rw [merged_cons numbered above close] at tail
    -- the entry just written is no entry of the rest
    have apart : (rf.merged log.logindex [log]).Agrees rest ↔ rf.Agrees rest := by
      have same : ∀ later ∈ rest, (rf.merged log.logindex [log]).held later.logindex = rf.held later.logindex := by
        intro later member
        obtain ⟨k,found⟩ := List.mem_iff_getElem?.mp member
        have index := theirs.tail k later found
        rw [merged_held numbered above close,if_pos (.inr (by rw [List.length_singleton]; omega))]
      exact forall₂_congr fun later member => by rw [same later member]
    have split : rf.Agrees (log :: rest) ↔ rf.Agrees [log] ∧ rf.Agrees rest := by
      simp [Agrees]
    rw [split,and_assoc,← apart,← tail,← mergeEntry_goes_iff numbered above]
    simp only [mergeEntries,bind_ok]
    constructor
    · rintro ⟨middle,done,later⟩
      exact ⟨⟨middle,done⟩,mergeEntry_merged numbered above close done ▸ later⟩
    · rintro ⟨⟨middle,done⟩,later⟩
      exact ⟨middle,done,(mergeEntry_merged numbered above close done).symm ▸ later⟩

/-! ### The handler -/

omit [DecidableEq Cmd] in
theorem commitTo_bounded {leadercommit : Int} (bounded : rf.commitIndex ≤ rf.getLastLogIndex) :
    (rf.commitTo leadercommit).commitIndex ≤ rf.getLastLogIndex := by
  unfold commitTo
  split
  · exact min_le_right ..
  · exact bounded

/-- The state that accepts matching args. -/
def accepted (rf : Raft n Cmd Snap) (args : AppendEntriesArgs Cmd) : Raft n Cmd Snap :=
  (((rf.follow args.term).merged (args.prevlogindex + 1) args.entries).commitTo args.leadercommit).persist

omit [DecidableEq Cmd] in
theorem accepted_indexes {args : AppendEntriesArgs Cmd} (numbered : rf.Numbered)
    (bounded : rf.commitIndex ≤ rf.getLastLogIndex) (theirs : Consecutive (args.prevlogindex + 1) args.entries)
    (above : rf.lastSnapshotIncludeIndex ≤ args.prevlogindex) (below : args.prevlogindex ≤ rf.getLastLogIndex) :
    (rf.accepted args).Numbered ∧ (rf.accepted args).getLastLogIndex = max rf.getLastLogIndex args.lastIndex ∧
      (rf.accepted args).commitIndex ≤ (rf.accepted args).getLastLogIndex := by
  have same := SameLog.follow rf args.term
  have numbered' := same.numbered numbered
  have above' : (rf.follow args.term).lastSnapshotIncludeIndex < args.prevlogindex + 1 := by
    rw [same.base]
    omega
  have close : args.prevlogindex + 1 ≤ (rf.follow args.term).getLastLogIndex + 1 := by
    rw [same.last]
    omega
  have last := merged_getLastLogIndex numbered' theirs above' close
  rw [same.last] at last
  have after : SameLog ((rf.follow args.term).merged (args.prevlogindex + 1) args.entries) (rf.accepted args) :=
    (SameLog.commitTo _ _).persist
  refine ⟨after.numbered (merged_numbered numbered' theirs above' close),?_,?_⟩
  · rw [after.last,last,AppendEntriesArgs.lastIndex]
    omega
  · rw [after.last]
    refine commitTo_bounded ?_
    rw [last]
    exact ((observe_commitIndex rf args.term).trans_le bounded).trans (le_max_left ..)

/-- Args of this term that continue an entry of the log are accepted, unless an entry contradicts. -/
theorem appendEntriesimpl_accepts {args : AppendEntriesArgs Cmd} (numbered : rf.Numbered)
    (bounded : rf.commitIndex ≤ rf.getLastLogIndex) (current : rf.currentTerm ≤ args.term)
    (theirs : Consecutive (args.prevlogindex + 1) args.entries)
    (matching : rf.getLogTermFromLogIndex args.prevlogindex = .ok args.prevlogterm) :
    (rf.Agrees args.entries ∧ rf.appendEntriesimpl args =
      .ok (rf.accepted args,{ term := args.term, success := true, appstate := AppNormal })) ∨
    (¬ rf.Agrees args.entries ∧ ∃ left, rf.appendEntriesimpl args = .error left) := by
  have same := SameLog.follow rf args.term
  have term := observe_of_le rf _ current
  obtain ⟨above,below,_⟩ := getLogTermFromLogIndex_ok.mp matching
  have numbered' := same.numbered numbered
  have agrees : (rf.follow args.term).Agrees args.entries ↔ rf.Agrees args.entries := by
    simp only [Agrees,same.held]
  have above' : (rf.follow args.term).lastSnapshotIncludeIndex < args.prevlogindex + 1 := by
    rw [same.base]
    omega
  have close : args.prevlogindex + 1 ≤ (rf.follow args.term).getLastLogIndex + 1 := by
    rw [same.last]
    omega
  have matched : (rf.follow args.term).matchLog args.prevlogindex args.prevlogterm = .ok true :=
    matchLog_ok.mpr ⟨_,(same.termAt numbered).mpr matching,by simp⟩
  have within : ¬ args.prevlogindex > (rf.follow args.term).getLastLogIndex := by
    rw [same.last]
    omega
  have inside : ¬ args.prevlogindex < (rf.follow args.term).lastSnapshotIncludeIndex := by
    rw [same.base]
    omega
  have loop : ∀ result, (rf.follow args.term).mergeEntries args.entries = .ok result ↔
      (rf.follow args.term).Agrees args.entries ∧
        result = (rf.follow args.term).merged (args.prevlogindex + 1) args.entries := fun _ =>
    mergeEntries_ok_iff numbered' theirs above' close
  rw [← agrees]
  by_cases agreed : (rf.follow args.term).Agrees args.entries
  · refine .inl ⟨agreed,?_⟩
    obtain ⟨_,last,committed⟩ := accepted_indexes numbered bounded theirs above below
    have after : SameLog ((rf.follow args.term).merged (args.prevlogindex + 1) args.entries) (rf.accepted args) :=
      (SameLog.commitTo _ _).persist
    have reaches : args.lastIndex ≤
        ((rf.follow args.term).merged (args.prevlogindex + 1) args.entries).getLastLogIndex := by
      rw [← after.last,last]
      exact le_max_right ..
    simp only [appendEntriesimpl,if_neg (not_lt.mpr current),bind_ok]
    refine ⟨(),myAssert_ok.mpr term.symm,?_⟩
    refine (if_neg within).trans ((if_neg inside).trans ?_)
    simp only [bind_ok]
    refine ⟨true,matched,?_⟩
    simp only [if_true,bind_ok,myAssert_ok]
    refine ⟨_,(loop _).mpr ⟨agreed,rfl⟩,(),reaches,(),committed,?_⟩
    rw [commitTo_currentTerm]
    have now : ((rf.follow args.term).merged (args.prevlogindex + 1) args.entries).currentTerm = args.term := term
    rw [now]
    rfl
  · refine .inr ⟨agreed,?_⟩
    cases merge : (rf.follow args.term).mergeEntries args.entries with
    | ok merged => exact absurd ((loop merged).mp merge).1 agreed
    | error left =>
      refine ⟨left,?_⟩
      simp only [appendEntriesimpl,if_neg (not_lt.mpr current),bind_error]
      refine .inr ⟨(),myAssert_ok.mpr term.symm,?_⟩
      refine (if_neg within).trans ((if_neg inside).trans ?_)
      simp only [bind_error]
      refine .inr ⟨true,matched,?_⟩
      simp only [if_true,bind_error]
      exact .inl merge

omit [DecidableEq Cmd] in
theorem conflictHint_ok {prevlogindex default hint : Int} {rounds : Nat}
    (done : rf.conflictHint prevlogindex default rounds = .ok hint) : hint = default ∨
      (rf.lastSnapshotIncludeIndex < hint ∧ hint ≤ rf.lastSnapshotIncludeIndex + rounds ∧
        hint ≠ prevlogindex + 1) := by
  induction rounds with
  | zero => exact .inl (pure_ok.mp done).symm
  | succ remaining ih =>
    simp only [conflictHint,bind_ok] at done
    obtain ⟨term,read,prevTerm,readPrev,done⟩ := done
    split at done
    · next differs =>
      obtain rfl := pure_ok.mp done
      refine .inr ⟨by omega,by omega,fun same => differs ?_⟩
      rw [add_right_cancel same,readPrev] at read
      exact (Except.ok.inj read).symm
    · rcases ih done with default | ⟨low,high,other⟩
      · exact .inl default
      · exact .inr ⟨low,by omega,other⟩

/-- Where a refusal sends the leader: right behind a log or a snapshot that ends earlier, or
back inside the log. -/
inductive Hint (rf : Raft n Cmd Snap) (args : AppendEntriesArgs Cmd) : Int → Prop where
  | short (beyond : rf.getLastLogIndex < args.prevlogindex) : Hint rf args (rf.getLastLogIndex + 1)
  | compacted (below : args.prevlogindex < rf.lastSnapshotIncludeIndex) :
    Hint rf args (rf.lastSnapshotIncludeIndex + 1)
  | conflict {hint} (above : rf.lastSnapshotIncludeIndex ≤ args.prevlogindex)
    (within : args.prevlogindex ≤ rf.getLastLogIndex) (back : hint ≤ args.prevlogindex)
    (inside : hint = args.prevlogindex ∨ rf.lastSnapshotIncludeIndex < hint) : Hint rf args hint

/-- Args that continue no entry of the log are refused, and only the term is taken over. -/
theorem appendEntriesimpl_refuses {args : AppendEntriesArgs Cmd} (numbered : rf.Numbered)
    (current : rf.currentTerm ≤ args.term)
    (unmatched : rf.getLogTermFromLogIndex args.prevlogindex ≠ .ok args.prevlogterm) :
    ∃ hint, rf.Hint args hint ∧ rf.appendEntriesimpl args =
      .ok ((rf.follow args.term).persist,
        { term := args.term, success := false, updatenextindex := hint, appstate := AppNormal }) := by
  have same := SameLog.follow rf args.term
  have term : (rf.follow args.term).currentTerm = args.term := observe_of_le rf _ current
  have asserted : ∀ {rest : Except (Persister Cmd Snap) (Raft n Cmd Snap × AppendEntriesReply)} {answer},
      rest = .ok answer → (do
        (rf.observe args.term).myAssert (args.term = (rf.observe args.term).currentTerm)
        rest) = .ok answer := by
    intro rest answer done
    exact bind_ok.mpr ⟨(),myAssert_ok.mpr term.symm,done⟩
  have answered := fun hint : Int => congrArg (fun t : Int =>
    (.ok ((rf.follow args.term).persist,{ term := t, updatenextindex := hint, appstate := AppNormal }) :
      Except (Persister Cmd Snap) (Raft n Cmd Snap × AppendEntriesReply))) term
  by_cases beyond : args.prevlogindex > (rf.follow args.term).getLastLogIndex
  · refine ⟨_,.short (same.last ▸ beyond),?_⟩
    simp only [appendEntriesimpl,if_neg (not_lt.mpr current)]
    refine asserted ((if_pos beyond).trans ?_)
    rw [← same.last]
    exact answered _
  by_cases below : args.prevlogindex < (rf.follow args.term).lastSnapshotIncludeIndex
  · refine ⟨_,.compacted (same.base ▸ below),?_⟩
    simp only [appendEntriesimpl,if_neg (not_lt.mpr current)]
    refine asserted ((if_neg beyond).trans ((if_pos below).trans ?_))
    rw [← same.base]
    exact answered _
  have within := not_lt.mp beyond
  have above := not_lt.mp below
  have numbered' := same.numbered numbered
  obtain ⟨prevTerm,read⟩ := getLogTermFromLogIndex_inside numbered' above within
  have differs : (args.prevlogterm == prevTerm) = false := by
    rw [beq_eq_false_iff_ne]
    rintro rfl
    exact unmatched ((same.termAt numbered).mp read)
  have compared : (rf.follow args.term).matchLog args.prevlogindex args.prevlogterm = .ok false :=
    matchLog_ok.mpr ⟨prevTerm,read,differs.symm⟩
  have rounds : (rf.follow args.term).lastSnapshotIncludeIndex +
      ((args.prevlogindex - (rf.follow args.term).lastSnapshotIncludeIndex + 1).toNat : Int) =
      args.prevlogindex + 1 := by omega
  cases chosen : (rf.follow args.term).conflictHint args.prevlogindex args.prevlogindex
      (args.prevlogindex - (rf.follow args.term).lastSnapshotIncludeIndex + 1).toNat with
  | error left => exact absurd chosen (conflictHint_inside numbered' above within (by omega))
  | ok hint =>
    rw [same.last] at within
    rw [same.base] at above
    have place := conflictHint_ok chosen
    rw [rounds,same.base] at place
    refine ⟨hint,.conflict above within (by omega) (by omega),?_⟩
    simp only [appendEntriesimpl,if_neg (not_lt.mpr current)]
    refine asserted ((if_neg beyond).trans ((if_neg below).trans (bind_ok.mpr ⟨false,compared,?_⟩)))
    refine (if_neg (by decide)).trans (bind_ok.mpr ⟨hint,chosen,?_⟩)
    exact answered hint

/-! ### Conflicts -/

/-- The log has an entry of another term at the received entry's index. -/
def Conflicts (rf : Raft n Cmd Snap) (log : LogEntry Cmd) : Prop :=
  ∃ mine ∈ rf.held log.logindex, mine.logterm ≠ log.logterm

instance (rf : Raft n Cmd Snap) (log : LogEntry Cmd) : Decidable (rf.Conflicts log) :=
  inferInstanceAs (Decidable (∃ mine ∈ rf.held log.logindex, _))

/-- Without a conflict the log is extended; from the first conflict on, only received entries stay. -/
def resolved (rf : Raft n Cmd Snap) (entries : List (LogEntry Cmd)) : List (LogEntry Cmd) :=
  match entries.find? rf.Conflicts with
  | none => rf.logs ++ entries.filter fun log => rf.getLastLogIndex < log.logindex
  | some c => (rf.logs.filter fun mine => mine.logindex < c.logindex) ++
      entries.filter fun log => c.logindex ≤ log.logindex

section Resolved
omit [DecidableEq Cmd]
variable {first : Int} {entries : List (LogEntry Cmd)}

/-- A received entry without a conflict is what the log has at its place. -/
theorem unconflicted (numbered : rf.Numbered) (theirs : Consecutive first entries)
    (above : rf.lastSnapshotIncludeIndex < first) (agrees : rf.Agrees entries) {k d : Nat}
    (place : (d : Int) = first - rf.lastSnapshotIncludeIndex - 1) {log : LogEntry Cmd}
    (received : entries[k]? = some log) (quiet : ¬ rf.Conflicts log) (inside : d + k < rf.logs.length) :
    rf.logs[d + k]? = some log := by
  have index := theirs k log received
  have there := List.getElem?_eq_getElem inside
  have found : rf.held log.logindex = some rf.logs[d + k] := by
    refine held_iff.mpr ⟨by omega,?_⟩
    have spot : (log.logindex - rf.lastSnapshotIncludeIndex - 1).toNat = d + k := by omega
    rw [spot,there]
  have sameTerm : (rf.logs[d + k]).logterm = log.logterm :=
    by_contra fun differs => quiet ⟨_,found,differs⟩
  have sameCommand := agrees log (List.mem_of_getElem? received) _ found sameTerm
  rw [there,LogEntry.ext sameCommand sameTerm (held_logindex numbered found)]

/-- Nothing is changed below the end, and the rest comes behind it. -/
theorem merged_extends (numbered : rf.Numbered) (theirs : Consecutive first entries)
    (above : rf.lastSnapshotIncludeIndex < first) (close : first ≤ rf.getLastLogIndex + 1)
    (agrees : rf.Agrees entries) (quiet : ∀ log ∈ entries, ¬ rf.Conflicts log) :
    (rf.merged first entries).logs = rf.logs ++ entries.filter fun log => rf.getLastLogIndex < log.logindex := by
  have last := getLastLogIndex_eq numbered
  obtain ⟨d,place⟩ : ∃ d : Nat, (d : Int) = first - rf.lastSnapshotIncludeIndex - 1 :=
    ⟨_,Int.toNat_of_nonneg (by omega)⟩
  have spot : (first - rf.lastSnapshotIncludeIndex - 1).toNat = d := by omega
  have inside : d ≤ rf.logs.length := by omega
  have beyond : (rf.getLastLogIndex + 1 - first).toNat = rf.logs.length - d := by omega
  simp only [merged,spot]
  rw [theirs.filter_above close,beyond]
  refine List.ext_getElem? fun k => ?_
  rw [getElem?_splice inside,List.getElem?_append,List.getElem?_drop]
  by_cases short : k < rf.logs.length
  · rw [if_pos short]
    split
    · rfl
    · next received =>
      have found := List.getElem?_eq_getElem (l := entries) (i := k - d) (by omega)
      have shift : d + (k - d) = k := by omega
      have kept := unconflicted numbered theirs above agrees place found
        (quiet _ (List.mem_of_getElem? found)) (by omega)
      rw [found,← kept,shift]
  · have shift : rf.logs.length - d + (k - rf.logs.length) = k - d := by omega
    rw [if_neg short,shift]
    split
    · next outside => rw [List.getElem?_eq_none (by omega),List.getElem?_eq_none (by omega)]
    · rfl

/-- From the first conflict on only received entries stay when they reach the old end. -/
theorem merged_overwrites_iff (numbered : rf.Numbered) (theirs : Consecutive first entries)
    (above : rf.lastSnapshotIncludeIndex < first) (agrees : rf.Agrees entries) {c : LogEntry Cmd}
    {front back : List (LogEntry Cmd)} (eq : entries = front ++ c :: back) (conflict : rf.Conflicts c)
    (quiet : ∀ log ∈ front, ¬ rf.Conflicts log) : (rf.merged first entries).logs =
      (rf.logs.filter fun mine => mine.logindex < c.logindex) ++
        (entries.filter fun log => c.logindex ≤ log.logindex) ↔
      rf.getLastLogIndex < first + entries.length := by
  have last := getLastLogIndex_eq numbered
  obtain ⟨d,place⟩ : ∃ d : Nat, (d : Int) = first - rf.lastSnapshotIncludeIndex - 1 :=
    ⟨_,Int.toNat_of_nonneg (by omega)⟩
  have spot : (first - rf.lastSnapshotIncludeIndex - 1).toNat = d := by omega
  have received : entries[front.length]? = some c := by rw [eq]; simp
  have index := theirs _ c received
  have reached : d + front.length < rf.logs.length := by
    obtain ⟨mine,found,_⟩ := conflict
    have bound := (List.getElem?_eq_some_iff.mp (held_iff.mp found).2).1
    omega
  have inside : d ≤ rf.logs.length := by omega
  have sizes : entries.length = front.length + (back.length + 1) := by rw [eq]; simp
  have below_c : (rf.logs.filter fun mine => mine.logindex < c.logindex) = rf.logs.take (d + front.length) := by
    have below : (c.logindex - (rf.lastSnapshotIncludeIndex + 1)).toNat = d + front.length := by omega
    rw [← below]
    exact Consecutive.filter_below numbered (by omega)
  have from_c : (entries.filter fun log => c.logindex ≤ log.logindex) = entries.drop front.length := by
    have behind : (c.logindex - 1 + 1 - first).toNat = front.length := by omega
    rw [← behind,← theirs.filter_above (by omega)]
    exact List.filter_congr fun log _ => by simp only [decide_eq_decide]; omega
  simp only [merged,spot,below_c,from_c]
  constructor
  · intro same
    have lengths := congrArg List.length same
    rw [splice_length inside,List.length_append,List.length_take,List.length_drop] at lengths
    omega
  · intro reaches
    refine List.ext_getElem? fun k => ?_
    rw [getElem?_splice inside,List.getElem?_append,List.length_take_of_le (le_of_lt reached),
      List.getElem?_drop]
    by_cases low : k < d + front.length
    · rw [if_pos low,List.getElem?_take_of_lt low]
      split
      · rfl
      · next within =>
        have found : entries[k - d]? = front[k - d]? := by
          rw [eq,List.getElem?_append_left (by omega)]
        obtain ⟨log,there⟩ : ∃ log, front[k - d]? = some log := ⟨_,List.getElem?_eq_getElem (by omega)⟩
        have shift : d + (k - d) = k := by omega
        have kept := unconflicted numbered theirs above agrees place (found.trans there)
          (quiet log (List.mem_of_getElem? there)) (by omega)
        rw [found,there,← kept,shift]
    · have shift : front.length + (k - (d + front.length)) = k - d := by omega
      rw [if_neg low,shift]
      split
      · rw [List.getElem?_eq_none (by omega),List.getElem?_eq_none (by omega)]
      · rfl

/-- The merged log is the resolved one unless old entries stay behind a conflict. -/
theorem merged_resolved_iff (numbered : rf.Numbered) (theirs : Consecutive first entries)
    (above : rf.lastSnapshotIncludeIndex < first) (close : first ≤ rf.getLastLogIndex + 1)
    (agrees : rf.Agrees entries) : (rf.merged first entries).logs = rf.resolved entries ↔
      (∀ log ∈ entries, ¬ rf.Conflicts log) ∨ rf.getLastLogIndex < first + entries.length := by
  unfold resolved
  cases first_conflict : entries.find? rf.Conflicts with
  | none =>
    have quiet : ∀ log ∈ entries, ¬ rf.Conflicts log := by
      simpa using List.find?_eq_none.mp first_conflict
    exact iff_of_true (merged_extends numbered theirs above close agrees quiet) (.inl quiet)
  | some c =>
    obtain ⟨conflict,front,back,eq,before⟩ := List.find?_eq_some_iff_append.mp first_conflict
    have conflict : rf.Conflicts c := by simpa using conflict
    have quiet : ∀ log ∈ front, ¬ rf.Conflicts log := by simpa using before
    have loud : ¬ ∀ log ∈ entries, ¬ rf.Conflicts log := fun all => all c (by rw [eq]; simp) conflict
    rw [or_iff_right loud]
    exact merged_overwrites_iff numbered theirs above agrees eq conflict quiet
end Resolved

/-- The handler leaves the resolved log exactly when no entry of the same term has another command
and old entries do not reach behind the received ones after a conflict. -/
theorem appendEntriesimpl_resolves_iff (numbered : rf.Numbered) (bounded : rf.commitIndex ≤ rf.getLastLogIndex)
    (args : AppendEntriesArgs Cmd) (current : rf.currentTerm ≤ args.term)
    (theirs : Consecutive (args.prevlogindex + 1) args.entries)
    (matching : rf.getLogTermFromLogIndex args.prevlogindex = .ok args.prevlogterm) :
    (∃ rf' reply, rf.appendEntriesimpl args = .ok (rf',reply) ∧ rf'.logs = rf.resolved args.entries) ↔
      rf.Agrees args.entries ∧
      ((∀ log ∈ args.entries, ¬ rf.Conflicts log) ∨ rf.getLastLogIndex ≤ args.lastIndex) := by
  obtain ⟨above,below,_⟩ := getLogTermFromLogIndex_ok.mp matching
  have reach : rf.getLastLogIndex < args.prevlogindex + 1 + args.entries.length ↔
      rf.getLastLogIndex ≤ args.lastIndex := by
    rw [AppendEntriesArgs.lastIndex]
    omega
  rcases appendEntriesimpl_accepts numbered bounded current theirs matching with
    ⟨agrees,done⟩ | ⟨clash,left,exit⟩
  · have logs : (rf.accepted args).logs = (rf.merged (args.prevlogindex + 1) args.entries).logs := by
      have same := SameLog.follow rf args.term
      change ((((rf.follow args.term).merged _ _).commitTo _)).logs = _
      rw [commitTo_logs]
      simp only [merged,same.logs,same.base]
    have resolves := merged_resolved_iff numbered theirs (by omega) (by omega) agrees
    rw [reach,← logs] at resolves
    rw [and_iff_right agrees,← resolves,done]
    constructor
    · rintro ⟨rf',reply,same,resolved⟩
      obtain ⟨rfl,_⟩ := Prod.mk.inj (Except.ok.inj same)
      exact resolved
    · exact fun resolved => ⟨_,_,rfl,resolved⟩
  · refine iff_of_false ?_ fun met => clash met.1
    rintro ⟨rf',reply,done,_⟩
    cases exit.symm.trans done

/-- A follower with three entries of a leader of term 1. -/
def oldTail : Raft 3 Nat Unit :=
  { init 1 {} with currentTerm := 1, logs := [⟨5,1,1⟩,⟨6,1,2⟩,⟨7,1,3⟩] }

theorem appendEntriesimpl_resolves_oldTail : ∃ rf' reply,
    oldTail.appendEntriesimpl ⟨2,0,1,1,[⟨8,2,2⟩,⟨9,2,3⟩],0⟩ = .ok (rf',reply) ∧
      rf'.logs = oldTail.resolved [⟨8,2,2⟩,⟨9,2,3⟩] :=
  (appendEntriesimpl_resolves_iff (by decide) (by decide) ⟨2,0,1,1,[⟨8,2,2⟩,⟨9,2,3⟩],0⟩ (by decide)
    (by decide) rfl).mpr (by decide)

/-- One entry of a leader of term 2 overwrites the second entry and leaves the third behind it. -/
theorem appendEntriesimpl_resolves_fails : ¬ ∀ (rf : Raft 3 Nat Unit) (args : AppendEntriesArgs Nat),
    rf.Numbered → rf.commitIndex ≤ rf.getLastLogIndex → rf.currentTerm ≤ args.term →
    Consecutive (args.prevlogindex + 1) args.entries →
    rf.getLogTermFromLogIndex args.prevlogindex = .ok args.prevlogterm →
    ∃ rf' reply, rf.appendEntriesimpl args = .ok (rf',reply) ∧ rf'.logs = rf.resolved args.entries := by
  intro law
  obtain ⟨rf',reply,done,resolved⟩ :=
    law oldTail ⟨2,0,1,1,[⟨8,2,2⟩],0⟩ (by decide) (by decide) (by decide) (by decide) rfl
  have stays : ((oldTail.appendEntriesimpl ⟨2,0,1,1,[⟨8,2,2⟩],0⟩).toOption.map fun r => r.1.logs) =
      some [⟨5,1,1⟩,⟨8,2,2⟩,⟨7,1,3⟩] := by decide
  rw [done] at stays
  exact absurd (resolved.symm.trans (Option.some.inj stays)) (by decide)

end Raft
end KvStorage
