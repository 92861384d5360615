import KvStorage.RaftSpec

/-! The log of a node as one sequence from index 1, of which the files and the memory
hold what is above the snapshot index. Index arithmetic of the handlers is read off
this sequence here and nowhere else. -/
namespace KvStorage
open Exit

/-- The entry at position `i` has index `i + 1` and a real term. -/
def Numbered (L : List (LogEntry Cmd)) : Prop :=
  ∀ (i : Nat) (e : LogEntry Cmd), L[i]? = some e → e.logindex = (i : Int) + 1 ∧ 1 ≤ e.logterm

/-- The term at index `k`; index 0 is before the log and has term 0. -/
def termAt (L : List (LogEntry Cmd)) (k : Nat) : Int := ((L.take k).getLast?.map LogEntry.logterm).getD 0

variable {L M : List (LogEntry Cmd)}

theorem Numbered.shorter (numbered : Numbered L) (sub : M <+: L) : Numbered M := by
  intro i e found
  obtain ⟨rest,rfl⟩ := sub
  refine numbered i e ?_
  rw [List.getElem?_append_left (List.getElem?_eq_some_iff.mp found).1,found]

theorem Numbered.append (numbered : Numbered L) {e : LogEntry Cmd}
    (index : e.logindex = L.length + 1) (term : 1 ≤ e.logterm) : Numbered (L ++ [e]) := by
  intro i f found
  rcases Nat.lt_or_ge i L.length with less | more
  · exact numbered i f (by rwa [List.getElem?_append_left less] at found)
  · rw [List.getElem?_append_right more,List.getElem?_singleton] at found
    split at found
    · next last =>
      obtain rfl := Option.some.inj found
      exact ⟨by omega,term⟩
    · simp at found

@[simp] theorem termAt_zero (L : List (LogEntry Cmd)) : termAt L 0 = 0 := rfl

theorem termAt_succ {k : Nat} {e : LogEntry Cmd} (found : L[k]? = some e) :
    termAt L (k + 1) = e.logterm := by
  simp [termAt,List.take_add_one,found]

theorem termAt_length : termAt L L.length = (L.getLast?.map LogEntry.logterm).getD 0 := by
  simp [termAt]

theorem termAt_shorter (sub : M <+: L) {k : Nat} (bound : k ≤ M.length) : termAt L k = termAt M k := by
  obtain ⟨rest,rfl⟩ := sub
  rw [termAt,List.take_append_of_le_length bound,termAt]

/-- An image of the log `L` cut at `b`. -/
structure Holds (image : BoostPersistRaftNode Cmd) (L : List (LogEntry Cmd)) (b : Nat) : Prop where
  base : image.lastSnapshotIncludeIndex = b
  bound : b ≤ L.length
  logs : image.logs = L.drop b
  baseTerm : image.lastSnapshotIncludeTerm = termAt L b
  numbered : Numbered L

namespace Holds

variable {rf rf' : Raft n Cmd Snap} {b : Nat}

theorem base_eq (holds : Holds rf.persistData L b) : rf.lastSnapshotIncludeIndex = b := holds.base
theorem logs_eq (holds : Holds rf.persistData L b) : rf.logs = L.drop b := holds.logs
theorem baseTerm_eq (holds : Holds rf.persistData L b) : rf.lastSnapshotIncludeTerm = termAt L b :=
  holds.baseTerm

theorem getLastLogIndexAndTerm (holds : Holds rf.persistData L b) :
    rf.getLastLogIndexAndTerm = ((L.length : Int),termAt L L.length) := by
  have bound := holds.bound
  rcases Nat.lt_or_ge b L.length with longer | edge
  · have last : (L.drop b).getLast? = L.getLast? := by
      rw [List.getLast?_drop,if_neg (by omega)]
    have found : L[L.length - 1]? = some (L[L.length - 1]) :=
      List.getElem?_eq_getElem (by omega)
    have ends : L.getLast? = some (L[L.length - 1]) := by
      rw [List.getLast?_eq_getElem?,found]
    have index := (holds.numbered _ _ found).1
    rw [Raft.getLastLogIndexAndTerm,holds.logs_eq,last,ends,termAt_length,ends]
    exact Prod.ext (show _ = (L.length : Int) from index.trans (by omega)) rfl
  · obtain rfl : b = L.length := by omega
    rw [Raft.getLastLogIndexAndTerm,holds.logs_eq,List.drop_length]
    exact Prod.ext holds.base holds.baseTerm

theorem getLastLogIndex (holds : Holds rf.persistData L b) : rf.getLastLogIndex = L.length :=
  congrArg Prod.fst holds.getLastLogIndexAndTerm

theorem getLastLogTerm (holds : Holds rf.persistData L b) :
    rf.getLastLogTerm = termAt L L.length :=
  congrArg Prod.snd holds.getLastLogIndexAndTerm

/-- Reading an entry above the base reads the sequence. -/
theorem entryAt (holds : Holds rf.persistData L b) {i : Int} {e : LogEntry Cmd} :
    rf.entryAt i = .ok e ↔ ∃ k : Nat, i = (k : Int) + 1 ∧ b ≤ k ∧ L[k]? = some e := by
  rw [Raft.entryAt_ok,holds.getLastLogIndex,holds.base_eq,holds.logs_eq]
  constructor
  · rintro ⟨above,below,found⟩
    refine ⟨(i - 1).toNat,by omega,by omega,?_⟩
    rw [List.getElem?_drop] at found
    have : b + (i - b - 1).toNat = (i - 1).toNat := by omega
    rwa [this] at found
  · rintro ⟨k,rfl,above,found⟩
    have bound := (List.getElem?_eq_some_iff.mp found).1
    refine ⟨by omega,by omega,?_⟩
    rw [List.getElem?_drop]
    have : b + ((k : Int) + 1 - b - 1).toNat = k := by omega
    rwa [this]

theorem getLogTerm (holds : Holds rf.persistData L b) {i term : Int} :
    rf.getLogTermFromLogIndex i = .ok term ↔
      ∃ k : Nat, i = k ∧ b ≤ k ∧ k ≤ L.length ∧ term = termAt L k := by
  rw [Raft.getLogTermFromLogIndex_ok,holds.getLastLogIndex,holds.base_eq,holds.baseTerm_eq]
  constructor
  · rintro ⟨above,below,⟨rfl,rfl⟩ | ⟨e,found,rfl⟩⟩
    · exact ⟨b,rfl,le_rfl,holds.bound,rfl⟩
    · obtain ⟨k,rfl,edge,found⟩ := holds.entryAt.mp found
      exact ⟨k + 1,rfl,by omega,(List.getElem?_eq_some_iff.mp found).1,(termAt_succ found).symm⟩
  · rintro ⟨k,rfl,above,below,rfl⟩
    refine ⟨by omega,by omega,?_⟩
    rcases Nat.eq_or_lt_of_le above with rfl | above
    · exact .inl ⟨rfl,rfl⟩
    · obtain ⟨j,rfl⟩ : ∃ j, k = j + 1 := ⟨k - 1,by omega⟩
      have found : L[j]? = some (L[j]) := List.getElem?_eq_getElem (by omega)
      exact .inr ⟨_,holds.entryAt.mpr ⟨j,by omega,by omega,found⟩,(termAt_succ found).symm⟩

end Holds

/-! ### Merging received entries -/

section Merge

variable {rf rf' : Raft n Cmd Snap} {b : Nat}

/-- The sequence with the entries after the first `q` overwritten or appended. -/
def overlay (L : List (LogEntry Cmd)) (q : Nat) (es : List (LogEntry Cmd)) : List (LogEntry Cmd) :=
  L.take q ++ es ++ L.drop (q + es.length)

theorem overlay_getElem? {q : Nat} (bound : q ≤ L.length) (e : LogEntry Cmd) (i : Nat) :
    (overlay L q [e])[i]? = if i = q then some e else L[i]? := by
  have front : (L.take q).length = q := List.length_take_of_le bound
  rcases Nat.lt_trichotomy i q with less | rfl | more
  · rw [if_neg (by omega),overlay,List.append_assoc,List.getElem?_append_left (by omega),
      List.getElem?_take_of_lt less]
  · rw [if_pos rfl,overlay,List.append_assoc,List.getElem?_append_right (by omega),front]
    simp
  · rw [if_neg (by omega),overlay,List.getElem?_append_right (by simp [front]; omega),
      List.getElem?_drop]
    congr 1
    simp [front]
    omega

theorem overlay_cons {q : Nat} (bound : q ≤ L.length) (e : LogEntry Cmd) (es : List (LogEntry Cmd)) :
    overlay (overlay L q [e]) (q + 1) es = overlay L q (e :: es) := by
  have front : (L.take q ++ [e]).length = q + 1 := by simp [bound]
  have head : (overlay L q [e]).take (q + 1) = L.take q ++ [e] := by
    rw [overlay,List.take_append_of_le_length (by omega),List.take_of_length_le (by omega)]
  have tail : (overlay L q [e]).drop (q + 1 + es.length) = L.drop (q + (es.length + 1)) := by
    rw [overlay,List.drop_append,List.drop_of_length_le (by omega),front,List.nil_append,
      List.drop_drop]
    congr 1
    simp
    omega
  rw [overlay,head,tail,overlay]
  simp

theorem overlay_numbered (numbered : Numbered L) {q : Nat} (bound : q ≤ L.length) {e : LogEntry Cmd}
    (index : e.logindex = q + 1) (term : 1 ≤ e.logterm) : Numbered (overlay L q [e]) := by
  intro i f found
  rw [overlay_getElem? bound] at found
  split at found
  · next here => cases found; subst here; exact ⟨index,term⟩
  · exact numbered i f found

theorem overlay_length {q : Nat} (bound : q ≤ L.length) (e : LogEntry Cmd) :
    (overlay L q [e]).length = max L.length (q + 1) := by
  simp [overlay,bound]
  omega

/-- One received entry at its own index: appended, overwritten or kept, it is there now. -/
theorem mergeEntry_holds [DecidableEq Cmd] (holds : Holds rf.persistData L b) {q : Nat}
    {e : LogEntry Cmd} (above : b ≤ q) (below : q ≤ L.length) (index : e.logindex = q + 1)
    (term : 1 ≤ e.logterm) (done : rf.mergeEntry e = .ok rf') :
    Holds rf'.persistData (overlay L q [e]) b := by
  have front : (overlay L q [e]).take b = L.take b := by
    rw [overlay,List.append_assoc,List.take_append_of_le_length (by simp; omega),List.take_take,
      Nat.min_eq_left above]
  have frame := Raft.mergeEntry_frame done
  have logs : rf'.logs = (overlay L q [e]).drop b := by
    refine List.ext_getElem? fun i => ?_
    rw [List.getElem?_drop,overlay_getElem? below]
    rcases Raft.mergeEntry_ok done with ⟨beyond,rfl⟩ | ⟨mine,found,change⟩
    · rw [holds.getLastLogIndex,index] at beyond
      obtain rfl : q = L.length := by omega
      change (rf.logs ++ [e])[i]? = _
      rw [holds.logs_eq,List.getElem?_append,List.getElem?_drop,List.length_drop]
      split
      · rw [if_neg (by omega)]
      · split
        · rw [show i - (L.length - b) = 0 by omega]; rfl
        · rw [List.getElem?_eq_none (by simp; omega),List.getElem?_eq_none (by omega)]
    · obtain ⟨k,eq,_,at'⟩ := holds.entryAt.mp found
      obtain rfl : q = k := by omega
      have inside := (List.getElem?_eq_some_iff.mp at').1
      rcases change with ⟨_,rfl⟩ | ⟨same,agrees,rfl⟩
      · have slices : (e.logindex - rf.lastSnapshotIncludeIndex - 1).toNat = q - b := by
          rw [holds.base_eq]; omega
        change (rf.logs.set _ e)[i]? = _
        rw [slices,List.getElem?_set,holds.logs_eq,List.length_drop,List.getElem?_drop]
        by_cases here : q - b = i
        · rw [if_pos here,if_pos (by omega),if_pos (by omega)]
        · rw [if_neg here,if_neg (by omega)]
      · -- the assertion on equal commands makes the kept entry the received one
        rw [holds.logs_eq,List.getElem?_drop]
        split
        · next here =>
          have whole : mine = e :=
            LogEntry.ext agrees same ((holds.numbered q _ at').1.trans index.symm)
          rw [here,at',whole]
        · rfl
  refine ⟨?_,?_,logs,?_,overlay_numbered holds.numbered below index term⟩
  · rw [frame]; exact holds.base
  · rw [overlay_length below]; have := holds.bound; omega
  · rw [frame,termAt,front,← termAt]; exact holds.baseTerm

/-- A normal merge lays the received entries over the log and keeps what lies behind them. -/
theorem mergeEntries_holds [DecidableEq Cmd] {es : List (LogEntry Cmd)} {q : Nat}
    (holds : Holds rf.persistData L b) (above : b ≤ q) (below : q ≤ L.length)
    (numbered : ∀ (i : Nat) (e : LogEntry Cmd), es[i]? = some e →
      e.logindex = (q + i : Nat) + 1 ∧ 1 ≤ e.logterm)
    (done : rf.mergeEntries es = .ok rf') : Holds rf'.persistData (overlay L q es) b := by
  induction es generalizing rf L q with
  | nil =>
    obtain rfl := Exit.pure_ok.mp done
    simpa [overlay] using holds
  | cons e rest ih =>
    simp only [Raft.mergeEntries,Exit.bind_ok] at done
    obtain ⟨middle,first,later⟩ := done
    obtain ⟨index,term⟩ := numbered 0 e rfl
    rw [← overlay_cons below]
    refine ih (mergeEntry_holds holds above below (by simpa using index) term first) (by omega)
      (by rw [overlay_length below]; omega) (fun i f found => ?_) later
    obtain ⟨index,term⟩ := numbered (i + 1) f (by simpa using found)
    exact ⟨by omega,term⟩

end Merge
end KvStorage
