import KvStorage.Lib.Rename
import KvStorage.RaftNode

/-! The two files behind `Persister`. `Save` replaces them one after the other, so a
process that stops between the renames leaves one of each. -/
namespace KvStorage
open Rename

inductive FileName where
  | raftStateFileName | raftSnapshotFileName
  | temp (fileName : FileName)
  deriving DecidableEq, Repr

abbrev Bytes := List UInt8

abbrev Files := Disk FileName UInt8

/-- What the system answers to one `atomicWrite`; the code goes on after either failure. -/
structure Outcome where
  opens : Bool := true
  renames : Bool := true

namespace Files

variable (files : Files)

/-- A file that does not open reads as the empty string. -/
def ReadRawData (fileName : FileName) : Bytes := (files fileName).getD []

def ReadRaftState : Bytes := files.ReadRawData .raftStateFileName

def ReadSnapshot : Bytes := files.ReadRawData .raftSnapshotFileName

def atomicWrite (outcome : Outcome) (fileName : FileName) (data : Bytes) :
    List (FileOp FileName UInt8) :=
  if ¬ outcome.opens then []
  else write (.temp fileName) data ++
    if outcome.renames then [.rename (.temp fileName) fileName] else []

def SaveRaftState (outcome : Outcome) (state : Bytes) : List (FileOp FileName UInt8) :=
  atomicWrite outcome .raftStateFileName state

def Save (stateOutcome snapOutcome : Outcome) (state snapShot : Bytes) :
    List (FileOp FileName UInt8) :=
  atomicWrite stateOutcome .raftStateFileName state ++
    atomicWrite snapOutcome .raftSnapshotFileName snapShot

/-- The files when the process stops after `point` operations, or runs to the end. -/
def stopped (ops : List (FileOp FileName UInt8)) (point : Nat) : Files :=
  performAll files (ops.take point)

end Files
open Files

/-- The temporary file opened, the process got past the rename, and the rename worked. -/
def Outcome.Lands (outcome : Outcome) (data : Bytes) (point : Nat) : Prop :=
  outcome.opens ∧ outcome.renames ∧ data.length + 2 ≤ point

instance (outcome : Outcome) (data : Bytes) (point : Nat) : Decidable (outcome.Lands data point) :=
  inferInstanceAs (Decidable (_ ∧ _ ∧ _))

/-- Wherever the process stops, the target is old or new and only its temporary file is touched. -/
theorem stopped_atomicWrite (files : Files) (outcome : Outcome) (fileName other : FileName)
    (data : Bytes) (point : Nat) (distinct : other ≠ .temp fileName) :
    files.stopped (atomicWrite outcome fileName data) point other =
      if other = fileName ∧ outcome.Lands data point then some data else files other := by
  unfold stopped atomicWrite Outcome.Lands
  by_cases opens : outcome.opens
  case neg => simp [opens]
  by_cases renames : outcome.renames
  case neg => simp [opens,renames,performAll_write_take,distinct]
  by_cases past : data.length + 2 ≤ point
  · rw [if_neg (by simp [opens]),if_pos renames,List.take_of_length_le (by simp; omega),
      performAll_rename]
    by_cases same : other = fileName
    · subst same
      simp [opens,renames,past,distinct]
    · simp [same,distinct]
  · rw [if_neg (by simp [opens]),if_pos renames,List.take_append_of_le_length (by simp; omega),
      performAll_write_take _ _ _ _ _ distinct]
    simp [past]

theorem stopped_append (files : Files) (first later : List (FileOp FileName UInt8)) (point : Nat) :
    files.stopped (first ++ later) point =
      (files.stopped first point).stopped later (point - first.length) := by
  simp [stopped,List.take_append]

theorem stopped_SaveRaftState (files : Files) (outcome : Outcome) (state : Bytes) (point : Nat) :
    (files.stopped (SaveRaftState outcome state) point).ReadRaftState =
      (if outcome.Lands state point then state else files.ReadRaftState) ∧
    (files.stopped (SaveRaftState outcome state) point).ReadSnapshot = files.ReadSnapshot := by
  constructor
  · rw [ReadRaftState,ReadRawData,SaveRaftState,stopped_atomicWrite _ _ _ _ _ _ (by decide)]
    by_cases lands : outcome.Lands state point
    · simp [lands]
    · simp [lands,ReadRaftState,ReadRawData]
  · rw [ReadSnapshot,ReadRawData,SaveRaftState,stopped_atomicWrite _ _ _ _ _ _ (by decide)]
    simp [ReadSnapshot,ReadRawData]

/-- A stop in `Save` as the second `atomicWrite` sees it. -/
def snapPoint (stateOutcome : Outcome) (state : Bytes) (point : Nat) : Nat :=
  point - (SaveRaftState stateOutcome state).length

theorem stopped_Save (files : Files) (stateOutcome snapOutcome : Outcome) (state snapShot : Bytes)
    (point : Nat) :
    (files.stopped (Save stateOutcome snapOutcome state snapShot) point).ReadRaftState =
      (if stateOutcome.Lands state point then state else files.ReadRaftState) ∧
    (files.stopped (Save stateOutcome snapOutcome state snapShot) point).ReadSnapshot =
      if snapOutcome.Lands snapShot (snapPoint stateOutcome state point) then snapShot
      else files.ReadSnapshot := by
  obtain ⟨savedState,savedSnap⟩ := stopped_SaveRaftState files stateOutcome state point
  have split : files.stopped (Save stateOutcome snapOutcome state snapShot) point =
      (files.stopped (SaveRaftState stateOutcome state) point).stopped
        (atomicWrite snapOutcome .raftSnapshotFileName snapShot) (snapPoint stateOutcome state point) :=
    stopped_append ..
  rw [split]
  constructor
  · rw [← savedState,ReadRaftState,ReadRawData,stopped_atomicWrite _ _ _ _ _ _ (by decide)]
    simp [ReadRaftState,ReadRawData]
  · rw [← savedSnap,ReadSnapshot,ReadRawData,stopped_atomicWrite _ _ _ _ _ _ (by decide)]
    split
    · next lands => simp [lands.2]
    · next lands => simp [show ¬ snapOutcome.Lands _ _ from fun lands' => lands ⟨rfl,lands'⟩,
        ReadSnapshot,ReadRawData]

/-! ### Restarting from the files -/

variable {n : Nat} {Cmd : Type}

/-- The files as the node reads them; `decode` is the archive parser, skipped on empty data. -/
def persister (decode : Bytes → BoostPersistRaftNode Cmd) (state snapShot : Bytes) :
    Persister Cmd Bytes :=
  ⟨if state.isEmpty then none else some (decode state),if snapShot.isEmpty then none else some snapShot⟩

/-- A `Save` that nothing disturbs is the one step the node takes it to be. -/
theorem persister_Save (decode : Bytes → BoostPersistRaftNode Cmd) (files : Files)
    (image : BoostPersistRaftNode Cmd) (state snapShot : Bytes) (point : Nat)
    (encoded : decode state = image) (written : state ≠ [])
    (finished : (Save {} {} state snapShot).length ≤ point) :
    let after := files.stopped (Save {} {} state snapShot) point
    persister decode after.ReadRaftState after.ReadSnapshot =
      (persister decode files.ReadRaftState files.ReadSnapshot).Save image
        (if snapShot.isEmpty then none else some snapShot) := by
  have length : (Save {} {} state snapShot).length = state.length + 2 + (snapShot.length + 2) := by
    simp [Save,atomicWrite]; omega
  have stateLands : Outcome.Lands {} state point := ⟨rfl,rfl,by omega⟩
  have snapLands : Outcome.Lands {} snapShot (snapPoint {} state point) :=
    ⟨rfl,rfl,by simp [snapPoint,SaveRaftState,atomicWrite]; omega⟩
  obtain ⟨savedState,savedSnap⟩ := stopped_Save files {} {} state snapShot point
  simp [savedState,savedSnap,stateLands,snapLands,persister,Persister.Save,encoded,written]

/-- The node's snapshot index after a restart from the two files. -/
def restoredIndex (decode : Bytes → BoostPersistRaftNode Cmd) (raftId : Fin n)
    (state snapShot : Bytes) : Int :=
  (Raft.init raftId (persister decode state snapShot)).lastSnapshotIncludeIndex

/-- The pair read after a stop is one of the two saved pairs, so a snapshot that belongs to its
state in both belongs to the state a restart reads. -/
structure CrashAtomic (decode : Bytes → BoostPersistRaftNode Cmd) (raftId : Fin n)
    (files after : Files) (state snapShot : Bytes) : Prop where
  pair : (after.ReadRaftState,after.ReadSnapshot) = (files.ReadRaftState,files.ReadSnapshot) ∨
    (after.ReadRaftState,after.ReadSnapshot) = (state,snapShot)
  restored : ∀ SnapshotOf : Int → Bytes → Prop,
    SnapshotOf (restoredIndex decode raftId files.ReadRaftState files.ReadSnapshot) files.ReadSnapshot →
    SnapshotOf (restoredIndex decode raftId state snapShot) snapShot →
    SnapshotOf (restoredIndex decode raftId after.ReadRaftState after.ReadSnapshot) after.ReadSnapshot

theorem CrashAtomic.of_pair {decode : Bytes → BoostPersistRaftNode Cmd} {raftId : Fin n}
    {files after : Files} {state snapShot : Bytes}
    (pair : (after.ReadRaftState,after.ReadSnapshot) = (files.ReadRaftState,files.ReadSnapshot) ∨
      (after.ReadRaftState,after.ReadSnapshot) = (state,snapShot)) :
    CrashAtomic decode raftId files after state snapShot := by
  refine ⟨pair,fun SnapshotOf old new => ?_⟩
  rcases pair with same | same <;> obtain ⟨sameState,sameSnap⟩ := Prod.mk.inj same
  · rw [sameState,sameSnap]; exact old
  · rw [sameState,sameSnap]; exact new

/-- Of two replacements, one pair comes out exactly when both or neither happened or one is void. -/
theorem pair_of_replaced (stateDone snapDone : Prop) [Decidable stateDone] [Decidable snapDone]
    (old new : α) (old' new' : β) :
    ((if stateDone then new else old),(if snapDone then new' else old')) = (old,old') ∨
      ((if stateDone then new else old),(if snapDone then new' else old')) = (new,new') ↔
    (stateDone ↔ snapDone) ∨ new = old ∨ new' = old' := by
  by_cases first : stateDone
  · by_cases second : snapDone
    · simp [first,second]
    · simp [first,second,eq_comm]
  · by_cases second : snapDone
    · simp [first,second,eq_comm,or_comm]
    · simp [first,second]

/-- Both renames take place or neither does, unless one file would not change anyway. -/
theorem save_crashAtomic_iff (decode : Bytes → BoostPersistRaftNode Cmd) (raftId : Fin n)
    (files : Files) (stateOutcome snapOutcome : Outcome) (state snapShot : Bytes) (point : Nat) :
    CrashAtomic decode raftId files (files.stopped (Save stateOutcome snapOutcome state snapShot) point)
      state snapShot ↔
    (stateOutcome.Lands state point ↔ snapOutcome.Lands snapShot (snapPoint stateOutcome state point)) ∨
      state = files.ReadRaftState ∨ snapShot = files.ReadSnapshot := by
  obtain ⟨savedState,savedSnap⟩ := stopped_Save files stateOutcome snapOutcome state snapShot point
  have exactly := pair_of_replaced (stateOutcome.Lands state point)
    (snapOutcome.Lands snapShot (snapPoint stateOutcome state point)) files.ReadRaftState state
    files.ReadSnapshot snapShot
  rw [← savedState,← savedSnap] at exactly
  exact ⟨fun atomic => exactly.mp atomic.pair,fun together => .of_pair (exactly.mpr together)⟩

/-- Neither write fails: only a stop between the two renames tears the pair. -/
theorem save_crashAtomic_undisturbed (decode : Bytes → BoostPersistRaftNode Cmd) (raftId : Fin n)
    (files : Files) (state snapShot : Bytes) (point : Nat)
    (between : point < state.length + 2 ∨ state.length + 2 + (snapShot.length + 2) ≤ point) :
    CrashAtomic decode raftId files (files.stopped (Save {} {} state snapShot) point) state snapShot := by
  obtain ⟨savedState,savedSnap⟩ := stopped_Save files {} {} state snapShot point
  have seen : snapPoint {} state point = point - (state.length + 2) := by
    simp [snapPoint,SaveRaftState,atomicWrite]
  refine .of_pair ?_
  rw [savedState,savedSnap,pair_of_replaced]
  exact .inl ⟨fun done => ⟨rfl,rfl,by have := done.2.2; omega⟩,
    fun done => ⟨rfl,rfl,by have := done.2.2; omega⟩⟩

/-- The old state is for index 1 and the new one for index 2; the snapshots are named alike. -/
def tornFiles : Files
  | .raftStateFileName => some [1]
  | .raftSnapshotFileName => some [1]
  | .temp _ => none

def decodeIndex (state : Bytes) : BoostPersistRaftNode Unit :=
  ⟨1,-1,(state.headD 0).toNat,1,[]⟩

/-- The process stops right after the first rename: index 2 is restored with the snapshot of 1. -/
theorem save_crashAtomic_fails :
    ¬ CrashAtomic decodeIndex (0 : Fin 3) tornFiles (tornFiles.stopped (Save {} {} [2] [2]) 3) [2] [2] := by
  intro atomic
  exact absurd (atomic.restored (fun index snapShot => snapShot = [index.toNat.toUInt8]) (by decide)
    (by decide)) (by decide)

end KvStorage
