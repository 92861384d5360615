import Mathlib
import KvStorage.Lib.Exit

/-! State of one Raft node, its persisted image and the index arithmetic of its
log. Every `int` of the source is an `Int`, which `stored` cuts to 32 bits where a log
can reach their end; `myAssert` and an access outside a vector end the process, and the
error is what the exit leaves on disk. -/
namespace KvStorage
open Exit

@[ext] structure LogEntry (Cmd : Type) where
  command : Cmd
  logterm : Int
  logindex : Int
  deriving DecidableEq, Repr

/-- What `persistData` writes: the image of the five durable fields. -/
structure BoostPersistRaftNode (Cmd : Type) where
  currentTerm : Int
  votedFor : Int
  lastSnapshotIncludeIndex : Int
  lastSnapshotIncludeTerm : Int
  logs : List (LogEntry Cmd)
  deriving DecidableEq, Repr

/-- The two files as their readers see them; `none` is the empty file. -/
structure Persister (Cmd Snap : Type) where
  raftState : Option (BoostPersistRaftNode Cmd) := none
  snapshot : Option Snap := none
  deriving DecidableEq, Repr

def Persister.SaveRaftState (p : Persister Cmd Snap) (state : BoostPersistRaftNode Cmd) :
    Persister Cmd Snap :=
  { p with raftState := some state }

def Persister.Save (_p : Persister Cmd Snap) (state : BoostPersistRaftNode Cmd)
    (snapShot : Option Snap) : Persister Cmd Snap :=
  ⟨some state,snapShot⟩

/-- The five durable fields a restart reads back; the empty file stands for `init`'s defaults. -/
def Persister.image (p : Persister Cmd Snap) : BoostPersistRaftNode Cmd :=
  p.raftState.getD ⟨0,-1,0,0,[]⟩

inductive Status where
  | Follower | Candidate | Leader
  deriving DecidableEq, Repr

/-- The cluster has `n` peers and `raftId` is a position in the list they share. -/
structure Raft (n : Nat) (Cmd Snap : Type) where
  raftId : Fin n
  currentTerm : Int
  votedFor : Int
  logs : List (LogEntry Cmd)
  commitIndex : Int
  lastApplied : Int
  nextIndex : Vector Int n
  matchIndex : Vector Int n
  status : Status
  lastSnapshotIncludeIndex : Int
  lastSnapshotIncludeTerm : Int
  persister : Persister Cmd Snap
  deriving DecidableEq, Repr

namespace Raft

variable (rf : Raft n Cmd Snap)

/-- The process exits when the condition fails; memory is lost, the files stay. -/
def myAssert (condition : Prop) [Decidable condition] : Except (Persister Cmd Snap) Unit :=
  assert rf.persister condition

/-! ### Persistence -/

def persistData : BoostPersistRaftNode Cmd :=
  ⟨rf.currentTerm,rf.votedFor,rf.lastSnapshotIncludeIndex,rf.lastSnapshotIncludeTerm,rf.logs⟩

def persist : Raft n Cmd Snap :=
  { rf with persister := rf.persister.SaveRaftState rf.persistData }

def saveSnapshot (data : Option Snap) : Raft n Cmd Snap :=
  { rf with persister := rf.persister.Save rf.persistData data }

def readPersist (data : Option (BoostPersistRaftNode Cmd)) : Raft n Cmd Snap :=
  match data with
  | none => rf
  | some node => { rf with
      currentTerm := node.currentTerm
      votedFor := node.votedFor
      lastSnapshotIncludeIndex := node.lastSnapshotIncludeIndex
      lastSnapshotIncludeTerm := node.lastSnapshotIncludeTerm
      logs := node.logs }

/-- A fresh object, then the restored fields; only `lastApplied` follows the base. -/
def init (raftId : Fin n) (persister : Persister Cmd Snap) : Raft n Cmd Snap :=
  let fresh : Raft n Cmd Snap := {
    raftId, persister, currentTerm := 0, status := .Follower, commitIndex := 0, lastApplied := 0
    logs := [], nextIndex := Vector.replicate n 0, matchIndex := Vector.replicate n 0
    votedFor := -1, lastSnapshotIncludeIndex := 0, lastSnapshotIncludeTerm := 0 }
  let restored := fresh.readPersist persister.raftState
  if restored.lastSnapshotIncludeIndex > 0 then
    { restored with lastApplied := restored.lastSnapshotIncludeIndex }
  else restored

@[simp] theorem persist_image : rf.persist.persister.image = rf.persistData := rfl

@[simp] theorem saveSnapshot_image (data : Option Snap) :
    (rf.saveSnapshot data).persister.image = rf.persistData := rfl

@[simp] theorem persistData_persist : rf.persist.persistData = rf.persistData := rfl

@[simp] theorem persistData_saveSnapshot (data : Option Snap) :
    (rf.saveSnapshot data).persistData = rf.persistData := rfl

/-- A restart reads back exactly the image on disk; the volatile fields start afresh. -/
theorem init_eq (raftId : Fin n) (persister : Persister Cmd Snap) : init raftId persister = {
    raftId, persister, status := .Follower, commitIndex := 0
    lastApplied := max persister.image.lastSnapshotIncludeIndex 0
    currentTerm := persister.image.currentTerm
    votedFor := persister.image.votedFor
    logs := persister.image.logs
    nextIndex := Vector.replicate n 0
    matchIndex := Vector.replicate n 0
    lastSnapshotIncludeIndex := persister.image.lastSnapshotIncludeIndex
    lastSnapshotIncludeTerm := persister.image.lastSnapshotIncludeTerm } := by
  rcases persister with ⟨_ | state,snapshot⟩
  · rfl
  · by_cases above : state.lastSnapshotIncludeIndex > 0
    · simp [init,readPersist,Persister.image,above,max_eq_left (le_of_lt above)]
    · simp [init,readPersist,Persister.image,above,max_eq_right (not_lt.mp above)]

@[simp] theorem init_persistData (raftId : Fin n) (persister : Persister Cmd Snap) :
    (init raftId persister).persistData = persister.image := by rw [init_eq]; rfl

@[simp] theorem init_persister (raftId : Fin n) (persister : Persister Cmd Snap) :
    (init raftId persister).persister = persister := by rw [init_eq]

@[simp] theorem init_raftId (raftId : Fin n) (persister : Persister Cmd Snap) :
    (init raftId persister).raftId = raftId := by rw [init_eq]

/-! ### Log indexes -/

def getLastLogIndexAndTerm : Int × Int :=
  match rf.logs.getLast? with
  | none => (rf.lastSnapshotIncludeIndex,rf.lastSnapshotIncludeTerm)
  | some last => (last.logindex,last.logterm)

def getLastLogIndex : Int := rf.getLastLogIndexAndTerm.1

def getLastLogTerm : Int := rf.getLastLogIndexAndTerm.2

def getNewCommandIndex : Int := rf.getLastLogIndex + 1

def getSlicesIndexFromLogIndex (logIndex : Int) : Except (Persister Cmd Snap) Nat := do
  rf.myAssert (logIndex > rf.lastSnapshotIncludeIndex)
  rf.myAssert (logIndex ≤ rf.getLastLogIndex)
  return (logIndex - rf.lastSnapshotIncludeIndex - 1).toNat

/-- `logs_[getSlicesIndexFromLogIndex(logIndex)]`. -/
def entryAt (logIndex : Int) : Except (Persister Cmd Snap) (LogEntry Cmd) := do
  let slicesIndex ← rf.getSlicesIndexFromLogIndex logIndex
  lookup rf.persister rf.logs slicesIndex

def getLogTermFromLogIndex (logIndex : Int) : Except (Persister Cmd Snap) Int := do
  rf.myAssert (logIndex ≥ rf.lastSnapshotIncludeIndex)
  rf.myAssert (logIndex ≤ rf.getLastLogIndex)
  if logIndex = rf.lastSnapshotIncludeIndex then
    return rf.lastSnapshotIncludeTerm
  else
    let entry ← rf.entryAt logIndex
    return entry.logterm

def matchLog (logIndex logTerm : Int) : Except (Persister Cmd Snap) Bool := do
  rf.myAssert (logIndex ≥ rf.lastSnapshotIncludeIndex ∧ logIndex ≤ rf.getLastLogIndex)
  let term ← rf.getLogTermFromLogIndex logIndex
  return logTerm == term

/-- `peers_.size() / 2 + 1`. -/
def majority (_rf : Raft n Cmd Snap) : Int := (n / 2 + 1 : Nat)

/-- The loop variables of `for(i = 0; i < peers_.size(); i++) if(i != raftId_)`. -/
def otherPeers : List (Fin n) := (List.finRange n).filter (· ≠ rf.raftId)

end Raft

/-- Cluster sizes of the example runs, whose peers are numerals. -/
instance threePeers : NeZero 3 := ⟨by decide⟩
instance fivePeers : NeZero 5 := ⟨by decide⟩

end KvStorage
