import KvStorage.RaftHandlers
import KvStorage.SkipMap

/-! The key-value server as the apply loop and the request handlers use it. Archives are
the data they save. Every function below runs under the server's mutex or, like the two
that handle a message, on the apply thread alone. -/
namespace KvStorage

structure Op where
  Operation : String
  Key : String
  Value : String
  ClientId : String
  RequestId : Int
  deriving DecidableEq, Repr

/-- What `serialize` saves of a server. -/
structure SnapshotData where
  serializedKVData : SkipListDump String String
  lastRequestIdMap : String → Option Int

structure KvServer where
  maxRaftStateSize : Int
  skipList : SkipMap String String
  waitApplyCh : Int → Option (List Op)
  lastSnapShotRaftLogIndex : Int
  lastRequestIdMap : String → Option Int

namespace KvServer

/-- The constructor, before it reads the snapshot file; `rand` decides the heights. -/
def new (maxRaftStateSize : Int) (rand : Nat → Nat) : KvServer where
  maxRaftStateSize
  skipList := .new 6 rand
  waitApplyCh _ := none
  lastSnapShotRaftLogIndex := 0
  lastRequestIdMap _ := none

variable (kv : KvServer)

/-- `lastRequestIdMap_[op.ClientId] = op.RequestId`. -/
def recordRequest (op : Op) : KvServer :=
  { kv with lastRequestIdMap := Function.update kv.lastRequestIdMap op.ClientId (some op.RequestId) }

def execAppendOpOnKVDB (op : Op) : KvServer :=
  let skipList := match kv.skipList.searchElement op.Key with
    | some oldVal => kv.skipList.insertSetElement op.Key (oldVal ++ op.Value)
    | none => kv.skipList.insertSetElement op.Key op.Value
  { kv with skipList }.recordRequest op

/-- The next state, `*value` and `*isExist`. -/
def execGetOpOnKVDB (op : Op) : KvServer × String × Bool :=
  match kv.skipList.searchElement op.Key with
  | some value => (kv.recordRequest op,value,true)
  | none => (kv.recordRequest op,"",false)

def execPutOpOnKVDB (op : Op) : KvServer :=
  { kv with skipList := kv.skipList.insertSetElement op.Key op.Value }.recordRequest op

/-- The request id is at most the last one recorded for the client. -/
def isRequestDuplicate (clientId : String) (requestId : Int) : Bool :=
  match kv.lastRequestIdMap clientId with
  | none => false
  | some last => requestId ≤ last

/-! ### Snapshots -/

/-- `getSnapshotData` under the mutex. -/
def makeSnapshot : SnapshotData := ⟨kv.skipList.dumpFile,kv.lastRequestIdMap⟩

/-- The table is replaced, the list only loaded into. -/
def loadFromSnapshotData (snapshotData : SnapshotData) : KvServer :=
  { kv with
    lastRequestIdMap := snapshotData.lastRequestIdMap
    skipList := kv.skipList.loadFile snapshotData.serializedKVData }

def readSnapshotToInstall : Option SnapshotData → KvServer
  | none => kv
  | some snapshot => kv.loadFromSnapshotData snapshot

/-- What `raftNode_->snapshot` is called with, if the saved state is nine tenths full. -/
def ifNeedToSendSnapshotCommand (raftStateSize raftLogIndex proportion : Int) :
    Option (Int × SnapshotData) :=
  if kv.maxRaftStateSize = -1 then none
  else if raftStateSize * 10 ≥ kv.maxRaftStateSize * proportion then some (raftLogIndex,kv.makeSnapshot)
  else none

/-! ### Messages of the apply channel -/

/-- `push` wakes the handler that waits for the index, if there is one. -/
def sendMsgToWaitChan (op : Op) (raftLogIndex : Int) : KvServer :=
  match kv.waitApplyCh raftLogIndex with
  | none => kv
  | some ops => { kv with waitApplyCh := Function.update kv.waitApplyCh raftLogIndex (some (ops ++ [op])) }

/-- The duplicate check and the operation it guards. -/
def execOpOnKVDB (op : Op) : KvServer :=
  if ¬ kv.isRequestDuplicate op.ClientId op.RequestId then
    if op.Operation = "Put" then kv.execPutOpOnKVDB op
    else if op.Operation = "Append" then kv.execAppendOpOnKVDB op
    else kv
  else kv

/-- The next state and the call of `raftNode_->snapshot`, if any. -/
def getCommandFromRaft (raftStateSize : Int) (op : Op) (CommandIndex : Int) :
    KvServer × Option (Int × SnapshotData) :=
  if kv.lastSnapShotRaftLogIndex ≥ CommandIndex then (kv,none)
  else
    let kv := kv.execOpOnKVDB op
    (kv.sendMsgToWaitChan op CommandIndex,kv.ifNeedToSendSnapshotCommand raftStateSize CommandIndex 9)

/-- `condInstallSnapshot` always agrees. -/
def getSnapshotFromRaft (snapshot : Option SnapshotData) (SnapshotIndex : Int) : KvServer :=
  { kv.readSnapshotToInstall snapshot with lastSnapShotRaftLogIndex := SnapshotIndex }

/-- One round of `readApplyCommandLoop`. -/
def applyMsg (raftStateSize : Int) : ApplyMsg Op SnapshotData → KvServer
  | .command op CommandIndex => (kv.getCommandFromRaft raftStateSize op CommandIndex).1
  | .snapshot snapshot _ SnapshotIndex => kv.getSnapshotFromRaft snapshot SnapshotIndex

end KvServer
end KvStorage
