import KvStorage.Lib.Message

/-! The generated message classes. Each writes its fields in the order of their numbers and takes what
is read of them into a default message; an entry is a message of its own inside its request. -/
namespace KvStorage
open Wire

/-- A message class: the fields of a default message and of any one, and what is made of fields. -/
structure MessageType (M : Type) where
  blank : Message
  write : M → Message
  read : Message → Option M
  numbered : blank.map Prod.fst = List.range' 1 blank.length
  few : blank.length < 2 ^ 28
  blank_write : ∀ m, (write m).blank = blank
  read_write : ∀ m, (write m).Fits → read (write m) = some m

namespace MessageType

variable (T : MessageType M)

def SerializeToString (m : M) : Octets := (T.write m).serialize

def ParseFromArray (bytes : Octets) : Option M := (Message.parse T.blank bytes).bind T.read

variable {T}

theorem fits {m : M} (short : (T.SerializeToString m).length ≤ maxSize) : (T.write m).Fits := by
  have length : (T.write m).length = T.blank.length := by
    rw [← T.blank_write m,Message.blank,List.length_map]
  apply Message.fits_of_length
  · rw [length,← T.numbered,← T.blank_write m,Message.blank_fst]
  · rw [length]
    exact T.few
  · exact short

theorem parse_serialize {m : M} (short : (T.SerializeToString m).length ≤ maxSize) :
    T.ParseFromArray (T.SerializeToString m) = some m := by
  have own := fits short
  rw [ParseFromArray,SerializeToString,← T.blank_write m,Message.parse_serialize own,Option.bind_some]
  exact T.read_write m own

/-- A class without messages inside its fields: what reads as a message has that message's values. -/
def Flat (T : MessageType M) : Prop := ∀ fields m, T.read fields = some m → fields.map Prod.snd = (T.write m).map Prod.snd

/-- What parses of a message that is cut off is the message of the fields before the cut. -/
theorem parse_take {m m' : M} (flat : T.Flat) (short : (T.SerializeToString m).length ≤ maxSize) {k : Nat}
    (parsed : T.ParseFromArray ((T.SerializeToString m).take k) = some m') :
    (T.write m').fields <+: (T.write m).fields ∧ T.SerializeToString m' = (T.SerializeToString m).take k := by
  obtain ⟨fields,held,read⟩ := Option.bind_eq_some_iff.mp parsed
  rw [SerializeToString,← T.blank_write m] at held
  obtain ⟨front,bytes,blank⟩ := Message.parse_take (fits short) held
  have numbers : fields.map Prod.fst = (T.write m').map Prod.fst := by
    rw [← Message.blank_fst,blank,T.blank_write,← T.blank_write m',Message.blank_fst]
  obtain rfl : fields = T.write m' := by
    rw [← List.zip_unzip fields,← List.zip_unzip (T.write m')]
    simp only [List.unzip_fst,List.unzip_snd,numbers,flat fields m' read]
  exact ⟨front,bytes⟩

theorem parse_take_iff {m : M} (flat : T.Flat) (short : (T.SerializeToString m).length ≤ maxSize) (k : Nat) :
    T.ParseFromArray ((T.SerializeToString m).take k) = some m ↔ (T.SerializeToString m).length ≤ k := by
  constructor
  · intro parsed
    have length := congrArg List.length (parse_take flat short parsed).2
    rw [List.length_take] at length
    omega
  · intro whole
    rw [List.take_of_length_le whole]
    exact parse_serialize short

end MessageType

/-! ### raftRPC.proto -/

namespace raftRpcProctoc

structure LogEntry where
  Command : Octets := []
  LogTerm : BitVec 32 := 0
  LogIndex : BitVec 32 := 0
  deriving DecidableEq, Repr

structure AppendEntriesArgs where
  Term : BitVec 32 := 0
  LeaderId : BitVec 32 := 0
  PrevLogIndex : BitVec 32 := 0
  PrevLogTerm : BitVec 32 := 0
  Entries : List LogEntry := []
  LeaderCommit : BitVec 32 := 0
  deriving DecidableEq, Repr

structure AppendEntriesReply where
  Term : BitVec 32 := 0
  Success : Bool := false
  UpdateNextIndex : BitVec 32 := 0
  AppState : BitVec 32 := 0
  deriving DecidableEq, Repr

structure RequestVoteArgs where
  Term : BitVec 32 := 0
  CandidateId : BitVec 32 := 0
  LastLogIndex : BitVec 32 := 0
  LastLogTerm : BitVec 32 := 0
  deriving DecidableEq, Repr

structure RequestVoteReply where
  Term : BitVec 32 := 0
  VoteGranted : Bool := false
  VoteState : BitVec 32 := 0
  deriving DecidableEq, Repr

structure InstallSnapshotRequest where
  LeaderId : BitVec 32 := 0
  Term : BitVec 32 := 0
  Data : Octets := []
  LastSnapShotIncludeIndex : BitVec 32 := 0
  LastSnapShotIncludeTerm : BitVec 32 := 0
  deriving DecidableEq, Repr

structure InstallSnapshotResponse where
  Term : BitVec 32 := 0
  deriving DecidableEq, Repr

def LogEntry.write (m : LogEntry) : Message := [(1,.bytes m.Command),(2,.int32 m.LogTerm),(3,.int32 m.LogIndex)]

def LogEntry.read : Message → Option LogEntry
  | [(_,.bytes Command),(_,.int32 LogTerm),(_,.int32 LogIndex)] => some ⟨Command,LogTerm,LogIndex⟩
  | _ => none

def logEntry : MessageType LogEntry where
  blank := LogEntry.write {}
  write := LogEntry.write
  read := LogEntry.read
  numbered := rfl
  few := by decide
  blank_write _ := rfl
  read_write _ _ := rfl

def AppendEntriesArgs.write (m : AppendEntriesArgs) : Message :=
  [(1,.int32 m.Term),(2,.int32 m.LeaderId),(3,.int32 m.PrevLogIndex),(4,.int32 m.PrevLogTerm),
    (5,.repeated (m.Entries.map logEntry.SerializeToString)),(6,.int32 m.LeaderCommit)]

/-- A request is parsed only if each of its entries is. -/
def AppendEntriesArgs.read : Message → Option AppendEntriesArgs
  | [(_,.int32 Term),(_,.int32 LeaderId),(_,.int32 PrevLogIndex),(_,.int32 PrevLogTerm),(_,.repeated values),
      (_,.int32 LeaderCommit)] =>
    (values.mapM logEntry.ParseFromArray).map fun Entries =>
      ⟨Term,LeaderId,PrevLogIndex,PrevLogTerm,Entries,LeaderCommit⟩
  | _ => none

theorem parse_entries {Entries : List LogEntry}
    (short : ∀ entry ∈ Entries, (logEntry.SerializeToString entry).length ≤ maxSize) :
    (Entries.map logEntry.SerializeToString).mapM logEntry.ParseFromArray = some Entries := by
  induction Entries with
  | nil => rfl
  | cons entry Entries ih =>
    have first := MessageType.parse_serialize (short entry List.mem_cons_self)
    have rest := ih fun e inside => short e (List.mem_cons_of_mem _ inside)
    simp [first,rest]

def appendEntriesArgs : MessageType AppendEntriesArgs where
  blank := AppendEntriesArgs.write {}
  write := AppendEntriesArgs.write
  read := AppendEntriesArgs.read
  numbered := rfl
  few := by decide
  blank_write _ := rfl
  read_write m fits := by
    have values : (Value.repeated (m.Entries.map logEntry.SerializeToString)).Fits :=
      fits.values (5,.repeated _) (by simp [AppendEntriesArgs.write])
    have short : ∀ entry ∈ m.Entries, (logEntry.SerializeToString entry).length ≤ maxSize :=
      fun entry inside => values _ (List.mem_map_of_mem inside)
    simp [AppendEntriesArgs.write,AppendEntriesArgs.read,parse_entries short]

def AppendEntriesReply.write (m : AppendEntriesReply) : Message :=
  [(1,.int32 m.Term),(2,.bool m.Success),(3,.int32 m.UpdateNextIndex),(4,.int32 m.AppState)]

def AppendEntriesReply.read : Message → Option AppendEntriesReply
  | [(_,.int32 Term),(_,.bool Success),(_,.int32 UpdateNextIndex),(_,.int32 AppState)] =>
    some ⟨Term,Success,UpdateNextIndex,AppState⟩
  | _ => none

def appendEntriesReply : MessageType AppendEntriesReply where
  blank := AppendEntriesReply.write {}
  write := AppendEntriesReply.write
  read := AppendEntriesReply.read
  numbered := rfl
  few := by decide
  blank_write _ := rfl
  read_write _ _ := rfl

def RequestVoteArgs.write (m : RequestVoteArgs) : Message :=
  [(1,.int32 m.Term),(2,.int32 m.CandidateId),(3,.int32 m.LastLogIndex),(4,.int32 m.LastLogTerm)]

def RequestVoteArgs.read : Message → Option RequestVoteArgs
  | [(_,.int32 Term),(_,.int32 CandidateId),(_,.int32 LastLogIndex),(_,.int32 LastLogTerm)] =>
    some ⟨Term,CandidateId,LastLogIndex,LastLogTerm⟩
  | _ => none

def requestVoteArgs : MessageType RequestVoteArgs where
  blank := RequestVoteArgs.write {}
  write := RequestVoteArgs.write
  read := RequestVoteArgs.read
  numbered := rfl
  few := by decide
  blank_write _ := rfl
  read_write _ _ := rfl

def RequestVoteReply.write (m : RequestVoteReply) : Message :=
  [(1,.int32 m.Term),(2,.bool m.VoteGranted),(3,.int32 m.VoteState)]

def RequestVoteReply.read : Message → Option RequestVoteReply
  | [(_,.int32 Term),(_,.bool VoteGranted),(_,.int32 VoteState)] => some ⟨Term,VoteGranted,VoteState⟩
  | _ => none

def requestVoteReply : MessageType RequestVoteReply where
  blank := RequestVoteReply.write {}
  write := RequestVoteReply.write
  read := RequestVoteReply.read
  numbered := rfl
  few := by decide
  blank_write _ := rfl
  read_write _ _ := rfl

def InstallSnapshotRequest.write (m : InstallSnapshotRequest) : Message :=
  [(1,.int32 m.LeaderId),(2,.int32 m.Term),(3,.bytes m.Data),(4,.int32 m.LastSnapShotIncludeIndex),
    (5,.int32 m.LastSnapShotIncludeTerm)]

def InstallSnapshotRequest.read : Message → Option InstallSnapshotRequest
  | [(_,.int32 LeaderId),(_,.int32 Term),(_,.bytes Data),(_,.int32 LastSnapShotIncludeIndex),
      (_,.int32 LastSnapShotIncludeTerm)] =>
    some ⟨LeaderId,Term,Data,LastSnapShotIncludeIndex,LastSnapShotIncludeTerm⟩
  | _ => none

def installSnapshotRequest : MessageType InstallSnapshotRequest where
  blank := InstallSnapshotRequest.write {}
  write := InstallSnapshotRequest.write
  read := InstallSnapshotRequest.read
  numbered := rfl
  few := by decide
  blank_write _ := rfl
  read_write _ _ := rfl

def InstallSnapshotResponse.write (m : InstallSnapshotResponse) : Message := [(1,.int32 m.Term)]

def InstallSnapshotResponse.read : Message → Option InstallSnapshotResponse
  | [(_,.int32 Term)] => some ⟨Term⟩
  | _ => none

def installSnapshotResponse : MessageType InstallSnapshotResponse where
  blank := InstallSnapshotResponse.write {}
  write := InstallSnapshotResponse.write
  read := InstallSnapshotResponse.read
  numbered := rfl
  few := by decide
  blank_write _ := rfl
  read_write _ _ := rfl

end raftRpcProctoc

/-! ### kvServerRpc.proto -/

namespace raftKVRpcProctoc

structure GetArgs where
  key : Octets := []
  ClientId : Octets := []
  RequestId : BitVec 32 := 0
  deriving DecidableEq, Repr

structure GetReply where
  Err : Octets := []
  Value : Octets := []
  deriving DecidableEq, Repr

structure PutAppendArgs where
  key : Octets := []
  Value : Octets := []
  Op : Octets := []
  ClientId : Octets := []
  RequestId : BitVec 32 := 0
  deriving DecidableEq, Repr

structure PutAppendReply where
  Err : Octets := []
  deriving DecidableEq, Repr

def GetArgs.write (m : GetArgs) : Message := [(1,.bytes m.key),(2,.bytes m.ClientId),(3,.int32 m.RequestId)]

def GetArgs.read : Message → Option GetArgs
  | [(_,.bytes key),(_,.bytes ClientId),(_,.int32 RequestId)] => some ⟨key,ClientId,RequestId⟩
  | _ => none

def getArgs : MessageType GetArgs where
  blank := GetArgs.write {}
  write := GetArgs.write
  read := GetArgs.read
  numbered := rfl
  few := by decide
  blank_write _ := rfl
  read_write _ _ := rfl

def GetReply.write (m : GetReply) : Message := [(1,.bytes m.Err),(2,.bytes m.Value)]

def GetReply.read : Message → Option GetReply
  | [(_,.bytes Err),(_,.bytes Value)] => some ⟨Err,Value⟩
  | _ => none

def getReply : MessageType GetReply where
  blank := GetReply.write {}
  write := GetReply.write
  read := GetReply.read
  numbered := rfl
  few := by decide
  blank_write _ := rfl
  read_write _ _ := rfl

def PutAppendArgs.write (m : PutAppendArgs) : Message :=
  [(1,.bytes m.key),(2,.bytes m.Value),(3,.bytes m.Op),(4,.bytes m.ClientId),(5,.int32 m.RequestId)]

def PutAppendArgs.read : Message → Option PutAppendArgs
  | [(_,.bytes key),(_,.bytes Value),(_,.bytes Op),(_,.bytes ClientId),(_,.int32 RequestId)] =>
    some ⟨key,Value,Op,ClientId,RequestId⟩
  | _ => none

def putAppendArgs : MessageType PutAppendArgs where
  blank := PutAppendArgs.write {}
  write := PutAppendArgs.write
  read := PutAppendArgs.read
  numbered := rfl
  few := by decide
  blank_write _ := rfl
  read_write _ _ := rfl

def PutAppendReply.write (m : PutAppendReply) : Message := [(1,.bytes m.Err)]

def PutAppendReply.read : Message → Option PutAppendReply
  | [(_,.bytes Err)] => some ⟨Err⟩
  | _ => none

def putAppendReply : MessageType PutAppendReply where
  blank := PutAppendReply.write {}
  write := PutAppendReply.write
  read := PutAppendReply.read
  numbered := rfl
  few := by decide
  blank_write _ := rfl
  read_write _ _ := rfl

end raftKVRpcProctoc
end KvStorage
