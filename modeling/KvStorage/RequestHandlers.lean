import KvStorage.ExactlyOnce
import KvStorage.Lib.Run

/-! One server with its apply loop and any number of request handlers. Each critical section is one
step: the handlers' between the wait and the answer, and the three of `getCommandFromRaft`. -/
namespace KvStorage

namespace KvServer

variable (kv : KvServer) (op : Op)

/-- The operation of `getCommandFromRaft`, with what its duplicate check answered before. -/
def execUnless (duplicate : Bool) : KvServer :=
  if ¬ duplicate then
    if op.Operation = "Put" then kv.execPutOpOnKVDB op
    else if op.Operation = "Append" then kv.execAppendOpOnKVDB op
    else kv
  else kv

/-- `waitApplyCh_[raftLogIndex] = new LockQueue<Op>()`, unless there is one. -/
def createWaitChan (raftLogIndex : Int) : KvServer :=
  match kv.waitApplyCh raftLogIndex with
  | none => { kv with waitApplyCh := Function.update kv.waitApplyCh raftLogIndex (some []) }
  | some _ => kv

/-- The next state and the operation that `timeOutPop` stores, if one is there. -/
def popWaitChan (raftLogIndex : Int) : Option (KvServer × Op) :=
  match kv.waitApplyCh raftLogIndex with
  | some (op :: ops) => some ({ kv with waitApplyCh := Function.update kv.waitApplyCh raftLogIndex (some ops) },op)
  | _ => none

def eraseWaitChan (raftLogIndex : Int) : KvServer :=
  { kv with waitApplyCh := Function.update kv.waitApplyCh raftLogIndex none }

/-- With no step of a handler in between, the three sections are `getCommandFromRaft`. -/
theorem getCommandFromRaft_sections (size index : Int) (ahead : kv.lastSnapShotRaftLogIndex < index) :
    (kv.getCommandFromRaft size op index).1 =
      (kv.execUnless op (kv.isRequestDuplicate op.ClientId op.RequestId)).sendMsgToWaitChan op index := by
  rw [getCommandFromRaft,if_neg (not_le.mpr ahead)]
  rfl

@[simp] theorem lastSnapShot_execUnless (duplicate : Bool) :
    (kv.execUnless op duplicate).lastSnapShotRaftLogIndex = kv.lastSnapShotRaftLogIndex := by
  unfold execUnless
  split
  · split
    · rfl
    · split <;> rfl
  · rfl

@[simp] theorem waitApplyCh_execUnless (duplicate : Bool) :
    (kv.execUnless op duplicate).waitApplyCh = kv.waitApplyCh := by
  unfold execUnless
  split
  · split
    · rfl
    · split <;> rfl
  · rfl

theorem lastRequestIdMap_execUnless (duplicate : Bool) : (kv.execUnless op duplicate).lastRequestIdMap =
    if duplicate = false ∧ op.Mutates then Function.update kv.lastRequestIdMap op.ClientId (some op.RequestId)
    else kv.lastRequestIdMap := by
  unfold execUnless Op.Mutates
  cases duplicate with
  | true => simp
  | false =>
    by_cases put : op.Operation = "Put"
    · simp [put,execPutOpOnKVDB,recordRequest]
    · by_cases append : op.Operation = "Append"
      · simp [append,execAppendOpOnKVDB,recordRequest]
      · simp [put,append]

/-- Where the check found no duplicate, the list takes the operation's effect. -/
theorem contents_execUnless_fresh (mutates : op.Mutates) :
    (kv.execUnless op false).skipList.contents = op.effect kv.skipList.contents := by
  unfold execUnless
  rw [if_pos Bool.false_ne_true]
  by_cases put : op.Operation = "Put"
  · rw [if_pos put]
    exact congrArg Machine.contents (machine_execPutOpOnKVDB kv op put)
  · have append := mutates.resolve_left put
    rw [if_neg put,if_pos append]
    exact congrArg Machine.contents (machine_execAppendOpOnKVDB kv op append)

@[simp] theorem lastRequestIdMap_execGetOpOnKVDB : (kv.execGetOpOnKVDB op).1.lastRequestIdMap =
    Function.update kv.lastRequestIdMap op.ClientId (some op.RequestId) := by
  unfold execGetOpOnKVDB
  split <;> rfl

@[simp] theorem waitApplyCh_execGetOpOnKVDB : (kv.execGetOpOnKVDB op).1.waitApplyCh = kv.waitApplyCh := by
  unfold execGetOpOnKVDB
  split <;> rfl

@[simp] theorem lastSnapShot_execGetOpOnKVDB :
    (kv.execGetOpOnKVDB op).1.lastSnapShotRaftLogIndex = kv.lastSnapShotRaftLogIndex := by
  unfold execGetOpOnKVDB
  split <;> rfl

@[simp] theorem lastRequestIdMap_sendMsgToWaitChan (index : Int) :
    (kv.sendMsgToWaitChan op index).lastRequestIdMap = kv.lastRequestIdMap := by
  unfold sendMsgToWaitChan
  split <;> rfl

/-- What a section does that touches the channels only. -/
structure ChannelsOnly (kv kv' : KvServer) : Prop where
  table : kv'.lastRequestIdMap = kv.lastRequestIdMap
  skips : kv'.lastSnapShotRaftLogIndex = kv.lastSnapShotRaftLogIndex

/-- Operations in the channels. -/
def Queued (op : Op) : Prop := ∃ raftLogIndex ops, kv.waitApplyCh raftLogIndex = some ops ∧ op ∈ ops

variable {kv op} {kv' : KvServer} {index : Int}

theorem createWaitChan_only : ChannelsOnly kv (kv.createWaitChan index) := by
  unfold createWaitChan
  split <;> exact ⟨rfl,rfl⟩

theorem queued_createWaitChan (queued : (kv.createWaitChan index).Queued op) : kv.Queued op := by
  obtain ⟨at_,ops,held,inside⟩ := queued
  unfold createWaitChan at held
  split at held
  · by_cases same : at_ = index
    · subst same
      simp only [Function.update_self,Option.some.injEq] at held
      simp [← held] at inside
    · exact ⟨at_,ops,by simpa [same] using held,inside⟩
  · exact ⟨at_,ops,held,inside⟩

theorem popWaitChan_only (popped : kv.popWaitChan index = some (kv',op)) :
    ChannelsOnly kv kv' ∧ kv.Queued op ∧ ∀ other, kv'.Queued other → kv.Queued other := by
  unfold popWaitChan at popped
  split at popped
  · next first ops held =>
    obtain ⟨rfl,rfl⟩ := Prod.mk.inj (Option.some.inj popped)
    refine ⟨⟨rfl,rfl⟩,⟨index,_,held,List.mem_cons_self⟩,?_⟩
    rintro other ⟨at_,rest,there,inside⟩
    by_cases same : at_ = index
    · subst same
      simp only [Function.update_self,Option.some.injEq] at there
      exact ⟨at_,_,held,List.mem_cons_of_mem _ (there ▸ inside)⟩
    · exact ⟨at_,rest,by simpa [same] using there,inside⟩
  · cases popped

theorem queued_eraseWaitChan (queued : (kv.eraseWaitChan index).Queued op) : kv.Queued op := by
  obtain ⟨at_,ops,held,inside⟩ := queued
  by_cases same : at_ = index
  · subst same
    simp [eraseWaitChan] at held
  · exact ⟨at_,ops,by simpa [eraseWaitChan,same] using held,inside⟩

theorem queued_sendMsgToWaitChan {other : Op} (queued : (kv.sendMsgToWaitChan op index).Queued other) :
    kv.Queued other ∨ other = op := by
  obtain ⟨at_,ops,held,inside⟩ := queued
  unfold sendMsgToWaitChan at held
  split at held
  · exact .inl ⟨at_,ops,held,inside⟩
  · next before there =>
    by_cases same : at_ = index
    · subst same
      simp only [Function.update_self,Option.some.injEq] at held
      rw [← held,List.mem_append,List.mem_singleton] at inside
      rcases inside with inside | rfl
      · exact .inl ⟨at_,before,there,inside⟩
      · exact .inr rfl
    · exact .inl ⟨at_,ops,by simpa [same] using held,inside⟩

end KvServer

namespace Requests

inductive Err where
  | OK
  | ErrNoKey
  | ErrWrongLeader
  deriving DecidableEq, Repr

structure Reply where
  Err : Err
  Value : String := ""
  deriving DecidableEq, Repr

/-- What a handler does next; a finished one has returned. -/
inductive Stage where
  | create
  | wait
  | timedOut
  | read
  | remove (reply : Reply)
  | finished (reply : Reply)
  deriving DecidableEq, Repr

/-- A running `getImpl` or `putAppendImpl`. -/
structure Handler where
  isGet : Bool
  op : Op
  raftLogIndex : Int
  stage : Stage
  deriving DecidableEq, Repr

/-- Where `getCommandFromRaft` is: before the next command, after its duplicate check, or before
`sendMsgToWaitChan`. -/
inductive Applying where
  | idle
  | checked (op : Op) (duplicate : Bool)
  | executed (op : Op)

/-- The entries up to `covered` are in the server's state. The last two fields are not in the code:
the Puts and Appends executed here, and those that the servers of the loaded snapshots had in theirs. -/
structure Server where
  kv : KvServer
  covered : Nat
  applying : Applying
  handlers : List Handler
  executed : List Op
  recorded : List Op

inductive Action where
  | getImpl (Key ClientId : String) (RequestId raftLogIndex : Int) (isLeader : Bool)
  | putAppendImpl (op : Op) (raftLogIndex : Int) (isLeader : Bool)
  | create (i : Nat)
  | pop (i : Nat)
  | timeOut (i : Nat)
  | isRequestDuplicate (i : Nat) (isLeader : Bool)
  | execGetOpOnKVDB (i : Nat)
  | remove (i : Nat)
  | check
  | execute
  | sendMsgToWaitChan
  | getSnapshotFromRaft (other : Server)

namespace Server

variable (s : Server)

def new (maxRaftStateSize : Int) (rand : Nat → Nat) : Server where
  kv := .new maxRaftStateSize rand
  covered := 0
  applying := .idle
  handlers := []
  executed := []
  recorded := []

/-- The handler returns at once if the node did not take the request. -/
def begin (isGet : Bool) (op : Op) (raftLogIndex : Int) (isLeader : Bool) : Server :=
  { s with handlers := s.handlers ++
      [⟨isGet,op,raftLogIndex,if isLeader then .create else .finished ⟨.ErrWrongLeader,""⟩⟩] }

/-- The server is changed to `kv`, and handler `i` goes on to `stage`. -/
def goOn (kv : KvServer) (i : Nat) (h : Handler) (stage : Stage) : Server :=
  { s with kv := kv, handlers := s.handlers.set i { h with stage := stage } }

/-- The Puts and Appends that the server's state holds. -/
def performed : List Op := s.executed ++ s.recorded

/-- The operation that was popped decides whether the entry at the index is the handler's own. -/
def afterPop (h : Handler) (raftCommitOp : Op) : Stage :=
  if raftCommitOp.ClientId = h.op.ClientId ∧ raftCommitOp.RequestId = h.op.RequestId then
    if h.isGet then .read else .remove ⟨.OK,""⟩
  else .remove ⟨.ErrWrongLeader,""⟩

/-- `getImpl` asks for the leader as well and then reads, `putAppendImpl` answers. -/
def afterTimeOut (h : Handler) (isLeader duplicate : Bool) : Stage :=
  if h.isGet then if isLeader && duplicate then .read else .remove ⟨.ErrWrongLeader,""⟩
  else if duplicate then .remove ⟨.OK,""⟩ else .remove ⟨.ErrWrongLeader,""⟩

def afterRead (value : String) (exist : Bool) : Stage :=
  if exist then .remove ⟨.OK,value⟩ else .remove ⟨.ErrNoKey,""⟩

/-- The next critical section of handler `i`, if it is at `stage`. -/
def handle (i : Nat) (at_ : Stage) (next : Handler → Option Server) : Option Server :=
  match s.handlers[i]? with
  | some h => if h.stage = at_ then next h else none
  | none => none

/-- `entries` are committed in this order; a step that is not enabled gives `none`. -/
def step (entries : List Op) (s : Server) : Action → Option Server
  | .getImpl Key ClientId RequestId raftLogIndex isLeader =>
    some (s.begin true ⟨"Get",Key,"",ClientId,RequestId⟩ raftLogIndex isLeader)
  | .putAppendImpl op raftLogIndex isLeader => some (s.begin false op raftLogIndex isLeader)
  | .create i => s.handle i .create fun h => some (s.goOn (s.kv.createWaitChan h.raftLogIndex) i h .wait)
  | .pop i => s.handle i .wait fun h =>
    (s.kv.popWaitChan h.raftLogIndex).map fun (kv,raftCommitOp) => s.goOn kv i h (afterPop h raftCommitOp)
  -- `putAppendImpl` logs the `int` RequestId as a string here, which may end the process: the run then
  -- ends at this step, and whoever survives the line goes on
  | .timeOut i => s.handle i .wait fun h => some (s.goOn s.kv i h .timedOut)
  | .isRequestDuplicate i isLeader => s.handle i .timedOut fun h =>
    some (s.goOn s.kv i h (afterTimeOut h isLeader (s.kv.isRequestDuplicate h.op.ClientId h.op.RequestId)))
  | .execGetOpOnKVDB i => s.handle i .read fun h =>
    let (kv,value,exist) := s.kv.execGetOpOnKVDB h.op
    some (s.goOn kv i h (afterRead value exist))
  | .remove i => match s.handlers[i]? with
    | some h => match h.stage with
      | .remove reply => some (s.goOn (s.kv.eraseWaitChan h.raftLogIndex) i h (.finished reply))
      | _ => none
    | none => none
  | .check => match s.applying, entries[s.covered]? with
    | .idle, some op =>
      if s.kv.lastSnapShotRaftLogIndex ≥ s.covered + 1 then some { s with covered := s.covered + 1 }
      else some { s with applying := .checked op (s.kv.isRequestDuplicate op.ClientId op.RequestId) }
    | _, _ => none
  | .execute => match s.applying with
    | .checked op duplicate => some { s with
        kv := s.kv.execUnless op duplicate
        covered := s.covered + 1
        applying := .executed op
        executed := if duplicate = false ∧ op.Mutates then s.executed ++ [op] else s.executed }
    | _ => none
  | .sendMsgToWaitChan => match s.applying with
    | .executed op => some { s with kv := s.kv.sendMsgToWaitChan op s.covered, applying := .idle }
    | _ => none
  | .getSnapshotFromRaft other => match s.applying with
    | .idle =>
      if s.covered < other.covered then some { s with
        kv := s.kv.getSnapshotFromRaft (some other.kv.makeSnapshot) other.covered
        covered := other.covered
        recorded := s.recorded ++ other.performed }
      else none
    | _ => none

end Server

/-! ### What a step can do -/

/-- A critical section of handler `i`: the server after it and the handler's next stage. -/
inductive Section (kv : KvServer) (i : Nat) (h : Handler) : Action → KvServer → Stage → Prop where
  | create : h.stage = .create → Section kv i h (.create i) (kv.createWaitChan h.raftLogIndex) .wait
  | pop : h.stage = .wait → kv.popWaitChan h.raftLogIndex = some (kv',op) →
      Section kv i h (.pop i) kv' (Server.afterPop h op)
  | timeOut : h.stage = .wait → Section kv i h (.timeOut i) kv .timedOut
  | isRequestDuplicate : h.stage = .timedOut → Section kv i h (.isRequestDuplicate i isLeader) kv
      (Server.afterTimeOut h isLeader (kv.isRequestDuplicate h.op.ClientId h.op.RequestId))
  | execGetOpOnKVDB : h.stage = .read → Section kv i h (.execGetOpOnKVDB i) (kv.execGetOpOnKVDB h.op).1
      (Server.afterRead (kv.execGetOpOnKVDB h.op).2.1 (kv.execGetOpOnKVDB h.op).2.2)
  | remove : h.stage = .remove reply →
      Section kv i h (.remove i) (kv.eraseWaitChan h.raftLogIndex) (.finished reply)

inductive Moves (entries : List Op) (s : Server) : Action → Server → Prop where
  | getImpl : Moves entries s (.getImpl Key ClientId RequestId raftLogIndex isLeader)
      (s.begin true ⟨"Get",Key,"",ClientId,RequestId⟩ raftLogIndex isLeader)
  | putAppendImpl : Moves entries s (.putAppendImpl op raftLogIndex isLeader) (s.begin false op raftLogIndex isLeader)
  | handler : s.handlers[i]? = some h → Section s.kv i h a kv stage → Moves entries s a (s.goOn kv i h stage)
  | skip : entries[s.covered]? = some op → s.covered + 1 ≤ s.kv.lastSnapShotRaftLogIndex →
      Moves entries s .check { s with covered := s.covered + 1 }
  | check : entries[s.covered]? = some op →
      Moves entries s .check { s with applying := .checked op (s.kv.isRequestDuplicate op.ClientId op.RequestId) }
  | execute : s.applying = .checked op duplicate → Moves entries s .execute { s with
      kv := s.kv.execUnless op duplicate
      covered := s.covered + 1
      applying := .executed op
      executed := if duplicate = false ∧ op.Mutates then s.executed ++ [op] else s.executed }
  | sendMsgToWaitChan : s.applying = .executed op → Moves entries s .sendMsgToWaitChan
      { s with kv := s.kv.sendMsgToWaitChan op s.covered, applying := .idle }
  | getSnapshotFromRaft : s.applying = .idle → s.covered < other.covered →
      Moves entries s (.getSnapshotFromRaft other) { s with
        kv := s.kv.getSnapshotFromRaft (some other.kv.makeSnapshot) other.covered
        covered := other.covered
        recorded := s.recorded ++ other.performed }

variable {entries : List Op} {s s' : Server}

theorem Server.handle_some {i : Nat} {stage : Stage} {next : Handler → Option Server}
    (taken : s.handle i stage next = some s') : ∃ h, s.handlers[i]? = some h ∧ h.stage = stage ∧ next h = some s' := by
  unfold handle at taken
  split at taken
  · next h there =>
    split at taken
    · next here => exact ⟨h,there,here,taken⟩
    · cases taken
  · cases taken

theorem Server.moves {a : Action} (taken : s.step entries a = some s') : Moves entries s a s' := by
  cases a with
  | getImpl =>
    cases taken
    exact .getImpl
  | putAppendImpl =>
    cases taken
    exact .putAppendImpl
  | create i =>
    obtain ⟨h,there,here,next⟩ := handle_some taken
    cases next
    exact .handler there (.create here)
  | pop i =>
    obtain ⟨h,there,here,next⟩ := handle_some taken
    obtain ⟨⟨kv,op⟩,popped,rfl⟩ := Option.map_eq_some_iff.mp next
    exact .handler there (.pop here popped)
  | timeOut i =>
    obtain ⟨h,there,here,next⟩ := handle_some taken
    cases next
    exact .handler there (.timeOut here)
  | isRequestDuplicate i isLeader =>
    obtain ⟨h,there,here,next⟩ := handle_some taken
    cases next
    exact .handler there (.isRequestDuplicate here)
  | execGetOpOnKVDB i =>
    obtain ⟨h,there,here,next⟩ := handle_some taken
    cases next
    exact .handler there (.execGetOpOnKVDB here)
  | remove i =>
    simp only [step] at taken
    split at taken
    · next h there =>
      split at taken
      · next reply here =>
        cases taken
        exact .handler there (.remove here)
      · cases taken
    · cases taken
  | check =>
    simp only [step] at taken
    split at taken
    · next op idle here =>
      split at taken
      · next behind =>
        cases taken
        exact .skip here behind
      · cases taken
        exact .check here
    · cases taken
  | execute =>
    simp only [step] at taken
    split at taken
    · next op duplicate here =>
      cases taken
      exact .execute here
    · cases taken
  | sendMsgToWaitChan =>
    simp only [step] at taken
    split at taken
    · next op here =>
      cases taken
      exact .sendMsgToWaitChan here
    · cases taken
  | getSnapshotFromRaft other =>
    simp only [step] at taken
    split at taken
    · next idle =>
      split at taken
      · next ahead =>
        cases taken
        exact .getSnapshotFromRaft idle ahead
      · cases taken
    · cases taken

end Requests
end KvStorage
