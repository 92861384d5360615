import KvStorage.KvServer

/-! The state machine that the server implements: a map and, for each client, the last
request id that changed it. The server's lists, levels and channels are forgotten. -/
namespace KvStorage

abbrev Contents := String → Option String

namespace Op

/-- What the first copy of an operation does to the map. -/
def effect (contents : Contents) (op : Op) : Contents :=
  if op.Operation = "Put" then Function.update contents op.Key (some op.Value)
  else if op.Operation = "Append" then
    Function.update contents op.Key (some ((contents op.Key).getD "" ++ op.Value))
  else contents

/-- Put or Append. -/
def Mutates (op : Op) : Prop := op.Operation = "Put" ∨ op.Operation = "Append"

instance (op : Op) : Decidable op.Mutates := inferInstanceAs (Decidable (_ ∨ _))

/-- Copies of one request. -/
def SameRequest (op other : Op) : Prop := op.ClientId = other.ClientId ∧ op.RequestId = other.RequestId

instance (op other : Op) : Decidable (op.SameRequest other) := inferInstanceAs (Decidable (_ ∧ _))

end Op

@[ext] structure Machine where
  contents : Contents
  last : String → Option Int

namespace Machine

variable (m : Machine) (op : Op)

def empty : Machine := ⟨fun _ => none,fun _ => none⟩

/-- The request is at or below the last id recorded for its client. -/
def Duplicate : Prop := ∃ last ∈ m.last op.ClientId, op.RequestId ≤ last

instance : Decidable (m.Duplicate op) :=
  match held : m.last op.ClientId with
  | none => isFalse (by simp [Duplicate,held])
  | some last => decidable_of_iff (op.RequestId ≤ last) (by simp [Duplicate,held])

def apply : Machine :=
  if op.Mutates ∧ ¬ m.Duplicate op then
    ⟨op.effect m.contents,Function.update m.last op.ClientId (some op.RequestId)⟩
  else m

/-- The machine that applied all of `entries`, duplicates skipped. -/
def replay (entries : List Op) : Machine := entries.foldl apply empty

theorem replay_append (entries : List Op) : replay (entries ++ [op]) = (replay entries).apply op := by
  simp [replay]

variable {m op}

theorem apply_of_duplicate (duplicate : m.Duplicate op) : m.apply op = m := by
  simp [apply,duplicate]

theorem apply_of_not_mutates (reads : ¬ op.Mutates) : m.apply op = m := by
  simp [apply,reads]

theorem apply_fresh (mutates : op.Mutates) (fresh : ¬ m.Duplicate op) :
    m.apply op = ⟨op.effect m.contents,Function.update m.last op.ClientId (some op.RequestId)⟩ := by
  simp [apply,mutates,fresh]

/-- Once applied, a Put or Append is a duplicate. -/
theorem duplicate_apply (mutates : op.Mutates) : (m.apply op).Duplicate op := by
  by_cases duplicate : m.Duplicate op
  · rwa [apply_of_duplicate duplicate]
  · rw [apply_fresh mutates duplicate]
    exact ⟨op.RequestId,by simp,le_rfl⟩

/-- A duplicate stays one: the last id of a client only grows. -/
theorem Duplicate.apply (duplicate : m.Duplicate op) (other : Op) : (m.apply other).Duplicate op := by
  by_cases skipped : other.Mutates ∧ ¬ m.Duplicate other
  · rw [apply_fresh skipped.1 skipped.2]
    obtain ⟨last,held,covers⟩ := duplicate
    by_cases same : op.ClientId = other.ClientId
    · have grows : last < other.RequestId := by
        by_contra smaller
        exact skipped.2 ⟨last,same ▸ held,not_lt.mp smaller⟩
      exact ⟨other.RequestId,by simp [same],by omega⟩
    · exact ⟨last,by simpa [same] using held,covers⟩
  · rw [Machine.apply,if_neg skipped]
    exact duplicate

/-- Every Put and Append of the entries is a duplicate afterwards. -/
theorem duplicate_replay {entries : List Op} (mutates : op.Mutates) (inside : op ∈ entries) :
    (replay entries).Duplicate op := by
  induction entries using List.reverseRecOn with
  | nil => cases inside
  | append_singleton entries other ih =>
    rw [replay_append]
    rcases List.mem_append.mp inside with before | here
    · exact (ih before).apply other
    · obtain rfl := List.mem_singleton.mp here
      exact duplicate_apply mutates

/-- An entry that was applied may come again. -/
theorem apply_replayed {entries : List Op} (inside : op ∈ entries) :
    (replay entries).apply op = replay entries := by
  by_cases mutates : op.Mutates
  · exact apply_of_duplicate (duplicate_replay mutates inside)
  · exact apply_of_not_mutates mutates

end Machine

/-! ### The server refines the machine -/

namespace KvServer

variable (kv : KvServer) (op : Op)

def machine : Machine := ⟨kv.skipList.contents,kv.lastRequestIdMap⟩

@[simp] theorem machine_new (maxRaftStateSize : Int) (rand : Nat → Nat) :
    (new maxRaftStateSize rand).machine = .empty := by
  simp [machine,new,Machine.empty]

@[simp] theorem isRequestDuplicate_iff :
    kv.isRequestDuplicate op.ClientId op.RequestId ↔ kv.machine.Duplicate op := by
  unfold isRequestDuplicate Machine.Duplicate machine
  cases held : kv.lastRequestIdMap op.ClientId <;> simp [held]

@[simp] theorem machine_sendMsgToWaitChan (index : Int) :
    (kv.sendMsgToWaitChan op index).machine = kv.machine := by
  unfold sendMsgToWaitChan
  split <;> rfl

theorem machine_execPutOpOnKVDB (put : op.Operation = "Put") : (kv.execPutOpOnKVDB op).machine =
    ⟨op.effect kv.machine.contents,Function.update kv.machine.last op.ClientId (some op.RequestId)⟩ := by
  simp [execPutOpOnKVDB,recordRequest,machine,Op.effect,put]

theorem machine_execAppendOpOnKVDB (append : op.Operation = "Append") :
    (kv.execAppendOpOnKVDB op).machine =
      ⟨op.effect kv.machine.contents,Function.update kv.machine.last op.ClientId (some op.RequestId)⟩ := by
  have search : kv.skipList.contents op.Key = kv.skipList.searchElement op.Key := rfl
  cases held : kv.skipList.searchElement op.Key with
  | none => simp [execAppendOpOnKVDB,recordRequest,machine,Op.effect,append,search,held]
  | some old => simp [execAppendOpOnKVDB,recordRequest,machine,Op.effect,append,search,held]

theorem machine_execOpOnKVDB : (kv.execOpOnKVDB op).machine = kv.machine.apply op := by
  unfold execOpOnKVDB
  split
  · next fresh =>
    rw [isRequestDuplicate_iff] at fresh
    split
    · next put => rw [machine_execPutOpOnKVDB kv op put,Machine.apply_fresh (.inl put) fresh]
    · next other =>
      split
      · next append => rw [machine_execAppendOpOnKVDB kv op append,Machine.apply_fresh (.inr append) fresh]
      · next neither => rw [Machine.apply_of_not_mutates fun mutates => mutates.elim other neither]
  · next skipped =>
    rw [not_not,isRequestDuplicate_iff] at skipped
    rw [Machine.apply_of_duplicate skipped]

theorem machine_getCommandFromRaft (size index : Int) : (kv.getCommandFromRaft size op index).1.machine =
    if index ≤ kv.lastSnapShotRaftLogIndex then kv.machine else kv.machine.apply op := by
  unfold getCommandFromRaft
  split
  · rfl
  · exact (machine_sendMsgToWaitChan ..).trans (machine_execOpOnKVDB ..)

/-- The keys already there keep their values; the table is the snapshot's. -/
theorem machine_loadFromSnapshotData (snapshot : SnapshotData) :
    (kv.loadFromSnapshotData snapshot).machine =
      ⟨fun key => (kv.machine.contents key).or (snapshot.serializedKVData.lookup key),
        snapshot.lastRequestIdMap⟩ := by
  simp only [machine,loadFromSnapshotData,Machine.mk.injEq,and_true]
  funext key
  exact SkipMap.contents_loadFile ..

@[simp] theorem lastSnapShot_sendMsgToWaitChan (index : Int) :
    (kv.sendMsgToWaitChan op index).lastSnapShotRaftLogIndex = kv.lastSnapShotRaftLogIndex := by
  unfold sendMsgToWaitChan
  split <;> rfl

@[simp] theorem lastSnapShot_execOpOnKVDB :
    (kv.execOpOnKVDB op).lastSnapShotRaftLogIndex = kv.lastSnapShotRaftLogIndex := by
  unfold execOpOnKVDB
  split
  · split
    · rfl
    · split <;> rfl
  · rfl

@[simp] theorem lastSnapShot_getCommandFromRaft (size index : Int) :
    (kv.getCommandFromRaft size op index).1.lastSnapShotRaftLogIndex = kv.lastSnapShotRaftLogIndex := by
  unfold getCommandFromRaft
  split <;> simp

end KvServer
end KvStorage
