import KvStorage.ExactlyOnce

/-! What the apply loop makes of commands and snapshots, against a server that applied every
entry itself. A snapshot is loaded into the list that is there and keeps the values it finds. -/
namespace KvStorage

/-- Every value the machine holds is held by the other one too. -/
def Machine.Kept (m m' : Machine) : Prop :=
  ∀ key value, m.contents key = some value → m'.contents key = some value

namespace KvServer

/-- The server that applied these entries one by one and saw no snapshot. -/
def reference (maxRaftStateSize : Int) (rand : Nat → Nat) (size : Int → Int) (entries : List Op) : KvServer :=
  (new maxRaftStateSize rand).feed size 1 entries

/-- The last lines of the constructor, with what `ReadSnapshot` returned. -/
def start (maxRaftStateSize : Int) (rand : Nat → Nat) (snapshotData : Option SnapshotData) : KvServer :=
  (new maxRaftStateSize rand).readSnapshotToInstall snapshotData

/-- `makeSnapshot` of a server that has processed exactly these entries. -/
def Taken (entries : List Op) (snapshot : SnapshotData) : Prop :=
  ∃ maxRaftStateSize rand size, snapshot = (reference maxRaftStateSize rand size entries).makeSnapshot

/-- The messages that were popped, each with the size that the node reported then. -/
def readApplyCommandLoop (kv : KvServer) (messages : List (Int × ApplyMsg Op SnapshotData)) : KvServer :=
  messages.foldl (fun kv message => kv.applyMsg message.1 message.2) kv

end KvServer

namespace SnapshotStream

/-- The entries up to here are covered once the message is processed. -/
def covers (covered : Nat) : ApplyMsg Op SnapshotData → Nat
  | .command _ CommandIndex => max covered CommandIndex.toNat
  | .snapshot _ _ SnapshotIndex => SnapshotIndex.toNat

def coveredBy (covered : Nat) (messages : List (Int × ApplyMsg Op SnapshotData)) : Nat :=
  messages.foldl (fun covered message => covers covered message.2) covered

/-- The next command, one that is covered already, or a snapshot from further on. -/
inductive Message (entries : List Op) (covered : Nat) : ApplyMsg Op SnapshotData → Prop where
  | next : entries[covered]? = some op → Message entries covered (.command op (covered + 1))
  | again : k < covered → entries[k]? = some op → Message entries covered (.command op (k + 1))
  | snapshot : covered < s → s ≤ entries.length → KvServer.Taken (entries.take s) snapshot →
      Message entries covered (.snapshot (some snapshot) term s)

inductive Stream (entries : List Op) : Nat → List (Int × ApplyMsg Op SnapshotData) → Prop where
  | nil : Stream entries covered []
  | cons : Message entries covered message → Stream entries (covers covered message) rest →
      Stream entries covered ((size,message) :: rest)

/-- An empty server, or one that read the snapshot of a server which had processed this much. -/
inductive Started (entries : List Op) : Nat → KvServer → Prop where
  | empty (maxRaftStateSize : Int) (rand : Nat → Nat) : Started entries 0 (.start maxRaftStateSize rand none)
  | restored (maxRaftStateSize : Int) (rand : Nat → Nat) : covered ≤ entries.length → KvServer.Taken (entries.take covered) snapshot →
      Started entries covered (.start maxRaftStateSize rand (some snapshot))

/-- Contents and table are those of the reference server after every message. -/
def Follows (entries : List Op) (covered : Nat) (kv : KvServer)
    (messages : List (Int × ApplyMsg Op SnapshotData)) : Prop :=
  ∀ front, front <+: messages → ∀ maxRaftStateSize rand size,
    (kv.readApplyCommandLoop front).machine =
      (KvServer.reference maxRaftStateSize rand size (entries.take (coveredBy covered front))).machine

/-- Where a snapshot comes, no covered key changes its value between here and the snapshot. -/
def Unchanged (entries : List Op) (covered : Nat) (messages : List (Int × ApplyMsg Op SnapshotData)) : Prop :=
  ∀ front size snapshot term s rest, messages = front ++ (size,.snapshot snapshot term s) :: rest →
    (Machine.replay (entries.take (coveredBy covered front))).Kept (.replay (entries.take s.toNat))

/-! ### One message -/

variable {entries : List Op} {covered : Nat} {kv : KvServer} {snapshot : SnapshotData}

theorem machine_reference (maxRaftStateSize : Int) (rand : Nat → Nat) (size : Int → Int) (entries : List Op) :
    (KvServer.reference maxRaftStateSize rand size entries).machine = .replay entries :=
  KvServer.feed_new size maxRaftStateSize rand entries

/-- Loading the snapshot leaves its table, and its contents under those that were there. -/
theorem machine_load (taken : KvServer.Taken entries snapshot) : (kv.loadFromSnapshotData snapshot).machine =
    ⟨fun key => (kv.machine.contents key).or ((Machine.replay entries).contents key),
      (Machine.replay entries).last⟩ := by
  obtain ⟨maxRaftStateSize,rand,size,rfl⟩ := taken
  rw [KvServer.machine_loadFromSnapshotData,← machine_reference maxRaftStateSize rand size]
  simp [KvServer.makeSnapshot,KvServer.machine]

theorem load_eq_iff (taken : KvServer.Taken entries snapshot) :
    (kv.loadFromSnapshotData snapshot).machine = .replay entries ↔ kv.machine.Kept (.replay entries) := by
  rw [machine_load taken]
  constructor
  · intro same key value held
    have there := congrFun (congrArg Machine.contents same) key
    simpa [held] using there.symm
  · intro kept
    refine Machine.ext (funext fun key => ?_) rfl
    cases held : kv.machine.contents key with
    | none => simp [held]
    | some value => simp [held,kept key value held]

/-- A command leaves the machine of all the entries it covers, copies and skipped ones included. -/
theorem command_machine {op : Op} {k : Nat} (size : Int) (here : entries[k]? = some op) (reached : k ≤ covered)
    (machine : kv.machine = .replay (entries.take covered)) (skips : kv.lastSnapShotRaftLogIndex ≤ covered) :
    (kv.getCommandFromRaft size op (k + 1)).1.machine = .replay (entries.take (max covered (k + 1))) := by
  rw [KvServer.machine_getCommandFromRaft,machine]
  rcases Nat.lt_or_eq_of_le reached with before | rfl
  · have inside : op ∈ entries.take covered :=
      List.mem_of_getElem? ((List.getElem?_take_of_lt before).trans here)
    rw [Nat.max_eq_left before,Machine.apply_replayed inside,ite_self]
  · rw [if_neg (by omega),Nat.max_eq_right (Nat.le_succ k),List.take_add_one,here]
    exact (Machine.replay_append _ _).symm

/-- The server has the machine of the entries covered, and skips none that is still to come. -/
structure Following (entries : List Op) (covered : Nat) (kv : KvServer) : Prop where
  machine : kv.machine = .replay (entries.take covered)
  skips : kv.lastSnapShotRaftLogIndex ≤ covered

theorem Started.following (started : Started entries covered kv) : Following entries covered kv := by
  cases started with
  | empty => exact ⟨KvServer.machine_new ..,le_rfl⟩
  | restored _ _ inside taken =>
    refine ⟨(load_eq_iff taken).mpr fun key value held => ?_,Int.natCast_nonneg _⟩
    simp [Machine.empty] at held

/-- What a message must meet to keep the server with the reference. -/
def Keeps (entries : List Op) (covered : Nat) : ApplyMsg Op SnapshotData → Prop
  | .command _ _ => True
  | .snapshot _ _ s => (Machine.replay (entries.take covered)).Kept (.replay (entries.take s.toNat))

theorem Following.applyMsg_iff (following : Following entries covered kv) (size : Int)
    (msg : Message entries covered message) :
    (kv.applyMsg size message).machine = .replay (entries.take (covers covered message)) ↔
      Keeps entries covered message := by
  cases msg with
  | next here =>
    simp only [Keeps,iff_true]
    exact command_machine size here le_rfl following.machine following.skips
  | again before here =>
    simp only [Keeps,iff_true]
    exact command_machine size here before.le following.machine following.skips
  | snapshot ahead inside taken =>
    rw [Keeps,← following.machine]
    exact load_eq_iff taken

theorem Following.applyMsg (following : Following entries covered kv) (size : Int)
    (msg : Message entries covered message) (keeps : Keeps entries covered message) :
    Following entries (covers covered message) (kv.applyMsg size message) := by
  refine ⟨(following.applyMsg_iff size msg).mpr keeps,?_⟩
  have skips := following.skips
  cases msg with
  | next here =>
    simp only [KvServer.applyMsg,KvServer.lastSnapShot_getCommandFromRaft,covers]
    omega
  | again before here =>
    simp only [KvServer.applyMsg,KvServer.lastSnapShot_getCommandFromRaft,covers]
    omega
  | snapshot ahead inside taken => exact le_rfl

/-! ### Whole streams -/

theorem follows_cons (size : Int) (message : ApplyMsg Op SnapshotData) (rest : List (Int × ApplyMsg Op SnapshotData)) :
    Follows entries covered kv ((size,message) :: rest) ↔ kv.machine = .replay (entries.take covered) ∧
      Follows entries (covers covered message) (kv.applyMsg size message) rest := by
  simp only [Follows,machine_reference,forall_const]
  constructor
  · intro follows
    refine ⟨follows [] List.nil_prefix,fun front inside => ?_⟩
    exact follows ((size,message) :: front) ((List.prefix_cons_inj _).mpr inside)
  · rintro ⟨here,later⟩ front inside
    rcases List.prefix_cons_iff.mp inside with rfl | ⟨front,rfl,shorter⟩
    · exact here
    · exact later front shorter

theorem unchanged_cons (size : Int) (message : ApplyMsg Op SnapshotData)
    (rest : List (Int × ApplyMsg Op SnapshotData)) : Unchanged entries covered ((size,message) :: rest) ↔
      Keeps entries covered message ∧ Unchanged entries (covers covered message) rest := by
  constructor
  · intro unchanged
    constructor
    · cases message with
      | command op CommandIndex => trivial
      | snapshot snapshot term s => exact unchanged [] size snapshot term s rest rfl
    · intro front size' snapshot term s later split
      exact unchanged ((size,message) :: front) size' snapshot term s later (by rw [split,List.cons_append])
  · rintro ⟨here,there⟩ front size' snapshot term s later split
    cases front with
    | nil =>
      obtain ⟨first,_⟩ := List.cons.inj split
      obtain ⟨_,rfl⟩ := Prod.mk.inj first
      exact here
    | cons first front =>
      obtain ⟨rfl,shorter⟩ := List.cons.inj split
      exact there front size' snapshot term s later shorter

theorem Following.follows_iff (following : Following entries covered kv)
    {messages : List (Int × ApplyMsg Op SnapshotData)} (stream : Stream entries covered messages) :
    Follows entries covered kv messages ↔ Unchanged entries covered messages := by
  induction stream generalizing kv with
  | nil =>
    constructor
    · intro follows front size snapshot term s rest split
      simp at split
    · intro unchanged front inside maxRaftStateSize rand size
      obtain rfl := List.prefix_nil.mp inside
      rw [machine_reference]
      exact following.machine
  | @cons covered message rest size msg stream ih =>
    rw [follows_cons,unchanged_cons]
    constructor
    · rintro ⟨here,later⟩
      have first := later [] List.nil_prefix 0 (fun _ => 0) (fun _ => 0)
      rw [machine_reference] at first
      have keeps := (following.applyMsg_iff size msg).mp first
      exact ⟨keeps,(ih (following.applyMsg size msg keeps)).mp later⟩
    · rintro ⟨keeps,later⟩
      exact ⟨following.machine,(ih (following.applyMsg size msg keeps)).mpr later⟩

/-- The server follows the reference through the whole stream exactly where no snapshot changes a
value that it holds. -/
theorem follows_iff_unchanged {messages : List (Int × ApplyMsg Op SnapshotData)}
    (started : Started entries covered kv) (stream : Stream entries covered messages) :
    Follows entries covered kv messages ↔ Unchanged entries covered messages :=
  started.following.follows_iff stream

def snapshotOf (entries : List Op) : SnapshotData :=
  (KvServer.reference (-1) (fun _ => 0) (fun _ => 0) entries).makeSnapshot

theorem taken_snapshotOf (entries : List Op) : KvServer.Taken entries (snapshotOf entries) :=
  ⟨_,_,_,rfl⟩

/-- A Put, its copy, and a Put of another key. -/
def distinctKeys : List Op := [⟨"Put","k","x","c",1⟩,⟨"Put","k","x","c",1⟩,⟨"Put","l","y","c",2⟩]

/-- The snapshot of all three entries reaches a server that has applied one, then a covered entry again. -/
theorem follows_iff_unchanged_distinctKeys : Follows distinctKeys 0 (.start (-1) (fun _ => 0) none)
    [(0,.command ⟨"Put","k","x","c",1⟩ 1),(0,.snapshot (some (snapshotOf distinctKeys)) 1 3),
      (0,.command ⟨"Put","k","x","c",1⟩ 2)] := by
  refine (follows_iff_unchanged (.empty ..) ?_).mpr ?_
  · have loaded : Message distinctKeys 1 (.snapshot (some (snapshotOf distinctKeys)) 1 3) :=
      .snapshot (s := 3) (by decide) (by decide) (taken_snapshotOf distinctKeys)
    have copied : Message distinctKeys 3 (.command ⟨"Put","k","x","c",1⟩ 2) := .again (k := 1) (by decide) rfl
    exact .cons (.next rfl) (.cons loaded (.cons copied .nil))
  · refine (unchanged_cons ..).mpr ⟨trivial,(unchanged_cons ..).mpr ⟨?_,(unchanged_cons ..).mpr ⟨trivial,?_⟩⟩⟩
    · intro key value held
      have first : Function.update (fun _ => none) "k" (some "x") key = some value := held
      by_cases same : key = "k"
      · subst same
        exact first
      · simp [same] at first
    · intro front size snapshot term s rest split
      simp at split

def overwrites : List Op := [⟨"Put","k","x","c",1⟩,⟨"Put","k","y","c",2⟩]

/-- The value of the first Put outlives the snapshot that holds the second. -/
theorem stale_value : ¬ ∀ entries covered kv messages, Started entries covered kv →
    Stream entries covered messages → Follows entries covered kv messages := by
  intro claim
  have stream : Stream overwrites 0
      [(0,.command ⟨"Put","k","x","c",1⟩ 1),(0,.snapshot (some (snapshotOf overwrites)) 1 2)] := by
    apply Stream.cons (.next rfl)
    exact .cons (.snapshot (by decide) (by decide) (taken_snapshotOf _)) .nil
  have follows := claim _ _ _ _ (.empty (-1) fun _ => 0) stream _ List.prefix_rfl (-1) (fun _ => 0) (fun _ => 0)
  have held : ((KvServer.start (-1) (fun _ => 0) none).readApplyCommandLoop
      [(0,.command ⟨"Put","k","x","c",1⟩ 1),
        (0,.snapshot (some (snapshotOf overwrites)) 1 2)]).skipList.contents "k" = some "x" := by
    decide +kernel
  have expected : (KvServer.reference (-1) (fun _ => 0) (fun _ => 0) overwrites).skipList.contents "k" = some "y" := by
    decide +kernel
  have same := congrFun (congrArg Machine.contents follows) "k"
  have equal : some "x" = some "y" := held.symm.trans (same.trans expected)
  exact absurd equal (by decide)

end SnapshotStream
end KvStorage
