import KvStorage.ApplyChannel

/-! What the channel to the server holds. Its commands have rising indexes above the restored one,
whatever the order of the pushes, and its messages are those that the node handed out. -/
namespace KvStorage
open Exit

namespace ApplyMsg

def commandIndex : ApplyMsg Cmd Snap → Option Int
  | .command _ CommandIndex => some CommandIndex
  | .snapshot .. => none

/-- What is known of commands and of snapshots holds of this one. -/
def Meets (Q : Cmd → Int → Prop) (P : Option Snap → Int → Prop) : ApplyMsg Cmd Snap → Prop
  | .command x i => Q x i
  | .snapshot data _ s => P data s

theorem Meets.mono {Q Q' : Cmd → Int → Prop} {P P' : Option Snap → Int → Prop} {msg : ApplyMsg Cmd Snap}
    (meets : msg.Meets Q P) (commands : ∀ x i, Q x i → Q' x i) (snapshots : ∀ data s, P data s → P' data s) :
    msg.Meets Q' P' := by
  cases msg with
  | command x i => exact commands _ _ meets
  | snapshot data term s => exact snapshots _ _ meets

end ApplyMsg

namespace ApplyChannel

variable {c c' : ApplyChannel n Cmd Snap} {first : Int} {Q Q' : Cmd → Int → Prop} {P P' : Option Snap → Int → Prop}

/-- The commands of the process so far, those of the batch that are not pushed yet last. -/
def commands (c : ApplyChannel n Cmd Snap) : List Int := (c.pushed ++ c.applyMsgs).filterMap ApplyMsg.commandIndex

structure Rising (c : ApplyChannel n Cmd Snap) : Prop where
  order : c.commands.Pairwise (· < ·)
  within : ∀ i ∈ c.commands, c.restored < i ∧ i ≤ c.node.lastApplied
  restored : c.restored ≤ c.node.lastApplied

/-- What waits anywhere for the server. -/
structure Contents (Q : Cmd → Int → Prop) (P : Option Snap → Int → Prop) (c : ApplyChannel n Cmd Snap) : Prop where
  batch : ∀ msg ∈ c.applyMsgs, msg.Meets Q P
  pushers : ∀ msg ∈ c.pushers, msg.Meets Q P
  waiting : ∀ msg ∈ c.applyChan, msg.Meets Q P

theorem Contents.mono (contents : c.Contents Q P) (commands : ∀ x i, Q x i → Q' x i)
    (snapshots : ∀ data s, P data s → P' data s) : c.Contents Q' P' where
  batch msg member := (contents.batch msg member).mono commands snapshots
  pushers msg member := (contents.pushers msg member).mono commands snapshots
  waiting msg member := (contents.waiting msg member).mono commands snapshots

theorem boot_rising (raftId : Fin n) (disk : Persister Cmd Snap) : (boot raftId disk).Rising := by
  have none : (boot raftId disk).commands = [] := rfl
  constructor
  · rw [none]
    exact .nil
  · intro i member
    rw [none] at member
    cases member
  · simp only [boot,Raft.init_eq]
    omega

theorem boot_contents (raftId : Fin n) (disk : Persister Cmd Snap) : (boot raftId disk).Contents Q P where
  batch _ member := by cases member
  pushers _ member := by cases member
  waiting _ member := by cases member

/-- The same commands at a node that has applied no less. -/
theorem Rising.withNode (rising : c.Rising) (commands : c'.commands = c.commands) (restored : c'.restored = c.restored)
    (applied : c.node.lastApplied ≤ c'.node.lastApplied) : c'.Rising where
  order := by
    rw [commands]
    exact rising.order
  within i member := by
    rw [commands] at member
    obtain ⟨above,le⟩ := rising.within i member
    rw [restored]
    exact ⟨above,le.trans applied⟩
  restored := by
    rw [restored]
    exact rising.restored.trans applied

/-- The indexes of a batch are the next ones. -/
theorem commands_batch {rf rf' : Raft n Cmd Snap} {msgs : List (ApplyMsg Cmd Snap)}
    (done : rf.getApplyLogs = .ok (rf',msgs)) :
    (msgs.filterMap ApplyMsg.commandIndex).Pairwise (· < ·) ∧
      (∀ i ∈ msgs.filterMap ApplyMsg.commandIndex, rf.lastApplied < i ∧ i ≤ rf'.lastApplied) ∧
      ∀ msg ∈ msgs, ∃ x i, msg = .command x i := by
  obtain ⟨_,rfl,length,items⟩ := Raft.getApplyLogs_ok done
  have all : ∀ (k : Nat) (inside : k < msgs.length),
      ApplyMsg.commandIndex (msgs.get ⟨k,inside⟩) = some (rf.lastApplied + 1 + k) := by
    intro k inside
    obtain ⟨entry,_,there⟩ := items k inside
    rw [List.getElem?_eq_getElem inside] at there
    rw [List.get_eq_getElem,Option.some.inj there]
    rfl
  refine ⟨?_,?_,?_⟩
  · rw [List.pairwise_filterMap,List.pairwise_iff_getElem]
    intro k m inside inside' less i first j second
    obtain rfl := Option.some.inj ((all k inside).symm.trans first)
    obtain rfl := Option.some.inj ((all m inside').symm.trans second)
    omega
  · intro i member
    obtain ⟨msg,there,index⟩ := List.mem_filterMap.mp member
    obtain ⟨k,inside,rfl⟩ := List.mem_iff_getElem.mp there
    obtain rfl := Option.some.inj ((all k inside).symm.trans index)
    simp only
    omega
  · intro msg member
    obtain ⟨k,found⟩ := List.mem_iff_getElem?.mp member
    obtain ⟨entry,_,there⟩ := items k (List.getElem?_eq_some_iff.mp found).1
    exact ⟨_,_,Option.some.inj (found.symm.trans there)⟩

variable [DecidableEq Cmd] {a : NodeAction n Cmd Snap} {action : ChannelAction n Cmd Snap}

/-- The server takes the oldest message. -/
theorem pops {msg : ApplyMsg Cmd Snap} {rest : List (ApplyMsg Cmd Snap)} (waiting : c.applyChan = msg :: rest)
    (taken : c.step .pop = some c') : c'.popped = c.popped ++ [msg] ∧ c'.restored = c.restored ∧ c'.node = c.node := by
  rw [step,waiting] at taken
  obtain rfl := Option.some.inj taken
  exact ⟨rfl,rfl,rfl⟩

/-- What a section of the node does to the channel: a batch, a thread for a snapshot, nothing, or a restart. -/
inductive Handles (c : ApplyChannel n Cmd Snap) (a : NodeAction n Cmd Snap) : ApplyChannel n Cmd Snap → Prop where
  | batch : a = .getApplyLogs → c.applyMsgs = [] → c.node.getApplyLogs = .ok (rf,msgs) →
      Handles c a { c with node := rf, applyMsgs := msgs }
  | install : a = .installSnapshotImpl args → c.node.installSnapshotImpl args = .ok (rf,reply,msg) →
      Handles c a { c with node := rf, pushers := c.pushers ++ msg.toList }
  | ran : c.node.handle a = .ok rf → c.node.lastApplied ≤ rf.lastApplied → Handles c a { c with node := rf }
  | restart : c.node.handle a = .error left → Handles c a (boot c.node.raftId left)

theorem handles (taken : c.step (.handle a) = some c') : Handles c a c' := by
  cases a with
  | getApplyLogs =>
    simp only [step] at taken
    split at taken
    · next empty =>
      obtain rfl := Option.some.inj taken
      cases done : c.node.getApplyLogs with
      | ok value => exact .batch rfl (List.isEmpty_iff.mp empty) done
      | error left => exact .restart (by simp [Raft.handle,done])
    · cases taken
  | installSnapshotImpl args =>
    obtain rfl := Option.some.inj taken
    cases done : c.node.installSnapshotImpl args with
    | ok value => exact .install rfl done
    | error left => exact .restart (by simp [Raft.handle,done])
  | snapshot index data =>
    simp only [step] at taken
    split at taken
    · split at taken
      · obtain rfl := Option.some.inj taken
        cases done : c.node.snapshot index data with
        | ok rf =>
          refine .ran done ?_
          rcases Raft.snapshot_ok done with ⟨rfl,_⟩ | ⟨_,_,_,_,rfl⟩
          · exact le_rfl
          · exact le_max_left ..
        | error left => exact .restart done
      · cases taken
    · cases taken
  | _ =>
    obtain rfl := Option.some.inj taken
    generalize same : c.node.handle _ = result
    cases result with
    | ok rf => exact .ran same (Raft.handle_lastApplied same (by simp) (by simp) (by simp)).ge
    | error left => exact .restart same

/-- The node of the channel runs the section. -/
theorem Handles.node (handles : Handles c a c') : c'.node = c.node.resume (c.node.handle a) := by
  cases handles with
  | batch eq _ done =>
    subst eq
    simp [Raft.handle,done,Raft.resume,Except.map]
  | install eq done =>
    subst eq
    simp [Raft.handle,done,Raft.resume,Except.map]
  | ran done => rw [done]; rfl
  | restart exit => rw [exit]; rfl

/-- A section that ends normally leaves what was popped. -/
theorem Handles.popped {rf : Raft n Cmd Snap} (handles : Handles c a c') (done : c.node.handle a = .ok rf) :
    c'.popped = c.popped ∧ c'.restored = c.restored := by
  cases handles with
  | batch => exact ⟨rfl,rfl⟩
  | install => exact ⟨rfl,rfl⟩
  | ran => exact ⟨rfl,rfl⟩
  | restart exit => cases exit.symm.trans done

theorem Handles.exit {left : Persister Cmd Snap} (handles : Handles c a c') (exit : c.node.handle a = .error left) :
    c' = boot c.node.raftId left := by
  cases handles with
  | batch eq _ done =>
    subst eq
    simp [Raft.handle,done,Except.map] at exit
  | install eq done =>
    subst eq
    simp [Raft.handle,done,Except.map] at exit
  | ran done => cases exit.symm.trans done
  | restart other => rw [Except.error.inj (other.symm.trans exit)]

theorem Rising.handles (rising : c.Rising) (handles : Handles c a c') : c'.Rising := by
  cases handles with
  | @batch rf msgs eq empty done =>
    obtain ⟨order,within,_⟩ := commands_batch done
    have applied : c.node.lastApplied ≤ rf.lastApplied := by
      obtain ⟨_,rfl,_⟩ := Raft.getApplyLogs_ok done
      exact le_max_left ..
    have old : c.commands = c.pushed.filterMap ApplyMsg.commandIndex := by rw [commands,empty,List.append_nil]
    have new : commands { c with node := rf, applyMsgs := msgs } =
        c.commands ++ msgs.filterMap ApplyMsg.commandIndex := by
      rw [old,← List.filterMap_append]
      rfl
    refine ⟨?_,?_,rising.restored.trans applied⟩
    · rw [new,List.pairwise_append]
      refine ⟨rising.order,order,fun i before j later => ?_⟩
      have first := (rising.within i before).2
      have second := (within j later).1
      omega
    · intro i member
      rw [new] at member
      rcases List.mem_append.mp member with before | later
      · obtain ⟨above,le⟩ := rising.within i before
        exact ⟨above,le.trans applied⟩
      · obtain ⟨above,le⟩ := within i later
        exact ⟨rising.restored.trans_lt above,le⟩
  | @install args rf reply msg eq done =>
    refine rising.withNode rfl rfl ?_
    rcases Raft.installSnapshotImpl_cases c.node args with ⟨_,ran⟩ | ⟨_,_,ran⟩ | ⟨_,_,ran⟩
    all_goals obtain ⟨rfl,_⟩ := Prod.mk.inj (Except.ok.inj (ran.symm.trans done))
    · exact le_rfl
    · exact (Raft.followDurably_lastApplied ..).ge
    · change _ ≤ max (c.node.followDurably args.term).lastApplied _
      rw [Raft.followDurably_lastApplied]
      exact le_max_left ..
  | ran done applied => exact rising.withNode rfl rfl applied
  | restart exit => exact boot_rising ..

theorem Rising.step (rising : c.Rising) (ordered : c.Ordered first) (taken : c.step action = some c') : c'.Rising := by
  cases action with
  | handle a => exact rising.handles (ApplyChannel.handles taken)
  | pushApplied =>
    simp only [ApplyChannel.step] at taken
    split at taken
    · cases taken
    · next msg rest next =>
      obtain rfl := Option.some.inj taken
      exact rising.withNode (by simp [commands,pushed,next]) rfl le_rfl
  | pushMsgToKvServer thread =>
    simp only [ApplyChannel.step] at taken
    split at taken
    · cases taken
    · next msg held =>
      obtain rfl := Option.some.inj taken
      obtain ⟨data,term,eq,_⟩ := ordered.pending msg (List.mem_of_getElem? held)
      have silent : msg.commandIndex = none := by rw [eq]; rfl
      exact rising.withNode (by simp [commands,pushed,silent]) rfl le_rfl
  | pop =>
    simp only [ApplyChannel.step] at taken
    split at taken
    · cases taken
    · next msg rest next =>
      obtain rfl := Option.some.inj taken
      exact rising.withNode (by simp [commands,pushed,next]) rfl le_rfl

theorem Contents.step (contents : c.Contents Q P) (taken : c.step action = some c')
    (batch : ∀ rf msgs x i, action = .handle .getApplyLogs → c.node.getApplyLogs = .ok (rf,msgs) →
      .command x i ∈ msgs → Q x i)
    (install : ∀ args, action = .handle (.installSnapshotImpl args) → P args.data args.lastsnapshotincludeindex) :
    c'.Contents Q P := by
  cases action with
  | handle a =>
    cases handles taken with
    | @batch rf msgs eq empty done =>
      refine { contents with batch := fun msg member => ?_ }
      obtain ⟨x,i,rfl⟩ := (commands_batch done).2.2 msg member
      exact batch rf msgs x i (by rw [eq]) done member
    | @install args rf reply msg eq done =>
      refine { contents with pushers := fun other member => ?_ }
      rcases List.mem_append.mp member with before | fresh
      · exact contents.pushers other before
      · rcases Raft.installSnapshotImpl_cases c.node args with ⟨_,ran⟩ | ⟨_,_,ran⟩ | ⟨_,_,ran⟩
        all_goals obtain ⟨_,_,rfl⟩ := Prod.mk.inj (Except.ok.inj (ran.symm.trans done))
        · cases fresh
        · cases fresh
        · obtain rfl := List.mem_singleton.mp fresh
          exact install args (by rw [eq])
    | ran => exact ⟨contents.batch,contents.pushers,contents.waiting⟩
    | restart => exact boot_contents ..
  | pushApplied =>
    simp only [ApplyChannel.step] at taken
    split at taken
    · cases taken
    · next msg rest next =>
      obtain rfl := Option.some.inj taken
      have all := contents.batch
      rw [next] at all
      refine ⟨fun other member => all other (List.mem_cons_of_mem _ member),contents.pushers,fun other member => ?_⟩
      rcases List.mem_append.mp member with before | fresh
      · exact contents.waiting other before
      · exact all other (List.mem_singleton.mp fresh ▸ List.mem_cons_self)
  | pushMsgToKvServer thread =>
    simp only [ApplyChannel.step] at taken
    split at taken
    · cases taken
    · next msg held =>
      obtain rfl := Option.some.inj taken
      refine ⟨contents.batch,fun other member => contents.pushers other (List.mem_of_mem_eraseIdx member),
        fun other member => ?_⟩
      rcases List.mem_append.mp member with before | fresh
      · exact contents.waiting other before
      · exact contents.pushers other (List.mem_singleton.mp fresh ▸ List.mem_of_getElem? held)
  | pop =>
    simp only [ApplyChannel.step] at taken
    split at taken
    · cases taken
    · next msg rest next =>
      obtain rfl := Option.some.inj taken
      have all := contents.waiting
      rw [next] at all
      exact ⟨contents.batch,contents.pushers,fun other member => all other (List.mem_cons_of_mem _ member)⟩

end ApplyChannel
end KvStorage
