import KvStorage.RaftStep

/-! The channel from a node to its key-value server. Commands are taken in batches under
the mutex and pushed outside it, snapshots by detached threads; the order in which the
server pops them is that of the pushes. -/
namespace KvStorage
open Exit

namespace ApplyMsg

/-- `CommandIndex` or `SnapshotIndex`, whichever is valid. -/
def index : ApplyMsg Cmd Snap → Int
  | .command _ CommandIndex => CommandIndex
  | .snapshot _ _ SnapshotIndex => SnapshotIndex

/-- A command carries out one index, a snapshot all of them up to its own. -/
def Covers (j : Int) : ApplyMsg Cmd Snap → Prop
  | .command _ i => i = j
  | .snapshot _ _ s => j ≤ s

/-- No command beyond the index `s`. -/
def CommandWithin (s : Int) : ApplyMsg Cmd Snap → Prop
  | .command _ i => i ≤ s
  | .snapshot .. => True

instance (s : Int) : (msg : ApplyMsg Cmd Snap) → Decidable (msg.CommandWithin s)
  | .command _ i => inferInstanceAs (Decidable (i ≤ s))
  | .snapshot .. => isTrue trivial

end ApplyMsg

/-! ### The order of a sequence of messages -/

def Covered (restored : Int) (before : List (ApplyMsg Cmd Snap)) (j : Int) : Prop :=
  j ≤ restored ∨ ∃ msg ∈ before, msg.Covers j

/-- Every command finds the indexes below it covered and no snapshot goes back. -/
structure ChannelOrder (restored : Int) (msgs : List (ApplyMsg Cmd Snap)) : Prop where
  gapless : ∀ before command i after, msgs = before ++ .command command i :: after →
    ∀ j, 1 ≤ j → j < i → Covered restored before j
  fresh : ∀ before data term s after, msgs = before ++ .snapshot data term s :: after →
    ∀ msg ∈ before, msg.CommandWithin s

/-- One more message splits the sequence at its end or where it split before. -/
theorem snoc_split {msgs before after : List α} {x last : α} (split : msgs ++ [last] = before ++ x :: after) :
    (msgs = before ∧ last = x ∧ after = []) ∨ ∃ rest, after = rest ++ [last] ∧ msgs = before ++ x :: rest := by
  rcases List.eq_nil_or_concat after with rfl | ⟨rest,final,rfl⟩
  · obtain ⟨same,eq⟩ := List.append_inj' split rfl
    exact .inl ⟨same,by simpa using eq,rfl⟩
  · have whole : msgs ++ [last] = (before ++ x :: rest) ++ [final] := by simpa using split
    obtain ⟨same,eq⟩ := List.append_inj' whole rfl
    obtain rfl : last = final := by simpa using eq
    exact .inr ⟨rest,by simp,same⟩

section Order
variable {restored : Int} {msgs later : List (ApplyMsg Cmd Snap)}

theorem Covered.append (covered : Covered restored msgs j) : Covered restored (msgs ++ later) j :=
  covered.imp id fun ⟨msg,sent,covers⟩ => ⟨msg,List.mem_append_left _ sent,covers⟩

theorem ChannelOrder.nil : ChannelOrder restored ([] : List (ApplyMsg Cmd Snap)) :=
  ⟨fun _ _ _ _ split => by simp at split,fun _ _ _ _ _ split => by simp at split⟩

theorem ChannelOrder.earlier (order : ChannelOrder restored (msgs ++ later)) :
    ChannelOrder restored msgs :=
  ⟨fun before command i after split => order.gapless before command i (after ++ later) (by simp [split]),
    fun before data term s after split => order.fresh before data term s (after ++ later) (by simp [split])⟩

theorem ChannelOrder.command (order : ChannelOrder restored msgs) (command : Cmd)
    (below : ∀ j, 1 ≤ j → j < i → Covered restored msgs j) :
    ChannelOrder restored (msgs ++ [.command command i]) := by
  refine ⟨fun before other k after split => ?_,fun before data term s after split => ?_⟩
  · rcases snoc_split split with ⟨rfl,eq,_⟩ | ⟨rest,_,inside⟩
    · cases eq; exact below
    · exact order.gapless before other k rest inside
  · rcases snoc_split split with ⟨_,eq,_⟩ | ⟨rest,_,inside⟩
    · cases eq
    · exact order.fresh before data term s rest inside

theorem ChannelOrder.snapshot (order : ChannelOrder restored msgs) (data : Option Snap) (term : Int)
    (within : ∀ msg ∈ msgs, msg.CommandWithin s) :
    ChannelOrder restored (msgs ++ [.snapshot data term s]) := by
  refine ⟨fun before other k after split => ?_,fun before data term s after split => ?_⟩
  · rcases snoc_split split with ⟨_,eq,_⟩ | ⟨rest,_,inside⟩
    · cases eq
    · exact order.gapless before other k rest inside
  · rcases snoc_split split with ⟨rfl,eq,_⟩ | ⟨rest,_,inside⟩
    · cases eq; exact within
    · exact order.fresh before data term s rest inside

end Order

/-! ### The node, its two kinds of pushing threads and the queue -/

/-- `applyMsgs` is what `applierTicker` has yet to push of its batch, `pushers` are the
detached threads' messages, `popped` what the server took out, oldest first. -/
structure ApplyChannel (n : Nat) (Cmd Snap : Type) where
  node : Raft n Cmd Snap
  applyMsgs : List (ApplyMsg Cmd Snap)
  pushers : List (ApplyMsg Cmd Snap)
  applyChan : List (ApplyMsg Cmd Snap)
  popped : List (ApplyMsg Cmd Snap)
  restored : Int
  deriving DecidableEq

inductive ChannelAction (n : Nat) (Cmd Snap : Type) where
  | handle (action : NodeAction n Cmd Snap)
  | pushApplied
  | pushMsgToKvServer (thread : Nat)
  | pop

namespace ApplyChannel

/-- A process that starts from its files; the server loads the restored snapshot. -/
def boot (raftId : Fin n) (disk : Persister Cmd Snap) : ApplyChannel n Cmd Snap where
  node := .init raftId disk
  applyMsgs := []
  pushers := []
  applyChan := []
  popped := []
  restored := (Raft.init raftId disk).lastSnapshotIncludeIndex

/-- An exit takes the queue and the threads with it. -/
def resume (c : ApplyChannel n Cmd Snap) :
    Except (Persister Cmd Snap) (ApplyChannel n Cmd Snap) → ApplyChannel n Cmd Snap
  | .ok c' => c'
  | .error left => boot c.node.raftId left

def pushed (c : ApplyChannel n Cmd Snap) : List (ApplyMsg Cmd Snap) := c.popped ++ c.applyChan

/-- `snapshot` is called for the command just popped, `getApplyLogs` between two batches. -/
def step [DecidableEq Cmd] (c : ApplyChannel n Cmd Snap) :
    ChannelAction n Cmd Snap → Option (ApplyChannel n Cmd Snap)
  | .handle .getApplyLogs =>
    if c.applyMsgs.isEmpty then
      some (c.resume (c.node.getApplyLogs.map fun (rf,msgs) => { c with node := rf, applyMsgs := msgs }))
    else none
  | .handle (.installSnapshotImpl args) =>
    some (c.resume ((c.node.installSnapshotImpl args).map fun (rf,_,msg) =>
      { c with node := rf, pushers := c.pushers ++ msg.toList }))
  | .handle (.snapshot index data) =>
    match c.popped.getLast? with
    | some (.command _ i) =>
      if index = i then some (c.resume ((c.node.snapshot index data).map fun rf => { c with node := rf }))
      else none
    | _ => none
  | .handle action => some (c.resume ((c.node.handle action).map fun rf => { c with node := rf }))
  | .pushApplied =>
    match c.applyMsgs with
    | [] => none
    | msg :: rest => some { c with applyMsgs := rest, applyChan := c.applyChan ++ [msg] }
  | .pushMsgToKvServer thread =>
    match c.pushers[thread]? with
    | none => none
    | some msg =>
      some { c with pushers := c.pushers.eraseIdx thread, applyChan := c.applyChan ++ [msg] }
  | .pop =>
    match c.applyChan with
    | [] => none
    | msg :: rest => some { c with applyChan := rest, popped := c.popped ++ [msg] }

/-- A snapshot is accepted before any command beyond it is pushed, and no command is pushed
ahead of a thread that still holds a smaller snapshot. -/
def InTurn (c : ApplyChannel n Cmd Snap) : ChannelAction n Cmd Snap → Prop
  | .handle (.installSnapshotImpl args) =>
    c.node.currentTerm ≤ args.term ∧ c.node.lastSnapshotIncludeIndex < args.lastsnapshotincludeindex →
      ∀ msg ∈ c.pushed, msg.CommandWithin args.lastsnapshotincludeindex
  | .pushApplied => ∀ next ∈ c.applyMsgs.head?, ∀ msg ∈ c.pushers, next.index ≤ msg.index
  | _ => True

instance (c : ApplyChannel n Cmd Snap) : (action : ChannelAction n Cmd Snap) → Decidable (c.InTurn action)
  | .handle (.installSnapshotImpl _) => inferInstanceAs (Decidable (_ ∧ _ → ∀ msg ∈ c.pushed, _))
  | .pushApplied => inferInstanceAs (Decidable (∀ next ∈ c.applyMsgs.head?, ∀ msg ∈ c.pushers, _))
  | .handle .doElection | .handle (.requestVoteImpl _) | .handle (.sendRequestVote ..)
  | .handle .doHeartBeat | .handle (.appendEntriesimpl _) | .handle (.sendAppendEntries ..)
  | .handle (.leaderSendSnapshot ..) | .handle (.start _) | .handle (.snapshot ..)
  | .handle .getApplyLogs | .handle .crash | .pushMsgToKvServer _ | .pop => isTrue trivial

/-- `first` is the next index that the applier will push. -/
structure Ordered (c : ApplyChannel n Cmd Snap) (first : Int) : Prop where
  order : ChannelOrder c.restored c.pushed
  applied : ∀ msg ∈ c.pushed, msg.CommandWithin c.node.lastApplied
  pending : ∀ msg ∈ c.pushers, ∃ data term, msg = .snapshot data term msg.index ∧
    msg.index ≤ c.node.lastApplied ∧ ∀ sent ∈ c.pushed, sent.CommandWithin msg.index
  batch : ∀ (k : Nat) msg, c.applyMsgs[k]? = some msg → ∃ command : Cmd, msg = .command command (first + k)
  inside : first + c.applyMsgs.length ≤ c.node.lastApplied + 1
  before : ∀ j, 1 ≤ j → j < first →
    Covered c.restored c.pushed j ∨ ∃ msg ∈ c.pushers, j ≤ msg.index ∧ msg.index < first
  beyond : ∀ j, 1 ≤ j → first + c.applyMsgs.length ≤ j → j ≤ c.node.lastApplied →
    Covered c.restored c.pushed j ∨ ∃ msg ∈ c.pushers, j ≤ msg.index

theorem boot_ordered (raftId : Fin n) (disk : Persister Cmd Snap) :
    ∃ first, (boot raftId disk).Ordered first := by
  refine ⟨(boot raftId disk).node.lastApplied + 1,.nil,?_,?_,?_,?_,?_,?_⟩
  · simp [boot,pushed]
  · simp [boot]
  · simp [boot]
  · simp [boot]
  · intro j positive below
    refine .inl (.inl ?_)
    simp only [boot,Raft.init_eq] at below ⊢
    omega
  · intro j _ above below
    simp only [boot,List.length_nil] at above below
    omega

variable {c : ApplyChannel n Cmd Snap} {first : Int}

/-- Steps of the node that leave `lastApplied` alone do not concern the channel. -/
theorem Ordered.withNode (ordered : c.Ordered first) {rf : Raft n Cmd Snap}
    (same : rf.lastApplied = c.node.lastApplied) : Ordered { c with node := rf } first := by
  constructor
  · exact ordered.order
  · simpa only [same,pushed] using ordered.applied
  · simpa only [same,pushed] using ordered.pending
  · exact ordered.batch
  · simpa only [same] using ordered.inside
  · exact ordered.before
  · simpa only [same,pushed] using ordered.beyond

/-- The next batch starts behind everything covered or pending. -/
theorem Ordered.takeBatch [DecidableEq Cmd] (ordered : c.Ordered first) (empty : c.applyMsgs = [])
    {rf : Raft n Cmd Snap} {msgs : List (ApplyMsg Cmd Snap)}
    (done : c.node.getApplyLogs = .ok (rf,msgs)) :
    Ordered { c with node := rf, applyMsgs := msgs } (c.node.lastApplied + 1) := by
  obtain ⟨_,rfl,length,items⟩ := Raft.getApplyLogs_ok done
  have short : first ≤ c.node.lastApplied + 1 := by simpa [empty] using ordered.inside
  constructor
  · exact ordered.order
  · intro msg sent
    have within := ordered.applied msg sent
    cases msg with
    | command command i => exact le_max_of_le_left within
    | snapshot => trivial
  · intro msg waiting
    obtain ⟨data,term,eq,le,rest⟩ := ordered.pending msg waiting
    exact ⟨data,term,eq,le_max_of_le_left le,rest⟩
  · intro k msg found
    obtain ⟨entry,_,there⟩ := items k (List.getElem?_eq_some_iff.mp found).1
    exact ⟨entry.command,Option.some.inj (found.symm.trans there)⟩
  · simp only [length]; omega
  · intro j positive below
    by_cases old : j < first
    · rcases ordered.before j positive old with covered | ⟨msg,waiting,covers,behind⟩
      · exact .inl covered
      · exact .inr ⟨msg,waiting,covers,by omega⟩
    · rcases ordered.beyond j positive (by simp [empty]; omega) (by omega) with covered | ⟨msg,waiting,covers⟩
      · exact .inl covered
      · obtain ⟨_,_,_,le,_⟩ := ordered.pending msg waiting
        exact .inr ⟨msg,waiting,covers,by omega⟩
  · intro j positive above below
    simp only [length] at above below
    omega

/-- A snapshot is accepted that no pushed command is beyond. -/
theorem Ordered.install (ordered : c.Ordered first) {rf : Raft n Cmd Snap} (data : Option Snap)
    (term s : Int) (moved : rf.lastApplied = max c.node.lastApplied s)
    (within : ∀ msg ∈ c.pushed, msg.CommandWithin s) :
    Ordered { c with node := rf, pushers := c.pushers ++ [.snapshot data term s] } first := by
  constructor
  · exact ordered.order
  · intro msg sent
    have within := ordered.applied msg sent
    cases msg with
    | command command i => exact moved ▸ le_max_of_le_left within
    | snapshot => trivial
  · intro msg waiting
    rcases List.mem_append.mp waiting with waiting | fresh
    · obtain ⟨data,term,eq,le,rest⟩ := ordered.pending msg waiting
      exact ⟨data,term,eq,moved ▸ le_max_of_le_left le,rest⟩
    · obtain rfl := List.mem_singleton.mp fresh
      exact ⟨data,term,rfl,moved ▸ le_max_right _ _,within⟩
  · exact ordered.batch
  · have := ordered.inside
    simp only [moved]; omega
  · intro j positive below
    exact (ordered.before j positive below).imp id fun ⟨msg,waiting,rest⟩ =>
      ⟨msg,List.mem_append_left _ waiting,rest⟩
  · intro j positive above below
    simp only [moved] at below
    by_cases old : j ≤ c.node.lastApplied
    · exact (ordered.beyond j positive above old).imp id fun ⟨msg,waiting,rest⟩ =>
        ⟨msg,List.mem_append_left _ waiting,rest⟩
    · exact .inr ⟨_,List.mem_append_right _ (List.mem_singleton.mpr rfl),by simp only [ApplyMsg.index]; omega⟩

@[simp] theorem pushed_push (c : ApplyChannel n Cmd Snap) (msgs waiting : List (ApplyMsg Cmd Snap))
    (msg : ApplyMsg Cmd Snap) :
    pushed { c with applyMsgs := msgs, pushers := waiting, applyChan := c.applyChan ++ [msg] } =
      c.pushed ++ [msg] := by
  simp [pushed]

/-- The applier's command comes after all smaller snapshots, so what is below it is covered. -/
theorem Ordered.pushApplied (ordered : c.Ordered first) (next : c.applyMsgs = msg :: rest)
    (turn : ∀ held ∈ c.pushers, msg.index ≤ held.index) :
    Ordered { c with applyMsgs := rest, applyChan := c.applyChan ++ [msg] } (first + 1) := by
  obtain ⟨command,eq⟩ := ordered.batch 0 msg (by rw [next]; rfl)
  obtain rfl : msg = .command command first := by simpa using eq
  have length : c.applyMsgs.length = rest.length + 1 := by rw [next]; rfl
  have inside := ordered.inside
  have below : ∀ j, 1 ≤ j → j < first → Covered c.restored c.pushed j := by
    intro j positive smaller
    rcases ordered.before j positive smaller with covered | ⟨held,waiting,_,behind⟩
    · exact covered
    · exact absurd (turn held waiting) (not_le_of_gt behind)
  have pushed' := pushed_push c rest c.pushers (.command command first)
  constructor
  · rw [pushed']; exact ordered.order.command command below
  · rw [pushed']
    intro sent there
    rcases List.mem_append.mp there with there | there
    · exact ordered.applied sent there
    · obtain rfl := List.mem_singleton.mp there
      simp only [ApplyMsg.CommandWithin]; omega
  · rw [pushed']
    intro held waiting
    obtain ⟨data,term,eq,le,within⟩ := ordered.pending held waiting
    refine ⟨data,term,eq,le,fun sent there => ?_⟩
    rcases List.mem_append.mp there with there | there
    · exact within sent there
    · obtain rfl := List.mem_singleton.mp there
      exact turn held waiting
  · intro k msg found
    obtain ⟨command,eq⟩ := ordered.batch (k + 1) msg (by rw [next]; exact found)
    exact ⟨command,by rw [eq]; congr 1; omega⟩
  · simp only; omega
  · rw [pushed']
    intro j positive smaller
    by_cases old : j < first
    · exact .inl (below j positive old).append
    · obtain rfl : j = first := by omega
      exact .inl (.inr ⟨_,List.mem_append_right _ (List.mem_singleton.mpr rfl),rfl⟩)
  · rw [pushed']
    intro j positive above le
    exact (ordered.beyond j positive (by simp only at above; omega) le).imp .append id

/-- A detached thread's snapshot is beyond every command already pushed. -/
theorem Ordered.pushMsgToKvServer (ordered : c.Ordered first) (held : c.pushers[thread]? = some msg) :
    Ordered { c with pushers := c.pushers.eraseIdx thread, applyChan := c.applyChan ++ [msg] } first := by
  obtain ⟨data,term,eq,le,within⟩ := ordered.pending msg (List.mem_of_getElem? held)
  have pushed' := pushed_push c c.applyMsgs (c.pushers.eraseIdx thread) msg
  have trivially : ∀ s, msg.CommandWithin s := fun s => by rw [eq]; trivial
  -- an index that the removed thread was to cover is covered now
  have remains : ∀ j (kept : ApplyMsg Cmd Snap), kept ∈ c.pushers → j ≤ kept.index →
      Covered c.restored (c.pushed ++ [msg]) j ∨ kept ∈ c.pushers.eraseIdx thread := by
    intro j kept waiting covers
    obtain ⟨k,found⟩ := List.mem_iff_getElem?.mp waiting
    by_cases same : k = thread
    · obtain rfl : msg = kept := Option.some.inj (held.symm.trans (same ▸ found))
      exact .inl (.inr ⟨msg,List.mem_append_right _ (List.mem_singleton.mpr rfl),by
        rw [eq]; exact covers⟩)
    · exact .inr (List.mem_eraseIdx_iff_getElem?.mpr ⟨k,same,found⟩)
  constructor
  · rw [pushed',eq]; exact ordered.order.snapshot data term within
  · rw [pushed']
    intro sent there
    rcases List.mem_append.mp there with there | there
    · exact ordered.applied sent there
    · obtain rfl := List.mem_singleton.mp there; exact trivially _
  · rw [pushed']
    intro kept waiting
    obtain ⟨data,term,eq,le,within⟩ := ordered.pending kept (List.mem_of_mem_eraseIdx waiting)
    refine ⟨data,term,eq,le,fun sent there => ?_⟩
    rcases List.mem_append.mp there with there | there
    · exact within sent there
    · obtain rfl := List.mem_singleton.mp there; exact trivially _
  · exact ordered.batch
  · exact ordered.inside
  · rw [pushed']
    intro j positive smaller
    rcases ordered.before j positive smaller with covered | ⟨kept,waiting,covers,behind⟩
    · exact .inl covered.append
    · exact (remains j kept waiting covers).imp id fun stays => ⟨kept,stays,covers,behind⟩
  · rw [pushed']
    intro j positive above below
    rcases ordered.beyond j positive above below with covered | ⟨kept,waiting,covers⟩
    · exact .inl covered.append
    · exact (remains j kept waiting covers).imp id fun stays => ⟨kept,stays,covers⟩

theorem Ordered.pop (ordered : c.Ordered first) (next : c.applyChan = msg :: rest) :
    Ordered { c with applyChan := rest, popped := c.popped ++ [msg] } first := by
  have pushed' : pushed { c with applyChan := rest, popped := c.popped ++ [msg] } = c.pushed := by
    simp [pushed,next]
  constructor
  · rw [pushed']; exact ordered.order
  · rw [pushed']; exact ordered.applied
  · rw [pushed']; exact ordered.pending
  · exact ordered.batch
  · exact ordered.inside
  · rw [pushed']; exact ordered.before
  · rw [pushed']; exact ordered.beyond

/-- A critical section that ends normally keeps the order if its result does; an exit boots afresh. -/
theorem ordered_resume {result : Except (Persister Cmd Snap) (ApplyChannel n Cmd Snap)}
    (normal : ∀ next, result = .ok next → ∃ first, next.Ordered first) :
    ∃ first, (c.resume result).Ordered first := by
  cases result with
  | ok next => exact normal next rfl
  | error left => exact boot_ordered c.node.raftId left

variable [DecidableEq Cmd] {c' : ApplyChannel n Cmd Snap}

theorem Ordered.handle (ordered : c.Ordered first) {action : NodeAction n Cmd Snap}
    (install : ∀ args, action ≠ .installSnapshotImpl args)
    (compact : ∀ index data, action ≠ .snapshot index data) (apply : action ≠ .getApplyLogs) :
    ∃ first, (c.resume ((c.node.handle action).map fun rf => { c with node := rf })).Ordered first := by
  refine ordered_resume fun next done => ?_
  cases result : c.node.handle action with
  | error left => rw [result] at done; cases done
  | ok rf =>
    rw [result] at done
    obtain rfl := Except.ok.inj done
    exact ⟨first,ordered.withNode (Raft.handle_lastApplied result install compact apply)⟩

theorem Ordered.installSnapshotImpl (ordered : c.Ordered first) {args : InstallSnapshotRequest Snap}
    (turn : c.InTurn (.handle (.installSnapshotImpl args)))
    (taken : c.step (.handle (.installSnapshotImpl args)) = some c') : ∃ first, c'.Ordered first := by
  obtain rfl := Option.some.inj taken
  refine ordered_resume fun next done => ?_
  rcases Raft.installSnapshotImpl_cases c.node args with ⟨_,eq⟩ | ⟨_,_,eq⟩ | ⟨current,ahead,eq⟩
  all_goals
    rw [eq] at done
    obtain rfl := Except.ok.inj done
  · exact ⟨first,by simpa using ordered⟩
  · refine ⟨first,?_⟩
    simp only [Option.toList_none,List.append_nil]
    exact ordered.withNode (Raft.followDurably_lastApplied ..)
  · exact ⟨first,ordered.install args.data _ _ (by
      show max (c.node.followDurably args.term).lastApplied _ = _
      rw [Raft.followDurably_lastApplied]) (turn ⟨current,ahead⟩)⟩

theorem Ordered.snapshot (ordered : c.Ordered first) {index : Int} {data : Option Snap}
    (taken : c.step (.handle (.snapshot index data)) = some c') : ∃ first, c'.Ordered first := by
  simp only [step] at taken
  split at taken
  case h_2 => cases taken
  next command i last =>
  split at taken
  case isFalse => cases taken
  next same =>
  subst same
  obtain rfl := Option.some.inj taken
  have handed : index ≤ c.node.lastApplied :=
    ordered.applied (.command command index) (List.mem_append_left _ (List.mem_of_getLast? last))
  refine ordered_resume fun next done => ?_
  cases result : c.node.snapshot index data with
  | error left => rw [result] at done; cases done
  | ok rf =>
    rw [result] at done
    obtain rfl := Except.ok.inj done
    refine ⟨first,ordered.withNode ?_⟩
    rcases Raft.snapshot_ok result with ⟨rfl,_⟩ | ⟨_,_,_,_,rfl⟩
    · rfl
    · exact max_eq_left handed

theorem Ordered.step (ordered : c.Ordered first) {action : ChannelAction n Cmd Snap}
    (turn : c.InTurn action) (taken : c.step action = some c') : ∃ first, c'.Ordered first := by
  cases action with
  | handle action =>
    cases action with
    | getApplyLogs =>
      simp only [ApplyChannel.step] at taken
      split at taken
      case isFalse => cases taken
      next empty =>
      obtain rfl := Option.some.inj taken
      refine ordered_resume fun next done => ?_
      cases result : c.node.getApplyLogs with
      | error left => rw [result] at done; cases done
      | ok value =>
        rw [result] at done
        obtain rfl := Except.ok.inj done
        exact ⟨_,ordered.takeBatch (List.isEmpty_iff.mp empty) result⟩
    | installSnapshotImpl args => exact ordered.installSnapshotImpl turn taken
    | snapshot index data => exact ordered.snapshot taken
    | _ =>
      obtain rfl := Option.some.inj taken
      exact ordered.handle (by simp) (by simp) (by simp)
  | pushApplied =>
    simp only [ApplyChannel.step] at taken
    split at taken
    case h_1 => cases taken
    next msg rest next =>
    obtain rfl := Option.some.inj taken
    exact ⟨_,ordered.pushApplied next (turn msg (by rw [next]; rfl))⟩
  | pushMsgToKvServer thread =>
    simp only [ApplyChannel.step] at taken
    split at taken
    case h_1 => cases taken
    next msg held =>
    obtain rfl := Option.some.inj taken
    exact ⟨_,ordered.pushMsgToKvServer held⟩
  | pop =>
    simp only [ApplyChannel.step] at taken
    split at taken
    case h_1 => cases taken
    next msg rest next =>
    obtain rfl := Option.some.inj taken
    exact ⟨_,ordered.pop next⟩

/-- Whatever the server popped in a run whose pushes are in turn came in order. -/
theorem popped_in_order (raftId : Fin n) (disk : Persister Cmd Snap)
    (reach : Run.Reach ApplyChannel.step InTurn (boot raftId disk) c) :
    ChannelOrder c.restored c.popped := by
  obtain ⟨first,ordered⟩ := reach.invariant (fun c => ∃ first, c.Ordered first)
    (boot_ordered raftId disk) fun _ _ _ _ ⟨_,ordered⟩ turn taken => ordered.step turn taken
  exact ordered.order.earlier

/-- A snapshot of the first two entries, then the third entry. -/
def received : List (ChannelAction 3 Nat Unit) :=
  [.handle (.installSnapshotImpl ⟨0,1,2,1,some ()⟩),
    .handle (.appendEntriesimpl ⟨1,0,2,1,[⟨12,1,3⟩],3⟩),.handle .getApplyLogs]

theorem received_inTurn :
    (Run.run (Run.guarded ApplyChannel.step InTurn) (boot 1 {})
      (received ++ [.pushMsgToKvServer 0,.pushApplied,.pop,.pop])).map popped =
      some [.snapshot (some ()) 1 2,.command 12 3] := by decide +kernel

theorem popped_in_order_received : ∃ c : ApplyChannel 3 Nat Unit,
    c.popped = [.snapshot (some ()) 1 2,.command 12 3] ∧ ChannelOrder c.restored c.popped := by
  obtain ⟨c,ran,popped⟩ := Option.map_eq_some_iff.mp received_inTurn
  exact ⟨c,popped,popped_in_order 1 {} (Run.reach_of_guarded _ ran .start)⟩

theorem received_delayed :
    (Run.run ApplyChannel.step (boot 1 {})
      (received ++ [.pushApplied,.pop,.pushMsgToKvServer 0,.pop])).map (fun c => (c.restored,c.popped)) =
      some (0,[.command 12 3,.snapshot (some ()) 1 2]) := by decide +kernel

/-- The detached thread is late: command 3 skips two indexes and snapshot 2 takes it back. -/
theorem popped_in_order_fails : ∃ c : ApplyChannel 3 Nat Unit,
    Run.Reach ApplyChannel.step Run.always (boot 1 {}) c ∧ ¬ ChannelOrder c.restored c.popped ∧
    c.restored = 0 ∧ c.popped = [.command 12 3,.snapshot (some ()) 1 2] := by
  obtain ⟨c,ran,seen⟩ := Option.map_eq_some_iff.mp received_delayed
  obtain ⟨restored,popped⟩ := Prod.mk.inj seen
  refine ⟨c,Run.reach_of_run _ ran,fun order => ?_,restored,popped⟩
  exact absurd (order.fresh [.command 12 3] (some ()) 1 2 [] popped _ (List.mem_singleton.mpr rfl))
    (by decide)

end ApplyChannel
end KvStorage
