import KvStorage.KvSystemHistory

/-! What clerks read. Where no tail of `getImpl` writes an old request id and no snapshot is loaded
over other values, every server holds what the committed entries make once each, and all calls
together are explained by one order of them. -/
namespace KvStorage

namespace Requests

/-- What `getImpl` answers for what it finds. -/
def readReply : Option String → Reply
  | some value => ⟨.OK,value⟩
  | none => ⟨.ErrNoKey,""⟩

/-- The reply is for what the key held after some of the covered entries, the request's own among them. -/
def ReadAt (entries : List Op) (covered : Nat) (op : Op) (reply : Reply) : Prop :=
  ∃ n ≤ covered, op ∈ entries.take n ∧ reply = readReply ((Machine.replay (entries.take n)).contents op.Key)

/-- The reply that the handler has, and may return on. -/
def Handler.Answers (h : Handler) (reply : Reply) : Prop :=
  (h.stage = .remove reply ∨ h.stage = .finished reply) ∧ reply.Err ≠ .ErrWrongLeader

structure Current (entries : List Op) (s : Server) : Prop where
  serving : Serving entries s
  timely : Timely entries s
  contents : s.kv.skipList.contents = (Machine.replay (entries.take s.covered)).contents
  answers : ∀ h ∈ s.handlers, h.isGet = true → ∀ reply, h.Answers reply → ReadAt entries s.covered h.op reply

variable {entries : List Op} {s s' : Server} {op : Op} {kv kv' : KvServer}

theorem current_new (maxRaftStateSize : Int) (rand : Nat → Nat) : Current entries (.new maxRaftStateSize rand) where
  serving := serving_new maxRaftStateSize rand
  timely := timely_new maxRaftStateSize rand
  contents := congrArg Machine.contents (KvServer.machine_new maxRaftStateSize rand)
  answers _ inside := by cases inside

theorem ReadAt.mono {covered k : Nat} {reply : Reply} (read : ReadAt entries covered op reply) (grows : covered ≤ k) :
    ReadAt entries k op reply := by
  obtain ⟨n,le,rest⟩ := read
  exact ⟨n,le.trans grows,rest⟩

/-- Handlers leave the list alone. -/
theorem Section.skipList {i : Nat} {h : Handler} {a : Action} {stage : Stage} (ran : Section kv i h a kv' stage) :
    kv'.skipList = kv.skipList := by
  cases ran with
  | create =>
    unfold KvServer.createWaitChan
    split <;> rfl
  | pop _ popped =>
    unfold KvServer.popWaitChan at popped
    split at popped
    · cases popped
      rfl
    · cases popped
  | timeOut => rfl
  | isRequestDuplicate => rfl
  | execGetOpOnKVDB =>
    unfold KvServer.execGetOpOnKVDB
    split <;> rfl
  | remove => rfl

theorem afterRead_execGetOpOnKVDB : Server.afterRead (kv.execGetOpOnKVDB op).2.1 (kv.execGetOpOnKVDB op).2.2 =
    .remove (readReply (kv.skipList.contents op.Key)) := by
  have search : kv.skipList.contents op.Key = kv.skipList.searchElement op.Key := rfl
  rw [search]
  unfold KvServer.execGetOpOnKVDB
  cases kv.skipList.searchElement op.Key <;> rfl

/-- A handler of a Get has an answer only once it has read. -/
theorem Section.answers {i : Nat} {h : Handler} {a : Action} {stage : Stage} {reply : Reply} (current : Current entries s)
    (inside : h ∈ s.handlers) (ran : Section s.kv i h a kv' stage) (get : h.isGet = true)
    (answers : Handler.Answers { h with stage := stage } reply) : ReadAt entries s.covered h.op reply := by
  obtain ⟨at_,final⟩ := answers
  simp only at at_
  cases ran with
  | create => rcases at_ with eq | eq <;> cases eq
  | pop =>
    unfold Server.afterPop at at_
    rw [if_pos get] at at_
    rcases at_ with eq | eq
    · split at eq
      · cases eq
      · cases eq
        exact absurd rfl final
    · split at eq <;> cases eq
  | timeOut => rcases at_ with eq | eq <;> cases eq
  | isRequestDuplicate =>
    unfold Server.afterTimeOut at at_
    rw [if_pos get] at at_
    rcases at_ with eq | eq
    · split at eq
      · cases eq
      · cases eq
        exact absurd rfl final
    · split at eq <;> cases eq
  | execGetOpOnKVDB here =>
    rw [afterRead_execGetOpOnKVDB] at at_
    have covered := (current.serving.inv.handlers h inside).2 (by rw [here]; trivial)
    rcases at_ with eq | eq
    · cases eq
      exact ⟨s.covered,le_rfl,covered,by rw [current.contents]⟩
    · cases eq
  | @remove before here =>
    rcases at_ with eq | eq
    · cases eq
    · cases eq
      exact current.answers h inside get reply ⟨.inl here,final⟩

/-- The apply loop does with the next entry what the machine does with it. -/
theorem contents_execUnless {duplicate : Bool} (timely : Timely entries s) (clerks : ∀ op ∈ entries, Issued entries op)
    (contents : s.kv.skipList.contents = (Machine.replay (entries.take s.covered)).contents)
    (here : s.applying = .checked op duplicate) : (s.kv.execUnless op duplicate).skipList.contents =
      (Machine.replay (entries.take (s.covered + 1))).contents := by
  have applying := timely.inv.applying
  rw [here] at applying
  obtain ⟨at_,known⟩ := applying
  have next : entries.take (s.covered + 1) = entries.take s.covered ++ [op] := by
    rw [List.take_add_one,at_]
    rfl
  rw [next,Machine.replay_append]
  by_cases mutates : op.Mutates
  · cases duplicate with
    | true =>
      rw [Machine.apply_replayed (known rfl),← contents]
      rfl
    | false =>
      have issued := clerks op (List.mem_of_getElem? at_)
      have order : ClerkOrder (entries.take s.covered ++ [op]) := by
        rw [← next]
        exact clerkOrder_take clerks _
      have first : ¬ ∃ other ∈ entries.take s.covered, op.SameRequest other := by
        rintro ⟨other,inside,same⟩
        have copy := issued.retried other (List.mem_of_mem_take inside) same
        exact timely.checked op here mutates (copy ▸ inside)
      rw [Machine.apply_fresh mutates (Machine.not_duplicate_of_first order first),← contents]
      rcases mutates with put | append
      · have machine := KvServer.machine_execPutOpOnKVDB s.kv op put
        simp only [KvServer.execUnless,Bool.false_eq_true,not_false_eq_true,if_true,put]
        exact congrArg Machine.contents machine
      · have machine := KvServer.machine_execAppendOpOnKVDB s.kv op append
        simp only [KvServer.execUnless,Bool.false_eq_true,not_false_eq_true,if_true,append]
        exact congrArg Machine.contents machine
  · rw [Machine.apply_of_not_mutates mutates,← contents]
    unfold KvServer.execUnless
    rw [Op.Mutates,not_or] at mutates
    rw [if_neg mutates.1,if_neg mutates.2,ite_self]

/-- A snapshot's table has all that it covers, so nothing is executed again after it. -/
theorem Timely.getSnapshotFromRaft {other : Server} (timely : Timely entries s) (theirs : Timely entries other)
    (idle : s.applying = .idle) (ahead : s.covered < other.covered) : Timely entries { s with
      kv := s.kv.getSnapshotFromRaft (some other.kv.makeSnapshot) other.covered
      covered := other.covered
      recorded := s.recorded ++ other.performed } where
  inv := timely.inv.getSnapshotFromRaft theirs.inv idle ahead
  duplicate := theirs.duplicate
  checked op next := by
    rw [idle] at next
    cases next
  executed op inside := List.take_subset_take_left _ ahead.le (timely.executed op inside)
  once := timely.once

theorem contents_getSnapshotFromRaft {other : Server} (kept : kv.machine.Kept other.kv.machine) (index : Int) :
    (kv.getSnapshotFromRaft (some other.kv.makeSnapshot) index).skipList.contents = other.kv.skipList.contents := by
  have loaded := congrArg Machine.contents (KvServer.machine_loadFromSnapshotData kv other.kv.makeSnapshot)
  refine loaded.trans (funext fun key => ?_)
  cases held : kv.machine.contents key with
  | none => simp [held,KvServer.makeSnapshot]
  | some value =>
    have theirs : other.kv.skipList.contents key = some value := kept key value held
    simp [held,theirs]

/-- What a step must meet: no table goes back at a read, and no value held is another in the snapshot. -/
def Keeps (s : Server) : Action → Prop
  | .execGetOpOnKVDB i => InTime s (.execGetOpOnKVDB i)
  | .getSnapshotFromRaft other => s.kv.machine.Kept other.kv.machine
  | _ => True

theorem Timely.keeps (timely : Timely entries s) (clerks : ∀ op ∈ entries, Issued entries op) {a : Action}
    (issues : a.Issues entries) (others : ∀ other, a = .getSnapshotFromRaft other → Timely entries other)
    (met : Keeps s a) (taken : s.step entries a = some s') : Timely entries s' := by
  cases a with
  | getSnapshotFromRaft other =>
    cases Server.moves taken with
    | handler _ ran => cases ran
    | getSnapshotFromRaft idle ahead => exact timely.getSnapshotFromRaft (others other rfl) idle ahead
  | execGetOpOnKVDB i => exact (timely.step clerks issues others met taken).2
  | _ => exact (timely.step clerks issues others trivial taken).2

theorem Current.step (current : Current entries s) (clerks : ∀ op ∈ entries, Issued entries op) {a : Action}
    (issues : a.Issues entries) (others : ∀ other, a = .getSnapshotFromRaft other → Current entries other)
    (met : Keeps s a) (taken : s.step entries a = some s') : Current entries s' := by
  have serving := current.serving.step clerks issues (fun other same => (others other same).serving) taken
  have timely := current.timely.keeps clerks issues (fun other same => (others other same).timely) met taken
  have begun (isGet : Bool) (op : Op) (raftLogIndex : Int) (isLeader : Bool) :
      ∀ h ∈ (s.begin isGet op raftLogIndex isLeader).handlers, h.isGet = true → ∀ reply, h.Answers reply →
        ReadAt entries s.covered h.op reply := by
    intro h inside get reply answers
    rcases List.mem_append.mp inside with before | new
    · exact current.answers h before get reply answers
    · obtain rfl := List.mem_singleton.mp new
      obtain ⟨at_,final⟩ := answers
      cases isLeader <;> rcases at_ with eq | eq <;> cases eq
      exact absurd rfl final
  cases Server.moves taken with
  | getImpl => exact ⟨serving,timely,current.contents,begun _ _ _ _⟩
  | putAppendImpl => exact ⟨serving,timely,current.contents,begun _ _ _ _⟩
  | @handler i h a kv stage there ran =>
    refine ⟨serving,timely,?_,fun other inside get reply answers => ?_⟩
    · have same : kv.skipList = s.kv.skipList := ran.skipList
      show kv.skipList.contents = _
      rw [same]
      exact current.contents
    · rcases List.mem_or_eq_of_mem_set inside with before | rfl
      · exact current.answers other before get reply answers
      · have read := ran.answers current (List.mem_of_getElem? there) get answers
        exact read
  | skip _ behind =>
    have skips := current.serving.inv.skips
    omega
  | check => exact ⟨serving,timely,current.contents,current.answers⟩
  | @execute op duplicate here =>
    refine ⟨serving,timely,contents_execUnless current.timely clerks current.contents here,?_⟩
    exact fun h inside get reply answers => (current.answers h inside get reply answers).mono (Nat.le_succ _)
  | @sendMsgToWaitChan op here =>
    refine ⟨serving,timely,?_,current.answers⟩
    have same := congrArg Machine.contents (KvServer.machine_sendMsgToWaitChan s.kv op s.covered)
    exact same.trans current.contents
  | @getSnapshotFromRaft other idle ahead =>
    refine ⟨serving,timely,?_,?_⟩
    · exact (contents_getSnapshotFromRaft met other.covered).trans (others other rfl).contents
    · exact fun h inside get reply answers => (current.answers h inside get reply answers).mono ahead.le

/-- Another entry is not covered by a server yet. -/
theorem Current.commit (current : Current entries s) (serving : Serving (entries ++ [op]) s) :
    Current (entries ++ [op]) s := by
  have same {n : Nat} (inside : n ≤ s.covered) : (entries ++ [op]).take n = entries.take n :=
    List.take_append_of_le_length (inside.trans current.serving.covered)
  have timely := current.timely
  refine ⟨serving,⟨serving.inv,?_,?_,?_,timely.once⟩,?_,?_⟩
  · rw [same le_rfl]
    exact timely.duplicate
  · rw [same le_rfl]
    exact timely.checked
  · rw [same le_rfl]
    exact timely.executed
  · rw [same le_rfl]
    exact current.contents
  · intro h inside get reply answers
    obtain ⟨n,le,covered,eq⟩ := current.answers h inside get reply answers
    exact ⟨n,le,by rw [same le]; exact covered,by rw [same le]; exact eq⟩

theorem Current.boot {snapshot : Option Server} (theirs : ∀ other ∈ snapshot, Current entries other)
    (maxRaftStateSize : Int) (rand : Nat → Nat) : Current entries (KvSystem.boot maxRaftStateSize rand snapshot) := by
  have serving := Serving.boot (fun other held => (theirs other held).serving) maxRaftStateSize rand
  cases snapshot with
  | none => exact current_new maxRaftStateSize rand
  | some other =>
    have theirs := theirs other rfl
    refine ⟨serving,⟨serving.inv,theirs.timely.duplicate,?_,?_,.nil⟩,?_,?_⟩
    · intro op next
      cases next
    · intro op inside
      cases inside
    · have empty : (KvServer.new maxRaftStateSize rand).machine.Kept other.kv.machine := by
        intro key value held
        rw [KvServer.machine_new] at held
        cases held
      exact (contents_getSnapshotFromRaft empty 0).trans theirs.contents
    · intro h inside
      cases inside

end Requests

/-! ### The whole system -/

namespace KvSystem
open Requests Linearizability

/-- What a step must meet, server by server. -/
def Keeps (s : KvSystem) : Action → Prop
  | .serve i a => Requests.Keeps (s.servers i) a
  | .getSnapshotFromRaft i k => ∀ other ∈ s.snapshots[k]?, Requests.Keeps (s.servers i) (.getSnapshotFromRaft other)
  | _ => True

/-- Every server holds what its covered entries make, and clerks were answered from that. -/
structure Consistent (s : KvSystem) : Prop where
  servers : ∀ i, Current s.entries (s.servers i)
  snapshots : ∀ other ∈ s.snapshots, Current s.entries other
  reads : ∀ before op value, (before,CallEvent.ret op value) ∈ s.history → op.Operation = "Get" →
    ∃ n ≤ before, op ∈ s.entries.take n ∧ value = ((Machine.replay (s.entries.take n)).contents op.Key).getD ""
  writes : ∀ before op value, (before,CallEvent.ret op value) ∈ s.history → op.Mutates → value = ""

variable {s s' : KvSystem} {op : Op} {client : String}

theorem consistent_new (peers : Nat) (maxRaftStateSize : Int) (rand : Nat → Nat → Nat) :
    Consistent (.new peers maxRaftStateSize rand) where
  servers i := current_new maxRaftStateSize (rand i)
  snapshots _ inside := by cases inside
  reads _ _ _ inside := by cases inside
  writes _ _ _ inside := by cases inside

theorem Consistent.setServer (consistent : Consistent s) {i : Nat} {server : Server} (current : Current s.entries server) :
    Consistent (s.setServer i server) := by
  refine { consistent with servers := fun j => ?_ }
  rw [servers_setServer]
  split
  · exact current
  · exact consistent.servers j

/-- The value that a Get returns is what its handler read. -/
theorem Consistent.read (consistent : Consistent s) {c c' : Clerk} {args : Args} {i : Nat} {h : Handler} {reply : Reply}
    {leaderId : Nat} {value : String} (inside : h ∈ (s.servers i).handlers) (own : replyOf args h = some reply)
    (get : args.isGet = true) (received : c.received args leaderId (some reply) = (c',.done value)) :
    ∃ n ≤ s.entries.length, args.op ∈ s.entries.take n ∧
      value = ((Machine.replay (s.entries.take n)).contents args.op.Key).getD "" := by
  have final := done_final received
  have replied : h.isGet = args.isGet ∧ h.op = args.op ∧ h.stage = .finished reply := by
    unfold replyOf at own
    split at own
    · next same =>
      split at own
      · next stage =>
        cases own
        exact ⟨same.1,same.2,stage⟩
      · cases own
    · cases own
  obtain ⟨kind,same,stage⟩ := replied
  obtain ⟨n,le,covered,eq⟩ := (consistent.servers i).answers h inside (kind.trans get) reply ⟨.inr stage,final⟩
  rw [same] at covered eq
  refine ⟨n,le.trans (consistent.servers i).serving.covered,covered,?_⟩
  obtain ⟨answer,eq',returns⟩ := Clerk.received_done (congrArg Prod.snd received)
  cases eq'
  cases held : (Machine.replay (s.entries.take n)).contents args.op.Key with
  | none =>
    rw [held] at eq
    subst eq
    rcases returns with ⟨_,_,value⟩ | ⟨ok,_⟩
    · exact value
    · cases ok
  | some found =>
    rw [held] at eq
    subst eq
    rcases returns with ⟨_,missing,_⟩ | ⟨_,value⟩
    · cases missing
    · rw [value,if_pos get]
      rfl

/-- Steps that change neither the entries, the servers, the snapshots nor the history. -/
theorem Consistent.frame (consistent : Consistent s) (entries : s'.entries = s.entries) (servers : s'.servers = s.servers)
    (snapshots : s'.snapshots = s.snapshots) (history : s'.history = s.history) : Consistent s' := by
  refine ⟨?_,?_,?_,?_⟩
  · rw [entries,servers]
    exact consistent.servers
  · rw [entries,snapshots]
    exact consistent.snapshots
  · rw [entries,history]
    exact consistent.reads
  · rw [history]
    exact consistent.writes

theorem Consistent.commit (consistent : Consistent s) (stamped : Stamped s)
    (ordered : Ordered { s with entries := s.entries ++ [op] }) : Consistent { s with entries := s.entries ++ [op] } := by
  refine ⟨fun i => (consistent.servers i).commit (ordered.servers i),
    fun other held => (consistent.snapshots other held).commit (ordered.snapshots other held),?_,consistent.writes⟩
  intro before other value inside get
  obtain ⟨n,le,covered,eq⟩ := consistent.reads before other value inside get
  have same : (s.entries ++ [op]).take n = s.entries.take n :=
    List.take_append_of_le_length (le.trans (stamped.below _ inside))
  exact ⟨n,le,by rw [same]; exact covered,by rw [same]; exact eq⟩

theorem Consistent.record_call (consistent : Consistent s) : Consistent (s.record (.call op)) := by
  refine { consistent with reads := fun before other value inside => ?_, writes := fun before other value inside => ?_ }
  · rcases List.mem_append.mp inside with old | new
    · exact consistent.reads before other value old
    · cases List.mem_singleton.mp new
  · rcases List.mem_append.mp inside with old | new
    · exact consistent.writes before other value old
    · cases List.mem_singleton.mp new

theorem Consistent.record_ret (consistent : Consistent s) {value : String}
    (read : op.Operation = "Get" → ∃ n ≤ s.entries.length, op ∈ s.entries.take n ∧
      value = ((Machine.replay (s.entries.take n)).contents op.Key).getD "")
    (write : op.Mutates → value = "") : Consistent (s.record (.ret op value)) := by
  refine { consistent with reads := fun before other value' inside => ?_, writes := fun before other value' inside => ?_ }
  · rcases List.mem_append.mp inside with old | new
    · exact consistent.reads before other value' old
    · cases List.mem_singleton.mp new
      exact read
  · rcases List.mem_append.mp inside with old | new
    · exact consistent.writes before other value' old
    · cases List.mem_singleton.mp new
      exact write

theorem Consistent.step (consistent : Consistent s) (ordered : Ordered s) (stamped : Stamped s) {a : Action}
    (met : Keeps s a) (taken : s.step a = some s') : Consistent s' := by
  have ordered' := ordered.step taken
  cases moves taken with
  | @call client call clerk args free begun =>
    have kept : Consistent (s.setClerk client ⟨clerk,some ⟨args,clerk.recentLeaderId⟩⟩) :=
      consistent.frame rfl rfl rfl rfl
    exact kept.record_call
  | send => exact consistent.frame rfl rfl rfl rfl
  | @deliver i args raftLogIndex isLeader server arrived served =>
    have called : s.Called args.op := ordered.numbered.sent _ arrived
    have issues : (args.handler raftLogIndex isLeader).Issues s.entries := by
      cases args <;> exact ordered.issued called
    have keeps : Requests.Keeps (s.servers i) (args.handler raftLogIndex isLeader) := by
      cases args <;> trivial
    have current := (consistent.servers i).step ordered.clerks issues (fun _ eq => by cases args <;> cases eq) keeps served
    exact (consistent.setServer (i := i) current).frame rfl rfl rfl rfl
  | again => exact consistent.frame rfl rfl rfl rfl
  | @done client calling h reply clerk value a here inside own received =>
    have kept : Consistent (s.setClerk client ⟨clerk,none⟩) := consistent.frame rfl rfl rfl rfl
    have kind := stamped.kind client calling here
    refine kept.record_ret (fun get => consistent.read inside own (kind.mpr get) received) fun mutates => ?_
    obtain ⟨answer,eq,returns⟩ := Clerk.received_done (congrArg Prod.snd received)
    have write : ¬ calling.args.isGet = true := by
      rw [kind]
      intro get
      rcases mutates with put | append
      · exact absurd (get.symm.trans put) (by decide)
      · exact absurd (get.symm.trans append) (by decide)
    rcases returns with ⟨get,_⟩ | ⟨_,value⟩
    · exact absurd get write
    · rw [value,if_neg write]
  | commit => exact consistent.commit stamped ordered'
  | @serve a i server own served =>
    have issues : a.Issues s.entries := by
      cases a <;> trivial
    refine consistent.setServer ((consistent.servers i).step ordered.clerks issues (fun _ eq => ?_) met served)
    subst eq
    cases own
  | @ifNeedToSendSnapshotCommand i op raftStateSize here =>
    refine { consistent with snapshots := fun other held => ?_ }
    rcases List.mem_append.mp held with before | new
    · exact consistent.snapshots other before
    · obtain rfl := List.mem_singleton.mp new
      exact consistent.servers i
  | @getSnapshotFromRaft k other i server there served =>
    have theirs := consistent.snapshots other (List.mem_of_getElem? there)
    have issues : (Requests.Action.getSnapshotFromRaft other).Issues s.entries := trivial
    refine consistent.setServer ((consistent.servers i).step ordered.clerks issues (fun _ eq => ?_) (met other there) served)
    cases eq
    exact theirs
  | @restart snapshot i rand k held =>
    exact consistent.setServer (Current.boot (fun other inside => consistent.snapshots other (held other inside)) _ _)

variable {peers : Nat} {maxRaftStateSize : Int} {rand : Nat → Nat → Nat}

theorem consistent_of_reach (reach : Run.Reach step Keeps (.new peers maxRaftStateSize rand) s) : Consistent s :=
  reach.invariant Consistent (consistent_new peers maxRaftStateSize rand) fun _ _ _ before consistent met taken =>
    consistent.step (ordered_of_reach before) (stamped_of_reach before) met taken

/-- Neither a read nor the load of a snapshot. -/
def plain : Action → Bool
  | .serve _ (.execGetOpOnKVDB _) => false
  | .serve _ (.getSnapshotFromRaft _) => false
  | .getSnapshotFromRaft _ _ => false
  | _ => true

theorem keeps_of_plain {a : Action} (easy : plain a = true) : Keeps s a := by
  cases a with
  | serve i a => cases a <;> trivial
  | getSnapshotFromRaft => cases easy
  | _ => trivial

theorem each_plain {actions : List Action} (easy : ∀ a ∈ actions, plain a = true) : Run.Each step Keeps s actions :=
  Run.each_of_forall actions fun a inside _ => keeps_of_plain (easy a inside)

end KvSystem
end KvStorage
