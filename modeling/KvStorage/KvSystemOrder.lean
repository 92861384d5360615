import KvStorage.KvSystem

/-! What clerks send keeps to their order. A clerk calls again only when the last call has returned,
and a call returns only when its entry is covered somewhere, so the committed entries hold each
request before any later one of the same clerk. -/
namespace KvStorage

/-! ### One server -/

namespace Requests

/-- A reply with which the call of the clerk may return. -/
def Stage.Settled : Stage → Prop
  | .remove reply => reply.Err ≠ .ErrWrongLeader
  | .finished reply => reply.Err ≠ .ErrWrongLeader
  | _ => False

/-- A server whose handlers answer only what is covered. -/
structure Serving (entries : List Op) (s : Server) : Prop where
  inv : Inv entries s
  covered : s.covered ≤ entries.length
  settled : ∀ h ∈ s.handlers, h.stage.Settled → h.op ∈ entries.take s.covered

variable {entries : List Op} {s s' : Server} {op : Op}

theorem settled_afterPop {h : Handler} (settled : (Server.afterPop h op).Settled) :
    (Server.afterPop h op).Confirmed := by
  unfold Server.afterPop at settled ⊢
  split at settled
  · next own =>
    split at settled
    · exact settled.elim
    · next write => rw [if_pos own,if_neg write]; rfl
  · exact absurd rfl settled

theorem settled_afterTimeOut {h : Handler} {isLeader duplicate : Bool}
    (settled : (Server.afterTimeOut h isLeader duplicate).Settled) :
    (Server.afterTimeOut h isLeader duplicate).Confirmed := by
  unfold Server.afterTimeOut at settled ⊢
  split at settled
  · split at settled
    · exact settled.elim
    · exact absurd rfl settled
  · next write =>
    split at settled
    · next known => rw [if_neg write,if_pos known]; rfl
    · exact absurd rfl settled

theorem Section.settled {i : Nat} {h : Handler} {a : Action} {kv' : KvServer} {stage : Stage}
    (serving : Serving entries s) (inside : h ∈ s.handlers) (ran : Section s.kv i h a kv' stage)
    (settled : stage.Settled) : h.op ∈ entries.take s.covered := by
  have sound := serving.inv.handlers h inside
  have confirmed := ran.confirmed serving.inv sound
  cases ran with
  | create => exact settled.elim
  | pop => exact confirmed (settled_afterPop settled)
  | timeOut => exact settled.elim
  | isRequestDuplicate => exact confirmed (settled_afterTimeOut settled)
  | execGetOpOnKVDB here => exact sound.2 (by rw [here]; trivial)
  | @remove reply here => exact serving.settled h inside (by rw [here]; exact settled)

theorem Serving.begin (serving : Serving entries s) (issued : Issued entries op) (isGet : Bool)
    (raftLogIndex : Int) (isLeader : Bool) : Serving entries (s.begin isGet op raftLogIndex isLeader) where
  inv := serving.inv.begin issued isGet raftLogIndex isLeader
  covered := serving.covered
  settled h inside settled := by
    rcases List.mem_append.mp inside with before | here
    · exact serving.settled h before settled
    · obtain rfl := List.mem_singleton.mp here
      cases isLeader with
      | true => exact settled.elim
      | false => exact absurd rfl settled

theorem Serving.step (serving : Serving entries s) (clerks : ∀ op ∈ entries, Issued entries op) {a : Action}
    (issues : a.Issues entries) (others : ∀ other, a = .getSnapshotFromRaft other → Serving entries other)
    (taken : s.step entries a = some s') : Serving entries s' := by
  have inv := serving.inv.step clerks issues (fun other same => (others other same).inv) taken
  cases Server.moves taken with
  | getImpl => exact serving.begin issues _ _ _
  | putAppendImpl => exact serving.begin issues _ _ _
  | @handler i h a kv stage there ran =>
    refine ⟨inv,serving.covered,fun other inside settled => ?_⟩
    rcases List.mem_or_eq_of_mem_set inside with before | rfl
    · exact serving.settled other before settled
    · have here := ran.settled serving (List.mem_of_getElem? there) settled
      exact here
  | skip _ behind =>
    have skips := serving.inv.skips
    omega
  | check => exact ⟨inv,serving.covered,serving.settled⟩
  | @execute op duplicate here =>
    have applying := serving.inv.applying
    rw [here] at applying
    have inside := (List.getElem?_eq_some_iff.mp applying.1).1
    refine ⟨inv,inside,fun h member settled => ?_⟩
    exact List.take_subset_take_left _ (Nat.le_succ _) (serving.settled h member settled)
  | sendMsgToWaitChan => exact ⟨inv,serving.covered,serving.settled⟩
  | @getSnapshotFromRaft other idle ahead =>
    refine ⟨inv,(others other rfl).covered,fun h member settled => ?_⟩
    exact List.take_subset_take_left _ ahead.le (serving.settled h member settled)

/-- Another entry changes nothing for a server that has not covered it. -/
theorem Serving.commit (serving : Serving entries s) (issued : ∀ h ∈ s.handlers, Issued (entries ++ [op]) h.op) :
    Serving (entries ++ [op]) s := by
  have same : (entries ++ [op]).take s.covered = entries.take s.covered :=
    List.take_append_of_le_length serving.covered
  refine ⟨⟨serving.inv.skips,?_,?_,?_,?_,?_⟩,?_,?_⟩
  · rw [same]
    exact serving.inv.table
  · rw [same]
    exact serving.inv.queued
  · intro h inside
    refine ⟨issued h inside,?_⟩
    rw [same]
    exact (serving.inv.handlers h inside).2
  · have applying := serving.inv.applying
    cases at_ : s.applying with
    | idle => trivial
    | checked op' duplicate =>
      rw [at_] at applying
      obtain ⟨here,known⟩ := applying
      have before := (List.getElem?_eq_some_iff.mp here).1
      refine ⟨(List.getElem?_append_left before).trans here,?_⟩
      rw [same]
      exact known
    | executed op' =>
      rw [at_] at applying
      show op' ∈ (entries ++ [op]).take s.covered
      rw [same]
      exact applying
  · rw [same]
    exact serving.inv.performed
  · rw [List.length_append]
    exact serving.covered.trans (Nat.le_add_right _ _)
  · rw [same]
    exact serving.settled

theorem serving_new (maxRaftStateSize : Int) (rand : Nat → Nat) : Serving entries (.new maxRaftStateSize rand) where
  inv := inv_new maxRaftStateSize rand
  covered := Nat.zero_le _
  settled _ inside := by cases inside

/-- A server that starts from a snapshot covers what its maker covered. -/
theorem Serving.boot {snapshot : Option Server} (theirs : ∀ other ∈ snapshot, Serving entries other)
    (maxRaftStateSize : Int) (rand : Nat → Nat) : Serving entries (KvSystem.boot maxRaftStateSize rand snapshot) := by
  cases snapshot with
  | none => exact serving_new maxRaftStateSize rand
  | some other =>
    have theirs := theirs other rfl
    refine ⟨⟨Int.natCast_nonneg _,theirs.inv.table,?_,?_,trivial,?_⟩,theirs.covered,?_⟩
    · rintro op ⟨_,_,held,_⟩
      cases held
    · intro h inside
      cases inside
    · exact fun op inside mutates => List.mem_append_right _ (theirs.inv.performed op inside mutates)
    · intro h inside
      cases inside

/-- The request of a handler is that of an earlier handler, or the one that the step starts. -/
theorem handlers_step {a : Action} (taken : s.step entries a = some s') {h : Handler} (inside : h ∈ s'.handlers) :
    (∃ before ∈ s.handlers, before.op = h.op ∧ before.isGet = h.isGet) ∨ ∃ args raftLogIndex isLeader,
      a = Args.handler raftLogIndex isLeader args ∧ args.op = h.op ∧ args.isGet = h.isGet := by
  cases Server.moves taken with
  | getImpl =>
    rcases List.mem_append.mp inside with before | here
    · exact .inl ⟨h,before,rfl,rfl⟩
    · obtain rfl := List.mem_singleton.mp here
      exact .inr ⟨.Get _ _ _,_,_,rfl,rfl,rfl⟩
  | @putAppendImpl op raftLogIndex isLeader =>
    rcases List.mem_append.mp inside with before | here
    · exact .inl ⟨h,before,rfl,rfl⟩
    · obtain rfl := List.mem_singleton.mp here
      exact .inr ⟨.PutAppend op.Key op.Value op.Operation op.ClientId op.RequestId,_,_,rfl,rfl,rfl⟩
  | @handler i own a kv stage there ran =>
    rcases List.mem_or_eq_of_mem_set inside with before | rfl
    · exact .inl ⟨h,before,rfl,rfl⟩
    · exact .inl ⟨own,List.mem_of_getElem? there,rfl,rfl⟩
  | skip => exact .inl ⟨h,inside,rfl,rfl⟩
  | check => exact .inl ⟨h,inside,rfl,rfl⟩
  | execute => exact .inl ⟨h,inside,rfl,rfl⟩
  | sendMsgToWaitChan => exact .inl ⟨h,inside,rfl,rfl⟩
  | getSnapshotFromRaft => exact .inl ⟨h,inside,rfl,rfl⟩

end Requests

/-! ### Numbers -/

namespace KvSystem
open Requests Linearizability

/-- Each clerk numbers its calls, and nothing in the system is an operation that was not called. -/
structure Numbered (s : KvSystem) : Prop where
  clientId : ∀ client, (s.clerks client).clerk.clientId = client
  called : ∀ op, s.Called op → op.RequestId ≤ (s.clerks op.ClientId).clerk.requestId
  unique : ∀ op other, s.Called op → s.Called other → op.SameRequest other → op = other
  calling : ∀ client calling, (s.clerks client).calling = some calling → s.Called calling.args.op ∧
    calling.args.op.ClientId = client ∧ calling.args.op.RequestId = (s.clerks client).clerk.requestId
  sent : ∀ request ∈ s.sent, s.Called request.2.op
  started : ∀ op ∈ s.started, s.Called op
  entries : ∀ op ∈ s.entries, s.Called op
  handlers : ∀ i, ∀ h ∈ (s.servers i).handlers, s.Called h.op
  snapshots : ∀ other ∈ s.snapshots, ∀ h ∈ other.handlers, s.Called h.op

variable {s s' : KvSystem} {op other : Op} {client : String}

@[simp] theorem called_setClerk {p : ClerkProcess} : (s.setClerk client p).Called op ↔ s.Called op := Iff.rfl

@[simp] theorem called_setServer {i : Nat} {server : Server} : (s.setServer i server).Called op ↔ s.Called op := Iff.rfl

@[simp] theorem called_record_ret {value : String} : (s.record (.ret op value)).Called other ↔ s.Called other := by
  simp [Called,record]

@[simp] theorem called_record_call : (s.record (.call op)).Called other ↔ s.Called other ∨ other = op := by
  constructor
  · rintro ⟨before,inside⟩
    rcases List.mem_append.mp inside with old | new
    · exact .inl ⟨before,old⟩
    · cases List.mem_singleton.mp new
      exact .inr rfl
  · rintro (⟨before,inside⟩ | rfl)
    · exact ⟨before,List.mem_append_left _ inside⟩
    · exact ⟨_,List.mem_append_right _ (List.mem_singleton.mpr rfl)⟩

theorem clerks_setClerk (client' : String) (p : ClerkProcess) :
    (s.setClerk client p).clerks client' = if client' = client then p else s.clerks client' := by
  by_cases same : client' = client
  · subst same
    simp [setClerk]
  · simp [setClerk,same]

theorem servers_setServer (i j : Nat) (server : Server) :
    (s.setServer i server).servers j = if j = i then server else s.servers j := by
  by_cases same : j = i
  · subst same
    simp [setServer]
  · simp [setServer,same]

theorem numbered_new (peers : Nat) (maxRaftStateSize : Int) (rand : Nat → Nat → Nat) :
    Numbered (.new peers maxRaftStateSize rand) where
  clientId _ := rfl
  called _ := by rintro ⟨_,⟨⟩⟩
  unique _ _ := by rintro ⟨_,⟨⟩⟩
  calling _ _ held := by cases held
  sent _ inside := by cases inside
  started _ inside := by cases inside
  entries _ inside := by cases inside
  handlers _ _ inside := by cases inside
  snapshots _ inside := by cases inside

theorem Numbered.setServer (numbered : Numbered s) {i : Nat} {server : Server}
    (known : ∀ h ∈ server.handlers, s.Called h.op) : Numbered (s.setServer i server) := by
  refine { numbered with handlers := fun j h inside => ?_ }
  rw [servers_setServer] at inside
  split at inside
  · exact known h inside
  · exact numbered.handlers j h inside

/-- A clerk in its loop keeps its number and its arguments. -/
theorem Numbered.setClerk (numbered : Numbered s) {p : ClerkProcess}
    (id : p.clerk.clientId = (s.clerks client).clerk.clientId)
    (number : p.clerk.requestId = (s.clerks client).clerk.requestId)
    (loops : ∀ calling, p.calling = some calling →
      ∃ before, (s.clerks client).calling = some before ∧ before.args = calling.args) :
    Numbered (s.setClerk client p) := by
  have same (client' : String) : ((s.setClerk client p).clerks client').clerk.clientId = (s.clerks client').clerk.clientId ∧
      ((s.setClerk client p).clerks client').clerk.requestId = (s.clerks client').clerk.requestId := by
    rw [clerks_setClerk]
    split
    · next eq =>
      subst eq
      exact ⟨id,number⟩
    · exact ⟨rfl,rfl⟩
  refine { numbered with clientId := ?_, called := ?_, calling := ?_ }
  · exact fun client' => (same client').1.trans (numbered.clientId client')
  · intro op called
    rw [(same op.ClientId).2]
    exact numbered.called op called
  · intro client' calling held
    rw [(same client').2]
    rw [clerks_setClerk] at held
    split at held
    · next eq =>
      subst eq
      obtain ⟨before,there,eq⟩ := loops calling held
      exact eq ▸ numbered.calling client' before there
    · exact numbered.calling client' calling held

theorem Numbered.record_ret (numbered : Numbered s) {value : String} : Numbered (s.record (.ret op value)) where
  clientId := numbered.clientId
  called other called := numbered.called other (called_record_ret.mp called)
  unique one two called called' := numbered.unique one two (called_record_ret.mp called) (called_record_ret.mp called')
  calling client calling held := by
    obtain ⟨called,rest⟩ := numbered.calling client calling held
    exact ⟨called_record_ret.mpr called,rest⟩
  sent request inside := called_record_ret.mpr (numbered.sent request inside)
  started op inside := called_record_ret.mpr (numbered.started op inside)
  entries op inside := called_record_ret.mpr (numbered.entries op inside)
  handlers i h inside := called_record_ret.mpr (numbered.handlers i h inside)
  snapshots other held h inside := called_record_ret.mpr (numbered.snapshots other held h inside)

/-- A call of the clerk, as far as the numbers go. -/
structure Begins (s : KvSystem) (client : String) (clerk : Clerk) (args : Args) : Prop where
  free : (s.clerks client).calling = none
  clientId : clerk.clientId = client
  requestId : clerk.requestId = (s.clerks client).clerk.requestId + 1
  owner : args.op.ClientId = client
  number : args.op.RequestId = (s.clerks client).clerk.requestId + 1

theorem Numbered.begins (numbered : Numbered s) {call : Clerk.Call} {clerk : Clerk} {args : Args}
    (free : (s.clerks client).calling = none) (begun : (s.clerks client).clerk.begin call = (clerk,args)) :
    Begins s client clerk args := by
  have id := numbered.clientId client
  obtain ⟨rfl,rfl⟩ := Prod.mk.inj begun
  exact ⟨free,id,rfl,(Clerk.args_op_client ..).trans id,Clerk.args_op_request ..⟩

/-- The call is told apart from all before it. -/
theorem Begins.fresh {clerk : Clerk} {args : Args} (begins : Begins s client clerk args) (numbered : Numbered s)
    (called : s.Called op) : ¬ op.SameRequest args.op := by
  rintro ⟨sameClient,sameId⟩
  have below := numbered.called op called
  rw [sameClient,begins.owner,sameId,begins.number] at below
  omega

theorem Numbered.call (numbered : Numbered s) {clerk : Clerk} {args : Args} (begins : Begins s client clerk args)
    (leaderId : Nat) : Numbered ((s.setClerk client ⟨clerk,some ⟨args,leaderId⟩⟩).record (.call args.op)) := by
  have old {op : Op} (called : s.Called op) :
      ((s.setClerk client ⟨clerk,some ⟨args,leaderId⟩⟩).record (.call args.op)).Called op :=
    called_record_call.mpr (.inl called)
  have clerks (client' : String) : ((s.setClerk client ⟨clerk,some ⟨args,leaderId⟩⟩).record (.call args.op)).clerks client' =
      if client' = client then ⟨clerk,some ⟨args,leaderId⟩⟩ else s.clerks client' := clerks_setClerk ..
  refine ⟨?_,?_,?_,?_,?_,?_,?_,?_,?_⟩
  · intro client'
    rw [clerks]
    split
    · next same => exact begins.clientId.trans same.symm
    · exact numbered.clientId client'
  · intro op called
    rw [clerks]
    rcases called_record_call.mp called with before | rfl
    · have below := numbered.called op before
      split
      · next same =>
        rw [same] at below
        simp only [begins.requestId]
        omega
      · exact below
    · rw [if_pos begins.owner,begins.number]
      exact begins.requestId.ge
  · intro one two called called' same
    rcases called_record_call.mp called with before | rfl
    · rcases called_record_call.mp called' with before' | rfl
      · exact numbered.unique one two before before' same
      · exact absurd same (begins.fresh numbered before)
    · rcases called_record_call.mp called' with before' | rfl
      · exact absurd ⟨same.1.symm,same.2.symm⟩ (begins.fresh numbered before')
      · rfl
  · intro client' calling held
    rw [clerks] at held ⊢
    split at held
    · next same =>
      cases held
      rw [if_pos same]
      exact ⟨called_record_call.mpr (.inr rfl),begins.owner.trans same.symm,begins.number.trans begins.requestId.symm⟩
    · next differs =>
      rw [if_neg differs]
      obtain ⟨called,rest⟩ := numbered.calling client' calling held
      exact ⟨old called,rest⟩
  · exact fun request inside => old (numbered.sent request inside)
  · exact fun op inside => old (numbered.started op inside)
  · exact fun op inside => old (numbered.entries op inside)
  · exact fun i h inside => old (numbered.handlers i h inside)
  · exact fun other held h inside => old (numbered.snapshots other held h inside)

theorem received_kept {c c' : Clerk} {args : Args} {leaderId : Nat} {reply : Option Reply} {round : Clerk.Round}
    (received : c.received args leaderId reply = (c',round)) : c'.clientId = c.clientId ∧ c'.requestId = c.requestId := by
  have id : (c.received args leaderId reply).1.clientId = c.clientId := Clerk.received_clientId ..
  have number : (c.received args leaderId reply).1.requestId = c.requestId := Clerk.received_requestId ..
  rw [received] at id number
  exact ⟨id,number⟩

theorem Numbered.step (numbered : Numbered s) {a : Action} (taken : s.step a = some s') : Numbered s' := by
  cases moves taken with
  | call free begun => exact numbered.call (numbered.begins free begun) _
  | @send client calling here =>
    refine { numbered with sent := fun request inside => ?_ }
    rcases List.mem_append.mp inside with before | new
    · exact numbered.sent request before
    · obtain rfl := List.mem_singleton.mp new
      exact (numbered.calling client calling here).1
  | @deliver i args raftLogIndex isLeader server arrived served =>
    have called : s.Called args.op := numbered.sent _ arrived
    have known : ∀ h ∈ server.handlers, s.Called h.op := by
      intro h inside
      rcases handlers_step served inside with ⟨before,there,same,_⟩ | ⟨args',index',leader',eq,same,_⟩
      · exact same ▸ numbered.handlers i before there
      · have own : args'.op = args.op := by
          cases args <;> cases args' <;> cases eq <;> rfl
        rw [← same,own]
        exact called
    have kept := numbered.setServer (i := i) known
    refine { kept with started := fun op inside => ?_ }
    split at inside
    · rcases List.mem_append.mp inside with before | new
      · exact numbered.started op before
      · obtain rfl := List.mem_singleton.mp new
        exact called
    · exact numbered.started op inside
  | @again client calling reply clerk leaderId a here received =>
    obtain ⟨id,number⟩ := received_kept received
    exact numbered.setClerk id number fun other held => ⟨calling,here,by cases held; rfl⟩
  | done here _ _ received =>
    obtain ⟨id,number⟩ := received_kept received
    exact (numbered.setClerk id number fun _ held => by cases held).record_ret
  | @commit op held =>
    refine { numbered with entries := fun other inside => ?_ }
    rcases List.mem_append.mp inside with before | new
    · exact numbered.entries other before
    · obtain rfl := List.mem_singleton.mp new
      exact numbered.started other held
  | @serve a i server own served =>
    refine numbered.setServer fun h inside => ?_
    rcases handlers_step served inside with ⟨before,there,same,_⟩ | ⟨args,_,_,rfl,_⟩
    · exact same ▸ numbered.handlers i before there
    · cases args <;> cases own
  | @ifNeedToSendSnapshotCommand i op raftStateSize here =>
    refine { numbered with snapshots := fun other held => ?_ }
    rcases List.mem_append.mp held with before | new
    · exact numbered.snapshots other before
    · obtain rfl := List.mem_singleton.mp new
      exact numbered.handlers i
  | @getSnapshotFromRaft k other i server there served =>
    refine numbered.setServer fun h inside => ?_
    rcases handlers_step served inside with ⟨before,there,same,_⟩ | ⟨args,_,_,eq,_⟩
    · exact same ▸ numbered.handlers i before there
    · cases args <;> cases eq
  | @restart snapshot i rand k =>
    refine numbered.setServer fun h inside => ?_
    cases snapshot <;> cases inside

/-! ### Order -/

/-- A clerk's earlier calls are committed, each before all later ones, and servers answer what they
have covered. -/
structure Ordered (s : KvSystem) : Prop where
  numbered : Numbered s
  answered : ∀ op, s.Called op → op.RequestId < (s.clerks op.ClientId).clerk.requestId ∨
    (s.clerks op.ClientId).calling = none → op ∈ s.entries
  behind : ∀ (i : Nat) (later : Op), s.entries[i]? = some later → ∀ op, s.Called op →
    later.ClientId = op.ClientId → op.RequestId < later.RequestId → op ∈ s.entries.take i
  servers : ∀ i, Serving s.entries (s.servers i)
  snapshots : ∀ other ∈ s.snapshots, Serving s.entries other

theorem Ordered.issued (ordered : Ordered s) (called : s.Called op) : Issued s.entries op where
  retried copy inside same := (ordered.numbered.unique op copy called (ordered.numbered.entries copy inside) same).symm
  answered i later here client id := ordered.behind i later here op called client id

theorem Ordered.clerks (ordered : Ordered s) : ∀ op ∈ s.entries, Issued s.entries op :=
  fun op inside => ordered.issued (ordered.numbered.entries op inside)

theorem ordered_new (peers : Nat) (maxRaftStateSize : Int) (rand : Nat → Nat → Nat) :
    Ordered (.new peers maxRaftStateSize rand) where
  numbered := numbered_new peers maxRaftStateSize rand
  answered _ := by rintro ⟨_,⟨⟩⟩
  behind i later here := by simp [new] at here
  servers i := serving_new maxRaftStateSize (rand i)
  snapshots _ inside := by cases inside

/-- A step of one server. -/
theorem Ordered.setServer (ordered : Ordered s) {i : Nat} {server : Server} (numbered : Numbered (s.setServer i server))
    (serving : Serving s.entries server) : Ordered (s.setServer i server) where
  numbered := numbered
  answered := ordered.answered
  behind := ordered.behind
  servers j := by
    rw [servers_setServer]
    split
    · exact serving
    · exact ordered.servers j
  snapshots := ordered.snapshots

/-- A clerk whose call returns has it committed. -/
theorem Ordered.setClerk (ordered : Ordered s) {p : ClerkProcess} (numbered : Numbered (s.setClerk client p))
    (number : p.clerk.requestId = (s.clerks client).clerk.requestId)
    (answered : p.calling = none → (s.clerks client).calling = none ∨
      ∃ calling, (s.clerks client).calling = some calling ∧ calling.args.op ∈ s.entries) :
    Ordered (s.setClerk client p) where
  numbered := numbered
  answered op called := by
    rw [clerks_setClerk]
    intro past
    split at past
    · next own =>
      subst own
      rcases past with below | free
      · exact ordered.answered op called (.inl (number ▸ below))
      · rcases answered free with free | ⟨calling,here,inside⟩
        · exact ordered.answered op called (.inr free)
        · obtain ⟨called',owner,id⟩ := ordered.numbered.calling op.ClientId calling here
          rcases lt_or_eq_of_le (ordered.numbered.called op called) with below | last
          · exact ordered.answered op called (.inl below)
          · have same := ordered.numbered.unique op calling.args.op called called' ⟨owner.symm,last.trans id.symm⟩
            exact same ▸ inside
    · exact ordered.answered op called past
  behind := ordered.behind
  servers := ordered.servers
  snapshots := ordered.snapshots

theorem Ordered.record_ret (ordered : Ordered s) {value : String} : Ordered (s.record (.ret op value)) where
  numbered := ordered.numbered.record_ret
  answered other called := ordered.answered other (called_record_ret.mp called)
  behind i later here other called := ordered.behind i later here other (called_record_ret.mp called)
  servers := ordered.servers
  snapshots := ordered.snapshots

theorem Ordered.call (ordered : Ordered s) {clerk : Clerk} {args : Args} (begins : Begins s client clerk args)
    (leaderId : Nat) : Ordered ((s.setClerk client ⟨clerk,some ⟨args,leaderId⟩⟩).record (.call args.op)) where
  numbered := ordered.numbered.call begins leaderId
  answered op called past := by
    have clerks : (s.setClerk client ⟨clerk,some ⟨args,leaderId⟩⟩).clerks op.ClientId =
        if op.ClientId = client then ⟨clerk,some ⟨args,leaderId⟩⟩ else s.clerks op.ClientId := clerks_setClerk ..
    change _ < ((s.setClerk client ⟨clerk,some ⟨args,leaderId⟩⟩).clerks op.ClientId).clerk.requestId ∨
      ((s.setClerk client ⟨clerk,some ⟨args,leaderId⟩⟩).clerks op.ClientId).calling = none at past
    rw [clerks] at past
    rcases called_record_call.mp called with before | rfl
    · split at past
      · next own => exact ordered.answered op before (.inr (own ▸ begins.free))
      · exact ordered.answered op before past
    · rw [if_pos begins.owner,begins.number] at past
      rcases past with below | free
      · simp only [begins.requestId] at below
        omega
      · cases free
  behind i later here op called client' id := by
    rcases called_record_call.mp called with before | rfl
    · exact ordered.behind i later here op before client' id
    · have below := ordered.numbered.called later (ordered.numbered.entries later (List.mem_of_getElem? here))
      rw [client',begins.owner] at below
      rw [begins.number] at id
      omega
  servers := ordered.servers
  snapshots := ordered.snapshots

theorem Ordered.commit (ordered : Ordered s) (numbered : Numbered { s with entries := s.entries ++ [op] })
    (held : op ∈ s.started) : Ordered { s with entries := s.entries ++ [op] } := by
  have behind : ∀ (i : Nat) (later : Op), (s.entries ++ [op])[i]? = some later → ∀ other, s.Called other →
      later.ClientId = other.ClientId → other.RequestId < later.RequestId → other ∈ (s.entries ++ [op]).take i := by
    intro i later here other called client id
    rcases Nat.lt_or_ge i s.entries.length with old | new
    · rw [List.getElem?_append_left old] at here
      rw [List.take_append_of_le_length old.le]
      exact ordered.behind i later here other called client id
    · have last := (List.getElem?_eq_some_iff.mp here).1
      rw [List.length_append,List.length_singleton] at last
      obtain rfl : i = s.entries.length := by omega
      obtain rfl : op = later := by simpa using here
      have below := ordered.numbered.called op (ordered.numbered.started op held)
      rw [client] at below
      rw [List.take_left]
      exact ordered.answered other called (.inl (id.trans_le below))
  have issued : ∀ other, s.Called other → Issued (s.entries ++ [op]) other := by
    intro other called
    refine ⟨fun copy inside same => ?_,fun i later here client id => behind i later here other called client id⟩
    exact (numbered.unique other copy called (numbered.entries copy inside) same).symm
  refine ⟨numbered,?_,behind,?_,?_⟩
  · exact fun other called past => List.mem_append_left _ (ordered.answered other called past)
  · exact fun i => (ordered.servers i).commit fun h inside => issued h.op (numbered.handlers i h inside)
  · exact fun other held => (ordered.snapshots other held).commit fun h inside =>
      issued h.op (numbered.snapshots other held h inside)

/-- The handlers of a server that answer a clerk have its request covered. -/
theorem Ordered.replied (ordered : Ordered s) {args : Args} {i : Nat} {h : Handler} {reply : Reply}
    (inside : h ∈ (s.servers i).handlers) (own : replyOf args h = some reply) (final : reply.Err ≠ .ErrWrongLeader) :
    args.op ∈ s.entries.take (s.servers i).covered := by
  unfold replyOf at own
  split at own
  · next same =>
    split at own
    · next stage =>
      cases own
      rw [← same.2]
      exact (ordered.servers i).settled h inside (by rw [stage]; exact final)
    · cases own
  · cases own

theorem done_final {c c' : Clerk} {args : Args} {leaderId : Nat} {reply : Reply} {value : String}
    (received : c.received args leaderId (some reply) = (c',.done value)) : reply.Err ≠ .ErrWrongLeader := by
  obtain ⟨answer,same,cases_⟩ := Clerk.received_done (congrArg Prod.snd received)
  cases same
  rcases cases_ with ⟨_,missing,_⟩ | ⟨ok,_⟩
  · rw [missing]
    decide
  · rw [ok]
    decide

theorem Ordered.step (ordered : Ordered s) {a : Action} (taken : s.step a = some s') : Ordered s' := by
  have numbered := ordered.numbered.step taken
  cases moves taken with
  | call free begun => exact ordered.call (ordered.numbered.begins free begun) _
  | send => exact { ordered with numbered := numbered }
  | @deliver i args raftLogIndex isLeader server arrived served =>
    have called : s.Called args.op := ordered.numbered.sent _ arrived
    have issues : (args.handler raftLogIndex isLeader).Issues s.entries := by
      cases args <;> exact ordered.issued called
    have serving := (ordered.servers i).step ordered.clerks issues (fun _ eq => by cases args <;> cases eq) served
    have kept := ordered.setServer (i := i) { numbered with started := ?_ } serving
    · exact { kept with numbered := numbered }
    · exact ordered.numbered.started
  | @again client calling reply clerk leaderId a here received =>
    exact ordered.setClerk numbered (received_kept received).2 fun free => by cases free
  | @done client calling h reply clerk value a here inside own received =>
    have covered := List.mem_of_mem_take (ordered.replied inside own (done_final received))
    have kept : Numbered (s.setClerk client ⟨clerk,none⟩) :=
      ordered.numbered.setClerk (received_kept received).1 (received_kept received).2 fun _ held => by cases held
    exact (ordered.setClerk kept (received_kept received).2 fun _ => .inr ⟨calling,here,covered⟩).record_ret
  | commit held => exact ordered.commit numbered held
  | @serve a i server own served =>
    have issues : a.Issues s.entries := by
      cases a <;> trivial
    refine ordered.setServer numbered ((ordered.servers i).step ordered.clerks issues (fun _ eq => ?_) served)
    subst eq
    cases own
  | @ifNeedToSendSnapshotCommand i op raftStateSize here =>
    refine { ordered with numbered := numbered, snapshots := fun other held => ?_ }
    rcases List.mem_append.mp held with before | new
    · exact ordered.snapshots other before
    · obtain rfl := List.mem_singleton.mp new
      exact ordered.servers i
  | @getSnapshotFromRaft k other i server there served =>
    have theirs := ordered.snapshots other (List.mem_of_getElem? there)
    have issues : (Requests.Action.getSnapshotFromRaft other).Issues s.entries := trivial
    refine ordered.setServer numbered ((ordered.servers i).step ordered.clerks issues (fun _ eq => ?_) served)
    cases eq
    exact theirs
  | @restart snapshot i rand k held =>
    exact ordered.setServer numbered (Serving.boot (fun other inside => ordered.snapshots other (held other inside)) _ _)

end KvSystem

/-! ### What the servers are promised -/

namespace Requests

variable {entries : List Op} {op : Op}

theorem Issued.front {back : List Op} (issued : Issued (entries ++ back) op) : Issued entries op where
  retried copy inside := issued.retried copy (List.mem_append_left _ inside)
  answered i later here client id := by
    have before := (List.getElem?_eq_some_iff.mp here).1
    have inside := issued.answered i later ((List.getElem?_append_left before).trans here) client id
    rwa [List.take_append_of_le_length before.le] at inside

theorem Issued.take (issued : Issued entries op) (k : Nat) : Issued (entries.take k) op := by
  rw [← List.take_append_drop k entries] at issued
  exact issued.front

theorem firstCopies_subset : ∀ entries : List Op, ∀ op ∈ firstCopies entries, op ∈ entries
  | [], _, inside => by cases inside
  | first :: rest, op, inside => by
    rcases List.mem_cons.mp inside with rfl | later
    · exact List.mem_cons_self
    · exact List.mem_cons_of_mem _ (firstCopies_subset rest op (List.mem_filter.mp later).1)

/-- Requests that were issued after the answers to all earlier ones are in the clerks' order. -/
theorem clerkOrder_of_issued (clerks : ∀ op ∈ entries, Issued entries op) : ClerkOrder entries := by
  refine ⟨fun op inside other held same => ((clerks op inside).retried other held same).symm,?_⟩
  induction entries using List.reverseRecOn with
  | nil => exact .nil
  | append_singleton entries op ih =>
    have before := ih fun other inside => (clerks other (List.mem_append_left _ inside)).front
    rw [firstCopies_append]
    split
    · exact before
    · next first =>
      refine List.pairwise_append.mpr ⟨before,List.pairwise_singleton _ _,fun other inside last own client => ?_⟩
      obtain rfl := List.mem_singleton.mp own
      have held := firstCopies_subset entries other inside
      by_contra above
      rcases lt_or_eq_of_le (not_lt.mp above) with less | same
      · obtain ⟨i,here⟩ := List.mem_iff_getElem?.mp held
        have bound := (List.getElem?_eq_some_iff.mp here).1
        have issued := clerks last (List.mem_append_right _ (List.mem_singleton.mpr rfl))
        have earlier := issued.answered i other ((List.getElem?_append_left bound).trans here) client less
        rw [List.take_append_of_le_length bound.le] at earlier
        exact first ⟨last,List.mem_of_mem_take earlier,rfl,rfl⟩
      · exact first ⟨other,held,client.symm,same⟩

theorem clerkOrder_take (clerks : ∀ op ∈ entries, Issued entries op) (k : Nat) : ClerkOrder (entries.take k) :=
  clerkOrder_of_issued fun op inside => (clerks op (List.mem_of_mem_take inside)).take k

end Requests

namespace KvSystem
open Requests Linearizability

variable {s : KvSystem} {peers : Nat} {maxRaftStateSize : Int} {rand : Nat → Nat → Nat}

theorem ordered_of_reach {ok : KvSystem → Action → Prop}
    (reach : Run.Reach step ok (.new peers maxRaftStateSize rand) s) : Ordered s :=
  reach.invariant Ordered (ordered_new peers maxRaftStateSize rand)
    fun _ _ _ _ ordered _ taken => ordered.step taken

/-- In every run of clerks and servers the committed entries are in the clerks' order, and every
request that was sent, or is handled, was issued after the answers to all earlier ones. -/
theorem clerks_in_order (peers : Nat) (maxRaftStateSize : Int) (rand : Nat → Nat → Nat) (actions : List Action)
    (s : KvSystem) (ran : Run.run step (.new peers maxRaftStateSize rand) actions = some s) :
    ClerkOrder s.entries ∧ (∀ request ∈ s.sent, Issued s.entries request.2.op) ∧
      ∀ i, ∀ h ∈ (s.servers i).handlers, Issued s.entries h.op := by
  have ordered := ordered_of_reach (Run.reach_of_run actions ran)
  refine ⟨clerkOrder_of_issued ordered.clerks,?_,?_⟩
  · exact fun request inside => ordered.issued (ordered.numbered.sent request inside)
  · exact fun i h inside => ordered.issued (ordered.numbered.handlers i h inside)

/-- A Put that one server refuses and that another has committed twice before it answers. The first
server then starts again from a snapshot of the second. -/
def putTwice : List Action :=
  let args : Args := .PutAppend "k" "x" "Put" "c" 1
  [.call "c" (.Put "k" "x"),.send "c",.deliver 0 args 0 false,.reply "c" 0,
    .send "c",.deliver 1 args 1 true,.serve 1 (.create 0),.commit args.op,.fail "c",.fail "c",
    .send "c",.deliver 1 args 2 true,.serve 1 (.create 1),.commit args.op,
    .serve 1 .check,.serve 1 .execute,.serve 1 .sendMsgToWaitChan,
    .serve 1 .check,.serve 1 .execute,.ifNeedToSendSnapshotCommand 1 100,.serve 1 .sendMsgToWaitChan,
    .serve 1 (.pop 1),.serve 1 (.remove 1),.reply "c" 1,.restart 0 (fun _ => 0) (some 0)]

def twoServers : KvSystem := .new 2 10 fun _ _ => 0

theorem clerks_in_order_putTwice : ∃ s, Run.run step twoServers putTwice = some s ∧
    s.entries = [⟨"Put","k","x","c",1⟩,⟨"Put","k","x","c",1⟩] ∧ ClerkOrder s.entries := by
  have runs : (Run.run step twoServers putTwice).any
      (fun s => s.entries = [⟨"Put","k","x","c",1⟩,⟨"Put","k","x","c",1⟩]) = true := by decide +kernel
  obtain ⟨s,ran,entries⟩ := (Option.any_eq_true ..).mp runs
  exact ⟨s,ran,of_decide_eq_true entries,(clerks_in_order 2 10 (fun _ _ => 0) putTwice s ran).1⟩

end KvSystem
end KvStorage
