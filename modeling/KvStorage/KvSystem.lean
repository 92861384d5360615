import KvStorage.Clerk
import KvStorage.DedupeTable
import KvStorage.SnapshotStream
import KvStorage.Lib.Linearizability

/-! Clerks and servers together. Requests may be lost, delayed and delivered many times, to servers
that stop and start again; what a leader was given to replicate may be committed, once or again. -/
namespace KvStorage
open Requests Linearizability

/-- The handler that the arguments start, with what `raftNode_->start` answers it. -/
def Args.handler (raftLogIndex : Int) (isLeader : Bool) : Args → Requests.Action
  | .Get key clientid requestid => .getImpl key clientid requestid raftLogIndex isLeader
  | .PutAppend key value op clientid requestid =>
    .putAppendImpl ⟨op,key,value,clientid,requestid⟩ raftLogIndex isLeader

/-- A running call: its arguments and the server it asks. -/
structure Calling where
  args : Args
  leaderId : Nat
  deriving DecidableEq, Repr

structure ClerkProcess where
  clerk : Clerk
  calling : Option Calling
  deriving DecidableEq, Repr

/-- The `entries` are what the nodes below agree on, taken as given: one list for all servers, that only
grows. The snapshots are those that a server made, with the server that made them. `started` has what a
leader's `start` took. The history is not in the code: the calls and returns of all clerks, each with
the number of entries committed then. -/
structure KvSystem where
  entries : List Op
  clerks : String → ClerkProcess
  servers : Nat → Server
  sent : List (Nat × Args)
  started : List Op
  snapshots : List Server
  history : List (Nat × CallEvent Op String)

namespace KvSystem

inductive Action where
  | call (client : String) (call : Clerk.Call)
  | send (client : String)
  | deliver (server : Nat) (args : Args) (raftLogIndex : Int) (isLeader : Bool)
  | reply (client : String) (i : Nat)
  | fail (client : String)
  | commit (op : Op)
  | serve (server : Nat) (a : Requests.Action)
  | ifNeedToSendSnapshotCommand (server : Nat) (raftStateSize : Int)
  | getSnapshotFromRaft (server k : Nat)
  | restart (server : Nat) (rand : Nat → Nat) (k : Option Nat)

/-- Steps of a server that neither start a handler nor load a snapshot. -/
def inner : Requests.Action → Bool
  | .getImpl .. => false
  | .putAppendImpl .. => false
  | .getSnapshotFromRaft _ => false
  | _ => true

/-- Any number of clerks, each of which knows `peers` servers. -/
def new (peers : Nat) (maxRaftStateSize : Int) (rand : Nat → Nat → Nat) : KvSystem where
  entries := []
  clerks clientId := ⟨.new peers clientId,none⟩
  servers i := .new maxRaftStateSize (rand i)
  sent := []
  started := []
  snapshots := []
  history := []

variable (s : KvSystem)

def setClerk (client : String) (p : ClerkProcess) : KvSystem :=
  { s with clerks := Function.update s.clerks client p }

def setServer (i : Nat) (server : Server) : KvSystem :=
  { s with servers := Function.update s.servers i server }

def record (e : CallEvent Op String) : KvSystem :=
  { s with history := s.history ++ [(s.entries.length,e)] }

/-- The clerk goes on with the loop, or its call returns. -/
def resume (client : String) (args : Args) : Clerk × Clerk.Round → KvSystem
  | (clerk,.again leaderId) => s.setClerk client ⟨clerk,some ⟨args,leaderId⟩⟩
  | (clerk,.done value) => (s.setClerk client ⟨clerk,none⟩).record (.ret args.op value)

/-- The reply of a handler that has returned to these arguments. A clerk's call takes no other: bytes left
over on its channel are not in this model. -/
def replyOf (args : Args) (h : Handler) : Option Reply :=
  if h.isGet = args.isGet ∧ h.op = args.op then
    match h.stage with
    | .finished reply => some reply
    | _ => none
  else none

/-- A new process that read this snapshot. -/
def boot (maxRaftStateSize : Int) (rand : Nat → Nat) : Option Server → Server
  | none => .new maxRaftStateSize rand
  | some other =>
    { kv := .start maxRaftStateSize rand (some other.kv.makeSnapshot)
      covered := other.covered
      applying := .idle
      handlers := []
      executed := []
      recorded := other.performed }

def step (s : KvSystem) : Action → Option KvSystem
  | .call client call => match (s.clerks client).calling with
    | some _ => none
    | none =>
      let (clerk,args) := (s.clerks client).clerk.begin call
      some ((s.setClerk client ⟨clerk,some ⟨args,clerk.recentLeaderId⟩⟩).record (.call args.op))
  | .send client => match (s.clerks client).calling with
    | some calling => some { s with sent := s.sent ++ [(calling.leaderId,calling.args)] }
    | none => none
  | .deliver i args raftLogIndex isLeader =>
    if (i,args) ∈ s.sent then
      ((s.servers i).step s.entries (args.handler raftLogIndex isLeader)).map fun server =>
        { s.setServer i server with started := if isLeader then s.started ++ [args.op] else s.started }
    else none
  | .reply client i => match (s.clerks client).calling with
    | some calling => match ((s.servers calling.leaderId).handlers[i]?).bind (replyOf calling.args) with
      | some reply =>
        some (s.resume client calling.args ((s.clerks client).clerk.received calling.args calling.leaderId (some reply)))
      | none => none
    | none => none
  | .fail client => match (s.clerks client).calling with
    | some calling =>
      some (s.resume client calling.args ((s.clerks client).clerk.received calling.args calling.leaderId none))
    | none => none
  | .commit op => if op ∈ s.started then some { s with entries := s.entries ++ [op] } else none
  | .serve i a => if inner a then ((s.servers i).step s.entries a).map (s.setServer i) else none
  | .ifNeedToSendSnapshotCommand i raftStateSize => match (s.servers i).applying with
    | .executed _ =>
      if ((s.servers i).kv.ifNeedToSendSnapshotCommand raftStateSize (s.servers i).covered 9).isSome then
        some { s with snapshots := s.snapshots ++ [s.servers i] }
      else none
    | _ => none
  | .getSnapshotFromRaft i k => match s.snapshots[k]? with
    | some other => ((s.servers i).step s.entries (.getSnapshotFromRaft other)).map (s.setServer i)
    | none => none
  | .restart i rand k => match k with
    | none => some (s.setServer i (boot (s.servers i).kv.maxRaftStateSize rand none))
    | some k => match s.snapshots[k]? with
      | some other => some (s.setServer i (boot (s.servers i).kv.maxRaftStateSize rand (some other)))
      | none => none

/-- The operation of a call that some clerk has made. -/
def Called (op : Op) : Prop := ∃ before, (before,CallEvent.call op) ∈ s.history

/-! ### What a step can do -/

inductive Moves (s : KvSystem) : Action → KvSystem → Prop where
  | call : (s.clerks client).calling = none → (s.clerks client).clerk.begin call = (clerk,args) →
      Moves s (.call client call) ((s.setClerk client ⟨clerk,some ⟨args,clerk.recentLeaderId⟩⟩).record (.call args.op))
  | send : (s.clerks client).calling = some calling →
      Moves s (.send client) { s with sent := s.sent ++ [(calling.leaderId,calling.args)] }
  | deliver : (i,args) ∈ s.sent →
      (s.servers i).step s.entries (args.handler raftLogIndex isLeader) = some server →
      Moves s (.deliver i args raftLogIndex isLeader)
        { s.setServer i server with started := if isLeader then s.started ++ [args.op] else s.started }
  | again : (s.clerks client).calling = some calling →
      (s.clerks client).clerk.received calling.args calling.leaderId reply = (clerk,.again leaderId) →
      Moves s a (s.setClerk client ⟨clerk,some ⟨calling.args,leaderId⟩⟩)
  | done : (s.clerks client).calling = some calling → h ∈ (s.servers calling.leaderId).handlers →
      replyOf calling.args h = some reply →
      (s.clerks client).clerk.received calling.args calling.leaderId (some reply) = (clerk,.done value) →
      Moves s a ((s.setClerk client ⟨clerk,none⟩).record (.ret calling.args.op value))
  | commit : op ∈ s.started → Moves s (.commit op) { s with entries := s.entries ++ [op] }
  | serve : inner a = true → (s.servers i).step s.entries a = some server → Moves s (.serve i a) (s.setServer i server)
  | ifNeedToSendSnapshotCommand : (s.servers i).applying = .executed op →
      Moves s (.ifNeedToSendSnapshotCommand i raftStateSize) { s with snapshots := s.snapshots ++ [s.servers i] }
  | getSnapshotFromRaft : s.snapshots[k]? = some other →
      (s.servers i).step s.entries (.getSnapshotFromRaft other) = some server →
      Moves s (.getSnapshotFromRaft i k) (s.setServer i server)
  | restart : (∀ other ∈ snapshot, other ∈ s.snapshots) →
      Moves s (.restart i rand k) (s.setServer i (boot (s.servers i).kv.maxRaftStateSize rand snapshot))

variable {s} {s' : KvSystem}

theorem moves {a : Action} (taken : s.step a = some s') : Moves s a s' := by
  cases a with
  | call client call =>
    simp only [step] at taken
    split at taken
    · cases taken
    · next free =>
      cases taken
      exact .call free rfl
  | send client =>
    simp only [step] at taken
    split at taken
    · next calling here =>
      cases taken
      exact .send here
    · cases taken
  | deliver i args raftLogIndex isLeader =>
    simp only [step] at taken
    split at taken
    · next arrived =>
      obtain ⟨server,served,rfl⟩ := Option.map_eq_some_iff.mp taken
      exact .deliver arrived served
    · cases taken
  | reply client i =>
    simp only [step] at taken
    split at taken
    · next calling here =>
      split at taken
      · next reply answered =>
        cases taken
        obtain ⟨h,there,own⟩ := Option.bind_eq_some_iff.mp answered
        generalize received : (s.clerks client).clerk.received calling.args calling.leaderId (some reply) = round
        obtain ⟨clerk,round⟩ := round
        cases round with
        | again leaderId => exact .again here received
        | done value => exact .done here (List.mem_of_getElem? there) own received
      · cases taken
    · cases taken
  | fail client =>
    simp only [step] at taken
    split at taken
    · next calling here =>
      cases taken
      have failed : (s.clerks client).clerk.received calling.args calling.leaderId none =
          ((s.clerks client).clerk,.again ((s.clerks client).clerk.nextServer calling.leaderId)) := rfl
      exact .again here failed
    · cases taken
  | commit op =>
    simp only [step] at taken
    split at taken
    · next held =>
      cases taken
      exact .commit held
    · cases taken
  | serve i a =>
    simp only [step] at taken
    split at taken
    · next own =>
      obtain ⟨server,served,rfl⟩ := Option.map_eq_some_iff.mp taken
      exact .serve own served
    · cases taken
  | ifNeedToSendSnapshotCommand i raftStateSize =>
    simp only [step] at taken
    split at taken
    · next op here =>
      split at taken
      · cases taken
        exact .ifNeedToSendSnapshotCommand here
      · cases taken
    · cases taken
  | getSnapshotFromRaft i k =>
    simp only [step] at taken
    split at taken
    · next other there =>
      obtain ⟨server,served,rfl⟩ := Option.map_eq_some_iff.mp taken
      exact .getSnapshotFromRaft there served
    · cases taken
  | restart i rand k =>
    simp only [step] at taken
    split at taken
    · cases taken
      have nothing : ∀ other ∈ (none : Option Server), other ∈ s.snapshots := by simp
      exact .restart nothing
    · split at taken
      · next other there =>
        cases taken
        have held : ∀ saved ∈ some other, saved ∈ s.snapshots := by
          rintro saved ⟨⟩
          exact List.mem_of_getElem? there
        exact .restart held
      · cases taken

end KvSystem
end KvStorage
