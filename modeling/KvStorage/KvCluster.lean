import KvStorage.ChannelContents
import KvStorage.ClusterSnapshots
import KvStorage.KvSystemLinearizable

/-! The whole service. The nodes of a cluster, the channels to their servers, the servers with their
handlers, and the clerks; a server knows of the others only what its node hands out. -/
namespace KvStorage
open Requests Linearizability

/-- A snapshot is the server that made it, whose `makeSnapshot` are its bytes; `made` has those that
are not passed to `Raft::snapshot` yet. Server `v` belongs to node `v`, and none is used from `n` on.
The history is not in the code. -/
structure KvCluster (n : Nat) where
  cluster : Cluster n Op Server
  channels : Fin n → ApplyChannel n Op Server
  servers : Nat → Server
  made : Fin n → Option Server
  clerks : String → ClerkProcess
  sent : List (Nat × Args)
  history : List (CallEvent Op String)

namespace KvCluster

inductive Action (n : Nat) where
  | call (client : String) (call : Clerk.Call)
  | send (client : String)
  | deliver (v : Fin n) (args : Args)
  | reply (client : String) (i : Nat)
  | fail (client : String)
  | raft (action : KvStorage.Action n Op Server) (rand : Nat → Nat)
  | pushApplied (v : Fin n)
  | pushMsgToKvServer (v : Fin n) (thread : Nat)
  | pop (v : Fin n)
  | serve (v : Fin n) (a : Requests.Action)
  | ifNeedToSendSnapshotCommand (v : Fin n) (raftStateSize : Int)
  | snapshot (v : Fin n) (rand : Nat → Nat)

def initial (n : Nat) (maxRaftStateSize : Int) (rand : Nat → Nat → Nat) : KvCluster n where
  cluster := .initial n Op Server
  channels v := .boot v {}
  servers i := .new maxRaftStateSize (rand i)
  made _ := none
  clerks clientId := ⟨.new n clientId,none⟩
  sent := []
  history := []

variable (s : KvCluster n)

def setClerk (client : String) (p : ClerkProcess) : KvCluster n :=
  { s with clerks := Function.update s.clerks client p }

def setServer (v : Fin n) (server : Server) : KvCluster n :=
  { s with servers := Function.update s.servers v server }

def setChannel (v : Fin n) (channel : ApplyChannel n Op Server) : KvCluster n :=
  { s with channels := Function.update s.channels v channel }

def record (e : CallEvent Op String) : KvCluster n := { s with history := s.history ++ [e] }

/-- The clerk goes on with the loop, or its call returns. -/
def resume (client : String) (args : Args) : Clerk × Clerk.Round → KvCluster n
  | (clerk,.again leaderId) => s.setClerk client ⟨clerk,some ⟨args,leaderId⟩⟩
  | (clerk,.done value) => (s.setClerk client ⟨clerk,none⟩).record (.ret args.op value)

/-- Sections that no server starts. -/
def own : KvStorage.Action n Op Server → Bool
  | .start .. => false
  | .snapshot .. => false
  | _ => true

/-- A section of a node. Where it ends the process, node, channel and server start again from the files. -/
def raftStep (action : KvStorage.Action n Op Server) (rand : Nat → Nat) : Option (KvCluster n) := do
  let cluster ← s.cluster.step action
  match s.cluster.handles action with
  | none => some { s with cluster }
  | some (v,a) =>
    let channel ← (s.channels v).step (.handle a)
    match (s.cluster.node v).handle a with
    | .ok _ => some { s with cluster, channels := Function.update s.channels v channel }
    | .error left => some { s with
        cluster
        channels := Function.update s.channels v channel
        servers := Function.update s.servers v (KvSystem.boot (s.servers v).kv.maxRaftStateSize rand left.snapshot)
        made := Function.update s.made v none }

/-- A popped message: the check of `getCommandFromRaft`, or `getSnapshotFromRaft`. -/
def received (server : Server) : ApplyMsg Op Server → Server
  | .command op CommandIndex =>
    if server.kv.lastSnapShotRaftLogIndex ≥ CommandIndex then server
    else { server with
      covered := (CommandIndex - 1).toNat
      applying := .checked op (server.kv.isRequestDuplicate op.ClientId op.RequestId) }
  | .snapshot data _ SnapshotIndex => { server with
      kv := server.kv.getSnapshotFromRaft (data.map (·.kv.makeSnapshot)) SnapshotIndex
      covered := SnapshotIndex.toNat
      recorded := server.recorded ++ (data.map Server.performed).getD [] }

/-- The loop sends its message after it has passed its snapshot on. -/
def waits (v : Fin n) : Requests.Action → Bool
  | .sendMsgToWaitChan => (s.made v).isSome
  | _ => false

/-- `start` runs within `deliver`. The loop makes a snapshot in one section and passes it on in another. -/
def step (s : KvCluster n) : Action n → Option (KvCluster n)
  | .call client call => match (s.clerks client).calling with
    | some _ => none
    | none =>
      let (clerk,args) := (s.clerks client).clerk.begin call
      some ((s.setClerk client ⟨clerk,some ⟨args,clerk.recentLeaderId⟩⟩).record (.call args.op))
  | .send client => match (s.clerks client).calling with
    | some calling => some { s with sent := s.sent ++ [(calling.leaderId,calling.args)] }
    | none => none
  | .deliver v args =>
    if s.sent.contains (v.val,args) then
      let (_,newLogIndex,_,isLeader) := (s.cluster.node v).start args.op
      (s.raftStep (.start v args.op) fun _ => 0).bind fun s =>
        ((s.servers v).step [] (args.handler newLogIndex isLeader)).map (s.setServer v)
    else none
  | .reply client i => match (s.clerks client).calling with
    | some calling => match ((s.servers calling.leaderId).handlers[i]?).bind (KvSystem.replyOf calling.args) with
      | some reply =>
        some (s.resume client calling.args ((s.clerks client).clerk.received calling.args calling.leaderId (some reply)))
      | none => none
    | none => none
  | .fail client => match (s.clerks client).calling with
    | some calling =>
      some (s.resume client calling.args ((s.clerks client).clerk.received calling.args calling.leaderId none))
    | none => none
  | .raft action rand => if own action then s.raftStep action rand else none
  | .pushApplied v => ((s.channels v).step .pushApplied).map (s.setChannel v)
  | .pushMsgToKvServer v thread => ((s.channels v).step (.pushMsgToKvServer thread)).map (s.setChannel v)
  | .pop v => match (s.servers v).applying, (s.channels v).applyChan with
    | .idle, msg :: _ => ((s.channels v).step .pop).map fun channel =>
      (s.setChannel v channel).setServer v (received (s.servers v) msg)
    | _, _ => none
  | .serve v a => if KvSystem.inner a ∧ s.waits v a = false then ((s.servers v).step [] a).map (s.setServer v) else none
  | .ifNeedToSendSnapshotCommand v raftStateSize => match (s.servers v).applying, s.made v with
    | .executed _, none =>
      if ((s.servers v).kv.ifNeedToSendSnapshotCommand raftStateSize (s.servers v).covered 9).isSome then
        some { s with made := Function.update s.made v (some (s.servers v)) }
      else none
    | _, _ => none
  | .snapshot v rand => match s.made v with
    | some saved => (s.raftStep (.snapshot v saved.covered (some saved)) rand).map fun s =>
      { s with made := Function.update s.made v none }
    | none => none

/-- No section keeps a foreign suffix, the channels' pushes are in turn, no snapshot is loaded that is not
ahead or that has other values, and no late read turns the table back. -/
def Orderly (s : KvCluster n) : Action n → Prop
  | .raft action _ => s.cluster.Clean action ∧
    ∀ v a, s.cluster.handles action = some (v,a) → (s.channels v).InTurn (.handle a)
  | .pushApplied v => (s.channels v).InTurn .pushApplied
  | .pop v => ∀ data term i, (s.channels v).applyChan.head? = some (.snapshot data term i) →
    (s.servers v).covered < i ∧ ∀ other ∈ data, (s.servers v).kv.machine.Kept other.kv.machine
  | .serve v a => Requests.Keeps (s.servers v) a
  | _ => True

/-! ### What a step can do -/

variable {s} {s' : KvCluster n}

inductive RaftMoves (s : KvCluster n) (action : KvStorage.Action n Op Server) (rand : Nat → Nat) : KvCluster n → Prop where
  | idle : s.cluster.step action = some c' → s.cluster.handles action = none →
      RaftMoves s action rand { s with cluster := c' }
  | ran : s.cluster.step action = some c' → s.cluster.handles action = some (v,a) →
      (s.channels v).step (.handle a) = some channel → (s.cluster.node v).handle a = .ok rf →
      RaftMoves s action rand { s with cluster := c', channels := Function.update s.channels v channel }
  | ended : s.cluster.step action = some c' → s.cluster.handles action = some (v,a) →
      (s.channels v).step (.handle a) = some channel → (s.cluster.node v).handle a = .error left →
      RaftMoves s action rand { s with
        cluster := c'
        channels := Function.update s.channels v channel
        servers := Function.update s.servers v (KvSystem.boot (s.servers v).kv.maxRaftStateSize rand left.snapshot)
        made := Function.update s.made v none }

theorem raftMoves {action : KvStorage.Action n Op Server} {rand : Nat → Nat} (taken : s.raftStep action rand = some s') :
    RaftMoves s action rand s' := by
  obtain ⟨cluster,stepped,taken⟩ := Option.bind_eq_some_iff.mp taken
  cases runs : s.cluster.handles action with
  | none =>
    rw [runs] at taken
    obtain rfl := Option.some.inj taken
    exact .idle stepped runs
  | some section_ =>
    obtain ⟨v,a⟩ := section_
    rw [runs] at taken
    obtain ⟨channel,moved,taken⟩ := Option.bind_eq_some_iff.mp taken
    cases done : (s.cluster.node v).handle a with
    | ok rf =>
      rw [done] at taken
      obtain rfl := Option.some.inj taken
      exact .ran stepped runs moved done
    | error left =>
      rw [done] at taken
      obtain rfl := Option.some.inj taken
      exact .ended stepped runs moved done

end KvCluster
end KvStorage
