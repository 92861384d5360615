import KvStorage.Lib.Run
import KvStorage.RaftHandlers

/-! A cluster of nodes, the RPC threads they started and the requests and replies
in flight. One action is one critical section, with the `Save` at its end. A request
is handled at most once and a thread takes at most one reply, the one made for its
request; nothing else is promised about delivery. A crash comes between two actions
and drops memory and threads, never requests. -/
namespace KvStorage

/-- A blocking call: the request may still reach the peer, the caller may still wait. -/
structure Thread (Args Reply : Type) where
  args : Args
  inFlight : Bool := true
  reply : Option Reply := none
  waiting : Bool := true
  deriving DecidableEq

namespace Thread
def answered (t : Thread Args Reply) (reply : Reply) : Thread Args Reply :=
  { t with inFlight := false, reply := some reply }
def unanswered (t : Thread Args Reply) : Thread Args Reply := { t with inFlight := false }
def finished (t : Thread Args Reply) : Thread Args Reply := { t with waiting := false }
end Thread

/-- The threads of one `doElection` or `doHeartBeat`: at most one for each peer,
and the counter (`voteNums`, `appendNums`) they share. -/
structure Round (n : Nat) (Args Reply : Type) where
  src : Fin n
  counter : Int
  thread : Fin n → Option (Thread Args Reply)

namespace Round
variable (r : Round n Args Reply)

def launch (src : Fin n) (requests : List (Fin n × Args)) : Round n Args Reply :=
  ⟨src,1,fun peer => (requests.lookup peer).map fun args => { args }⟩

def setThread (peer : Fin n) (t : Thread Args Reply) : Round n Args Reply :=
  { r with thread := Function.update r.thread peer (some t) }

/-- The process of `v` ended, and its threads with it. -/
def abandon (v : Fin n) : Round n Args Reply :=
  if r.src = v then { r with thread := fun peer => (r.thread peer).map Thread.finished } else r
end Round

/-- A `leaderSendSnapshot` thread whose request is built. -/
structure SnapshotCall (n : Nat) (Snap : Type) where
  src : Fin n
  dst : Fin n
  thread : Thread (InstallSnapshotRequest Snap) InstallSnapshotResponse
  deriving DecidableEq

def SnapshotCall.abandon (call : SnapshotCall n Snap) (v : Fin n) : SnapshotCall n Snap :=
  if call.src = v then { call with thread := call.thread.finished } else call

/-- What an observer of the whole run sees. -/
inductive Event (n : Nat) (Cmd : Type) where
  | becomeLeader (node : Fin n) (term : Int)
  | apply (node : Fin n) (CommandIndex : Int) (Command : Cmd)
  deriving DecidableEq, Repr

structure Cluster (n : Nat) (Cmd Snap : Type) where
  node : Fin n → Raft n Cmd Snap
  elections : List (Round n RequestVoteArgs RequestVoteReply)
  heartbeats : List (Round n (AppendEntriesArgs Cmd) AppendEntriesReply)
  /-- `leaderSendSnapshot` threads that have not read the leader's state yet. -/
  spawned : List (Fin n × Fin n)
  snapshots : List (SnapshotCall n Snap)
  history : List (Event n Cmd)

/-- The critical sections. `k` names a round or call, `p` the peer within the round. -/
inductive Action (n : Nat) (Cmd Snap : Type) where
  | doElection (v : Fin n)
  | requestVoteImpl (k : Nat) (p : Fin n)
  | sendRequestVote (k : Nat) (p : Fin n)
  | doHeartBeat (v : Fin n)
  | appendEntriesimpl (k : Nat) (p : Fin n)
  | sendAppendEntries (k : Nat) (p : Fin n)
  | snapshotRequest (k : Nat)
  | installSnapshotImpl (k : Nat)
  | leaderSendSnapshot (k : Nat)
  | start (v : Fin n) (command : Cmd)
  | snapshot (v : Fin n) (index : Int) (data : Option Snap)
  | getApplyLogs (v : Fin n)
  | crash (v : Fin n)

namespace Raft.Spawned
def append? : Raft.Spawned n Cmd → Option (Fin n × AppendEntriesArgs Cmd)
  | .sendAppendEntries peer args => some (peer,args)
  | .leaderSendSnapshot _ => none
def snapshot? : Raft.Spawned n Cmd → Option (Fin n)
  | .leaderSendSnapshot peer => some peer
  | .sendAppendEntries _ _ => none
end Raft.Spawned

/-- The messages of one batch, as events of the node that hands them out. -/
def applied (v : Fin n) : List (ApplyMsg Cmd Snap) → List (Event n Cmd)
  | [] => []
  | .command command index :: rest => .apply v index command :: applied v rest
  | .snapshot _ _ _ :: rest => applied v rest

namespace Cluster

variable (c : Cluster n Cmd Snap)

/-- All nodes start from empty files. -/
def initial (n : Nat) (Cmd Snap : Type) : Cluster n Cmd Snap :=
  ⟨fun v => Raft.init v {},[],[],[],[],[]⟩

def setNode (v : Fin n) (rf : Raft n Cmd Snap) : Cluster n Cmd Snap :=
  { c with node := Function.update c.node v rf }

/-- The process of `v` ends with `disk` as its files and starts again from them. -/
def crash (v : Fin n) (disk : Persister Cmd Snap) : Cluster n Cmd Snap :=
  { c.setNode v (Raft.init v disk) with
    elections := c.elections.map (·.abandon v)
    heartbeats := c.heartbeats.map (·.abandon v)
    spawned := c.spawned.filter (·.1 ≠ v)
    snapshots := c.snapshots.map (·.abandon v) }

/-- A critical section of `v` either ends normally or takes the process down. -/
def resume (v : Fin n) (result : Except (Persister Cmd Snap) α)
    (next : α → Cluster n Cmd Snap) : Cluster n Cmd Snap :=
  match result with
  | .ok value => next value
  | .error left => c.crash v left

def setElection (k : Nat) (round : Round n RequestVoteArgs RequestVoteReply) : Cluster n Cmd Snap :=
  { c with elections := c.elections.set k round }

def setHeartbeat (k : Nat) (round : Round n (AppendEntriesArgs Cmd) AppendEntriesReply) :
    Cluster n Cmd Snap :=
  { c with heartbeats := c.heartbeats.set k round }

def setSnapshot (k : Nat) (call : SnapshotCall n Snap) : Cluster n Cmd Snap :=
  { c with snapshots := c.snapshots.set k call }

def record (events : List (Event n Cmd)) : Cluster n Cmd Snap :=
  { c with history := c.history ++ events }

/-- The threads `doHeartBeat` started: appends form a round, snapshot threads run later. -/
def launchHeartbeat (v : Fin n) (threads : List (Raft.Spawned n Cmd)) : Cluster n Cmd Snap :=
  { c with
    heartbeats := c.heartbeats ++ [Round.launch v (threads.filterMap Raft.Spawned.append?)]
    spawned := c.spawned ++ (threads.filterMap Raft.Spawned.snapshot?).map (v,·) }

/-- One critical section; `none` when the action is not enabled. -/
def step [DecidableEq Cmd] (c : Cluster n Cmd Snap) : Action n Cmd Snap → Option (Cluster n Cmd Snap)
  | .doElection v =>
    let (rf,requests) := (c.node v).doElection
    some { c.setNode v rf with elections := c.elections ++ [Round.launch v requests] }
  | .requestVoteImpl k p => do
    let round ← c.elections[k]?
    let thread ← round.thread p
    guard (thread.inFlight = true)
    let lost := c.setElection k (round.setThread p thread.unanswered)
    return lost.resume p ((c.node p).requestVoteImpl thread.args) fun (rf,reply) =>
      (c.setNode p rf).setElection k (round.setThread p (thread.answered reply))
  | .sendRequestVote k p => do
    let round ← c.elections[k]?
    let thread ← round.thread p
    let reply ← thread.reply
    guard (thread.waiting = true)
    return c.resume round.src ((c.node round.src).sendRequestVote reply round.counter)
      fun (rf,counter,promoted) =>
        ((c.setNode round.src rf).setElection k
          { round.setThread p thread.finished with counter }).record
          (if promoted then [.becomeLeader round.src rf.currentTerm] else [])
  | .doHeartBeat v =>
    let (threads,exit) := (c.node v).doHeartBeat
    let sent := c.launchHeartbeat v threads
    some (match exit with
      | none => sent
      | some left => sent.crash v left)
  | .appendEntriesimpl k p => do
    let round ← c.heartbeats[k]?
    let thread ← round.thread p
    guard (thread.inFlight = true)
    let lost := c.setHeartbeat k (round.setThread p thread.unanswered)
    return lost.resume p ((c.node p).appendEntriesimpl thread.args) fun (rf,reply) =>
      (c.setNode p rf).setHeartbeat k (round.setThread p (thread.answered reply))
  | .sendAppendEntries k p => do
    let round ← c.heartbeats[k]?
    let thread ← round.thread p
    let reply ← thread.reply
    guard (thread.waiting = true)
    return c.resume round.src
      ((c.node round.src).sendAppendEntries p thread.args reply round.counter) fun (rf,counter) =>
        (c.setNode round.src rf).setHeartbeat k { round.setThread p thread.finished with counter }
  | .snapshotRequest k => do
    let (src,dst) ← c.spawned[k]?
    return { c with
      spawned := c.spawned.eraseIdx k
      snapshots := c.snapshots ++ [⟨src,dst,{ args := (c.node src).snapshotRequest }⟩] }
  | .installSnapshotImpl k => do
    let call ← c.snapshots[k]?
    guard (call.thread.inFlight = true)
    let lost := c.setSnapshot k { call with thread := call.thread.unanswered }
    return lost.resume call.dst ((c.node call.dst).installSnapshotImpl call.thread.args)
      fun (rf,reply,_) =>
        (c.setNode call.dst rf).setSnapshot k { call with thread := call.thread.answered reply }
  | .leaderSendSnapshot k => do
    let call ← c.snapshots[k]?
    let reply ← call.thread.reply
    -- a reply of term 0 serializes to no byte: its caller stays in `recv`
    guard (call.thread.waiting = true ∧ reply.term ≠ 0)
    let rf := (c.node call.src).leaderSendSnapshot call.dst call.thread.args reply
    return (c.setNode call.src rf).setSnapshot k { call with thread := call.thread.finished }
  | .start v command => some (c.setNode v ((c.node v).start command).1)
  | .snapshot v index data =>
    some (c.resume v ((c.node v).snapshot index data) fun rf => c.setNode v rf)
  | .getApplyLogs v =>
    some (c.resume v (c.node v).getApplyLogs fun (rf,messages) =>
      (c.setNode v rf).record (applied v messages))
  | .crash v => some (c.crash v (c.node v).persister)

/-- States of the finite runs of a fresh cluster, each step meeting `ok`. -/
def Reach [DecidableEq Cmd] (ok : Cluster n Cmd Snap → Action n Cmd Snap → Prop) : Cluster n Cmd Snap → Prop :=
  Run.Reach step ok (initial n Cmd Snap)

/-- Every reachable state, whatever steps are taken. -/
def Reachable [DecidableEq Cmd] : Cluster n Cmd Snap → Prop := Reach Run.always

end Cluster
end KvStorage
