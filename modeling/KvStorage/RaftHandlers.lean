import KvStorage.RaftNode

/-! The critical sections of one node: the RPC handlers, the threads that resume
with a reply, and the calls of the key-value server. Each runs under the mutex,
so each is one function from the node's state to its next state. -/
namespace KvStorage
open Exit

inductive VoteState where
  | Killed | Voted | Expire | Normal
  deriving DecidableEq, Repr

def Disconnected : Int := 0
def AppNormal : Int := 1

structure RequestVoteArgs where
  term : Int
  candidateid : Int
  lastlogindex : Int
  lastlogterm : Int
  deriving DecidableEq, Repr

/-- Fields of a reply that a handler does not set keep the default value. -/
structure RequestVoteReply where
  term : Int := 0
  votegranted : Bool := false
  votestate : VoteState := .Killed
  deriving DecidableEq, Repr

structure AppendEntriesArgs (Cmd : Type) where
  term : Int
  leaderid : Int
  prevlogindex : Int
  prevlogterm : Int
  entries : List (LogEntry Cmd)
  leadercommit : Int
  deriving DecidableEq, Repr

structure AppendEntriesReply where
  term : Int := 0
  success : Bool := false
  updatenextindex : Int := 0
  appstate : Int := 0
  deriving DecidableEq, Repr

structure InstallSnapshotRequest (Snap : Type) where
  leaderid : Int
  term : Int
  lastsnapshotincludeindex : Int
  lastsnapshotincludeterm : Int
  data : Option Snap
  deriving DecidableEq, Repr

structure InstallSnapshotResponse where
  term : Int := 0
  deriving DecidableEq, Repr

/-- The two shapes of `ApplyMsg` that are ever built, by their valid flag. -/
inductive ApplyMsg (Cmd Snap : Type) where
  | command (Command : Cmd) (CommandIndex : Int)
  | snapshot (Snapshot : Option Snap) (SnapshotTerm SnapshotIndex : Int)
  deriving DecidableEq, Repr

/-- `AppendEntriesArgs.PrevLogIndex + entries_size()`. -/
def AppendEntriesArgs.lastIndex (args : AppendEntriesArgs Cmd) : Int :=
  args.prevlogindex + args.entries.length

/-- `entries(entries_size() - 1).logterm()`, when there are entries. -/
def AppendEntriesArgs.lastLogTerm? (args : AppendEntriesArgs Cmd) : Option Int :=
  args.entries.getLast?.map LogEntry.logterm

namespace Raft

variable (rf : Raft n Cmd Snap)

/-- Higher term seen: fall back to follower and forget the vote. -/
def stepDown (term : Int) : Raft n Cmd Snap :=
  { rf with status := .Follower, currentTerm := term, votedFor := -1 }

/-- `if(args->term() > currentTerm_)` at the head of the request handlers. -/
def observe (term : Int) : Raft n Cmd Snap :=
  if term > rf.currentTerm then rf.stepDown term else rf

/-! ### Elections -/

def upToDate (index term : Int) : Bool :=
  let (lastLogIndex,lastLogTerm) := rf.getLastLogIndexAndTerm
  term > lastLogTerm || (term == lastLogTerm && index ≥ lastLogIndex)

/-- The candidate's new state and one request for each other peer. -/
def doElection : Raft n Cmd Snap × List (Fin n × RequestVoteArgs) :=
  if rf.status = .Leader then (rf,[])
  else
    let rf := { rf with
      status := .Candidate, currentTerm := rf.currentTerm + 1, votedFor := (rf.raftId.val : Int) }.persist
    let (lastLogIndex,lastLogTerm) := rf.getLastLogIndexAndTerm
    (rf,rf.otherPeers.map fun i => (i,⟨rf.currentTerm,rf.raftId.val,lastLogIndex,lastLogTerm⟩))

def requestVoteImpl (args : RequestVoteArgs) :
    Except (Persister Cmd Snap) (Raft n Cmd Snap × RequestVoteReply) :=
  if args.term < rf.currentTerm then
    return (rf.persist,{ term := rf.currentTerm, votegranted := false, votestate := .Expire })
  else do
    let rf := rf.observe args.term
    rf.myAssert (args.term = rf.currentTerm)
    if ¬ rf.upToDate args.lastlogindex args.lastlogterm then
      return (rf.persist,{ term := rf.currentTerm, votegranted := false, votestate := .Voted })
    else if rf.votedFor ≠ -1 ∧ rf.votedFor ≠ args.candidateid then
      return (rf.persist,{ term := rf.currentTerm, votegranted := false, votestate := .Voted })
    else
      let rf := { rf with votedFor := args.candidateid }
      return (rf.persist,{ term := rf.currentTerm, votegranted := true, votestate := .Normal })

/-- `sendRequestVote` after the call returned: the next state, the shared counter
and whether this reply made the node leader (and spawned a heartbeat round). -/
def sendRequestVote (reply : RequestVoteReply) (voteNums : Int) :
    Except (Persister Cmd Snap) (Raft n Cmd Snap × Int × Bool) :=
  if reply.term > rf.currentTerm then
    return ((rf.stepDown reply.term).persist,voteNums,false)
  else if reply.term < rf.currentTerm then
    return (rf,voteNums,false)
  else if ¬ reply.votegranted then
    return (rf,voteNums,false)
  else if voteNums + 1 ≥ rf.majority then do
    rf.myAssert (rf.status ≠ .Leader)
    let lastLogIndex := rf.getLastLogIndex
    let rf := { rf with
      status := .Leader
      nextIndex := Vector.replicate n (lastLogIndex + 1)
      matchIndex := Vector.replicate n 0 }
    return (rf,0,true)
  else
    return (rf,voteNums + 1,false)

/-! ### Log replication -/

/-- A thread that `doHeartBeat` starts for one peer. -/
inductive Spawned (n : Nat) (Cmd : Type) where
  | leaderSendSnapshot (peer : Fin n)
  | sendAppendEntries (peer : Fin n) (args : AppendEntriesArgs Cmd)

def getPrevLogInfo (peer : Fin n) : Except (Persister Cmd Snap) (Int × Int) :=
  if rf.nextIndex[peer] = rf.lastSnapshotIncludeIndex + 1 then
    return (rf.lastSnapshotIncludeIndex,rf.lastSnapshotIncludeTerm)
  else do
    let preIndex := rf.nextIndex[peer] - 1
    let entry ← rf.entryAt preIndex
    return (preIndex,entry.logterm)

/-- The entries after `preLogIndex`: a suffix of `logs_`, or all of it at the snapshot's edge. -/
def entriesAfter (preLogIndex : Int) : Except (Persister Cmd Snap) (List (LogEntry Cmd)) :=
  if preLogIndex ≠ rf.lastSnapshotIncludeIndex then do
    let slicesIndex ← rf.getSlicesIndexFromLogIndex preLogIndex
    return rf.logs.drop (slicesIndex + 1)
  else return rf.logs

/-- One round of the loop in `doHeartBeat`, for a peer other than the leader. -/
def heartBeatPeer (peer : Fin n) : Except (Persister Cmd Snap) (Spawned n Cmd) := do
  rf.myAssert (rf.nextIndex[peer] ≥ 1)
  if rf.nextIndex[peer] ≤ rf.lastSnapshotIncludeIndex then
    return .leaderSendSnapshot peer
  else
    let (preLogIndex,preLogTerm) ← rf.getPrevLogInfo peer
    let entries ← rf.entriesAfter preLogIndex
    let args : AppendEntriesArgs Cmd :=
      ⟨rf.currentTerm,rf.raftId.val,preLogIndex,preLogTerm,entries,rf.commitIndex⟩
    rf.myAssert (args.lastIndex = rf.getLastLogIndex)
    return .sendAppendEntries peer args

/-- The threads started in order; an exit keeps those started before it. -/
def heartBeatLoop : List (Fin n) → List (Spawned n Cmd) × Option (Persister Cmd Snap)
  | [] => ([],none)
  | peer :: rest =>
    match rf.heartBeatPeer peer with
    | .error left => ([],some left)
    | .ok thread =>
      let (threads,exit) := heartBeatLoop rest
      (thread :: threads,exit)

def doHeartBeat : List (Spawned n Cmd) × Option (Persister Cmd Snap) :=
  if rf.status ≠ .Leader then ([],none) else rf.heartBeatLoop rf.otherPeers

variable [DecidableEq Cmd]

/-- One received entry: append beyond the end, overwrite on a different term, else keep. -/
def mergeEntry (log : LogEntry Cmd) : Except (Persister Cmd Snap) (Raft n Cmd Snap) :=
  if log.logindex > rf.getLastLogIndex then
    return { rf with logs := rf.logs ++ [log] }
  else do
    let slicesIndex ← rf.getSlicesIndexFromLogIndex log.logindex
    let mine ← lookup rf.persister rf.logs slicesIndex
    rf.myAssert (¬ (mine.logterm = log.logterm ∧ mine.command ≠ log.command))
    if mine.logterm ≠ log.logterm then
      return { rf with logs := rf.logs.set slicesIndex log }
    else return rf

def mergeEntries (rf : Raft n Cmd Snap) :
    List (LogEntry Cmd) → Except (Persister Cmd Snap) (Raft n Cmd Snap)
  | [] => return rf
  | log :: rest => do
    let rf ← rf.mergeEntry log
    mergeEntries rf rest

/-- `for(i = prevlogindex; i >= lastSnapshotIncludeIndex_; i--)` with `remaining`
rounds to go: one past the newest index whose term differs, else `default`. -/
def conflictHint (prevlogindex default : Int) : Nat → Except (Persister Cmd Snap) Int
  | 0 => return default
  | remaining + 1 => do
    let i := rf.lastSnapshotIncludeIndex + remaining
    let term ← rf.getLogTermFromLogIndex i
    let prevTerm ← rf.getLogTermFromLogIndex prevlogindex
    if term ≠ prevTerm then return i + 1
    else conflictHint prevlogindex default remaining

omit [DecidableEq Cmd] in
/-- The commit index follows the leader's, as far as the log goes. -/
def commitTo (leadercommit : Int) : Raft n Cmd Snap :=
  if leadercommit > rf.commitIndex then
    { rf with commitIndex := min leadercommit rf.getLastLogIndex }
  else rf

def appendEntriesimpl (args : AppendEntriesArgs Cmd) :
    Except (Persister Cmd Snap) (Raft n Cmd Snap × AppendEntriesReply) :=
  let reply : AppendEntriesReply := { appstate := AppNormal }
  if args.term < rf.currentTerm then
    return (rf,{ reply with term := rf.currentTerm, success := false, updatenextindex := -100 })
  else do
    let rf := rf.observe args.term
    rf.myAssert (args.term = rf.currentTerm)
    let rf := { rf with status := .Follower }
    if args.prevlogindex > rf.getLastLogIndex then
      return (rf.persist,{ reply with
        term := rf.currentTerm, success := false, updatenextindex := rf.getLastLogIndex + 1 })
    else if args.prevlogindex < rf.lastSnapshotIncludeIndex then
      return (rf.persist,{ reply with
        term := rf.currentTerm, success := false, updatenextindex := rf.lastSnapshotIncludeIndex + 1 })
    else
      let matched ← rf.matchLog args.prevlogindex args.prevlogterm
      if matched then
        let rf ← rf.mergeEntries args.entries
        rf.myAssert (args.lastIndex ≤ rf.getLastLogIndex)
        let rf := rf.commitTo args.leadercommit
        rf.myAssert (rf.getLastLogIndex ≥ rf.commitIndex)
        return (rf.persist,{ reply with term := rf.currentTerm, success := true })
      else
        let rounds := (args.prevlogindex - rf.lastSnapshotIncludeIndex + 1).toNat
        let hint ← rf.conflictHint args.prevlogindex args.prevlogindex rounds
        return (rf.persist,{ reply with
          term := rf.currentTerm, success := false, updatenextindex := hint })

omit [DecidableEq Cmd] in
/-- The peer holds everything up to the end of these args. -/
def acknowledge (peerId : Fin n) (args : AppendEntriesArgs Cmd) : Raft n Cmd Snap :=
  let matched := max rf.matchIndex[peerId] args.lastIndex
  { rf with
    matchIndex := rf.matchIndex.set peerId matched
    nextIndex := rf.nextIndex.set peerId (matched + 1) }

omit [DecidableEq Cmd] in
/-- What a refusal's hint writes. -/
def retryFrom (peerId : Fin n) (next : Int) : Raft n Cmd Snap :=
  { rf with nextIndex := rf.nextIndex.set peerId next }

omit [DecidableEq Cmd] in
/-- What an accepted snapshot writes. -/
def snapshotSent (peerId : Fin n) (index : Int) : Raft n Cmd Snap :=
  { rf with
    matchIndex := rf.matchIndex.set peerId index
    nextIndex := rf.nextIndex.set peerId (index + 1) }

omit [DecidableEq Cmd] in
/-- `sendAppendEntries` after the call returned, with the round's shared counter. -/
def sendAppendEntries (peerId : Fin n) (args : AppendEntriesArgs Cmd) (reply : AppendEntriesReply)
    (appendNums : Int) : Except (Persister Cmd Snap) (Raft n Cmd Snap × Int) :=
  if reply.appstate = Disconnected then
    return (rf,appendNums)
  else if reply.term > rf.currentTerm then
    return (rf.stepDown reply.term,appendNums)
  else if reply.term < rf.currentTerm then
    return (rf,appendNums)
  else if rf.status ≠ .Leader then
    return (rf,appendNums)
  else do
    rf.myAssert (reply.term = rf.currentTerm)
    if ¬ reply.success then
      if reply.updatenextindex ≠ -100 then
        return ({ rf with nextIndex := rf.nextIndex.set peerId reply.updatenextindex },appendNums)
      else return (rf,appendNums)
    else
      let appendNums := appendNums + 1
      let rf := rf.acknowledge peerId args
      let lastLogIndex := rf.getLastLogIndex
      rf.myAssert (rf.nextIndex[peerId] ≤ lastLogIndex + 1)
      if appendNums ≥ rf.majority then
        let rf := if args.lastLogTerm? = some rf.currentTerm then
          { rf with commitIndex := max rf.commitIndex args.lastIndex } else rf
        rf.myAssert (rf.commitIndex ≤ lastLogIndex)
        return (rf,0)
      else
        return (rf,appendNums)

/-- The scan over `matchIndex_` from `logIndex` down to `commitIndex_`. -/
def commitScan (logIndex : Int) : Nat → Except (Persister Cmd Snap) (Raft n Cmd Snap)
  | 0 => return rf
  | remaining + 1 => do
    let term ← rf.getLogTermFromLogIndex logIndex
    let count := 1 + (rf.otherPeers.filter fun j => rf.matchIndex[j] ≥ logIndex).length
    if term = rf.currentTerm ∧ (count : Int) ≥ rf.majority then
      return { rf with commitIndex := logIndex }
    else commitScan (logIndex - 1) remaining

def leaderUpdateCommitIndex : Except (Persister Cmd Snap) (Raft n Cmd Snap) :=
  rf.commitScan rf.getLastLogIndex (rf.getLastLogIndex - rf.commitIndex).toNat

/-! ### Snapshots -/

/-- The first critical section of `leaderSendSnapshot`: read the state, build the request. -/
def snapshotRequest : InstallSnapshotRequest Snap :=
  ⟨rf.raftId.val,rf.currentTerm,rf.lastSnapshotIncludeIndex,rf.lastSnapshotIncludeTerm,
    rf.persister.snapshot⟩

/-- The second critical section of `leaderSendSnapshot`. -/
def leaderSendSnapshot (peerId : Fin n) (req : InstallSnapshotRequest Snap)
    (resp : InstallSnapshotResponse) : Raft n Cmd Snap :=
  if rf.status ≠ .Leader ∨ rf.currentTerm ≠ req.term then rf
  else if resp.term > rf.currentTerm then
    (rf.stepDown resp.term).persist
  else
    { rf with
      matchIndex := rf.matchIndex.set peerId req.lastsnapshotincludeindex
      nextIndex := rf.nextIndex.set peerId (req.lastsnapshotincludeindex + 1) }

/-- The erase or clear of `logs_` when a snapshot up to `index` is installed. -/
def entriesAbove (index : Int) : Except (Persister Cmd Snap) (List (LogEntry Cmd)) :=
  if rf.getLastLogIndex > index then do
    let slicesIndex ← rf.getSlicesIndexFromLogIndex index
    return rf.logs.drop (slicesIndex + 1)
  else return []

/-- The next state, the reply and the message of the detached `pushMsgToKvServer` thread. -/
def installSnapshotImpl (args : InstallSnapshotRequest Snap) :
    Except (Persister Cmd Snap)
      (Raft n Cmd Snap × InstallSnapshotResponse × Option (ApplyMsg Cmd Snap)) :=
  if args.term < rf.currentTerm then
    return (rf,{ term := rf.currentTerm },none)
  else do
    let rf := if args.term > rf.currentTerm then (rf.stepDown args.term).persist else rf
    let rf := { rf with status := .Follower }
    if args.lastsnapshotincludeindex ≤ rf.lastSnapshotIncludeIndex then
      return (rf,{},none)
    else
      let logs ← rf.entriesAbove args.lastsnapshotincludeindex
      let rf := { rf with
        logs := logs
        commitIndex := max rf.commitIndex args.lastsnapshotincludeindex
        lastApplied := max rf.lastApplied args.lastsnapshotincludeindex
        lastSnapshotIncludeIndex := args.lastsnapshotincludeindex
        lastSnapshotIncludeTerm := args.lastsnapshotincludeterm }
      return (rf.saveSnapshot args.data,{ term := rf.currentTerm },
        some (.snapshot args.data args.lastsnapshotincludeterm args.lastsnapshotincludeindex))

/-- The key-value server hands over a finished snapshot up to `index`. -/
def snapshot (index : Int) (data : Option Snap) :
    Except (Persister Cmd Snap) (Raft n Cmd Snap) :=
  if rf.lastSnapshotIncludeIndex ≥ index ∨ index > rf.commitIndex then
    return rf
  else do
    let newTerm ← rf.getLogTermFromLogIndex index
    let slicesIndex ← rf.getSlicesIndexFromLogIndex index
    let rf := { rf with
      logs := rf.logs.drop (slicesIndex + 1)
      lastSnapshotIncludeIndex := index
      lastSnapshotIncludeTerm := newTerm
      commitIndex := max rf.commitIndex index
      lastApplied := max rf.lastApplied index }.saveSnapshot data
    rf.myAssert ((rf.logs.length : Int) + rf.lastSnapshotIncludeIndex = rf.getLastLogIndex)
    return rf

/-! ### Commands -/

/-- The next state and `newLogIndex`, `newLogTerm`, `isLeader`. -/
def start (command : Cmd) : Raft n Cmd Snap × Int × Int × Bool :=
  if rf.status ≠ .Leader then (rf,-1,-1,false)
  else
    let entry : LogEntry Cmd := ⟨command,rf.currentTerm,rf.getNewCommandIndex⟩
    let rf := { rf with logs := rf.logs ++ [entry] }
    (rf.persist,rf.getLastLogIndex,rf.currentTerm,true)

/-- `while(lastApplied_ < commitIndex_)` with `remaining` rounds to go. -/
def applyLoop (rf : Raft n Cmd Snap) :
    Nat → Except (Persister Cmd Snap) (Raft n Cmd Snap × List (ApplyMsg Cmd Snap))
  | 0 => return (rf,[])
  | remaining + 1 => do
    let rf := { rf with lastApplied := rf.lastApplied + 1 }
    let entry ← rf.entryAt rf.lastApplied
    rf.myAssert (entry.logindex = rf.lastApplied)
    let (rf',later) ← applyLoop rf remaining
    return (rf',.command entry.command rf.lastApplied :: later)

def getApplyLogs : Except (Persister Cmd Snap) (Raft n Cmd Snap × List (ApplyMsg Cmd Snap)) := do
  rf.myAssert (rf.commitIndex ≤ rf.getLastLogIndex)
  rf.applyLoop (rf.commitIndex - rf.lastApplied).toNat

end Raft
end KvStorage
