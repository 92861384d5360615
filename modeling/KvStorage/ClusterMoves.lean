import KvStorage.ElectionSafety
import KvStorage.LogIndexes
import KvStorage.LeaderIndexes

/-! An action of the cluster as a critical section of one of its nodes, and what it leaves of
the rounds and calls in flight. -/
namespace KvStorage
open Exit

/-- One heartbeat round later on: a thread keeps its args, may lose its request, takes the answer of
its peer to it and stops waiting, and the counter grows no faster than the successes taken. -/
structure Round.Continues [DecidableEq Cmd] (node : Fin n → Raft n Cmd Snap)
    (round round' : Round n (AppendEntriesArgs Cmd) AppendEntriesReply) : Prop where
  src : round'.src = round.src
  back : ∀ {p t'}, round'.thread p = some t' → ∃ t, round.thread p = some t ∧ t'.args = t.args ∧
    (t'.waiting = true → t.waiting = true) ∧
    (t'.inFlight = true → t.inFlight = true ∧ t'.reply = t.reply) ∧
    ∀ reply, t'.reply = some reply → t.reply = some reply ∨
      ∃ rf, (node p).appendEntriesimpl t.args = .ok (rf,reply)
  counter : round'.counter - round.counter ≤
    ((round'.tally (·.success)).card : Int) - (round.tally (·.success)).card

namespace Round.Continues

variable [DecidableEq Cmd] {node : Fin n → Raft n Cmd Snap}
  {round round' : Round n (AppendEntriesArgs Cmd) AppendEntriesReply}

theorem refl (round : Round n (AppendEntriesArgs Cmd) AppendEntriesReply) :
    round.Continues node round := by
  refine ⟨rfl,fun {p t'} held => ?_,by omega⟩
  exact ⟨t',held,rfl,id,fun sent => ⟨sent,rfl⟩,fun reply replied => .inl replied⟩

/-- A crash of the sender ends its waits. -/
theorem abandon (moved : round.Continues node round') (v : Fin n) :
    round.Continues node (round'.abandon v) := by
  refine ⟨abandon_src.trans moved.src,fun {p t'} held => ?_,?_⟩
  · obtain ⟨t,held',left⟩ := abandon_back held
    obtain ⟨first,held,args,waits,sends,replies⟩ := moved.back held'
    refine ⟨first,held,left.args.trans args,fun waiting => ?_,fun sent => ?_,fun reply replied => ?_⟩
    · by_cases still : t.waiting = true
      · exact waits still
      · rw [left.waiting (Bool.eq_false_iff.mpr still)] at waiting
        cases waiting
    · rw [left.inFlight] at sent
      rw [left.reply]
      exact sends sent
    · exact replies reply (left.reply ▸ replied)
  · have more : (round'.tally (·.success)).card ≤ ((round'.abandon v).tally (·.success)).card :=
      Finset.card_le_card tally_abandon
    have before := moved.counter
    rw [abandon_counter]
    omega

theorem setThread {p : Fin n} {t : Thread (AppendEntriesArgs Cmd) AppendEntriesReply}
    (held : round.thread p = some t) (t' : Thread (AppendEntriesArgs Cmd) AppendEntriesReply)
    (args : t'.args = t.args) (waits : t'.waiting = true → t.waiting = true)
    (sends : t'.inFlight = true → t.inFlight = true ∧ t'.reply = t.reply)
    (replies : ∀ reply, t'.reply = some reply → t.reply = some reply ∨
      ∃ rf, (node p).appendEntriesimpl t.args = .ok (rf,reply))
    (kept : t.reply.any (·.success) = true → t'.reply.any (·.success) = true) {counter : Int}
    (counts : counter ≤ round.counter ∨ (counter ≤ round.counter + 1 ∧ t.waiting = true ∧
      t'.reply.any (·.success) = true ∧ t'.waiting = false)) :
    round.Continues node { round.setThread p t' with counter } := by
  have settled : t.waiting = false → t'.waiting = false := by
    intro ended
    by_contra still
    rw [waits (Bool.not_eq_false _ |>.mp still)] at ended
    cases ended
  refine ⟨rfl,fun {q x} found => ?_,tally_setThread held kept settled counts⟩
  rcases setThread_thread.mp found with ⟨rfl,rfl⟩ | ⟨_,before⟩
  · exact ⟨t,held,args,waits,sends,replies⟩
  · exact ⟨x,before,rfl,id,fun sent => ⟨sent,rfl⟩,fun reply replied => .inl replied⟩

end Round.Continues

namespace Cluster

variable {c c' : Cluster n Cmd Snap}

/-- The node that runs the action's critical section, and with what. -/
def handles (c : Cluster n Cmd Snap) : Action n Cmd Snap → Option (Fin n × NodeAction n Cmd Snap)
  | .doElection v => some (v,.doElection)
  | .requestVoteImpl k p => do
    let round ← c.elections[k]?
    let thread ← round.thread p
    return (p,.requestVoteImpl thread.args)
  | .sendRequestVote k p => do
    let round ← c.elections[k]?
    let thread ← round.thread p
    let reply ← thread.reply
    return (round.src,.sendRequestVote reply round.counter)
  | .doHeartBeat v => some (v,.doHeartBeat)
  | .appendEntriesimpl k p => do
    let round ← c.heartbeats[k]?
    let thread ← round.thread p
    return (p,.appendEntriesimpl thread.args)
  | .sendAppendEntries k p => do
    let round ← c.heartbeats[k]?
    let thread ← round.thread p
    let reply ← thread.reply
    return (round.src,.sendAppendEntries p thread.args reply round.counter)
  | .snapshotRequest _ => none
  | .installSnapshotImpl k => do
    let call ← c.snapshots[k]?
    return (call.dst,.installSnapshotImpl call.thread.args)
  | .leaderSendSnapshot k => do
    let call ← c.snapshots[k]?
    let reply ← call.thread.reply
    return (call.src,.leaderSendSnapshot call.dst call.thread.args reply)
  | .start v command => some (v,.start command)
  | .snapshot v index data => some (v,.snapshot index data)
  | .getApplyLogs v => some (v,.getApplyLogs)
  | .crash v => some (v,.crash)

section Handles
variable {action : Action n Cmd Snap} {v : Fin n}

theorem handles_sendRequestVote {reply : RequestVoteReply} {voteNums : Int}
    (runs : c.handles action = some (v,.sendRequestVote reply voteNums)) : ∃ k p round thread,
      action = .sendRequestVote k p ∧ c.elections[k]? = some round ∧ round.thread p = some thread ∧
      thread.reply = some reply ∧ round.src = v ∧ round.counter = voteNums := by
  cases action <;> simp [handles,Option.bind_eq_some_iff] at runs ⊢
  grind

theorem handles_appendEntriesimpl {args : AppendEntriesArgs Cmd}
    (runs : c.handles action = some (v,.appendEntriesimpl args)) : ∃ k round thread,
      action = .appendEntriesimpl k v ∧ c.heartbeats[k]? = some round ∧
      round.thread v = some thread ∧ thread.args = args := by
  cases action <;> simp [handles,Option.bind_eq_some_iff] at runs ⊢
  grind

theorem handles_sendAppendEntries {p : Fin n} {args : AppendEntriesArgs Cmd}
    {reply : AppendEntriesReply} {appendNums : Int}
    (runs : c.handles action = some (v,.sendAppendEntries p args reply appendNums)) :
    ∃ k round thread, action = .sendAppendEntries k p ∧ c.heartbeats[k]? = some round ∧
      round.thread p = some thread ∧ thread.args = args ∧ thread.reply = some reply ∧
      round.src = v ∧ round.counter = appendNums := by
  cases action <;> simp [handles,Option.bind_eq_some_iff] at runs ⊢
  grind

theorem handles_installSnapshotImpl {args : InstallSnapshotRequest Snap}
    (runs : c.handles action = some (v,.installSnapshotImpl args)) : ∃ k call,
      action = .installSnapshotImpl k ∧ c.snapshots[k]? = some call ∧ call.dst = v ∧ call.thread.args = args := by
  cases action <;> simp [handles,Option.bind_eq_some_iff] at runs ⊢
  grind

theorem handles_leaderSendSnapshot {dst : Fin n} {req : InstallSnapshotRequest Snap}
    {resp : InstallSnapshotResponse}
    (runs : c.handles action = some (v,.leaderSendSnapshot dst req resp)) : ∃ k call,
      action = .leaderSendSnapshot k ∧ c.snapshots[k]? = some call ∧ call.src = v ∧ call.dst = dst ∧
      call.thread.args = req ∧ call.thread.reply = some resp := by
  cases action <;> simp [handles,Option.bind_eq_some_iff] at runs ⊢
  grind

end Handles

variable [DecidableEq Cmd]

/-- Nothing runs, a section ends normally, or its node restarts from what it left. -/
inductive NodeMove (c c' : Cluster n Cmd Snap) (action : Action n Cmd Snap) : Prop where
  | idle (none : c.handles action = none) (node : c'.node = c.node)
  | ran {v a rf} (runs : c.handles action = some (v,a)) (done : (c.node v).handle a = .ok rf)
    (node : c'.node = Function.update c.node v rf)
  | exited {v a left} (runs : c.handles action = some (v,a)) (exit : (c.node v).handle a = .error left)
    (mid : Cluster n Cmd Snap) (node : mid.node = c.node) (crashed : c' = mid.crash v left)

theorem nodeMove_resume {action : Action n Cmd Snap} {v : Fin n} {a : NodeAction n Cmd Snap}
    {result : Except (Persister Cmd Snap) α} {state : α → Raft n Cmd Snap}
    {next : α → Cluster n Cmd Snap} {mid : Cluster n Cmd Snap}
    (runs : c.handles action = some (v,a)) (same : (c.node v).handle a = result.map state)
    (node : mid.node = c.node)
    (ran : ∀ value, (next value).node = Function.update c.node v (state value)) :
    NodeMove c (mid.resume v result next) action := by
  cases result with
  | ok value => exact .ran runs same (ran value)
  | error left => exact .exited runs same mid node rfl

theorem nodeMove_step {action : Action n Cmd Snap} (taken : c.step action = some c') :
    NodeMove c c' action := by
  cases action with
  | doElection v =>
    obtain rfl := Option.some.inj taken
    exact .ran rfl rfl rfl
  | requestVoteImpl k p =>
    obtain ⟨round,thread,found,held,_,rfl⟩ := step_requestVoteImpl taken
    have runs : c.handles (.requestVoteImpl k p) = some (p,.requestVoteImpl thread.args) := by
      simp [handles,found,held]
    exact nodeMove_resume runs rfl rfl fun _ => rfl
  | sendRequestVote k p =>
    obtain ⟨round,thread,reply,found,held,replied,_,rfl⟩ := step_sendRequestVote taken
    have runs : c.handles (.sendRequestVote k p) =
        some (round.src,.sendRequestVote reply round.counter) := by
      simp [handles,found,held,replied]
    exact nodeMove_resume runs rfl rfl fun _ => rfl
  | doHeartBeat v =>
    obtain ⟨threads,exit,round,⟨rfl,rfl⟩ | ⟨left,rfl,rfl⟩⟩ := step_doHeartBeat taken
    · have done : (c.node v).handle .doHeartBeat = .ok (c.node v) := by simp only [Raft.handle,round]
      exact .ran rfl done (Function.update_eq_self ..).symm
    · refine .exited rfl ?_ (c.launchHeartbeat v threads) rfl rfl
      simp only [Raft.handle,round]
  | appendEntriesimpl k p =>
    obtain ⟨round,thread,found,held,_,rfl⟩ := step_appendEntriesimpl taken
    have runs : c.handles (.appendEntriesimpl k p) = some (p,.appendEntriesimpl thread.args) := by
      simp [handles,found,held]
    exact nodeMove_resume runs rfl rfl fun _ => rfl
  | sendAppendEntries k p =>
    obtain ⟨round,thread,reply,found,held,replied,_,rfl⟩ := step_sendAppendEntries taken
    have runs : c.handles (.sendAppendEntries k p) =
        some (round.src,.sendAppendEntries p thread.args reply round.counter) := by
      simp [handles,found,held,replied]
    exact nodeMove_resume runs rfl rfl fun _ => rfl
  | snapshotRequest k =>
    obtain ⟨src,dst,_,rfl⟩ := step_snapshotRequest taken
    exact .idle rfl rfl
  | installSnapshotImpl k =>
    obtain ⟨call,found,_,rfl⟩ := step_installSnapshotImpl taken
    have runs : c.handles (.installSnapshotImpl k) =
        some (call.dst,.installSnapshotImpl call.thread.args) := by simp [handles,found]
    exact nodeMove_resume runs rfl rfl fun _ => rfl
  | leaderSendSnapshot k =>
    obtain ⟨call,reply,found,replied,_,rfl⟩ := step_leaderSendSnapshot taken
    have runs : c.handles (.leaderSendSnapshot k) =
        some (call.src,.leaderSendSnapshot call.dst call.thread.args reply) := by
      simp [handles,found,replied]
    exact .ran runs rfl rfl
  | start v command =>
    obtain rfl := Option.some.inj taken
    exact .ran rfl rfl rfl
  | snapshot v index data =>
    obtain rfl := Option.some.inj taken
    cases done : (c.node v).snapshot index data with
    | ok rf => exact .ran rfl done rfl
    | error left => exact .exited rfl done c rfl rfl
  | getApplyLogs v =>
    obtain rfl := Option.some.inj taken
    exact nodeMove_resume rfl rfl rfl fun _ => rfl
  | crash v =>
    obtain rfl := Option.some.inj taken
    exact .exited rfl rfl c rfl rfl

/-! ### Rounds and calls in flight -/

/-- A request on its way has no answer yet. -/
def Unanswered (c : Cluster n Cmd Snap) : Prop :=
  ∀ round ∈ c.heartbeats, ∀ p t, round.thread p = some t → t.inFlight = true → t.reply = none

/-- Every one of these rounds continues a heartbeat round of `c`. -/
def Carried (c : Cluster n Cmd Snap) (rounds : List (Round n (AppendEntriesArgs Cmd) AppendEntriesReply)) :
    Prop :=
  ∀ round' ∈ rounds, ∃ round ∈ c.heartbeats, round.Continues c.node round'

theorem Carried.refl (c : Cluster n Cmd Snap) : c.Carried c.heartbeats :=
  fun round member => ⟨round,member,.refl round⟩

theorem Carried.crash {mid : Cluster n Cmd Snap} (carried : c.Carried mid.heartbeats) (v : Fin n)
    (left : Persister Cmd Snap) : c.Carried (mid.crash v left).heartbeats := by
  intro round' member
  obtain ⟨middle,before,rfl⟩ := List.mem_map.mp member
  obtain ⟨round,first,moved⟩ := carried middle before
  exact ⟨round,first,moved.abandon v⟩

theorem Carried.set {k : Nat} {round round' : Round n (AppendEntriesArgs Cmd) AppendEntriesReply}
    (found : c.heartbeats[k]? = some round) (moved : round.Continues c.node round') :
    c.Carried (c.heartbeats.set k round') := by
  intro other member
  rcases List.mem_or_eq_of_mem_set member with before | rfl
  · exact ⟨other,before,.refl other⟩
  · exact ⟨round,List.mem_of_getElem? found,moved⟩

theorem carried_resume {result : Except (Persister Cmd Snap) α} {next : α → Cluster n Cmd Snap}
    {mid : Cluster n Cmd Snap} {v : Fin n} (before : c.Carried mid.heartbeats)
    (after : ∀ value, result = .ok value → c.Carried (next value).heartbeats) :
    c.Carried (mid.resume v result next).heartbeats := by
  cases result with
  | ok value => exact after value rfl
  | error left => exact before.crash v left

theorem carried_appendEntriesimpl (unanswered : c.Unanswered)
    (taken : c.step (.appendEntriesimpl k p) = some c') : c.Carried c'.heartbeats := by
  obtain ⟨round,thread,found,held,sent,rfl⟩ := step_appendEntriesimpl taken
  have pending := unanswered round (List.mem_of_getElem? found) p thread held sent
  refine carried_resume (.set found ?_) ?_
  · exact .setThread held thread.unanswered rfl id (by simp) (fun reply replied => .inl replied) id (.inl le_rfl)
  · rintro ⟨rf,reply⟩ done
    refine .set found (.setThread held (thread.answered reply) rfl id (by simp) ?_ ?_ (.inl le_rfl))
    · rintro _ ⟨⟩
      exact .inr ⟨rf,done⟩
    · simp [pending]

theorem carried_sendAppendEntries (taken : c.step (.sendAppendEntries k p) = some c') :
    c.Carried c'.heartbeats := by
  obtain ⟨round,thread,reply,found,held,replied,waiting,rfl⟩ := step_sendAppendEntries taken
  refine carried_resume (.refl c) ?_
  rintro ⟨rf,counter⟩ done
  have finish : (counter ≤ round.counter ∨ (counter ≤ round.counter + 1 ∧ thread.waiting = true ∧
      thread.finished.reply.any (·.success) = true ∧ thread.finished.waiting = false)) →
      round.Continues c.node { round.setThread p thread.finished with counter } :=
    .setThread held thread.finished rfl (fun _ => waiting) (fun sent => ⟨sent,rfl⟩)
      (fun reply replied => .inl replied) id
  have taken : reply.success = true → thread.finished.reply.any (·.success) = true := fun success => by
    rw [Thread.finished_reply,replied]
    exact success
  refine .set found (finish ?_)
  rcases Raft.sendAppendEntries_ok done with ⟨_,_,_,same⟩ | ⟨_,same⟩ | ⟨_,_,_,_,same⟩ |
    ⟨_,_,success,_,_,more⟩ | ⟨_,_,success,enough,_,_,reset⟩
  · exact .inl same.le
  · exact .inl same.le
  · exact .inl same.le
  · exact .inr ⟨more.le,waiting,taken success,rfl⟩
  · refine .inr ⟨?_,waiting,taken success,rfl⟩
    have some : 1 ≤ (c.node round.src).majority := by simp only [Raft.majority]; omega
    omega

/-- Every heartbeat round continues one from before, or was started by this action. -/
theorem heartbeat_back (unanswered : c.Unanswered) {action : Action n Cmd Snap}
    (taken : c.step action = some c') (member : round' ∈ c'.heartbeats) :
    (∃ round ∈ c.heartbeats, round.Continues c.node round') ∨
    ∃ v, action = .doHeartBeat v ∧
      (Round.launch v ((c.node v).doHeartBeat.1.filterMap Raft.Spawned.append?)).Continues c.node round' := by
  by_cases beat : ∃ v, action = .doHeartBeat v
  · obtain ⟨v,rfl⟩ := beat
    have launched : ∀ round ∈ (c.launchHeartbeat v (c.node v).doHeartBeat.1).heartbeats,
        round ∈ c.heartbeats ∨
          round = Round.launch v ((c.node v).doHeartBeat.1.filterMap Raft.Spawned.append?) := by
      intro round member
      simpa [launchHeartbeat] using member
    obtain ⟨threads,exit,beaten,⟨_,rfl⟩ | ⟨left,_,rfl⟩⟩ := step_doHeartBeat taken
    all_goals
      obtain rfl : (c.node v).doHeartBeat.1 = threads := congrArg Prod.fst beaten
    · rcases launched round' member with before | rfl
      · exact .inl ⟨round',before,.refl round'⟩
      · exact .inr ⟨v,rfl,.refl _⟩
    · obtain ⟨round,before,rfl⟩ := List.mem_map.mp member
      rcases launched round before with before | rfl
      · exact .inl ⟨round,before,(Round.Continues.refl round).abandon v⟩
      · exact .inr ⟨v,rfl,(Round.Continues.refl _).abandon v⟩
  refine .inl ?_
  have carried : c.Carried c'.heartbeats := by
    cases action with
    | doHeartBeat v => exact absurd ⟨v,rfl⟩ beat
    | doElection v => obtain rfl := Option.some.inj taken; exact .refl c
    | requestVoteImpl k p =>
      obtain ⟨round,thread,found,held,_,rfl⟩ := step_requestVoteImpl taken
      exact carried_resume (.refl c) fun _ _ => .refl c
    | sendRequestVote k p =>
      obtain ⟨round,thread,reply,found,held,replied,_,rfl⟩ := step_sendRequestVote taken
      exact carried_resume (.refl c) fun _ _ => .refl c
    | appendEntriesimpl k p => exact carried_appendEntriesimpl unanswered taken
    | sendAppendEntries k p => exact carried_sendAppendEntries taken
    | snapshotRequest k => obtain ⟨src,dst,_,rfl⟩ := step_snapshotRequest taken; exact .refl c
    | installSnapshotImpl k =>
      obtain ⟨call,found,_,rfl⟩ := step_installSnapshotImpl taken
      exact carried_resume (.refl c) fun _ _ => .refl c
    | leaderSendSnapshot k =>
      obtain ⟨call,reply,found,replied,_,rfl⟩ := step_leaderSendSnapshot taken
      exact .refl c
    | start v command => obtain rfl := Option.some.inj taken; exact .refl c
    | snapshot v index data =>
      obtain rfl := Option.some.inj taken
      exact carried_resume (.refl c) fun _ _ => .refl c
    | getApplyLogs v =>
      obtain rfl := Option.some.inj taken
      exact carried_resume (.refl c) fun _ _ => .refl c
    | crash v => obtain rfl := Option.some.inj taken; exact (Carried.refl c).crash v _
  exact carried round' member

/-- Every one of these calls is one of `c` with the same request, waiting no longer than it. -/
def CallsCarried (c : Cluster n Cmd Snap) (calls : List (SnapshotCall n Snap)) : Prop :=
  ∀ call' ∈ calls, ∃ call ∈ c.snapshots, call.src = call'.src ∧ call.thread.args = call'.thread.args ∧
    (call'.thread.waiting = true → call.thread.waiting = true)

omit [DecidableEq Cmd] in
theorem CallsCarried.refl (c : Cluster n Cmd Snap) : c.CallsCarried c.snapshots :=
  fun call member => ⟨call,member,rfl,rfl,id⟩

omit [DecidableEq Cmd] in
theorem abandon_waiting {call : SnapshotCall n Snap} (waiting : (call.abandon v).thread.waiting = true) :
    call.abandon v = call ∧ call.src ≠ v := by
  unfold SnapshotCall.abandon at waiting ⊢
  by_cases own : call.src = v
  · rw [if_pos own] at waiting
    cases waiting
  · exact ⟨if_neg own,own⟩

omit [DecidableEq Cmd] in
theorem CallsCarried.crash {mid : Cluster n Cmd Snap} (carried : c.CallsCarried mid.snapshots)
    (v : Fin n) (left : Persister Cmd Snap) : c.CallsCarried (mid.crash v left).snapshots := by
  intro call' member
  obtain ⟨middle,before,rfl⟩ := List.mem_map.mp member
  obtain ⟨call,first,src,args,waits⟩ := carried middle before
  refine ⟨call,first,src.trans ?_,args.trans ?_,fun waiting => waits ?_⟩
  · unfold SnapshotCall.abandon
    split <;> rfl
  · unfold SnapshotCall.abandon
    split <;> rfl
  · rwa [(abandon_waiting waiting).1] at waiting

omit [DecidableEq Cmd] in
theorem CallsCarried.set {k : Nat} {call call' : SnapshotCall n Snap} (found : c.snapshots[k]? = some call)
    (src : call'.src = call.src) (args : call'.thread.args = call.thread.args)
    (waits : call'.thread.waiting = true → call.thread.waiting = true) :
    c.CallsCarried (c.snapshots.set k call') := by
  intro other member
  rcases List.mem_or_eq_of_mem_set member with before | rfl
  · exact ⟨other,before,rfl,rfl,id⟩
  · exact ⟨call,List.mem_of_getElem? found,src.symm,args.symm,waits⟩

omit [DecidableEq Cmd] in
theorem callsCarried_resume {result : Except (Persister Cmd Snap) α} {next : α → Cluster n Cmd Snap}
    {mid : Cluster n Cmd Snap} {v : Fin n} (before : c.CallsCarried mid.snapshots)
    (after : ∀ value, c.CallsCarried (next value).snapshots) :
    c.CallsCarried (mid.resume v result next).snapshots := by
  cases result with
  | ok value => exact after value
  | error left => exact before.crash v left

/-- A call of `leaderSendSnapshot` was there before, or read its leader's state just now. -/
theorem call_back {action : Action n Cmd Snap} (taken : c.step action = some c')
    {call' : SnapshotCall n Snap} (member : call' ∈ c'.snapshots) :
    (∃ call ∈ c.snapshots, call.src = call'.src ∧ call.thread.args = call'.thread.args ∧
      (call'.thread.waiting = true → call.thread.waiting = true)) ∨
    (c'.node = c.node ∧ call'.thread.args = (c.node call'.src).snapshotRequest) := by
  by_cases request : ∃ k, action = .snapshotRequest k
  · obtain ⟨k,rfl⟩ := request
    obtain ⟨src,dst,_,rfl⟩ := step_snapshotRequest taken
    rcases List.mem_append.mp member with before | fresh
    · exact .inl ⟨call',before,rfl,rfl,id⟩
    · obtain rfl := List.mem_singleton.mp fresh
      exact .inr ⟨rfl,rfl⟩
  refine .inl ?_
  have carried : c.CallsCarried c'.snapshots := by
    cases action with
    | snapshotRequest k => exact absurd ⟨k,rfl⟩ request
    | doElection v => obtain rfl := Option.some.inj taken; exact .refl c
    | requestVoteImpl k p =>
      obtain ⟨round,thread,found,held,_,rfl⟩ := step_requestVoteImpl taken
      exact callsCarried_resume (.refl c) fun _ => .refl c
    | sendRequestVote k p =>
      obtain ⟨round,thread,reply,found,held,replied,_,rfl⟩ := step_sendRequestVote taken
      exact callsCarried_resume (.refl c) fun _ => .refl c
    | doHeartBeat v =>
      obtain ⟨threads,exit,beaten,⟨_,rfl⟩ | ⟨left,_,rfl⟩⟩ := step_doHeartBeat taken
      · exact .refl c
      · have launched : c.CallsCarried (c.launchHeartbeat v threads).snapshots := .refl c
        exact launched.crash v left
    | appendEntriesimpl k p =>
      obtain ⟨round,thread,found,held,_,rfl⟩ := step_appendEntriesimpl taken
      exact callsCarried_resume (.refl c) fun _ => .refl c
    | sendAppendEntries k p =>
      obtain ⟨round,thread,reply,found,held,replied,_,rfl⟩ := step_sendAppendEntries taken
      exact callsCarried_resume (.refl c) fun _ => .refl c
    | installSnapshotImpl k =>
      obtain ⟨call,found,_,rfl⟩ := step_installSnapshotImpl taken
      exact callsCarried_resume (.set found rfl rfl id) fun _ => .set found rfl rfl id
    | leaderSendSnapshot k =>
      obtain ⟨call,reply,found,replied,waits,rfl⟩ := step_leaderSendSnapshot taken
      exact .set found rfl rfl fun _ => waits.1
    | start v command => obtain rfl := Option.some.inj taken; exact .refl c
    | snapshot v index data =>
      obtain rfl := Option.some.inj taken
      exact callsCarried_resume (.refl c) fun _ => .refl c
    | getApplyLogs v =>
      obtain rfl := Option.some.inj taken
      exact callsCarried_resume (.refl c) fun _ => .refl c
    | crash v => obtain rfl := Option.some.inj taken; exact (CallsCarried.refl c).crash v _
  exact carried call' member

/-- Every waiting thread of these election rounds waited in `c` already, with the same request. -/
def VotesCarried (c : Cluster n Cmd Snap) (rounds : List (VoteRound n)) : Prop :=
  ∀ round' ∈ rounds, ∀ p t', round'.thread p = some t' → t'.waiting = true →
    ∃ round ∈ c.elections, round.src = round'.src ∧
      ∃ t, round.thread p = some t ∧ t.args = t'.args ∧ t.waiting = true

omit [DecidableEq Cmd] in
theorem VotesCarried.refl (c : Cluster n Cmd Snap) : c.VotesCarried c.elections :=
  fun round member _ t held waiting => ⟨round,member,rfl,t,held,rfl,waiting⟩

omit [DecidableEq Cmd] in
theorem abandon_votes {round : VoteRound n} {p v : Fin n} {t' : VoteThread}
    (held : (round.abandon v).thread p = some t') (waiting : t'.waiting = true) :
    round.abandon v = round ∧ round.src ≠ v := by
  unfold Round.abandon at held ⊢
  by_cases own : round.src = v
  · rw [if_pos own] at held
    obtain ⟨t,_,rfl⟩ := Option.map_eq_some_iff.mp held
    cases waiting
  · exact ⟨if_neg own,own⟩

omit [DecidableEq Cmd] in
theorem VotesCarried.crash {mid : Cluster n Cmd Snap} (carried : c.VotesCarried mid.elections)
    (v : Fin n) (left : Persister Cmd Snap) : c.VotesCarried (mid.crash v left).elections := by
  intro round' member p t' held waiting
  obtain ⟨middle,before,rfl⟩ := List.mem_map.mp member
  obtain ⟨same,_⟩ := abandon_votes held waiting
  rw [same] at held ⊢
  exact carried middle before p t' held waiting

omit [DecidableEq Cmd] in
theorem VotesCarried.set {k : Nat} {round : VoteRound n} {p : Fin n} {t t' : VoteThread} {counter : Int}
    (found : c.elections[k]? = some round) (held : round.thread p = some t) (args : t'.args = t.args)
    (waits : t'.waiting = true → t.waiting = true) :
    c.VotesCarried (c.elections.set k { round.setThread p t' with counter }) := by
  intro other member q x there waiting
  rcases List.mem_or_eq_of_mem_set member with before | rfl
  · exact ⟨other,before,rfl,x,there,rfl,waiting⟩
  · refine ⟨round,List.mem_of_getElem? found,rfl,?_⟩
    rcases Round.setThread_thread.mp there with ⟨rfl,rfl⟩ | ⟨_,old⟩
    · exact ⟨t,held,args.symm,waits waiting⟩
    · exact ⟨x,old,rfl,waiting⟩

omit [DecidableEq Cmd] in
theorem votesCarried_resume {result : Except (Persister Cmd Snap) α} {next : α → Cluster n Cmd Snap}
    {mid : Cluster n Cmd Snap} {v : Fin n} (before : c.VotesCarried mid.elections)
    (after : ∀ value, c.VotesCarried (next value).elections) :
    c.VotesCarried (mid.resume v result next).elections := by
  cases result with
  | ok value => exact after value
  | error left => exact before.crash v left

/-- A waiting `sendRequestVote` waited before, or its round was started by this action. -/
theorem vote_back {action : Action n Cmd Snap} (taken : c.step action = some c') {round' : VoteRound n}
    (member : round' ∈ c'.elections) {p : Fin n} {t' : VoteThread} (held : round'.thread p = some t')
    (waiting : t'.waiting = true) :
    (∃ round ∈ c.elections, round.src = round'.src ∧
      ∃ t, round.thread p = some t ∧ t.args = t'.args ∧ t.waiting = true) ∨
    action = .doElection round'.src := by
  by_cases election : ∃ v, action = .doElection v
  · obtain ⟨v,rfl⟩ := election
    obtain rfl := Option.some.inj taken
    rcases List.mem_append.mp member with before | fresh
    · exact .inl ⟨round',before,rfl,t',held,rfl,waiting⟩
    · rw [List.mem_singleton.mp fresh]
      exact .inr rfl
  refine .inl ?_
  have carried : c.VotesCarried c'.elections := by
    cases action with
    | doElection v => exact absurd ⟨v,rfl⟩ election
    | requestVoteImpl k p =>
      obtain ⟨round,thread,found,held,_,rfl⟩ := step_requestVoteImpl taken
      exact votesCarried_resume (.set found held rfl id) fun _ => .set found held rfl id
    | sendRequestVote k p =>
      obtain ⟨round,thread,reply,found,held,replied,waits,rfl⟩ := step_sendRequestVote taken
      exact votesCarried_resume (.refl c) fun _ => .set found held rfl fun _ => waits
    | doHeartBeat v =>
      obtain ⟨threads,exit,beaten,⟨_,rfl⟩ | ⟨left,_,rfl⟩⟩ := step_doHeartBeat taken
      · exact .refl c
      · have launched : c.VotesCarried (c.launchHeartbeat v threads).elections := .refl c
        exact launched.crash v left
    | appendEntriesimpl k p =>
      obtain ⟨round,thread,found,held,_,rfl⟩ := step_appendEntriesimpl taken
      exact votesCarried_resume (.refl c) fun _ => .refl c
    | sendAppendEntries k p =>
      obtain ⟨round,thread,reply,found,held,replied,_,rfl⟩ := step_sendAppendEntries taken
      exact votesCarried_resume (.refl c) fun _ => .refl c
    | snapshotRequest k => obtain ⟨src,dst,_,rfl⟩ := step_snapshotRequest taken; exact .refl c
    | installSnapshotImpl k =>
      obtain ⟨call,found,_,rfl⟩ := step_installSnapshotImpl taken
      exact votesCarried_resume (.refl c) fun _ => .refl c
    | leaderSendSnapshot k =>
      obtain ⟨call,reply,found,replied,_,rfl⟩ := step_leaderSendSnapshot taken
      exact .refl c
    | start v command => obtain rfl := Option.some.inj taken; exact .refl c
    | snapshot v index data =>
      obtain rfl := Option.some.inj taken
      exact votesCarried_resume (.refl c) fun _ => .refl c
    | getApplyLogs v =>
      obtain rfl := Option.some.inj taken
      exact votesCarried_resume (.refl c) fun _ => .refl c
    | crash v => obtain rfl := Option.some.inj taken; exact (VotesCarried.refl c).crash v _
  exact carried round' member p t' held waiting

/-! ### Terms of office -/

theorem leads_step {action : Action n Cmd Snap} (taken : c.step action = some c') (leads : c.Leads w T) :
    c'.Leads w T := by
  have grown : ∀ events, (c.record events).Leads w T := fun events => List.mem_append_left events leads
  cases action with
  | doElection v => obtain rfl := Option.some.inj taken; exact leads
  | requestVoteImpl k p =>
    obtain ⟨round,thread,found,held,_,rfl⟩ := step_requestVoteImpl taken
    cases (c.node p).requestVoteImpl thread.args <;> exact leads
  | sendRequestVote k p =>
    obtain ⟨round,thread,reply,found,held,replied,_,rfl⟩ := step_sendRequestVote taken
    cases (c.node round.src).sendRequestVote reply round.counter with
    | ok value => exact grown _
    | error left => exact leads
  | doHeartBeat v =>
    obtain ⟨threads,exit,beaten,⟨_,rfl⟩ | ⟨left,_,rfl⟩⟩ := step_doHeartBeat taken <;> exact leads
  | appendEntriesimpl k p =>
    obtain ⟨round,thread,found,held,_,rfl⟩ := step_appendEntriesimpl taken
    cases (c.node p).appendEntriesimpl thread.args <;> exact leads
  | sendAppendEntries k p =>
    obtain ⟨round,thread,reply,found,held,replied,_,rfl⟩ := step_sendAppendEntries taken
    cases (c.node round.src).sendAppendEntries p thread.args reply round.counter <;> exact leads
  | snapshotRequest k => obtain ⟨src,dst,_,rfl⟩ := step_snapshotRequest taken; exact leads
  | installSnapshotImpl k =>
    obtain ⟨call,found,_,rfl⟩ := step_installSnapshotImpl taken
    cases (c.node call.dst).installSnapshotImpl call.thread.args <;> exact leads
  | leaderSendSnapshot k =>
    obtain ⟨call,reply,found,replied,_,rfl⟩ := step_leaderSendSnapshot taken
    exact leads
  | start v command => obtain rfl := Option.some.inj taken; exact leads
  | snapshot v index data =>
    obtain rfl := Option.some.inj taken
    cases (c.node v).snapshot index data <;> exact leads
  | getApplyLogs v =>
    obtain rfl := Option.some.inj taken
    cases (c.node v).getApplyLogs with
    | ok value => exact grown _
    | error left => exact leads
  | crash v => obtain rfl := Option.some.inj taken; exact leads

/-- What one node's part in an action can be: none, a section of its own, or a restart. -/
theorem node_cases {action : Action n Cmd Snap} (taken : c.step action = some c') (v : Fin n) :
    c'.node v = c.node v ∨
    (∃ a rf, c.handles action = some (v,a) ∧ (c.node v).handle a = .ok rf ∧ c'.node v = rf) ∨
    (∃ (a : NodeAction n Cmd Snap) (left : Persister Cmd Snap) (mid : Cluster n Cmd Snap), c.handles action = some (v,a) ∧ (c.node v).handle a = .error left ∧
      mid.node = c.node ∧ c' = mid.crash v left) := by
  rcases nodeMove_step taken with ⟨_,node⟩ | ⟨runs,done,node⟩ | ⟨runs,exit,mid,node,crashed⟩
  · exact .inl (congrFun node v)
  · rename_i w a rf
    by_cases same : v = w
    · subst same
      exact .inr (.inl ⟨a,rf,runs,done,by rw [node,Function.update_self]⟩)
    · exact .inl (by rw [node,Function.update_of_ne same])
  · rename_i w a left
    by_cases same : v = w
    · subst same
      exact .inr (.inr ⟨a,left,mid,runs,exit,node,crashed⟩)
    · subst crashed
      refine .inl ?_
      change Function.update mid.node w _ v = _
      rw [Function.update_of_ne same,node]

/-- Whoever turns leader took the vote that completes a majority of a round of its term. -/
theorem elected_thread (balanced : c.Balanced) {action : Action n Cmd Snap} {v : Fin n}
    (taken : c.step action = some c') (before : (c.node v).status ≠ .Leader)
    (after : (c'.node v).status = .Leader) :
    ∃ k p round thread reply votes, action = .sendRequestVote k p ∧ c.elections[k]? = some round ∧
      round.thread p = some thread ∧ thread.reply = some reply ∧ thread.waiting = true ∧ round.src = v ∧
      thread.args.term = (c.node v).currentTerm ∧ (c.node v).majority ≤ round.counter + 1 ∧
      (c.node v).sendRequestVote reply round.counter = .ok ((c.node v).elected,votes,true) ∧
      c'.node v = (c.node v).elected := by
  rcases node_cases taken v with same | ⟨a,rf,runs,done,node⟩ | ⟨_,left,mid,_,_,_,crashed⟩
  · exact absurd (same ▸ after) before
  · rw [node] at after ⊢
    cases Raft.peersStep_handle done with
    | kept _ _ office => exact absurd (office after).1 before
    | acknowledged leader => exact absurd leader before
    | refused leader => exact absurd leader before
    | snapshotSent leader => exact absurd leader before
    | elected eq votes =>
      obtain ⟨k,p,round,thread,rfl,found,held,replied,rfl,rfl⟩ := handles_sendRequestVote runs
      obtain ⟨⟨answer,promoted⟩,ran⟩ := map_fst_ok.mp done
      rcases Raft.sendRequestVote_ok ran with ⟨_,rfl,_⟩ | ⟨rfl,_⟩ | ⟨rfl,_⟩ | ⟨_,_,rfl,_,_,enough,_⟩
      · cases after
      · exact absurd after before
      · exact absurd after before
      have waiting := (step_sendRequestVote_at taken found held replied).1
      have term := (balanced.wellformed found).sameTerm held replied votes.1
      exact ⟨k,p,round,thread,_,answer,rfl,found,held,replied,waiting,rfl,term.symm.trans votes.2,enough,eq ▸ ran,eq⟩
  · have follower : (c'.node v).status = .Follower := by
      rw [crashed]
      change Raft.status (Function.update mid.node v _ v) = _
      rw [Function.update_self,Raft.init_eq]
    cases follower.symm.trans after

/-- Whoever turns leader was not recorded for the term and now is. -/
theorem leads_elected (balanced : c.Balanced) {action : Action n Cmd Snap}
    (taken : c.step action = some c') (before : (c.node v).status ≠ .Leader)
    (after : (c'.node v).status = .Leader) :
    ¬ c.Leads v (c'.node v).currentTerm ∧ c'.Leads v (c'.node v).currentTerm := by
  obtain ⟨k,p,round,thread,reply,votes,rfl,found,held,replied,waiting,rfl,term,enough,ran,node⟩ :=
    elected_thread balanced taken before after
  have moved := (step_sendRequestVote_at taken found held replied).2
  have same : (c'.node round.src).currentTerm = thread.args.term := (congrArg Raft.currentTerm node).trans term.symm
  rw [same]
  refine ⟨balanced.unpromoted found held waiting enough,?_⟩
  rw [moved,ran,term]
  exact List.mem_append_right _ (List.mem_singleton.mpr rfl)

end Cluster
end KvStorage
