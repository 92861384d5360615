import KvStorage.Cluster

/-! What each action of a cluster needs and does, read off `step` once. -/
namespace KvStorage

namespace Cluster

variable {c c' : Cluster n Cmd Snap}

@[simp] theorem setNode_node (v : Fin n) (rf : Raft n Cmd Snap) (w : Fin n) :
    (c.setNode v rf).node w = if w = v then rf else c.node w := by
  simp only [setNode,Function.update_apply]

@[simp] theorem setNode_same (v : Fin n) : c.setNode v (c.node v) = c := by
  simp [setNode]

@[simp] theorem record_nil : c.record [] = c := by simp [record]

/-- What holds after the normal end and after every exit holds after the section. -/
theorem resume_of {property : Cluster n Cmd Snap → Prop} {v : Fin n}
    {result : Except (Persister Cmd Snap) α} {next : α → Cluster n Cmd Snap}
    (normal : ∀ value, result = .ok value → property (next value))
    (exit : ∀ left, result = .error left → property (c.crash v left)) :
    property (c.resume v result next) := by
  cases result with
  | ok value => exact normal value rfl
  | error left => exact exit left rfl

variable [DecidableEq Cmd]

theorem step_requestVoteImpl (taken : c.step (.requestVoteImpl k p) = some c') :
    ∃ round thread, c.elections[k]? = some round ∧ round.thread p = some thread ∧
      thread.inFlight = true ∧
      c' = (c.setElection k (round.setThread p thread.unanswered)).resume p
        ((c.node p).requestVoteImpl thread.args) fun (rf,reply) =>
          (c.setNode p rf).setElection k (round.setThread p (thread.answered reply)) := by
  simp only [step,Option.bind_eq_bind,Option.bind_eq_some_iff,Option.pure_def,
    Option.some.injEq,Option.guard_eq_some',exists_const] at taken
  obtain ⟨round,found,thread,held,sent,rfl⟩ := taken
  exact ⟨round,thread,found,held,sent,rfl⟩

theorem step_sendRequestVote (taken : c.step (.sendRequestVote k p) = some c') :
    ∃ round thread reply, c.elections[k]? = some round ∧ round.thread p = some thread ∧
      thread.reply = some reply ∧ thread.waiting = true ∧
      c' = c.resume round.src ((c.node round.src).sendRequestVote reply round.counter)
        fun (rf,counter,promoted) =>
          ((c.setNode round.src rf).setElection k
            { round.setThread p thread.finished with counter }).record
            (if promoted then [.becomeLeader round.src rf.currentTerm] else []) := by
  simp only [step,Option.bind_eq_bind,Option.bind_eq_some_iff,Option.pure_def,
    Option.some.injEq,Option.guard_eq_some',exists_const] at taken
  obtain ⟨round,found,thread,held,reply,replied,waiting,rfl⟩ := taken
  exact ⟨round,thread,reply,found,held,replied,waiting,rfl⟩

theorem step_doHeartBeat (taken : c.step (.doHeartBeat v) = some c') :
    ∃ threads exit, (c.node v).doHeartBeat = (threads,exit) ∧
      ((exit = none ∧ c' = c.launchHeartbeat v threads) ∨
        ∃ left, exit = some left ∧ c' = (c.launchHeartbeat v threads).crash v left) := by
  rcases round : (c.node v).doHeartBeat with ⟨threads,exit⟩
  simp only [step,round,Option.some.injEq] at taken
  refine ⟨threads,exit,rfl,?_⟩
  cases exit with
  | none => exact .inl ⟨rfl,taken.symm⟩
  | some left => exact .inr ⟨left,rfl,taken.symm⟩

theorem step_appendEntriesimpl (taken : c.step (.appendEntriesimpl k p) = some c') :
    ∃ round thread, c.heartbeats[k]? = some round ∧ round.thread p = some thread ∧
      thread.inFlight = true ∧
      c' = (c.setHeartbeat k (round.setThread p thread.unanswered)).resume p
        ((c.node p).appendEntriesimpl thread.args) fun (rf,reply) =>
          (c.setNode p rf).setHeartbeat k (round.setThread p (thread.answered reply)) := by
  simp only [step,Option.bind_eq_bind,Option.bind_eq_some_iff,Option.pure_def,
    Option.some.injEq,Option.guard_eq_some',exists_const] at taken
  obtain ⟨round,found,thread,held,sent,rfl⟩ := taken
  exact ⟨round,thread,found,held,sent,rfl⟩

theorem step_sendAppendEntries (taken : c.step (.sendAppendEntries k p) = some c') :
    ∃ round thread reply, c.heartbeats[k]? = some round ∧ round.thread p = some thread ∧
      thread.reply = some reply ∧ thread.waiting = true ∧
      c' = c.resume round.src
        ((c.node round.src).sendAppendEntries p thread.args reply round.counter)
        fun (rf,counter) =>
          (c.setNode round.src rf).setHeartbeat k
            { round.setThread p thread.finished with counter } := by
  simp only [step,Option.bind_eq_bind,Option.bind_eq_some_iff,Option.pure_def,
    Option.some.injEq,Option.guard_eq_some',exists_const] at taken
  obtain ⟨round,found,thread,held,reply,replied,waiting,rfl⟩ := taken
  exact ⟨round,thread,reply,found,held,replied,waiting,rfl⟩

theorem step_snapshotRequest (taken : c.step (.snapshotRequest k) = some c') :
    ∃ src dst, c.spawned[k]? = some (src,dst) ∧
      c' = { c with
        spawned := c.spawned.eraseIdx k
        snapshots := c.snapshots ++ [⟨src,dst,{ args := (c.node src).snapshotRequest }⟩] } := by
  simp only [step,Option.bind_eq_bind,Option.bind_eq_some_iff,Option.pure_def,
    Option.some.injEq,Prod.exists] at taken
  obtain ⟨src,dst,found,rfl⟩ := taken
  exact ⟨src,dst,found,rfl⟩

theorem step_installSnapshotImpl (taken : c.step (.installSnapshotImpl k) = some c') :
    ∃ call, c.snapshots[k]? = some call ∧ call.thread.inFlight = true ∧
      c' = (c.setSnapshot k { call with thread := call.thread.unanswered }).resume call.dst
        ((c.node call.dst).installSnapshotImpl call.thread.args) fun (rf,reply,_) =>
          (c.setNode call.dst rf).setSnapshot k
            { call with thread := call.thread.answered reply } := by
  simp only [step,Option.bind_eq_bind,Option.bind_eq_some_iff,Option.pure_def,
    Option.some.injEq,Option.guard_eq_some',exists_const] at taken
  obtain ⟨call,found,sent,rfl⟩ := taken
  exact ⟨call,found,sent,rfl⟩

theorem step_leaderSendSnapshot (taken : c.step (.leaderSendSnapshot k) = some c') :
    ∃ call reply, c.snapshots[k]? = some call ∧ call.thread.reply = some reply ∧
      (call.thread.waiting = true ∧ reply.term ≠ 0) ∧
      c' = (c.setNode call.src
          ((c.node call.src).leaderSendSnapshot call.dst call.thread.args reply)).setSnapshot k
        { call with thread := call.thread.finished } := by
  simp only [step,Option.bind_eq_bind,Option.bind_eq_some_iff,Option.pure_def,
    Option.some.injEq,Option.guard_eq_some',exists_const] at taken
  obtain ⟨call,found,reply,replied,waiting,rfl⟩ := taken
  exact ⟨call,reply,found,replied,waiting,rfl⟩

/-! ### Replies that are known -/

theorem step_sendRequestVote_at {round : Round n RequestVoteArgs RequestVoteReply}
    {thread : Thread RequestVoteArgs RequestVoteReply} {reply : RequestVoteReply}
    (taken : c.step (.sendRequestVote k p) = some c') (found : c.elections[k]? = some round)
    (held : round.thread p = some thread) (replied : thread.reply = some reply) :
    thread.waiting = true ∧
      c' = c.resume round.src ((c.node round.src).sendRequestVote reply round.counter)
        fun (rf,counter,promoted) =>
          ((c.setNode round.src rf).setElection k
            { round.setThread p thread.finished with counter }).record
            (if promoted then [.becomeLeader round.src rf.currentTerm] else []) := by
  obtain ⟨round',thread',reply',found',held',replied',waiting,moved⟩ := step_sendRequestVote taken
  obtain rfl := Option.some.inj (found.symm.trans found')
  obtain rfl := Option.some.inj (held.symm.trans held')
  obtain rfl := Option.some.inj (replied.symm.trans replied')
  exact ⟨waiting,moved⟩

theorem step_sendAppendEntries_at {round : Round n (AppendEntriesArgs Cmd) AppendEntriesReply}
    {thread : Thread (AppendEntriesArgs Cmd) AppendEntriesReply} {reply : AppendEntriesReply}
    (taken : c.step (.sendAppendEntries k p) = some c') (found : c.heartbeats[k]? = some round)
    (held : round.thread p = some thread) (replied : thread.reply = some reply) :
    thread.waiting = true ∧
      c' = c.resume round.src
        ((c.node round.src).sendAppendEntries p thread.args reply round.counter)
        fun (rf,counter) =>
          (c.setNode round.src rf).setHeartbeat k
            { round.setThread p thread.finished with counter } := by
  obtain ⟨round',thread',reply',found',held',replied',waiting,moved⟩ := step_sendAppendEntries taken
  obtain rfl := Option.some.inj (found.symm.trans found')
  obtain rfl := Option.some.inj (held.symm.trans held')
  obtain rfl := Option.some.inj (replied.symm.trans replied')
  exact ⟨waiting,moved⟩

theorem step_leaderSendSnapshot_at {call : SnapshotCall n Snap} {reply : InstallSnapshotResponse}
    (taken : c.step (.leaderSendSnapshot k) = some c') (found : c.snapshots[k]? = some call)
    (replied : call.thread.reply = some reply) :
    (call.thread.waiting = true ∧ reply.term ≠ 0) ∧
      c' = (c.setNode call.src
          ((c.node call.src).leaderSendSnapshot call.dst call.thread.args reply)).setSnapshot k
        { call with thread := call.thread.finished } := by
  obtain ⟨call',reply',found',replied',waiting,moved⟩ := step_leaderSendSnapshot taken
  obtain rfl := Option.some.inj (found.symm.trans found')
  obtain rfl := Option.some.inj (replied.symm.trans replied')
  exact ⟨waiting,moved⟩

end Cluster
end KvStorage
