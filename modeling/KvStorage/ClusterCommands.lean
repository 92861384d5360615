import KvStorage.ClusterSafety
import KvStorage.LogTerms

/-! Where entries come from. Every entry in a log, on a disk or on its way, and every command that is
applied, was made by a call of `start` at a leader, which returned the entry's index and term. -/
namespace KvStorage
open Exit

namespace Raft

variable {rf rf' : Raft n Cmd Snap} {left : Persister Cmd Snap}

/-- The entries that a section brings to the log. -/
def brings (rf : Raft n Cmd Snap) : NodeAction n Cmd Snap → List (LogEntry Cmd)
  | .appendEntriesimpl args => args.entries
  | .start command => if rf.status = .Leader then [⟨command,rf.currentTerm,rf.getNewCommandIndex⟩] else []
  | _ => []

/-- Entries of the log were there or are new, and the disk has the old log or the new one. -/
structure Sources (rf rf' : Raft n Cmd Snap) (new : List (LogEntry Cmd)) : Prop where
  entries : ∀ entry ∈ rf'.logs, entry ∈ rf.logs ∨ entry ∈ new
  disk : rf'.persister = rf.persister ∨ rf'.persister.image = rf'.persistData

theorem Sources.kept {new : List (LogEntry Cmd)} (logs : rf'.logs = rf.logs)
    (disk : rf'.persister = rf.persister ∨ rf'.persister.image = rf'.persistData) : Sources rf rf' new :=
  ⟨fun _ member => .inl (logs ▸ member),disk⟩

variable [DecidableEq Cmd]

theorem sources_handle {action : NodeAction n Cmd Snap} (done : rf.handle action = .ok rf') :
    Sources rf rf' (rf.brings action) := by
  cases action with
  | doElection =>
    obtain rfl := Except.ok.inj done
    by_cases leader : rf.status = .Leader
    · rw [doElection_leader leader]
      exact .kept rfl (.inl rfl)
    · rw [doElection_candidate leader]
      exact .kept rfl (.inr rfl)
  | requestVoteImpl args =>
    obtain ⟨reply,done⟩ := map_fst_ok.mp done
    rcases requestVoteImpl_cases rf args with ⟨_,_,_,eq⟩ | ⟨_,_,_,eq⟩ | ⟨_,_,_,_,_,_,eq⟩
    all_goals obtain ⟨rfl,rfl⟩ := Prod.mk.inj (Except.ok.inj (eq.symm.trans done))
    · exact .kept rfl (.inr rfl)
    · exact .kept (observe_logs ..) (.inr rfl)
    · exact .kept (observe_logs ..) (.inr rfl)
  | sendRequestVote reply voteNums =>
    obtain ⟨answer,done⟩ := map_fst_ok.mp done
    rcases sendRequestVote_ok done with ⟨_,rfl,_⟩ | ⟨rfl,_⟩ | ⟨rfl,_⟩ | ⟨rfl,_⟩
    · exact .kept rfl (.inr rfl)
    · exact .kept rfl (.inl rfl)
    · exact .kept rfl (.inl rfl)
    · exact .kept rfl (.inl rfl)
  | doHeartBeat =>
    simp only [handle] at done
    split at done
    · obtain rfl := Except.ok.inj done
      exact .kept rfl (.inl rfl)
    · cases done
  | appendEntriesimpl args =>
    obtain ⟨reply,done⟩ := map_fst_ok.mp done
    obtain ⟨logs,_⟩ := follow_dates rf args.term
    rcases appendEntriesimpl_ok done with ⟨_,_,rfl⟩ | ⟨_,_,_,rfl⟩ | ⟨_,_,_,_,merged,merge,_,_,rfl⟩
    · exact .kept rfl (.inl rfl)
    · exact .kept logs (.inr rfl)
    · refine ⟨fun entry member => ?_,.inr rfl⟩
      change entry ∈ (merged.commitTo args.leadercommit).logs at member
      rw [commitTo_logs] at member
      rcases mergeEntries_mem merge member with old | sent
      · exact .inl (logs ▸ old)
      · exact .inr sent
  | sendAppendEntries peerId args reply appendNums =>
    obtain ⟨answer,done⟩ := map_fst_ok.mp done
    rcases sendAppendEntries_ok done with ⟨_,_,rfl,_⟩ | ⟨rfl,_⟩ | ⟨_,_,_,rfl,_⟩ | ⟨_,_,_,_,rfl,_⟩ |
      ⟨_,_,_,_,rfl,_,_⟩
    · exact .kept rfl (.inl rfl)
    · exact .kept rfl (.inl rfl)
    · exact .kept rfl (.inl rfl)
    · exact .kept rfl (.inl rfl)
    · unfold commitRound
      split <;> exact .kept rfl (.inl rfl)
  | installSnapshotImpl args =>
    obtain ⟨answer,done⟩ := map_fst_ok.mp done
    rcases installSnapshotImpl_cases rf args with ⟨_,eq⟩ | ⟨_,_,eq⟩ | ⟨_,_,eq⟩
    all_goals obtain ⟨rfl,rfl⟩ := Prod.mk.inj (Except.ok.inj (eq.symm.trans done))
    · exact .kept rfl (.inl rfl)
    · refine .kept (followDurably_logs ..) ?_
      unfold followDurably
      split
      · exact .inr rfl
      · exact .inl rfl
    · refine ⟨fun entry member => .inl ?_,.inr rfl⟩
      change entry ∈ rf.keptAbove _ at member
      unfold keptAbove at member
      split at member
      · exact List.mem_of_mem_drop member
      · cases member
  | leaderSendSnapshot peerId req resp =>
    obtain rfl := Except.ok.inj done
    rcases leaderSendSnapshot_cases rf peerId req resp with eq | ⟨_,_,eq⟩ | ⟨_,_,eq⟩
    · rw [eq]
      exact .kept rfl (.inl rfl)
    · rw [eq]
      exact .kept rfl (.inr rfl)
    · rw [eq]
      exact .kept rfl (.inl rfl)
  | start command =>
    obtain rfl := Except.ok.inj done
    by_cases leader : rf.status = .Leader
    · rw [start_leader leader,brings,if_pos leader]
      exact ⟨fun entry member => List.mem_append.mp member,.inr rfl⟩
    · rw [start_other leader]
      exact .kept rfl (.inl rfl)
  | snapshot index data =>
    rcases snapshot_ok done with ⟨rfl,_⟩ | ⟨_,_,term,_,rfl⟩
    · exact .kept rfl (.inl rfl)
    · exact ⟨fun entry member => .inl (List.mem_of_mem_drop member),.inr rfl⟩
  | getApplyLogs =>
    obtain ⟨messages,done⟩ := map_fst_ok.mp done
    rw [(getApplyLogs_ok done).2.1]
    exact .kept rfl (.inl rfl)
  | crash => cases done

/-- All entries of the node, in memory and on disk, are of the kind. -/
structure Only (Q : LogEntry Cmd → Prop) (rf : Raft n Cmd Snap) : Prop where
  memory : ∀ entry ∈ rf.logs, Q entry
  saved : ∀ entry ∈ rf.persister.image.logs, Q entry

variable {Q : LogEntry Cmd → Prop}

omit [DecidableEq Cmd] in
theorem Only.sources {new : List (LogEntry Cmd)} (only : rf.Only Q) (sources : Sources rf rf' new)
    (all : ∀ entry ∈ new, Q entry) : rf'.Only Q := by
  have memory : ∀ entry ∈ rf'.logs, Q entry := by
    intro entry member
    rcases sources.entries entry member with old | fresh
    · exact only.memory entry old
    · exact all entry fresh
  refine ⟨memory,?_⟩
  rcases sources.disk with same | image
  · rw [same]
    exact only.saved
  · rw [image]
    exact memory

omit [DecidableEq Cmd] in
theorem Only.restart (saved : ∀ entry ∈ left.image.logs, Q entry) (raftId : Fin n) : (init raftId left).Only Q := by
  rw [init_eq]
  exact ⟨saved,saved⟩

theorem Only.exit {action : NodeAction n Cmd Snap} (only : rf.Only Q) (exit : rf.handle action = .error left)
    (raftId : Fin n) : (init raftId left).Only Q := by
  refine .restart ?_ raftId
  rcases exit_files exit with rfl | ⟨index,data,rfl,failed⟩
  · exact only.saved
  · rcases snapshot_error failed with rfl | ⟨_,_,term,_,rfl⟩
    · exact only.saved
    · exact fun entry member => only.memory entry (List.mem_of_mem_drop member)

end Raft

namespace Cluster

variable {c c' : Cluster n Cmd Snap} {Q : LogEntry Cmd → Prop}

/-- All entries of the nodes, of the requests and of the commands handed out are of the kind. -/
structure Only (Q : LogEntry Cmd → Prop) (c : Cluster n Cmd Snap) : Prop where
  nodes : ∀ v, (c.node v).Only Q
  rounds : ∀ round ∈ c.heartbeats, ∀ p t, round.thread p = some t → ∀ entry ∈ t.args.entries, Q entry
  applied : ∀ v i x, .apply v i x ∈ c.history → ∃ term, Q ⟨x,term,i⟩

theorem Only.initial : (Cluster.initial n Cmd Snap).Only Q where
  nodes v := by
    have saved : ∀ entry ∈ (Persister.image ({} : Persister Cmd Snap)).logs, Q entry := fun _ member => by cases member
    exact .restart saved v
  rounds _ member := by cases member
  applied _ _ _ member := by cases member

theorem Only.mono {R : LogEntry Cmd → Prop} (only : c.Only Q) (weaker : ∀ entry, Q entry → R entry) : c.Only R where
  nodes v := ⟨fun entry member => weaker entry ((only.nodes v).memory entry member),
    fun entry member => weaker entry ((only.nodes v).saved entry member)⟩
  rounds round member p t held entry inside := weaker entry (only.rounds round member p t held entry inside)
  applied v i x member := by
    obtain ⟨term,made⟩ := only.applied v i x member
    exact ⟨term,weaker _ made⟩

variable [DecidableEq Cmd]

/-- A command in the history was there, or its node hands it out now. -/
theorem apply_back {action : Action n Cmd Snap} (taken : c.step action = some c') {u : Fin n} {i : Int} {x : Cmd}
    (member : .apply u i x ∈ c'.history) : .apply u i x ∈ c.history ∨
      ∃ v rf messages, (c.node v).getApplyLogs = .ok (rf,messages) ∧ .command x i ∈ messages := by
  by_cases apply : ∃ v, action = .getApplyLogs v
  · obtain ⟨v,rfl⟩ := apply
    obtain rfl := Option.some.inj taken
    cases done : (c.node v).getApplyLogs with
    | ok value =>
      rw [done] at member
      rcases List.mem_append.mp member with old | new
      · exact .inl old
      · exact .inr ⟨v,value.1,value.2,done,Simulates.mem_applied new⟩
    | error left =>
      rw [done] at member
      exact .inl member
  refine .inl ?_
  cases action with
  | getApplyLogs v => exact absurd ⟨v,rfl⟩ apply
  | doElection v => obtain rfl := Option.some.inj taken; exact member
  | requestVoteImpl k p =>
    obtain ⟨round,thread,found,held,_,rfl⟩ := step_requestVoteImpl taken
    cases done : (c.node p).requestVoteImpl thread.args <;> rw [done] at member <;> exact member
  | sendRequestVote k p =>
    obtain ⟨round,thread,reply,found,held,replied,_,rfl⟩ := step_sendRequestVote taken
    cases done : (c.node round.src).sendRequestVote reply round.counter with
    | ok value =>
      rw [done] at member
      rcases List.mem_append.mp member with old | new
      · exact old
      · split at new <;> simp at new
    | error left =>
      rw [done] at member
      exact member
  | doHeartBeat v => obtain ⟨threads,exit,beaten,⟨_,rfl⟩ | ⟨left,_,rfl⟩⟩ := step_doHeartBeat taken <;> exact member
  | appendEntriesimpl k p =>
    obtain ⟨round,thread,found,held,_,rfl⟩ := step_appendEntriesimpl taken
    cases done : (c.node p).appendEntriesimpl thread.args <;> rw [done] at member <;> exact member
  | sendAppendEntries k p =>
    obtain ⟨round,thread,reply,found,held,replied,_,rfl⟩ := step_sendAppendEntries taken
    cases done : (c.node round.src).sendAppendEntries p thread.args reply round.counter <;> rw [done] at member <;>
      exact member
  | snapshotRequest k => obtain ⟨src,dst,_,rfl⟩ := step_snapshotRequest taken; exact member
  | installSnapshotImpl k =>
    obtain ⟨call,found,_,rfl⟩ := step_installSnapshotImpl taken
    cases done : (c.node call.dst).installSnapshotImpl call.thread.args <;> rw [done] at member <;> exact member
  | leaderSendSnapshot k =>
    obtain ⟨call,reply,found,replied,_,rfl⟩ := step_leaderSendSnapshot taken
    exact member
  | start v command => obtain rfl := Option.some.inj taken; exact member
  | snapshot v index data =>
    obtain rfl := Option.some.inj taken
    cases done : (c.node v).snapshot index data <;> rw [done] at member <;> exact member
  | crash v => obtain rfl := Option.some.inj taken; exact member

omit [DecidableEq Cmd] in
theorem handles_start {action : Action n Cmd Snap} {v : Fin n} {command : Cmd}
    (runs : c.handles action = some (v,.start command)) : action = .start v command := by
  cases action <;> simp [handles,Option.bind_eq_some_iff] at runs ⊢
  grind

omit [DecidableEq Cmd] in
/-- What the section of a node brings came from a request, or is made by `start`. -/
theorem Only.brings (only : c.Only Q) {action : Action n Cmd Snap} {v : Fin n} {a : NodeAction n Cmd Snap}
    (runs : c.handles action = some (v,a)) (made : ∀ command, a = .start command → (c.node v).status = .Leader →
      Q ⟨command,(c.node v).currentTerm,(c.node v).getNewCommandIndex⟩) : ∀ entry ∈ (c.node v).brings a, Q entry := by
  intro entry member
  cases a with
  | appendEntriesimpl args =>
    obtain ⟨k,round,thread,_,found,held,rfl⟩ := handles_appendEntriesimpl runs
    exact only.rounds round (List.mem_of_getElem? found) v thread held entry member
  | start command =>
    simp only [Raft.brings] at member
    split at member
    · next leader =>
      obtain rfl := List.mem_singleton.mp member
      exact made command rfl leader
    · cases member
  | _ => cases member

theorem Only.step (only : c.Only Q) (appending : c.Appending) {action : Action n Cmd Snap}
    (taken : c.step action = some c') (made : ∀ v command, action = .start v command → (c.node v).status = .Leader →
      Q ⟨command,(c.node v).currentTerm,(c.node v).getNewCommandIndex⟩) : c'.Only Q := by
  have calls : ∀ v a, c.handles action = some (v,a) → ∀ command, a = .start command → (c.node v).status = .Leader →
      Q ⟨command,(c.node v).currentTerm,(c.node v).getNewCommandIndex⟩ := by
    rintro v _ runs command rfl leader
    apply made v command (handles_start runs) leader
  constructor
  · intro v
    rcases node_cases taken v with same | ⟨a,rf,runs,done,node⟩ | ⟨a,left,mid,runs,exit,_,crashed⟩
    · rw [same]
      exact only.nodes v
    · rw [node]
      exact (only.nodes v).sources (Raft.sources_handle done) (only.brings runs (calls v a runs))
    · rw [crashed]
      change Raft.Only Q (Function.update mid.node v _ v)
      rw [Function.update_self]
      exact (only.nodes v).exit exit v
  · intro round' member p t' held
    rcases heartbeat_back appending.unanswered taken member with ⟨round,before,moved⟩ | ⟨v,_,moved⟩
    · obtain ⟨t,first,args,_⟩ := moved.back held
      rw [args]
      exact only.rounds round before p t first
    · obtain ⟨t,first,args,_⟩ := moved.back held
      have built := (Raft.heartbeatRound_built first).1
      rw [args,built.entries]
      exact fun entry inside => (only.nodes v).memory entry (List.mem_of_mem_drop inside)
  · intro u i x member
    rcases apply_back taken member with old | ⟨v,rf,messages,done,inside⟩
    · exact only.applied u i x old
    · obtain ⟨_,_,_,items⟩ := Raft.getApplyLogs_ok done
      obtain ⟨j,found⟩ := List.mem_iff_getElem?.mp inside
      obtain ⟨entry,read,here⟩ := items j (List.getElem?_eq_some_iff.mp found).1
      rw [found,Option.some.injEq,ApplyMsg.command.injEq] at here
      obtain ⟨rfl,rfl⟩ := here
      have numbered := (appending.indexed v).memory.numbered
      have there := (Raft.entryAt_iff numbered).mp read
      have index := Raft.held_logindex numbered there
      refine ⟨entry.logterm,?_⟩
      rw [← index]
      exact (only.nodes v).memory entry (List.mem_of_getElem? (Raft.held_iff.mp there).2)

/-- The call of `start` after the first actions returned this index and term. -/
def Starts (front : List (Action n Cmd Snap)) (v : Fin n) (command : Cmd) (newLogIndex newLogTerm : Int) : Prop :=
  ∃ c, Run.run step (Cluster.initial n Cmd Snap) front = some c ∧ ((c.node v).start command).2 = (newLogIndex,newLogTerm,true)

/-- One of the actions was the call of `start` that made the entry. -/
def Started (actions : List (Action n Cmd Snap)) (entry : LogEntry Cmd) : Prop :=
  ∃ front v back, actions = front ++ .start v entry.command :: back ∧ Starts front v entry.command entry.logindex entry.logterm

omit [DecidableEq Cmd] in
theorem start_eq {rf : Raft n Cmd Snap} {command : Cmd} {i term : Int} :
    (rf.start command).2 = (i,term,true) ↔ rf.status = .Leader ∧ i = rf.getNewCommandIndex ∧ term = rf.currentTerm := by
  by_cases leader : rf.status = .Leader
  · rw [Raft.start_leader leader]
    simp only [Prod.mk.injEq,and_true,leader,true_and,Raft.getNewCommandIndex,eq_comm]
  · rw [Raft.start_other leader]
    simp [leader]

/-- Every entry on any node, and every command that any node handed out, comes from a call of `start`. -/
theorem only_started (actions : List (Action n Cmd Snap))
    (ran : Run.run step (Cluster.initial n Cmd Snap) actions = some c) : c.Only (Started actions) := by
  induction actions using List.reverseRecOn generalizing c with
  | nil =>
    cases ran
    exact .initial
  | append_singleton front action ih =>
    obtain ⟨c₀,before,taken⟩ := Run.run_snoc.mp ran
    have only : c₀.Only (Started (front ++ [action])) := by
      refine (ih before).mono ?_
      rintro entry ⟨first,v,back,rfl,starts⟩
      exact ⟨first,v,back ++ [action],by simp,starts⟩
    have appending := appending_of_reach (Run.reach_of_run front before)
    refine only.step appending taken ?_
    rintro v command rfl leader
    exact ⟨front,v,[],rfl,c₀,before,start_eq.mpr ⟨leader,rfl,rfl⟩⟩

/-- The node led in the term, and while it still does its log reaches the index. -/
structure Tenured (c : Cluster n Cmd Snap) (v : Fin n) (i term : Int) : Prop where
  leads : c.Leads v term
  reached : (c.node v).status = .Leader → (c.node v).currentTerm = term → i ≤ (c.node v).getLastLogIndex

theorem Tenured.step {v : Fin n} {i term : Int} (tenured : c.Tenured v i term) (appending : c.Appending)
    {action : Action n Cmd Snap} (taken : c.step action = some c') : c'.Tenured v i term := by
  refine ⟨leads_step taken tenured.leads,fun still same => ?_⟩
  by_cases leader : (c.node v).status = .Leader
  · obtain ⟨term,_,advances⟩ := appending.tenure taken leader still
    exact (tenured.reached leader (term.symm.trans same)).trans advances.last
  · have unled := (leads_elected appending.balanced taken leader still).1
    rw [same] at unled
    exact absurd tenured.leads unled

theorem Tenured.run {v : Fin n} {i term : Int} (tenured : c.Tenured v i term) (appending : c.Appending)
    (actions : List (Action n Cmd Snap)) (ran : Run.run Cluster.step c actions = some c') : c'.Tenured v i term := by
  have both := Run.Reach.invariant (fun c => c.Tenured v i term ∧ c.Appending) ⟨tenured,appending⟩
    (fun _ _ _ _ before _ taken => ⟨before.1.step before.2 taken,before.2.step taken⟩) (Run.reach_of_run actions ran)
  exact both.1

theorem tenured_start {v : Fin n} {command : Cmd} {i term : Int} (appending : c.Appending)
    (starts : ((c.node v).start command).2 = (i,term,true)) (taken : c.step (.start v command) = some c') :
    c'.Tenured v i term := by
  obtain ⟨leader,rfl,rfl⟩ := start_eq.mp starts
  refine ⟨leads_step taken (appending.office v leader),fun _ _ => ?_⟩
  obtain rfl := Option.some.inj taken
  have node : (c.setNode v ((c.node v).start command).1).node v = (c.node v).appended command := by
    rw [Raft.start_leader leader]
    exact Function.update_self ..
  rw [node]
  apply le_of_eq
  simp [Raft.appended,Raft.persist,Raft.getLastLogIndex,Raft.getLastLogIndexAndTerm,Raft.getNewCommandIndex]

/-- Of two calls of `start` that return one term, the later was at the same node and returned a larger index. -/
theorem starts_ordered {front mid : List (Action n Cmd Snap)} {v w : Fin n} {x y : Cmd} {i j term : Int}
    (first : Starts front v x i term) (second : Starts (front ++ .start v x :: mid) w y j term) : v = w ∧ i < j := by
  obtain ⟨c₁,before,one⟩ := first
  obtain ⟨c₂,after,two⟩ := second
  have later := appending_of_reach (Run.reach_of_run _ after)
  rw [Run.run_append,before,Option.bind_some] at after
  obtain ⟨c',taken,ran⟩ := Option.bind_eq_some_iff.mp after
  have appending := appending_of_reach (Run.reach_of_run front before)
  have tenured := (tenured_start appending one taken).run (appending.step taken) mid ran
  obtain ⟨leader,rfl,same⟩ := start_eq.mp two
  have office := later.office w leader
  rw [← same] at office
  obtain rfl := later.balanced.leader_unique tenured.leads office
  have reached := tenured.reached leader same.symm
  refine ⟨rfl,?_⟩
  unfold Raft.getNewCommandIndex
  omega

/-- Two places of a list, in one of the three orders. -/
theorem split_cases {α : Type} {front front' back back' : List α} {a b : α} (same : front ++ a :: back = front' ++ b :: back') :
    (front = front' ∧ a = b) ∨ (∃ mid, front' = front ++ a :: mid) ∨ ∃ mid, front = front' ++ b :: mid := by
  rcases List.append_eq_append_iff.mp same with ⟨gap,rfl,rest⟩ | ⟨gap,rfl,rest⟩
  · rcases List.cons_eq_append_iff.mp rest with ⟨rfl,cons⟩ | ⟨mid,rfl,_⟩
    · exact .inl ⟨(List.append_nil front).symm,(List.cons.inj cons).1.symm⟩
    · exact .inr (.inl ⟨mid,rfl⟩)
  · rcases List.cons_eq_append_iff.mp rest with ⟨rfl,cons⟩ | ⟨mid,rfl,_⟩
    · exact .inl ⟨List.append_nil front',(List.cons.inj cons).1⟩
    · exact .inr (.inr ⟨mid,rfl⟩)

/-- Whatever a node hands out was started, by a call that returned its index. -/
theorem applied_started (actions : List (Action n Cmd Snap)) (ran : Run.run step (Cluster.initial n Cmd Snap) actions = some c)
    {u : Fin n} {i : Int} {x : Cmd} (applied : .apply u i x ∈ c.history) :
    ∃ front v back term, actions = front ++ .start v x :: back ∧ Starts front v x i term := by
  obtain ⟨term,front,v,back,split,starts⟩ := (only_started actions ran).applied u i x applied
  exact ⟨front,v,back,term,split,starts⟩

/-- Two calls of a run that return the same index and term are one call. -/
theorem starts_once {front front' back back' : List (Action n Cmd Snap)} {v w : Fin n} {x y : Cmd} {i term : Int}
    (split : front ++ .start v x :: back = front' ++ .start w y :: back') (starts : Starts front v x i term)
    (starts' : Starts front' w y i term) : front = front' ∧ x = y := by
  rcases split_cases split with ⟨rfl,same⟩ | ⟨mid,rfl⟩ | ⟨mid,rfl⟩
  · exact ⟨rfl,(Action.start.inj same).2⟩
  · exact absurd (starts_ordered starts starts').2 (lt_irrefl _)
  · exact absurd (starts_ordered starts' starts).2 (lt_irrefl _)

/-- Index and term name the call: no other call returns them, and every entry that has them is its command. -/
theorem entry_started {front back : List (Action n Cmd Snap)} {v : Fin n} {x : Cmd} {i term : Int}
    (ran : Run.run step (Cluster.initial n Cmd Snap) (front ++ .start v x :: back) = some c)
    (starts : Starts front v x i term) :
    (∀ front' w y back', front ++ .start v x :: back = front' ++ .start w y :: back' → Starts front' w y i term → front = front') ∧
      ∀ w, (c.node w).Only fun entry => entry.logindex = i → entry.logterm = term → entry.command = x := by
  refine ⟨fun front' w y back' split starts' => (starts_once split starts starts').1,?_⟩
  refine ((only_started _ ran).mono ?_).nodes
  rintro entry ⟨front',w,back',split,starts'⟩ rfl rfl
  exact (starts_once split starts starts').2.symm

theorem applied_started_replicated : ∃ c : Cluster 3 Nat Unit,
    Run.run step (initial 3 Nat Unit) replicated = some c ∧ .apply 1 1 7 ∈ c.history ∧
    ∃ front v back term, replicated = front ++ .start v 7 :: back ∧ Starts front v 7 1 term := by
  have history : (Run.run step (initial 3 Nat Unit) replicated).map history =
      some [.becomeLeader 0 1,.apply 0 1 7,.apply 1 1 7] := by decide +kernel
  obtain ⟨c,ran,events⟩ := Option.map_eq_some_iff.mp history
  have applied : .apply 1 1 7 ∈ c.history := by simp [events]
  exact ⟨c,ran,applied,applied_started replicated ran applied⟩

/-- Node 0 starts a command in its term, and node 1 has it in the end. -/
theorem entry_started_replicated : ∃ c : Cluster 3 Nat Unit,
    Run.run step (initial 3 Nat Unit) replicated = some c ∧ (c.node 1).logs = [⟨7,1,1⟩] ∧
    (c.node 1).Only fun entry => entry.logindex = 1 → entry.logterm = 1 → entry.command = 7 := by
  have logs : (Run.run step (initial 3 Nat Unit) replicated).map (fun c => (c.node 1).logs) = some [⟨7,1,1⟩] := by
    decide +kernel
  have elected : (Run.run step (initial 3 Nat Unit) (replicated.take 3)).map
      (fun c => ((c.node 0).start 7).2) = some (1,1,true) := by decide +kernel
  obtain ⟨c,ran,held⟩ := Option.map_eq_some_iff.mp logs
  have starts : Starts (replicated.take 3) (0 : Fin 3) 7 1 1 := Option.map_eq_some_iff.mp elected
  have split : Run.run step (initial 3 Nat Unit) (replicated.take 3 ++ .start 0 7 :: replicated.drop 4) = some c := ran
  exact ⟨c,ran,held,(entry_started split starts).2 1⟩

end Cluster
end KvStorage
