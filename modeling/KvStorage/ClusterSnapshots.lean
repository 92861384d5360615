import KvStorage.ClusterCommands

/-! Where snapshots come from. What a node has on disk beside a base, and what it sends, was handed
to some node by its server as the snapshot up to that index. -/
namespace KvStorage
open Exit

/-- The snapshot that a section would save, and the index it goes up to. -/
def NodeAction.saves : NodeAction n Cmd Snap → Option (Option Snap × Int)
  | .installSnapshotImpl args => some (args.data,args.lastsnapshotincludeindex)
  | .snapshot index data => some (data,index)
  | _ => none

namespace Raft

variable {rf rf' : Raft n Cmd Snap} {left : Persister Cmd Snap} {P : Option Snap → Int → Prop}

/-- The snapshot and the base of before; the rest of the disk is old or as in memory. -/
structure SameSnapshot (rf rf' : Raft n Cmd Snap) : Prop where
  snapshot : rf'.persister.snapshot = rf.persister.snapshot
  base : rf'.lastSnapshotIncludeIndex = rf.lastSnapshotIncludeIndex
  image : rf'.persister = rf.persister ∨ rf'.persister.image = rf'.persistData

/-- The snapshot goes up to the base that is beside it on disk, which is the one in memory. -/
structure Based (P : Option Snap → Int → Prop) (rf : Raft n Cmd Snap) : Prop where
  disk : P rf.persister.snapshot rf.lastSnapshotIncludeIndex
  base : rf.persister.image.lastSnapshotIncludeIndex = rf.lastSnapshotIncludeIndex

theorem Based.kept (based : rf.Based P) (same : SameSnapshot rf rf') : rf'.Based P := by
  constructor
  · rw [same.snapshot,same.base]
    exact based.disk
  · rcases same.image with old | fresh
    · rw [old,same.base]
      exact based.base
    · rw [fresh]
      rfl

theorem Based.restart (disk : P left.snapshot left.image.lastSnapshotIncludeIndex) (raftId : Fin n) :
    (init raftId left).Based P := by
  rw [init_eq]
  exact ⟨disk,rfl⟩

theorem commitTo_base (leadercommit : Int) :
    (rf.commitTo leadercommit).lastSnapshotIncludeIndex = rf.lastSnapshotIncludeIndex := by
  unfold commitTo
  split <;> rfl

variable [DecidableEq Cmd]

theorem snapshot_handle {action : NodeAction n Cmd Snap} (done : rf.handle action = .ok rf') : SameSnapshot rf rf' ∨
    ∃ data index, action.saves = some (data,index) ∧ rf.lastSnapshotIncludeIndex < index ∧
      rf'.persister.snapshot = data ∧ rf'.lastSnapshotIncludeIndex = index ∧ rf'.persister.image = rf'.persistData := by
  cases action with
  | doElection =>
    obtain rfl := Except.ok.inj done
    by_cases leader : rf.status = .Leader
    · rw [doElection_leader leader]
      exact .inl ⟨rfl,rfl,.inl rfl⟩
    · rw [doElection_candidate leader]
      exact .inl ⟨rfl,rfl,.inr rfl⟩
  | requestVoteImpl args =>
    obtain ⟨reply,done⟩ := map_fst_ok.mp done
    have held : (rf.observe args.term).persister.snapshot = rf.persister.snapshot := by rw [observe_persister]
    rcases requestVoteImpl_cases rf args with ⟨_,_,_,eq⟩ | ⟨_,_,_,eq⟩ | ⟨_,_,_,_,_,_,eq⟩
    all_goals obtain ⟨rfl,rfl⟩ := Prod.mk.inj (Except.ok.inj (eq.symm.trans done))
    · exact .inl ⟨rfl,rfl,.inr rfl⟩
    · exact .inl ⟨held,observe_base ..,.inr rfl⟩
    · exact .inl ⟨held,observe_base ..,.inr rfl⟩
  | sendRequestVote reply voteNums =>
    obtain ⟨answer,done⟩ := map_fst_ok.mp done
    rcases sendRequestVote_ok done with ⟨_,rfl,_⟩ | ⟨rfl,_⟩ | ⟨rfl,_⟩ | ⟨rfl,_⟩
    · exact .inl ⟨rfl,rfl,.inr rfl⟩
    · exact .inl ⟨rfl,rfl,.inl rfl⟩
    · exact .inl ⟨rfl,rfl,.inl rfl⟩
    · exact .inl ⟨rfl,rfl,.inl rfl⟩
  | doHeartBeat =>
    simp only [handle] at done
    split at done
    · obtain rfl := Except.ok.inj done
      exact .inl ⟨rfl,rfl,.inl rfl⟩
    · cases done
  | appendEntriesimpl args =>
    obtain ⟨reply,done⟩ := map_fst_ok.mp done
    have held : (rf.observe args.term).persister.snapshot = rf.persister.snapshot := by rw [observe_persister]
    rcases appendEntriesimpl_ok done with ⟨_,_,rfl⟩ | ⟨_,_,_,rfl⟩ | ⟨_,_,_,_,merged,merge,_,_,rfl⟩
    · exact .inl ⟨rfl,rfl,.inl rfl⟩
    · exact .inl ⟨held,observe_base ..,.inr rfl⟩
    · rw [mergeEntries_frame merge]
      refine .inl ⟨?_,?_,.inr rfl⟩
      · change (Raft.commitTo _ _).persister.snapshot = _
        rw [commitTo_persister]
        exact held
      · change (Raft.commitTo _ _).lastSnapshotIncludeIndex = _
        rw [commitTo_base]
        exact observe_base ..
  | sendAppendEntries peerId args reply appendNums =>
    obtain ⟨answer,done⟩ := map_fst_ok.mp done
    rcases sendAppendEntries_ok done with ⟨_,_,rfl,_⟩ | ⟨rfl,_⟩ | ⟨_,_,_,rfl,_⟩ | ⟨_,_,_,_,rfl,_⟩ |
      ⟨_,_,_,_,rfl,_,_⟩
    · exact .inl ⟨rfl,rfl,.inl rfl⟩
    · exact .inl ⟨rfl,rfl,.inl rfl⟩
    · exact .inl ⟨rfl,rfl,.inl rfl⟩
    · exact .inl ⟨rfl,rfl,.inl rfl⟩
    · unfold commitRound
      split <;> exact .inl ⟨rfl,rfl,.inl rfl⟩
  | installSnapshotImpl args =>
    obtain ⟨answer,done⟩ := map_fst_ok.mp done
    rcases installSnapshotImpl_cases rf args with ⟨_,eq⟩ | ⟨_,_,eq⟩ | ⟨_,above,eq⟩
    all_goals obtain ⟨rfl,rfl⟩ := Prod.mk.inj (Except.ok.inj (eq.symm.trans done))
    · exact .inl ⟨rfl,rfl,.inl rfl⟩
    · refine .inl ⟨?_,followDurably_base ..,?_⟩ <;> unfold followDurably <;> split
      · rfl
      · rfl
      · exact .inr rfl
      · exact .inl rfl
    · exact .inr ⟨_,_,rfl,above,rfl,rfl,rfl⟩
  | leaderSendSnapshot peerId req resp =>
    obtain rfl := Except.ok.inj done
    rcases leaderSendSnapshot_cases rf peerId req resp with eq | ⟨_,_,eq⟩ | ⟨_,_,eq⟩ <;> simp only [eq]
    · exact .inl ⟨rfl,rfl,.inl rfl⟩
    · exact .inl ⟨rfl,rfl,.inr rfl⟩
    · exact .inl ⟨rfl,rfl,.inl rfl⟩
  | start command =>
    obtain rfl := Except.ok.inj done
    by_cases leader : rf.status = .Leader
    · rw [start_leader leader]
      exact .inl ⟨rfl,rfl,.inr rfl⟩
    · rw [start_other leader]
      exact .inl ⟨rfl,rfl,.inl rfl⟩
  | snapshot index data =>
    rcases snapshot_ok done with ⟨rfl,_⟩ | ⟨above,_,term,_,rfl⟩
    · exact .inl ⟨rfl,rfl,.inl rfl⟩
    · exact .inr ⟨_,_,rfl,above,rfl,rfl,rfl⟩
  | getApplyLogs =>
    obtain ⟨messages,done⟩ := map_fst_ok.mp done
    rw [(getApplyLogs_ok done).2.1]
    exact .inl ⟨rfl,rfl,.inl rfl⟩
  | crash => cases done

theorem Based.handle {action : NodeAction n Cmd Snap} (based : rf.Based P) (done : rf.handle action = .ok rf')
    (new : ∀ data index, action.saves = some (data,index) → rf.lastSnapshotIncludeIndex < index → P data index) :
    rf'.Based P := by
  rcases snapshot_handle done with same | ⟨data,index,saves,above,snapshot,base,image⟩
  · exact based.kept same
  · constructor
    · rw [snapshot,base]
      exact new data index saves above
    · rw [image]
      rfl

theorem Based.exit {action : NodeAction n Cmd Snap} (based : rf.Based P) (exit : rf.handle action = .error left)
    (new : ∀ data index, action.saves = some (data,index) → rf.lastSnapshotIncludeIndex < index → P data index) :
    P left.snapshot left.image.lastSnapshotIncludeIndex := by
  have kept : P rf.persister.snapshot rf.persister.image.lastSnapshotIncludeIndex := by
    rw [based.base]
    exact based.disk
  rcases exit_files exit with rfl | ⟨index,data,rfl,failed⟩
  · exact kept
  · rcases snapshot_error failed with rfl | ⟨above,_,term,_,rfl⟩
    · exact kept
    · exact new data index rfl above

end Raft

namespace Cluster

variable {c c' : Cluster n Cmd Snap} {P : Option Snap → Int → Prop} {action : Action n Cmd Snap}

/-- Every snapshot on a disk or on its way goes up to its index. -/
structure Based (P : Option Snap → Int → Prop) (c : Cluster n Cmd Snap) : Prop where
  nodes : ∀ v, (c.node v).Based P
  calls : ∀ call ∈ c.snapshots, P call.thread.args.data call.thread.args.lastsnapshotincludeindex

theorem Based.initial (empty : P none 0) : (Cluster.initial n Cmd Snap).Based P where
  nodes v := by
    have disk : P (Persister.snapshot ({} : Persister Cmd Snap))
        (Persister.image ({} : Persister Cmd Snap)).lastSnapshotIncludeIndex := empty
    exact .restart disk v
  calls _ member := by cases member

theorem Based.mono {Q : Option Snap → Int → Prop} (based : c.Based P)
    (weaker : ∀ data index, P data index → Q data index) : c.Based Q where
  nodes v := ⟨weaker _ _ (based.nodes v).disk,(based.nodes v).base⟩
  calls call member := weaker _ _ (based.calls call member)

theorem handles_snapshot {v : Fin n} {index : Int} {data : Option Snap}
    (runs : c.handles action = some (v,.snapshot index data)) : action = .snapshot v index data := by
  cases action <;> simp [handles,Option.bind_eq_some_iff] at runs ⊢
  grind

/-- A section saves what a call brought, or what the node's server made. -/
theorem Based.saves (based : c.Based P) {v : Fin n} {a : NodeAction n Cmd Snap} (runs : c.handles action = some (v,a))
    (made : ∀ v index data, action = .snapshot v index data → P data index) :
    ∀ data index, a.saves = some (data,index) → P data index := by
  intro data index saves
  cases a with
  | installSnapshotImpl args =>
    obtain ⟨rfl,rfl⟩ := Prod.mk.inj (Option.some.inj saves)
    obtain ⟨k,call,_,found,_,rfl⟩ := handles_installSnapshotImpl runs
    exact based.calls call (List.mem_of_getElem? found)
  | snapshot i snap =>
    obtain ⟨rfl,rfl⟩ := Prod.mk.inj (Option.some.inj saves)
    exact made v i snap (handles_snapshot runs)
  | _ => cases saves

variable [DecidableEq Cmd]

theorem Based.exit (based : c.Based P) {v : Fin n} {a : NodeAction n Cmd Snap} {left : Persister Cmd Snap}
    (runs : c.handles action = some (v,a)) (exit : (c.node v).handle a = .error left)
    (made : ∀ v index data, action = .snapshot v index data → P data index) :
    P left.snapshot left.image.lastSnapshotIncludeIndex :=
  (based.nodes v).exit exit fun data index saves _ => based.saves runs made data index saves

theorem Based.step (based : c.Based P) (taken : c.step action = some c')
    (made : ∀ v index data, action = .snapshot v index data → P data index) : c'.Based P := by
  constructor
  · intro v
    rcases node_cases taken v with same | ⟨a,rf,runs,done,node⟩ | ⟨a,left,mid,runs,exit,_,crashed⟩
    · rw [same]
      exact based.nodes v
    · rw [node]
      exact (based.nodes v).handle done fun data index saves _ => based.saves runs made data index saves
    · rw [crashed]
      change Raft.Based P (Function.update mid.node v _ v)
      rw [Function.update_self]
      exact .restart (based.exit runs exit made) v
  · intro call member
    rcases call_back taken member with ⟨before,there,_,args,_⟩ | ⟨_,args⟩
    · rw [← args]
      exact based.calls before there
    · rw [args]
      exact (based.nodes call.src).disk

/-- The history is only added to. -/
theorem history_step (taken : c.step action = some c') {e : Event n Cmd} (member : e ∈ c.history) : e ∈ c'.history := by
  have grown : ∀ events, e ∈ (c.record events).history := fun events => List.mem_append_left events member
  cases action with
  | doElection v => obtain rfl := Option.some.inj taken; exact member
  | requestVoteImpl k p =>
    obtain ⟨round,thread,found,held,_,rfl⟩ := step_requestVoteImpl taken
    cases (c.node p).requestVoteImpl thread.args <;> exact member
  | sendRequestVote k p =>
    obtain ⟨round,thread,reply,found,held,replied,_,rfl⟩ := step_sendRequestVote taken
    cases (c.node round.src).sendRequestVote reply round.counter with
    | ok value => exact grown _
    | error left => exact member
  | doHeartBeat v =>
    obtain ⟨threads,exit,beaten,⟨_,rfl⟩ | ⟨left,_,rfl⟩⟩ := step_doHeartBeat taken <;> exact member
  | appendEntriesimpl k p =>
    obtain ⟨round,thread,found,held,_,rfl⟩ := step_appendEntriesimpl taken
    cases (c.node p).appendEntriesimpl thread.args <;> exact member
  | sendAppendEntries k p =>
    obtain ⟨round,thread,reply,found,held,replied,_,rfl⟩ := step_sendAppendEntries taken
    cases (c.node round.src).sendAppendEntries p thread.args reply round.counter <;> exact member
  | snapshotRequest k => obtain ⟨src,dst,_,rfl⟩ := step_snapshotRequest taken; exact member
  | installSnapshotImpl k =>
    obtain ⟨call,found,_,rfl⟩ := step_installSnapshotImpl taken
    cases (c.node call.dst).installSnapshotImpl call.thread.args <;> exact member
  | leaderSendSnapshot k =>
    obtain ⟨call,reply,found,replied,_,rfl⟩ := step_leaderSendSnapshot taken
    exact member
  | start v command => obtain rfl := Option.some.inj taken; exact member
  | snapshot v index data =>
    obtain rfl := Option.some.inj taken
    cases (c.node v).snapshot index data <;> exact member
  | getApplyLogs v =>
    obtain rfl := Option.some.inj taken
    cases (c.node v).getApplyLogs with
    | ok value => exact grown _
    | error left => exact member
  | crash v => obtain rfl := Option.some.inj taken; exact member

end Cluster
end KvStorage
