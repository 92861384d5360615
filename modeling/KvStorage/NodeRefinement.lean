import KvStorage.Lib.ReplicationStep
import KvStorage.RaftLog
import KvStorage.RaftVote

/-! One node as a replica of the abstract protocol. The replica's term is the durable
one: a term only memory has seen is no move, since a crash forgets it. Snapshots cut
the log a node holds, never the replica's. -/
namespace KvStorage
open Replication

abbrev Ghost (n : Nat) (Cmd : Type) := Replicas (Fin n) Int (LogEntry Cmd)

abbrev Ghost.Sound (s : Ghost n Cmd) : Prop := Replicas.Sound LogEntry.logterm s
abbrev Ghost.Known (s : Ghost n Cmd) : Int → List (LogEntry Cmd) → Prop :=
  Replicas.Known LogEntry.logterm s
abbrev Ghost.Step : Ghost n Cmd → Ghost n Cmd → Prop := Replication.Step LogEntry.logterm

theorem Ghost.grows_of_steps {s s' : Ghost n Cmd} (steps : Relation.ReflTransGen Ghost.Step s s') :
    Grows s s' := by
  induction steps with
  | refl => exact ⟨fun _ => le_rfl,id,id,id,id,id⟩
  | tail _ step ih =>
    have next := Replication.Step.grows step
    exact ⟨fun w => (ih.term w).trans (next.term w),next.asked ∘ ih.asked,next.voted ∘ ih.voted,
      next.elected ∘ ih.elected,next.led ∘ ih.led,next.acked ∘ ih.acked⟩

theorem Ghost.sound_of_steps {s s' : Ghost n Cmd} (steps : Relation.ReflTransGen Ghost.Step s s')
    (before : s.Sound) : s'.Sound := by
  induction steps with
  | refl => exact before
  | tail _ step ih => exact ih.step step

/-- The moves one critical section of `v` makes: other replicas stay, and only `v`
leads anything new. -/
structure Advance (v : Fin n) (leads : Fin n → Int → Prop) (s s' : Ghost n Cmd) : Prop where
  steps : Relation.ReflTransGen Ghost.Step s s'
  others : ∀ w, w ≠ v → s'.term w = s.term w ∧ s'.log w = s.log w
  led : ∀ {t L}, s'.led t L → s.led t L ∨ (leads v t ∧ Numbered L)
  elected : ∀ {t L}, s'.elected t L → s.elected t L ∨ leads v t

namespace Advance

variable {v : Fin n} {leads : Fin n → Int → Prop} {s s' s'' : Ghost n Cmd}

theorem refl : Advance v leads s s := ⟨.refl,fun _ _ => ⟨rfl,rfl⟩,.inl,.inl⟩

theorem trans (one : Advance v leads s s') (two : Advance v leads s' s'') : Advance v leads s s'' where
  steps := one.steps.trans two.steps
  others w other := ⟨(two.others w other).1.trans (one.others w other).1,
    (two.others w other).2.trans (one.others w other).2⟩
  led made := (two.led made).elim one.led .inr
  elected won := (two.elected won).elim one.elected .inr

theorem grows (one : Advance v leads s s') : Grows s s' := Ghost.grows_of_steps one.steps

theorem sound (one : Advance v leads s s') (before : s.Sound) : s'.Sound :=
  Ghost.sound_of_steps one.steps before

theorem observe (order : s.term v ≤ t) : Advance v leads s (s.observe v t) :=
  ⟨.single (.observe order),fun _ other => ⟨Function.update_of_ne other ..,rfl⟩,.inl,.inl⟩

end Advance

namespace Raft

/-- The files hold the log that memory holds. -/
structure LogSaved (rf : Raft n Cmd Snap) : Prop where
  logs : rf.persister.image.logs = rf.logs
  base : rf.persister.image.lastSnapshotIncludeIndex = rf.lastSnapshotIncludeIndex
  baseTerm : rf.persister.image.lastSnapshotIncludeTerm = rf.lastSnapshotIncludeTerm

/-- A change that leaves log and commit index alone and makes nobody leader. -/
structure Quiet (rf rf' : Raft n Cmd Snap) : Prop where
  logs : rf'.logs = rf.logs
  base : rf'.lastSnapshotIncludeIndex = rf.lastSnapshotIncludeIndex
  baseTerm : rf'.lastSnapshotIncludeTerm = rf.lastSnapshotIncludeTerm
  commit : rf'.commitIndex = rf.commitIndex
  saved : rf.LogSaved → rf'.LogSaved
  leader : rf'.status = .Leader → rf.status = .Leader ∧ rf'.currentTerm = rf.currentTerm ∧
    (rf.persister.image.currentTerm = rf.currentTerm →
      rf'.persister.image.currentTerm = rf.currentTerm)

variable {rf rf' rf'' : Raft n Cmd Snap}

namespace Quiet

theorem refl (rf : Raft n Cmd Snap) : Quiet rf rf :=
  ⟨rfl,rfl,rfl,rfl,id,fun leader => ⟨leader,rfl,id⟩⟩

theorem trans (one : Quiet rf rf') (two : Quiet rf' rf'') : Quiet rf rf'' where
  logs := two.logs.trans one.logs
  base := two.base.trans one.base
  baseTerm := two.baseTerm.trans one.baseTerm
  commit := two.commit.trans one.commit
  saved := two.saved ∘ one.saved
  leader leader := by
    obtain ⟨middle,term₂,disk₂⟩ := two.leader leader
    obtain ⟨first,term₁,disk₁⟩ := one.leader middle
    exact ⟨first,term₂.trans term₁,fun same => (disk₂ ((disk₁ same).trans term₁.symm)).trans term₁⟩

theorem memory (logs : rf'.logs = rf.logs)
    (base : rf'.lastSnapshotIncludeIndex = rf.lastSnapshotIncludeIndex)
    (baseTerm : rf'.lastSnapshotIncludeTerm = rf.lastSnapshotIncludeTerm)
    (commit : rf'.commitIndex = rf.commitIndex) (disk : rf'.persister = rf.persister)
    (leader : rf'.status = .Leader → rf.status = .Leader ∧ rf'.currentTerm = rf.currentTerm) :
    Quiet rf rf' where
  logs := logs
  base := base
  baseTerm := baseTerm
  commit := commit
  saved saved := ⟨by rw [disk,logs]; exact saved.logs,by rw [disk,base]; exact saved.base,
    by rw [disk,baseTerm]; exact saved.baseTerm⟩
  leader leader' := ⟨(leader leader').1,(leader leader').2,by rw [disk]; exact id⟩

theorem persist (one : Quiet rf rf') : Quiet rf rf'.persist :=
  one.trans ⟨rfl,rfl,rfl,rfl,fun _ => ⟨rfl,rfl,rfl⟩,fun leader => ⟨leader,rfl,fun _ => rfl⟩⟩

end Quiet

theorem quiet_stepDown (term : Int) : Quiet rf (rf.stepDown term) :=
  .memory rfl rfl rfl rfl rfl nofun

theorem quiet_observe (term : Int) : Quiet rf (rf.observe term) := by
  unfold observe
  split
  · exact quiet_stepDown term
  · exact .refl rf

theorem quiet_follow (term : Int) : Quiet rf (rf.follow term) :=
  (quiet_observe term).trans (.memory rfl rfl rfl rfl rfl nofun)

theorem quiet_followDurably (term : Int) : Quiet rf (rf.followDurably term) := by
  unfold followDurably
  split
  · exact (quiet_stepDown term).persist.trans (.memory rfl rfl rfl rfl rfl nofun)
  · exact .memory rfl rfl rfl rfl rfl nofun

theorem quiet_candidate : Quiet rf rf.candidate :=
  Quiet.persist (.memory rfl rfl rfl rfl rfl nofun)

theorem quiet_requestVoteImpl {args : RequestVoteArgs} {reply : RequestVoteReply}
    (done : rf.requestVoteImpl args = .ok (rf',reply)) : Quiet rf rf' := by
  have observed : Quiet rf (rf.observe args.term) := quiet_observe args.term
  rcases requestVoteImpl_cases rf args with ⟨_,_,_,eq⟩ | ⟨_,_,_,eq⟩ | ⟨_,_,_,_,_,_,eq⟩
  · obtain ⟨rfl,rfl⟩ := Prod.mk.inj (Except.ok.inj (eq.symm.trans done))
    exact (Quiet.refl rf).persist
  · obtain ⟨rfl,rfl⟩ := Prod.mk.inj (Except.ok.inj (eq.symm.trans done))
    exact observed.persist
  · obtain ⟨rfl,rfl⟩ := Prod.mk.inj (Except.ok.inj (eq.symm.trans done))
    have granted : Quiet (rf.observe args.term)
        { rf.observe args.term with votedFor := args.candidateid } :=
      .memory rfl rfl rfl rfl rfl fun leader => ⟨leader,rfl⟩
    exact (observed.trans granted).persist

theorem quiet_acknowledge (peerId : Fin n) (args : AppendEntriesArgs Cmd) :
    Quiet rf (rf.acknowledge peerId args) :=
  .memory rfl rfl rfl rfl rfl fun leader => ⟨leader,rfl⟩

theorem quiet_leaderSendSnapshot (peerId : Fin n) (req : InstallSnapshotRequest Snap)
    (resp : InstallSnapshotResponse) : Quiet rf (rf.leaderSendSnapshot peerId req resp) := by
  rcases leaderSendSnapshot_cases rf peerId req resp with eq | ⟨_,_,eq⟩ | ⟨_,_,eq⟩
  · rw [eq]; exact .refl rf
  · rw [eq]; exact (quiet_stepDown _).persist
  · rw [eq]; exact .memory rfl rfl rfl rfl rfl fun leader => ⟨leader,rfl⟩

theorem quiet_getApplyLogs {messages : List (ApplyMsg Cmd Snap)}
    (done : rf.getApplyLogs = .ok (rf',messages)) : Quiet rf rf' := by
  rw [(getApplyLogs_ok done).2.1]
  exact .memory rfl rfl rfl rfl rfl fun leader => ⟨leader,rfl⟩

end Raft

/-- The comparison of `upToDate` on the ends of two logs. -/
theorem Holds.upToDate {rf : Raft n Cmd Snap} {L L' : List (LogEntry Cmd)} {b : Nat}
    (holds : Holds rf.persistData L b)
    (newer : rf.upToDate L'.length (termAt L' L'.length) = true) :
    UpToDate LogEntry.logterm L' L := by
  simp only [Raft.upToDate,holds.getLastLogIndexAndTerm,Bool.or_eq_true,decide_eq_true_eq,
    Bool.and_eq_true,beq_iff_eq] at newer
  intro f last
  obtain ⟨front,rfl⟩ := List.getLast?_eq_some_iff.mp last
  have real := (holds.numbered front.length f (by simp)).2
  rw [termAt_length (L := front ++ [f]),last] at newer
  change termAt L' L'.length > f.logterm ∨ _ at newer
  cases last' : L'.getLast? with
  | none =>
    simp only [termAt_length,last',Option.map_none,Option.getD_none,Option.map_some,
      Option.getD_some] at newer
    omega
  | some g =>
    simp only [termAt_length,last',Option.map_some,Option.getD_some] at newer
    exact ⟨g,rfl,newer.imp id fun tied => ⟨tied.1.symm,by omega⟩⟩

/-- A leader's log is the latest of its term and acknowledged by itself. -/
structure Leading (s : Ghost n Cmd) (leads : Fin n → Int → Prop) (v : Fin n)
    (rf : Raft n Cmd Snap) : Prop where
  positive : 1 ≤ rf.currentTerm
  leads : leads v rf.currentTerm
  durable : rf.persister.image.currentTerm = rf.currentTerm
  led : s.led rf.currentTerm (s.log v)
  latest : ∀ L, s.led rf.currentTerm L → L <+: s.log v
  acked : s.acked v rf.currentTerm (s.log v)

/-- Node `v` is replica `v`: same durable term, same log above the snapshot index, and
snapshot and commit index no further than what is known to be committed. -/
structure Refines (s : Ghost n Cmd) (leads : Fin n → Int → Prop) (v : Fin n)
    (rf : Raft n Cmd Snap) : Prop where
  term : s.term v = rf.persister.image.currentTerm
  saved : rf.LogSaved
  holds : ∃ b, Holds rf.persistData (s.log v) b ∧ s.Known (s.term v) ((s.log v).take b)
  commit : ∃ k : Nat, rf.commitIndex = k ∧ k ≤ (s.log v).length ∧
    s.Known (s.term v) ((s.log v).take k)
  leader : rf.status = .Leader → Leading s leads v rf

namespace Refines

variable {s s' : Ghost n Cmd} {leads leads' : Fin n → Int → Prop} {v w : Fin n}
  {rf rf' : Raft n Cmd Snap}

/-- The other nodes still refine their replicas after a section of `v`. -/
theorem frame (rel : Refines s leads w rf) (adv : Advance v leads' s s') (other : w ≠ v)
    (old : ∀ {u t}, leads u t → leads' u t) (unique : ∀ {t}, leads' w t → leads' v t → w = v) :
    Refines s' leads' w rf := by
  obtain ⟨term,log⟩ := adv.others w other
  have grows := adv.grows
  obtain ⟨b,holds,known⟩ := rel.holds
  obtain ⟨k,commit,bound,known'⟩ := rel.commit
  refine ⟨term.trans rel.term,rel.saved,⟨b,by rwa [log],?_⟩,⟨k,commit,by rwa [log],?_⟩,fun leader => ?_⟩
  · rw [log,term]; exact grows.known known
  · rw [log,term]; exact grows.known known'
  · obtain ⟨positive,leads,durable,led,latest,acked⟩ := rel.leader leader
    refine ⟨positive,old leads,durable,by rw [log]; exact grows.led led,fun L made => ?_,
      by rw [log]; exact grows.acked acked⟩
    rw [log]
    rcases adv.led made with made | ⟨mine,_⟩
    · exact latest L made
    · exact absurd (unique (old leads) mine) other

/-- A quiet section only moves the durable term. -/
theorem quiet (rel : Refines s leads v rf) (quiet : rf.Quiet rf')
    (order : rf.persister.image.currentTerm ≤ rf'.persister.image.currentTerm) :
    Advance v leads s (s.observe v rf'.persister.image.currentTerm) ∧
      Refines (s.observe v rf'.persister.image.currentTerm) leads v rf' := by
  have adv : Advance v leads s (s.observe v rf'.persister.image.currentTerm) :=
    .observe (rel.term ▸ order)
  have grows := adv.grows
  have term : (s.observe v rf'.persister.image.currentTerm).term v =
    rf'.persister.image.currentTerm := Function.update_self ..
  obtain ⟨b,holds,known⟩ := rel.holds
  obtain ⟨k,commit,bound,known'⟩ := rel.commit
  refine ⟨adv,term,quiet.saved rel.saved,⟨b,?_,?_⟩,⟨k,quiet.commit.trans commit,bound,?_⟩,
    fun leader => ?_⟩
  · exact ⟨quiet.base.trans holds.base,holds.bound,quiet.logs.trans holds.logs,
      quiet.baseTerm.trans holds.baseTerm,holds.numbered⟩
  · exact (grows.known known).mono (grows.term v)
  · exact (grows.known known').mono (grows.term v)
  · obtain ⟨leader',same,disk⟩ := quiet.leader leader
    obtain ⟨positive,leads,durable,led,latest,acked⟩ := rel.leader leader'
    rw [← same] at positive leads led latest acked
    exact ⟨positive,leads,(disk durable).trans same.symm,led,latest,acked⟩

/-- A restart forgets the commit index and every office. -/
theorem restart (rel : Refines s leads v rf) : Refines s leads v (Raft.init v rf.persister) := by
  rw [Raft.init_eq]
  obtain ⟨b,holds,known⟩ := rel.holds
  have image : Holds rf.persister.image (s.log v) b := ⟨rel.saved.base.trans holds.base,holds.bound,
    rel.saved.logs.trans holds.logs,rel.saved.baseTerm.trans holds.baseTerm,holds.numbered⟩
  exact ⟨rel.term,⟨rfl,rfl,rfl⟩,⟨b,image,known⟩,⟨0,rfl,Nat.zero_le _,.inl rfl⟩,nofun⟩

/-- Progress indexes and the commit index of a leader are memory only. -/
theorem commitTo (rel : Refines s leads v rf) {k : Nat} (bound : k ≤ (s.log v).length)
    (known : s.Known (s.term v) ((s.log v).take k)) :
    Refines s leads v { rf with commitIndex := k } :=
  ⟨rel.term,⟨rel.saved.logs,rel.saved.base,rel.saved.baseTerm⟩,rel.holds,⟨k,rfl,bound,known⟩,fun leader =>
    have ⟨positive,leads,durable,led,latest,acked⟩ := rel.leader leader
    ⟨positive,leads,durable,led,latest,acked⟩⟩

/-- Cutting the log at an index below the commit index. -/
theorem compacted (rel : Refines s leads v rf) {index term : Int} (data : Option Snap)
    (above : rf.lastSnapshotIncludeIndex < index) (below : index ≤ rf.commitIndex)
    (found : rf.getLogTermFromLogIndex index = .ok term)
    (durable : rf.persister.image.currentTerm ≤ rf.currentTerm) :
    Advance v leads s (s.observe v rf.currentTerm) ∧
      Refines (s.observe v rf.currentTerm) leads v ((rf.compacted index term).saveSnapshot data) := by
  have adv : Advance v leads s (s.observe v rf.currentTerm) := .observe (rel.term ▸ durable)
  have grows := adv.grows
  obtain ⟨b,holds,_⟩ := rel.holds
  obtain ⟨k,commit,bound,known⟩ := rel.commit
  obtain ⟨j,rfl,_,inside,rfl⟩ := holds.getLogTerm.mp found
  have base := holds.base_eq
  have cut : Holds ((rf.compacted j (termAt (s.log v) j)).saveSnapshot data).persistData (s.log v) j := by
    refine ⟨rfl,inside,?_,rfl,holds.numbered⟩
    change rf.logs.drop _ = _
    rw [holds.logs_eq,List.drop_drop]
    congr 1
    omega
  have sub : (s.log v).take j <+: (s.log v).take k := List.take_prefix_take_left (by omega)
  have known' := (grows.known known).mono (grows.term v)
  refine ⟨adv,Function.update_self ..,⟨rfl,rfl,rfl⟩,⟨j,cut,known'.shorter sub⟩,
    ⟨k,?_,bound,known'⟩,fun leader => ?_⟩
  · change max rf.commitIndex (j : Int) = k
    omega
  · obtain ⟨positive,leads,durable,led,latest,acked⟩ := rel.leader leader
    exact ⟨positive,leads,rfl,led,latest,acked⟩

theorem elected (sound : s.Sound) (rel : Refines s leads v rf) {L : List (LogEntry Cmd)}
    (positive : 1 ≤ rf.currentTerm) (durable : rf.persister.image.currentTerm = rf.currentTerm)
    (asked : s.asked v rf.currentTerm L) (vacant : ∀ L, ¬ s.elected rf.currentTerm L)
    (A : Finset (Fin n)) (most : Majority A) (voted : ∀ u ∈ A, ∃ L', s.voted u rf.currentTerm v L')
    (new : leads' v rf.currentTerm) :
    ∃ s', Advance v leads' s s' ∧ Refines s' leads' v rf.elected := by
  obtain ⟨b,holds,known⟩ := rel.holds
  obtain ⟨k,commit,bound,known'⟩ := rel.commit
  have step : Ghost.Step s _ := .elect (rel.term.trans durable) asked vacant A most voted
  have grows := Replication.Step.grows step
  refine ⟨_,⟨.single step,fun _ _ => ⟨rfl,rfl⟩,?_,?_⟩,rel.term,?_,⟨b,?_,grows.known known⟩,
    ⟨k,commit,bound,grows.known known'⟩,fun _ => ⟨positive,new,durable,.inr ⟨rfl,rfl⟩,?_,.inr ⟨rfl,rfl,rfl⟩⟩⟩
  · rintro t M (made | ⟨rfl,rfl⟩)
    · exact .inl made
    · exact .inr ⟨new,holds.numbered⟩
  · rintro t M (won | ⟨rfl,rfl⟩)
    · exact .inl won
    · exact .inr new
  · exact ⟨rel.saved.logs,rel.saved.base,rel.saved.baseTerm⟩
  · exact ⟨holds.base,holds.bound,holds.logs,holds.baseTerm,holds.numbered⟩
  · rintro M (made | ⟨_,rfl⟩)
    · obtain ⟨L₀,won,_⟩ := sound.origin made
      exact absurd won (vacant L₀)
    · exact List.prefix_rfl

theorem appended (rel : Refines s leads v rf) (leader : rf.status = .Leader) (command : Cmd) :
    ∃ s', Advance v leads s s' ∧ Refines s' leads v (rf.appended command) := by
  obtain ⟨b,holds,known⟩ := rel.holds
  obtain ⟨k,commit,bound,known'⟩ := rel.commit
  obtain ⟨positive,won,durable,led,latest,_⟩ := rel.leader leader
  let entry : LogEntry Cmd := ⟨command,rf.currentTerm,rf.getNewCommandIndex⟩
  have step : Ghost.Step s _ := .extend (rel.term.trans durable) led latest entry rfl
  have grows := Replication.Step.grows step
  have index : entry.logindex = (s.log v).length + 1 := by
    change rf.getLastLogIndex + 1 = _
    rw [holds.getLastLogIndex]
  have numbered := holds.numbered.append index positive
  have here : (s.setLog v (s.log v ++ [entry])).log v = s.log v ++ [entry] := Function.update_self ..
  refine ⟨_,⟨.single step,fun _ other => ⟨rfl,Function.update_of_ne other ..⟩,?_,.inl⟩,
    rel.term.trans durable,⟨rfl,rfl,rfl⟩,⟨b,?_,?_⟩,⟨k,commit,?_,?_⟩,
    fun _ => ⟨positive,won,rfl,.inr ⟨rfl,here⟩,?_,.inr ⟨rfl,rfl,here⟩⟩⟩
  · rintro t M (made | ⟨rfl,rfl⟩)
    · exact .inl made
    · exact .inr ⟨won,numbered⟩
  · change Holds (rf.appended command).persistData ((s.setLog v (s.log v ++ [entry])).log v) b
    rw [here]
    refine ⟨holds.base,?_,?_,?_,numbered⟩
    · rw [List.length_append]; exact Nat.le_add_right_of_le holds.bound
    · change rf.logs ++ [entry] = _
      rw [List.drop_append_of_le_length holds.bound,holds.logs_eq]
    · rw [termAt_shorter (List.prefix_append ..) holds.bound]; exact holds.baseTerm
  · change Replicas.Known _ _ _ (((s.setLog v (s.log v ++ [entry])).log v).take b)
    rw [here,List.take_append_of_le_length holds.bound]
    exact grows.known known
  · change k ≤ ((s.setLog v (s.log v ++ [entry])).log v).length
    rw [here,List.length_append]
    exact Nat.le_add_right_of_le bound
  · change Replicas.Known _ _ _ (((s.setLog v (s.log v ++ [entry])).log v).take k)
    rw [here,List.take_append_of_le_length bound]
    exact grows.known known'
  · change ∀ L, _ → L <+: (s.setLog v (s.log v ++ [entry])).log v
    rw [here]
    rintro M (made | ⟨_,rfl⟩)
    · exact (latest M made).trans (List.prefix_append ..)
    · exact List.prefix_rfl

end Refines
end KvStorage
