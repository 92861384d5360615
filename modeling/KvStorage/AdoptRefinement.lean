import KvStorage.NodeRefinement

/-! AppendEntries and InstallSnapshot as adoptions of a leader's log. They are one
exactly when nothing of a foreign log survives: the merge loop and the cut of an
installed snapshot both keep the old suffix, and each has one branch where that
suffix belongs to another history. -/
namespace KvStorage
open Replication Exit

namespace Raft

/-- An accepted request that overwrites an entry of another term in a log reaching beyond it. -/
def Overwrites (rf : Raft n Cmd Snap) (args : AppendEntriesArgs Cmd) : Prop :=
  rf.currentTerm ≤ args.term ∧ rf.matchLog args.prevlogindex args.prevlogterm = .ok true ∧
  args.lastIndex < rf.getLastLogIndex ∧
  ∃ entry ∈ args.entries, ∃ mine ∈ rf.logs,
    mine.logindex = entry.logindex ∧ mine.logterm ≠ entry.logterm

/-- An accepted snapshot ending inside a log that holds another term there. -/
def KeepsForeign (rf : Raft n Cmd Snap) (args : InstallSnapshotRequest Snap) : Prop :=
  rf.currentTerm ≤ args.term ∧ rf.lastSnapshotIncludeIndex < args.lastsnapshotincludeindex ∧
  args.lastsnapshotincludeindex < rf.getLastLogIndex ∧
  rf.getLogTermFromLogIndex args.lastsnapshotincludeindex ≠ .ok args.lastsnapshotincludeterm

instance (rf : Raft n Cmd Snap) [DecidableEq Cmd] [DecidableEq Snap] (args : AppendEntriesArgs Cmd) :
    Decidable (rf.Overwrites args) :=
  inferInstanceAs (Decidable (_ ∧ _ ∧ _ ∧ _))

instance (rf : Raft n Cmd Snap) [DecidableEq Cmd] [DecidableEq Snap]
    (args : InstallSnapshotRequest Snap) : Decidable (rf.KeepsForeign args) :=
  inferInstanceAs (Decidable (_ ∧ _ ∧ _ ∧ _))

end Raft

variable {s : Ghost n Cmd} {L M : List (LogEntry Cmd)}

/-- Two traced logs with the same term at an index are the same up to there. -/
theorem agree_at (sound : s.Sound) (traced : s.Traced LogEntry.logterm L)
    (traced' : s.Traced LogEntry.logterm M) {q : Nat} (inside : q ≤ L.length)
    (inside' : q ≤ M.length) (same : termAt L q = termAt M q) : L.take q = M.take q := by
  cases q with
  | zero => rfl
  | succ j =>
    have found : L[j]? = some (L[j]) := List.getElem?_eq_getElem (by omega)
    have found' : M[j]? = some (M[j]) := List.getElem?_eq_getElem (by omega)
    have split : L.take (j + 1) = L.take j ++ [L[j]] := by
      rw [List.take_add_one,found]; rfl
    have split' : M.take (j + 1) = M.take j ++ [M[j]] := by
      rw [List.take_add_one,found']; rfl
    rw [termAt_succ found,termAt_succ found'] at same
    rw [split,split']
    refine Replicas.Traced.agree sound traced traced' (split ▸ List.take_prefix ..)
      (split' ▸ List.take_prefix ..) ?_ same
    rw [List.length_take_of_le (by omega),List.length_take_of_le (by omega)]

/-- A request carries the end of a log its term's leader has led, from `prevlogindex` on. -/
structure Carries (s : Ghost n Cmd) (M : List (LogEntry Cmd)) (args : AppendEntriesArgs Cmd) :
    Prop where
  led : s.led args.term M
  entries : ∃ q : Nat, q ≤ M.length ∧ args.prevlogindex = q ∧ args.prevlogterm = termAt M q ∧
    args.entries = M.drop q
  commit : ∃ k : Nat, args.leadercommit = k ∧ k ≤ M.length ∧ s.Known args.term (M.take k)

theorem Carries.mono {s' : Ghost n Cmd} {args : AppendEntriesArgs Cmd} (carries : Carries s M args)
    (grows : Grows s s') : Carries s' M args :=
  ⟨grows.led carries.led,carries.entries,carries.commit.imp fun _ => .imp_right (.imp_right grows.known)⟩

theorem Carries.lastIndex {args : AppendEntriesArgs Cmd} (carries : Carries s M args) :
    args.lastIndex = M.length := by
  obtain ⟨q,bound,prev,_,entries⟩ := carries.entries
  rw [AppendEntriesArgs.lastIndex,prev,entries,List.length_drop]
  omega

/-- What a leader sends carries its whole log to the peer. -/
theorem carries_of_heartBeatPeer {leads : Fin n → Int → Prop} {v p peer : Fin n}
    {rf : Raft n Cmd Snap} {args : AppendEntriesArgs Cmd} (rel : Refines s leads v rf)
    (leader : rf.status = .Leader) (done : rf.heartBeatPeer peer = .ok (.sendAppendEntries p args)) :
    p = peer ∧ args.term = rf.currentTerm ∧ Carries s (s.log v) args := by
  rcases Raft.heartBeatPeer_ok done with ⟨other,_⟩ | ⟨_,same,term,_,commit,_,_,_,found,entries⟩
  · exact absurd other (by simp)
  obtain ⟨rfl,rfl⟩ := Raft.Spawned.sendAppendEntries.inj same
  obtain ⟨b,holds,_⟩ := rel.holds
  obtain ⟨k,reached,bound,known⟩ := rel.commit
  obtain ⟨_,_,durable,led,_,_⟩ := rel.leader leader
  obtain ⟨q,prev,above,below,prevTerm⟩ := holds.getLogTerm.mp found
  refine ⟨rfl,term,by rw [term]; exact led,⟨q,below,prev,prevTerm,?_⟩,k,commit.trans reached,bound,?_⟩
  · rw [entries,holds.logs_eq,holds.base_eq,List.drop_drop]
    congr 1
    omega
  · rw [term,← durable,← rel.term]; exact known

/-- A snapshot request stands for a log known to be committed. -/
def Restores (s : Ghost n Cmd) (args : InstallSnapshotRequest Snap) : Prop :=
  ∃ C : List (LogEntry Cmd), args.lastsnapshotincludeindex = C.length ∧
    args.lastsnapshotincludeterm = termAt C C.length ∧ s.Known args.term C

theorem Restores.mono {s' : Ghost n Cmd} {args : InstallSnapshotRequest Snap}
    (restores : Restores s args) (grows : Grows s s') : Restores s' args :=
  restores.imp fun _ => .imp_right (.imp_right grows.known)

variable {leads : Fin n → Int → Prop} {v : Fin n} {rf : Raft n Cmd Snap}

theorem take_of_shorter {k : Nat} {N : List (LogEntry Cmd)} (bound : k ≤ L.length)
    (sub : L.take k <+: N) : N.take k = L.take k := by
  have eq := List.prefix_iff_eq_take.mp sub
  rw [List.length_take_of_le bound] at eq
  exact eq.symm

/-- What the merge leaves is the leader's log, or the node's own if that already had it. -/
theorem adopted_of_clean (sound : s.Sound) (numbered : Numbered M) {args : AppendEntriesArgs Cmd} {b : Nat}
    (holds : Holds rf.persistData L b) (traced : s.Traced LogEntry.logterm L)
    (carries : Carries s M args) {q : Nat} (above : b ≤ q)
    (entries : args.entries = M.drop q) (below : q ≤ L.length) (front : L.take q = M.take q)
    (current : rf.currentTerm ≤ args.term)
    (matched : rf.matchLog args.prevlogindex args.prevlogterm = .ok true)
    (clean : ¬ rf.Overwrites args) : Adopted M L (M ++ L.drop M.length) := by
  by_cases have' : M <+: L
  · obtain ⟨rest,rfl⟩ := have'
    exact .inl ⟨List.prefix_append ..,by simp⟩
  · refine .inr ⟨have',?_⟩
    suffices short : L.length ≤ M.length by rw [List.drop_eq_nil_of_le short,List.append_nil]
    by_contra longer
    have longer : M.length < L.length := not_le.mp longer
    refine clean ⟨current,matched,?_,?_⟩
    · rw [carries.lastIndex,holds.getLastLogIndex]; omega
    by_contra agree
    -- without a conflict the last received entry is in the log, and then all of `M` is
    have more : q < M.length := by
      rcases Nat.lt_or_ge q M.length with more | edge
      · exact more
      · rw [List.take_of_length_le edge] at front
        exact absurd (front ▸ List.take_prefix ..) have'
    obtain ⟨j,length⟩ : ∃ j, M.length = j + 1 := ⟨M.length - 1,by omega⟩
    have mine : L[j]? = some (L[j]) := List.getElem?_eq_getElem (by omega)
    have last : M[j]? = some (M[j]) := List.getElem?_eq_getElem (by omega)
    have sent : M[j] ∈ args.entries := by
      rw [entries]
      refine List.mem_of_getElem? (i := j - q) ?_
      rw [List.getElem?_drop,show q + (j - q) = j by omega,last]
    have kept : L[j] ∈ rf.logs := by
      rw [holds.logs_eq]
      refine List.mem_of_getElem? (i := j - b) ?_
      rw [List.getElem?_drop,show b + (j - b) = j by omega,mine]
    have same : (L[j]).logterm = (M[j]).logterm := by
      by_contra differs
      exact agree ⟨_,sent,_,kept,
        ((holds.numbered j _ mine).1).trans (numbered j _ last).1.symm,differs⟩
    have whole : L.take (j + 1) = M.take (j + 1) :=
      agree_at sound traced (sound.ledTraced carries.led) (by omega) (by omega)
        (by rw [termAt_succ mine,termAt_succ last,same])
    rw [← length,List.take_length] at whole
    exact have' (whole ▸ List.take_prefix ..)

namespace Refines

/-- A clean merge refines the adoption of the leader's log, acknowledged. -/
theorem merged [DecidableEq Cmd] (sound : s.Sound)
    (numbered : ∀ {t L}, s.led t L → Numbered L) (rel : Refines s leads v rf)
    {args : AppendEntriesArgs Cmd} (carries : Carries s M args)
    (durable : rf.persister.image.currentTerm ≤ rf.currentTerm) (current : rf.currentTerm ≤ args.term)
    (found : (rf.follow args.term).getLogTermFromLogIndex args.prevlogindex = .ok args.prevlogterm)
    {rf' : Raft n Cmd Snap} (merge : (rf.follow args.term).mergeEntries args.entries = .ok rf')
    (clean : ¬ rf.Overwrites args) :
    ∃ s', Advance v leads s s' ∧ Refines s' leads v (rf'.commitTo args.leadercommit).persist ∧
      s'.acked v args.term M := by
  obtain ⟨b,holds,based⟩ := rel.holds
  obtain ⟨q,inside,prev,prevTerm,entries⟩ := carries.entries
  have followed : Holds (rf.follow args.term).persistData (s.log v) b := by
    have quiet : rf.Quiet (rf.follow args.term) := Raft.quiet_follow args.term
    exact ⟨quiet.base.trans holds.base,holds.bound,quiet.logs.trans holds.logs,
      quiet.baseTerm.trans holds.baseTerm,holds.numbered⟩
  obtain ⟨q',eq,above,below,term⟩ := followed.getLogTerm.mp found
  obtain rfl : q = q' := by omega
  have front : (s.log v).take q = M.take q :=
    agree_at sound (sound.logTraced v) (sound.ledTraced carries.led) below inside
      (term.symm.trans prevTerm)
  have matched : rf.matchLog args.prevlogindex args.prevlogterm = .ok true :=
    Raft.matchLog_ok.mpr ⟨_,holds.getLogTerm.mpr ⟨q,eq,above,below,rfl⟩,by rw [term]; simp⟩
  have whole : overlay (s.log v) q args.entries = M ++ (s.log v).drop M.length := by
    rw [overlay,front,entries,List.take_append_drop,List.length_drop]
    congr 2
    omega
  have result : Holds rf'.persistData (M ++ (s.log v).drop M.length) b := by
    rw [← whole]
    refine mergeEntries_holds followed above below (fun i e at' => ?_) merge
    rw [entries,List.getElem?_drop] at at'
    exact numbered carries.led (q + i) e at'
  have adopted : Adopted M (s.log v) (M ++ (s.log v).drop M.length) :=
    adopted_of_clean sound (numbered carries.led) holds (sound.logTraced v) carries above entries below
      front current matched clean
  generalize M ++ (s.log v).drop M.length = N at result adopted
  have observe : Advance v leads s (s.observe v args.term) :=
    .observe (rel.term ▸ durable.trans current)
  have here : (s.observe v args.term).term v = args.term := Function.update_self ..
  have step : Ghost.Step (s.observe v args.term) _ := .adopt here carries.led adopted
  have adv : Advance v leads s (((s.observe v args.term).setLog v N).ack v args.term M) :=
    observe.trans ⟨.single step,fun _ other => ⟨rfl,Function.update_of_ne other ..⟩,.inl,.inl⟩
  have log : (((s.observe v args.term).setLog v N).ack v args.term M).log v = N :=
    Function.update_self ..
  have frame := Raft.mergeEntries_frame merge
  have memoryTerm : rf'.currentTerm = args.term :=
    (congrArg Raft.currentTerm frame).trans (Raft.observe_of_le rf _ current)
  have rise : s.term v ≤ args.term := rel.term ▸ durable.trans current
  have kept : ∀ {k}, k ≤ (s.log v).length → s.Known (s.term v) ((s.log v).take k) →
      N.take k = (s.log v).take k ∧ k ≤ N.length := by
    intro k bound known
    have sub := sound.known_adopted (known.mono rise) carries.led (List.take_prefix ..) adopted
    have := sub.length_le
    rw [List.length_take_of_le bound] at this
    exact ⟨take_of_shorter bound sub,this⟩
  have moved : (((s.observe v args.term).setLog v N).ack v args.term M).term v = args.term := here
  refine ⟨_,adv,⟨?_,⟨rfl,rfl,rfl⟩,⟨b,?_,?_⟩,?_,?_⟩,.inr ⟨rfl,rfl,rfl⟩⟩
  · exact here.trans (memoryTerm.symm.trans (Raft.commitTo_currentTerm ..).symm)
  · rw [log]
    unfold Raft.commitTo
    split
    · exact ⟨result.base,result.bound,result.logs,result.baseTerm,result.numbered⟩
    · exact ⟨result.base,result.bound,result.logs,result.baseTerm,result.numbered⟩
  · rw [log,moved,(kept holds.bound based).1]
    exact (adv.grows.known based).mono rise
  · obtain ⟨k,commit,bound,known⟩ := rel.commit
    obtain ⟨j,leadercommit,short,known'⟩ := carries.commit
    have before : rf'.commitIndex = k := by
      rw [frame]; exact (Raft.observe_commitIndex ..).trans commit
    rw [log,moved]
    by_cases more : args.leadercommit > rf'.commitIndex
    · have reach := adopted.shorter.length_le
      refine ⟨j,?_,short.trans reach,?_⟩
      · change (rf'.commitTo args.leadercommit).commitIndex = j
        rw [Raft.commitTo,if_pos more,result.getLastLogIndex,leadercommit]
        change min (j : Int) (N.length : Int) = j
        omega
      · rw [take_of_shorter short ((List.take_prefix ..).trans adopted.shorter)]
        exact adv.grows.known known'
    · refine ⟨k,?_,(kept bound known).2,?_⟩
      · change (rf'.commitTo args.leadercommit).commitIndex = k
        rw [Raft.commitTo,if_neg more,before]
      · rw [(kept bound known).1]
        exact (adv.grows.known known).mono rise
  · have follower : (rf'.commitTo args.leadercommit).persist.status = .Follower := by
      have status : rf'.status = .Follower := by rw [frame]; rfl
      unfold Raft.commitTo
      split <;> exact status
    rw [follower]
    intro leader
    cases leader

/-- A clean installation refines the adoption of the committed log the snapshot stands for. -/
theorem installed (sound : s.Sound) (numbered : ∀ {t L}, s.led t L → Numbered L) (rel : Refines s leads v rf)
    {args : InstallSnapshotRequest Snap} (restores : Restores s args)
    (durable : rf.persister.image.currentTerm ≤ rf.currentTerm) (current : rf.currentTerm ≤ args.term)
    (above : rf.lastSnapshotIncludeIndex < args.lastsnapshotincludeindex)
    (clean : ¬ rf.KeepsForeign args) :
    ∃ s', Advance v leads s s' ∧ Refines s' leads v (((rf.followDurably args.term).installed args
      (rf.keptAbove args.lastsnapshotincludeindex)).saveSnapshot args.data) := by
  obtain ⟨C,length,term,known⟩ := restores
  obtain ⟨b,holds,_⟩ := rel.holds
  obtain ⟨k,commit,bound,known'⟩ := rel.commit
  have base := holds.base_eq
  -- a log that goes on above the snapshot is the committed one up to there
  have long : C <+: s.log v ∨ (s.log v).length ≤ C.length := by
    by_contra other
    obtain ⟨apart,longer⟩ := not_or.mp other
    have longer : C.length < (s.log v).length := not_le.mp longer
    refine clean ⟨current,above,by rw [holds.getLastLogIndex]; omega,fun found => apart ?_⟩
    obtain ⟨j,eq,_,inside,same⟩ := holds.getLogTerm.mp found
    obtain rfl : j = C.length := by omega
    have agree := agree_at sound (sound.logTraced v) (Replicas.Known.traced sound known) inside le_rfl
      (same.symm.trans term)
    rw [List.take_length] at agree
    exact agree ▸ List.take_prefix ..
  obtain ⟨N,adopted⟩ : ∃ N, Adopted C (s.log v) N := by
    by_cases sub : C <+: s.log v
    · exact ⟨_,.inl ⟨sub,rfl⟩⟩
    · exact ⟨_,.inr ⟨sub,rfl⟩⟩
  have rise : s.term v ≤ args.term := rel.term ▸ durable.trans current
  have here : (s.observe v args.term).term v = args.term := Function.update_self ..
  have step : Ghost.Step (s.observe v args.term) _ :=
    .restore (here.symm ▸ (show Advance v leads s _ from .observe rise).grows.known known) long adopted
  have adv : Advance v leads s ((s.observe v args.term).setLog v N) :=
    (Advance.observe rise).trans
      ⟨.single step,fun _ other => ⟨rfl,Function.update_of_ne other ..⟩,.inl,.inl⟩
  have log : ((s.observe v args.term).setLog v N).log v = N := Function.update_self ..
  have moved : ((s.observe v args.term).setLog v N).term v = args.term := here
  have front := adopted.shorter
  have memoryTerm := Raft.followDurably_of_le rf args.term current
  have quiet : rf.Quiet (rf.followDurably args.term) := Raft.quiet_followDurably args.term
  have whole : N.take C.length = C := by
    rw [take_of_shorter le_rfl (by rwa [List.take_length]),List.take_length]
  have same : C.length < (s.log v).length → N = s.log v := by
    intro longer
    rcases adopted with ⟨_,eq⟩ | ⟨other,_⟩
    · exact eq
    · exact absurd (long.resolve_left other) (not_le.mpr longer)
  refine ⟨_,adv,⟨?_,⟨rfl,rfl,rfl⟩,⟨C.length,?_,?_⟩,?_,fun leader => ?_⟩⟩
  · exact here.trans memoryTerm.symm
  · rw [log]
    refine ⟨length,front.length_le,?_,term.trans (termAt_shorter front le_rfl).symm,?_⟩
    · change rf.keptAbove _ = _
      rw [Raft.keptAbove,holds.getLastLogIndex,length]
      split
      · next longer =>
        rw [same (by omega),holds.logs_eq,List.drop_drop]
        congr 1
        omega
      · next shorter =>
        rcases adopted with ⟨_,rfl⟩ | ⟨_,rfl⟩
        · exact (List.drop_eq_nil_of_le (by omega)).symm
        · exact List.drop_length.symm
    · rcases adopted with ⟨_,rfl⟩ | ⟨_,rfl⟩
      · exact holds.numbered
      · rcases known with rfl | ⟨t,P,_,committed,sub⟩
        · intro i e found; simp at found
        · exact (numbered committed.led).shorter sub
  · rw [log,moved,whole]
    exact adv.grows.known known
  · have reached : max rf.commitIndex args.lastsnapshotincludeindex = (max k C.length : Nat) := by
      rw [commit,length]; omega
    refine ⟨max k C.length,?_,?_,?_⟩
    · change max (rf.followDurably args.term).commitIndex args.lastsnapshotincludeindex = _
      rw [quiet.commit,reached]
    · rw [log]
      rcases adopted with ⟨sub,rfl⟩ | ⟨other,rfl⟩
      · exact max_le bound sub.length_le
      · exact max_le (bound.trans (long.resolve_left other)) le_rfl
    · rw [log,moved]
      rcases le_total k C.length with shorter | longer
      · rw [max_eq_right shorter,whole]
        exact adv.grows.known known
      · rw [max_eq_left longer]
        rcases adopted with ⟨_,rfl⟩ | ⟨other,rfl⟩
        · exact (adv.grows.known known').mono rise
        · obtain rfl : k = N.length := le_antisymm (bound.trans (long.resolve_left other)) longer
          rw [whole]
          exact adv.grows.known known
  · have follower : (rf.followDurably args.term).status = .Follower := by
      unfold Raft.followDurably; split <;> rfl
    exact absurd (follower.symm.trans leader) (by simp)

/-- The commit index a majority of successes moves to is the end of a committed log. -/
theorem commitRound (rel : Refines s leads v rf) (leader : rf.status = .Leader)
    {args : AppendEntriesArgs Cmd} (carries : Carries s M args) (term : args.term = rf.currentTerm)
    (full : ∃ A : Finset (Fin n), Majority A ∧ ∀ u ∈ A, s.acked u args.term M) :
    Refines s leads v (rf.commitRound args) := by
  unfold Raft.commitRound
  split
  · next own =>
    obtain ⟨_,_,durable,led,latest,_⟩ := rel.leader leader
    obtain ⟨k,reached,bound,known⟩ := rel.commit
    obtain ⟨q,inside,_,_,entries⟩ := carries.entries
    have sub : M <+: s.log v := latest M (term ▸ carries.led)
    have last : ∃ front e, M = front ++ [e] ∧ e.logterm = args.term := by
      obtain ⟨e,ends,same⟩ := Option.map_eq_some_iff.mp own
      rw [entries,List.getLast?_drop] at ends
      split at ends
      · simp at ends
      · obtain ⟨front,eq⟩ := List.getLast?_eq_some_iff.mp ends
        exact ⟨front,e,eq,same.trans term.symm⟩
    have committed : s.Committed LogEntry.logterm args.term M := ⟨carries.led,last,full⟩
    have whole : (s.log v).take M.length = M := (List.prefix_iff_eq_take.mp sub).symm
    have here : s.term v = args.term := rel.term.trans (durable.trans term.symm)
    have sum : max rf.commitIndex args.lastIndex = (max k M.length : Nat) := by
      rw [reached,carries.lastIndex]; omega
    rw [sum]
    refine rel.commitTo (max_le bound sub.length_le) ?_
    rcases le_total k M.length with shorter | longer
    · rw [max_eq_right shorter,whole]
      exact .inr ⟨args.term,M,le_of_eq here.symm,committed,List.prefix_rfl⟩
    · rw [max_eq_left longer]; exact known
  · exact rel

end Refines
end KvStorage
