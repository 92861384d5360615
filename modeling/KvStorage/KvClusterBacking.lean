import KvStorage.KvCluster

/-! What nodes and channels hold is backed by the service as clerks see it: entries that were started,
commands in the agreed order and snapshots that some server made. -/
namespace KvStorage
open Requests

namespace Cluster

variable {c c' : Cluster n Cmd Snap} {action : KvStorage.Action n Cmd Snap} {v : Fin n} {a : NodeAction n Cmd Snap}

theorem handles_getApplyLogs (runs : c.handles action = some (v,.getApplyLogs)) : action = .getApplyLogs v := by
  cases action <;> simp [handles,Option.bind_eq_some_iff] at runs ⊢
  grind

variable [DecidableEq Cmd]

/-- The node of a section after it, whether it ended normally or not. -/
theorem node_resume (taken : c.step action = some c') (runs : c.handles action = some (v,a))
    (raftId : (c.node v).raftId = v) : c'.node = Function.update c.node v ((c.node v).resume ((c.node v).handle a)) := by
  rcases nodeMove_step taken with ⟨idle,_⟩ | ⟨ran,done,node⟩ | ⟨ran,exit,mid,node,crashed⟩
  · rw [runs] at idle
    cases idle
  · obtain ⟨rfl,rfl⟩ := Prod.mk.inj (Option.some.inj (runs.symm.trans ran))
    rw [node,done]
    rfl
  · obtain ⟨rfl,rfl⟩ := Prod.mk.inj (Option.some.inj (runs.symm.trans ran))
    rw [crashed,exit]
    change Function.update mid.node v _ = _
    rw [node,Raft.resume,raftId]

theorem node_idle (taken : c.step action = some c') (idle : c.handles action = none) : c'.node = c.node := by
  rcases nodeMove_step taken with ⟨_,node⟩ | ⟨ran,_,_⟩ | ⟨ran,_,_,_,_⟩
  · exact node
  · rw [idle] at ran
    cases ran
  · rw [idle] at ran
    cases ran

omit [DecidableEq Cmd] in
theorem applied_mem {msgs : List (ApplyMsg Cmd Snap)} {x : Cmd} {i : Int} (member : .command x i ∈ msgs) (v : Fin n) :
    Event.apply v i x ∈ applied v msgs := by
  induction msgs with
  | nil => cases member
  | cons msg rest ih =>
    rcases List.mem_cons.mp member with rfl | later
    · exact List.mem_cons_self
    · cases msg with
      | command y j => exact List.mem_cons_of_mem _ (ih later)
      | snapshot => exact ih later

theorem apply_handed (taken : c.step (.getApplyLogs v) = some c') {rf : Raft n Cmd Snap}
    {msgs : List (ApplyMsg Cmd Snap)} (done : (c.node v).getApplyLogs = .ok (rf,msgs)) {x : Cmd} {i : Int} (member : .command x i ∈ msgs) :
    .apply v i x ∈ c'.history := by
  obtain rfl := Option.some.inj taken
  rw [done]
  exact List.mem_append_right _ (applied_mem member v)

end Cluster

namespace KvCluster

/-- The snapshot up to the index is none at all, or some server's that covers this much. -/
def Sourced (t : KvSystem) (data : Option Server) (index : Int) : Prop :=
  (data = none ∧ index = 0) ∨ ∃ other ∈ t.snapshots, data = some other ∧ index = other.covered

/-- The index of the last command that the server took on. -/
def upto (server : Server) : Nat :=
  match server.applying with
  | .checked _ _ => server.covered + 1
  | _ => server.covered

/-- The server is where the messages that it popped have brought it. -/
structure Place (c : ApplyChannel n Op Server) (server : Server) : Prop where
  restored : c.restored ≤ server.covered
  popped : ∀ msg ∈ c.popped, msg.index ≤ upto server
  reached : server.applying = .idle → (server.covered : Int) ≤ c.restored ∨
    (∃ op, .command op server.covered ∈ c.popped) ∨ (server.covered : Int) ≤ server.kv.lastSnapShotRaftLogIndex
  current : ∀ op, (server.applying = .executed op ∨ ∃ duplicate, server.applying = .checked op duplicate) →
    .command op (upto server) ∈ c.popped

theorem Place.frame {c c' : ApplyChannel n Op Server} {server : Server} (place : Place c server)
    (popped : c'.popped = c.popped) (restored : c'.restored = c.restored) : Place c' server := by
  constructor
  · rw [restored]
    exact place.restored
  · rw [popped]
    exact place.popped
  · rw [popped,restored]
    exact place.reached
  · rw [popped]
    exact place.current

/-- All that nodes and channels hold, against what was started, committed and saved. -/
structure Backed (t : KvSystem) (s : KvCluster n) : Prop where
  reach : Cluster.Reach Cluster.Clean s.cluster
  started : s.cluster.Only fun e => e.command ∈ t.started
  based : s.cluster.Based (Sourced t)
  entries : ∀ (k : Nat) op, t.entries[k]? = some op → ∃ v, .apply v (k + 1) op ∈ s.cluster.history
  node : ∀ v, (s.channels v).node = s.cluster.node v
  ordered : ∀ v, ∃ first, (s.channels v).Ordered first
  rising : ∀ v, (s.channels v).Rising
  contents : ∀ v, (s.channels v).Contents (fun x i => .apply v i x ∈ s.cluster.history) (Sourced t)
  places : ∀ v : Fin n, Place (s.channels v) (s.servers v)

variable {t t' : KvSystem} {s s' : KvCluster n} {v : Fin n}

theorem Sourced.mono (grows : t.snapshots ⊆ t'.snapshots) {data : Option Server} {index : Int}
    (sourced : Sourced t data index) : Sourced t' data index :=
  sourced.imp id fun ⟨other,member,rest⟩ => ⟨other,grows member,rest⟩

theorem Backed.grow (backed : Backed t s) (started : t.started ⊆ t'.started) (snapshots : t.snapshots ⊆ t'.snapshots)
    (entries : t'.entries = t.entries) : Backed t' s where
  reach := backed.reach
  started := backed.started.mono fun _ member => started member
  based := backed.based.mono fun _ _ => .mono snapshots
  entries := by
    rw [entries]
    exact backed.entries
  node := backed.node
  ordered := backed.ordered
  rising := backed.rising
  contents w := (backed.contents w).mono (fun _ _ => id) fun _ _ => .mono snapshots
  places := backed.places

/-- One server changes, and keeps its place. -/
theorem Backed.setServer (backed : Backed t s) {server : Server} (place : Place (s.channels v) server) :
    Backed t (s.setServer v server) := by
  refine { backed with places := fun w => ?_ }
  change Place (s.channels w) (Function.update s.servers v server w)
  by_cases same : (w : Nat) = v
  · obtain rfl := Fin.ext same
    rwa [Function.update_self]
  · rw [Function.update_of_ne same]
    exact backed.places w

/-- A channel moves with its server. -/
theorem Backed.setChannel (backed : Backed t s) {channel : ApplyChannel n Op Server} {server : Server}
    {action : ChannelAction n Op Server} (push : ∀ a, action ≠ .handle a) (turn : (s.channels v).InTurn action)
    (moved : (s.channels v).step action = some channel) (node : channel.node = (s.channels v).node)
    (place : Place channel server) : Backed t ((s.setChannel v channel).setServer v server) := by
  obtain ⟨first,ordered⟩ := backed.ordered v
  have contents := (backed.contents v).step moved (fun _ _ _ _ eq => absurd eq (push _)) fun _ eq => absurd eq (push _)
  refine { backed with node := ?_, ordered := ?_, rising := ?_, contents := ?_, places := fun w => ?_ }
  · exact (Function.forall_update_iff s.channels fun w (c : ApplyChannel n Op Server) => c.node = s.cluster.node w).mpr
      ⟨node.trans (backed.node v),fun w _ => backed.node w⟩
  · exact (Function.forall_update_iff s.channels fun _ (c : ApplyChannel n Op Server) => ∃ first, c.Ordered first).mpr
      ⟨ordered.step turn moved,fun w _ => backed.ordered w⟩
  · exact (Function.forall_update_iff s.channels fun _ (c : ApplyChannel n Op Server) => c.Rising).mpr
      ⟨(backed.rising v).step ordered moved,fun w _ => backed.rising w⟩
  · exact (Function.forall_update_iff s.channels fun w (c : ApplyChannel n Op Server) =>
      c.Contents (fun x i => .apply w i x ∈ s.cluster.history) (Sourced t)).mpr ⟨contents,fun w _ => backed.contents w⟩
  · change Place (Function.update s.channels v channel w) (Function.update s.servers v server w)
    by_cases same : w = v
    · subst same
      rwa [Function.update_self,Function.update_self]
    · rw [Function.update_of_ne same,Function.update_of_ne fun eq => same (Fin.ext eq)]
      exact backed.places w

/-- A process that starts again is where the snapshot on its disk is. -/
theorem place_boot {left : Persister Op Server} (sourced : Sourced t left.snapshot left.image.lastSnapshotIncludeIndex)
    (raftId : Fin n) (maxRaftStateSize : Int) (rand : Nat → Nat) :
    Place (ApplyChannel.boot raftId left) (KvSystem.boot maxRaftStateSize rand left.snapshot) := by
  have base : (ApplyChannel.boot raftId left).restored = left.image.lastSnapshotIncludeIndex := by
    simp only [ApplyChannel.boot,Raft.init_eq]
  have covered : (ApplyChannel.boot raftId left).restored =
      (KvSystem.boot maxRaftStateSize rand left.snapshot).covered := by
    rw [base]
    rcases sourced with ⟨none,zero⟩ | ⟨other,_,some,index⟩
    · rw [none,zero]
      rfl
    · rw [some,index]
      rfl
  have idle : (KvSystem.boot maxRaftStateSize rand left.snapshot).applying = .idle := by
    cases left.snapshot <;> rfl
  constructor
  · exact covered.le
  · intro msg member
    cases member
  · exact fun _ => .inl covered.ge
  · rintro op (here | ⟨_,here⟩) <;> rw [idle] at here <;> cases here

/-- A section leaves the servers, unless its process ends and loads the snapshot that is on its disk. -/
inductive Restarts (t : KvSystem) (s s' : KvCluster n) (rand : Nat → Nat) : Prop where
  | none : s'.servers = s.servers → Restarts t s s' rand
  | some (v : Fin n) (snapshot : Option Server) : (∀ other ∈ snapshot, other ∈ t.snapshots) →
      s'.servers = Function.update s.servers v (KvSystem.boot (s.servers v).kv.maxRaftStateSize rand snapshot) →
      Restarts t s s' rand

theorem Backed.raft (backed : Backed t s) {action : KvStorage.Action n Op Server} {rand : Nat → Nat}
    (clean : s.cluster.Clean action)
    (turn : ∀ v a, s.cluster.handles action = some (v,a) → (s.channels v).InTurn (.handle a))
    (started : ∀ v command, action = .start v command → (s.cluster.node v).status = .Leader → command ∈ t.started)
    (saved : ∀ v index data, action = .snapshot v index data → Sourced t data index)
    (moves : RaftMoves s action rand s') : Backed t s' ∧ Restarts t s s' rand := by
  have appending := Cluster.appending_of_reach backed.reach
  have cluster {c' : Cluster n Op Server} (taken : s.cluster.step action = some c') :
      Cluster.Reach Cluster.Clean c' ∧ c'.Only (fun e => e.command ∈ t.started) ∧ c'.Based (Sourced t) ∧
        (∀ (k : Nat) op, t.entries[k]? = some op → ∃ v, .apply v (k + 1) op ∈ c'.history) ∧
        ∀ w, (s.channels w).Contents (fun x i => .apply w i x ∈ c'.history) (Sourced t) := by
    refine ⟨.next backed.reach clean taken,backed.started.step appending taken started,
      backed.based.step taken saved,?_,?_⟩
    · intro k op here
      obtain ⟨v,applied⟩ := backed.entries k op here
      exact ⟨v,Cluster.history_step taken applied⟩
    · exact fun w => (backed.contents w).mono (fun _ _ applied => Cluster.history_step taken applied) fun _ _ => id
  have channel {c' : Cluster n Op Server} {v : Fin n} {a : NodeAction n Op Server} {moved : ApplyChannel n Op Server}
      (taken : s.cluster.step action = some c') (runs : s.cluster.handles action = some (v,a))
      (handled : (s.channels v).step (.handle a) = some moved) :
      (∀ w, (Function.update s.channels v moved w).node = c'.node w) ∧
        (∀ w, ∃ first, (Function.update s.channels v moved w).Ordered first) ∧
        (∀ w, (Function.update s.channels v moved w).Rising) ∧
        ∀ w, (Function.update s.channels v moved w).Contents (fun x i => .apply w i x ∈ c'.history) (Sourced t) := by
    have node := (ApplyChannel.handles handled).node
    rw [backed.node v] at node
    have nodes := Cluster.node_resume taken runs (appending.balanced.raftId v)
    obtain ⟨first,ordered⟩ := backed.ordered v
    refine ⟨fun w => ?_,?_,?_,?_⟩
    · rw [nodes]
      by_cases same : w = v
      · subst same
        rw [Function.update_self,Function.update_self,node]
      · rw [Function.update_of_ne same,Function.update_of_ne same]
        exact backed.node w
    · exact (Function.forall_update_iff s.channels fun _ (c : ApplyChannel n Op Server) => ∃ first, c.Ordered first).mpr
        ⟨ordered.step (turn v a runs) handled,fun w _ => backed.ordered w⟩
    · exact (Function.forall_update_iff s.channels fun _ (c : ApplyChannel n Op Server) => c.Rising).mpr
        ⟨(backed.rising v).step ordered handled,fun w _ => backed.rising w⟩
    · refine (Function.forall_update_iff s.channels fun w (c : ApplyChannel n Op Server) =>
        c.Contents (fun x i => .apply w i x ∈ c'.history) (Sourced t)).mpr ⟨?_,fun w _ => (cluster taken).2.2.2.2 w⟩
      refine ((cluster taken).2.2.2.2 v).step handled ?_ ?_
      · intro rf msgs x i eq done member
        cases eq
        obtain rfl := Cluster.handles_getApplyLogs runs
        rw [backed.node v] at done
        exact Cluster.apply_handed taken done member
      · intro args eq
        cases eq
        obtain ⟨k,call,_,found,_,rfl⟩ := Cluster.handles_installSnapshotImpl runs
        exact backed.based.calls call (List.mem_of_getElem? found)
  cases moves with
  | idle taken idle =>
    obtain ⟨reach,only,based,entries,contents⟩ := cluster taken
    refine ⟨⟨reach,only,based,entries,fun w => ?_,backed.ordered,backed.rising,contents,backed.places⟩,.none rfl⟩
    rw [Cluster.node_idle taken idle]
    exact backed.node w
  | @ran c' v a moved rf taken runs handled done =>
    obtain ⟨reach,only,based,entries,_⟩ := cluster taken
    obtain ⟨node,ordered,rising,contents⟩ := channel taken runs handled
    refine ⟨⟨reach,only,based,entries,node,ordered,rising,contents,fun w => ?_⟩,.none rfl⟩
    change Place (Function.update s.channels v moved w) (s.servers w)
    by_cases same : w = v
    · subst same
      rw [← backed.node w] at done
      obtain ⟨popped,restored⟩ := (ApplyChannel.handles handled).popped done
      rw [Function.update_self]
      exact (backed.places w).frame popped restored
    · rw [Function.update_of_ne same]
      exact backed.places w
  | @ended c' v a moved left taken runs handled exit =>
    obtain ⟨reach,only,based,entries,_⟩ := cluster taken
    obtain ⟨node,ordered,rising,contents⟩ := channel taken runs handled
    have sourced := backed.based.exit runs exit saved
    refine ⟨⟨reach,only,based,entries,node,ordered,rising,contents,fun w => ?_⟩,.some v left.snapshot ?_ rfl⟩
    · change Place (Function.update s.channels v moved w) (Function.update s.servers v _ w)
      by_cases same : w = v
      · subst same
        rw [← backed.node w] at exit
        rw [Function.update_self,Function.update_self,(ApplyChannel.handles handled).exit exit]
        exact place_boot sourced _ _ _
      · rw [Function.update_of_ne same,Function.update_of_ne fun eq => same (Fin.ext eq)]
        exact backed.places w
    · intro other held
      rcases sourced with ⟨none,_⟩ | ⟨saved,inside,some,_⟩
      · rw [none] at held
        cases held
      · rw [some] at held
        obtain rfl := Option.some.inj held
        exact inside

end KvCluster
end KvStorage
