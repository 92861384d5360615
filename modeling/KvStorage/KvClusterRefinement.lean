import KvStorage.KvClusterBacking

/-! The whole service does what clerks and servers over one committed sequence do. Each step of an
orderly run is a few steps of that system, so its properties hold of the service. -/
namespace KvStorage
open Requests Linearizability

namespace KvSystem

variable {t : KvSystem}

/-- A server may start again from no snapshot or from any that was made. -/
theorem step_restart {snapshot : Option Server} (held : ∀ other ∈ snapshot, other ∈ t.snapshots) (i : Nat)
    (rand : Nat → Nat) : ∃ k, t.step (.restart i rand k) = some (t.setServer i (boot (t.servers i).kv.maxRaftStateSize rand snapshot)) := by
  cases snapshot with
  | none => exact ⟨none,rfl⟩
  | some other =>
    obtain ⟨k,there⟩ := List.mem_iff_getElem?.mp (held other rfl)
    exact ⟨some k,by simp only [step,there]⟩

end KvSystem

namespace KvCluster

variable {t t' : KvSystem} {s s' : KvCluster n} {v : Fin n} {maxRaftStateSize : Int} {rand : Nat → Nat → Nat}

/-- The service as clerks and servers see it. -/
structure Refines (t : KvSystem) (s : KvCluster n) : Prop where
  backed : Backed t s
  servers : t.servers = s.servers
  made : ∀ v, ∀ saved ∈ s.made v, saved ∈ t.snapshots
  clerks : t.clerks = s.clerks
  sent : t.sent = s.sent
  events : t.events = s.history

/-- Some run of clerks and servers leads to what this state of the service is for them. -/
def Explained (maxRaftStateSize : Int) (rand : Nat → Nat → Nat) (s : KvCluster n) : Prop :=
  ∃ t, Run.Reach KvSystem.step KvSystem.Keeps (.new n maxRaftStateSize rand) t ∧ Refines t s

theorem backed_initial (maxRaftStateSize : Int) (rand : Nat → Nat → Nat) :
    Backed (.new n maxRaftStateSize rand) (initial n maxRaftStateSize rand) where
  reach := .start
  started := .initial
  based := .initial (.inl ⟨rfl,rfl⟩)
  entries _ _ here := by cases here
  node _ := rfl
  ordered v := ApplyChannel.boot_ordered v {}
  rising v := ApplyChannel.boot_rising v {}
  contents v := ApplyChannel.boot_contents v {}
  places v := by
    have sourced : Sourced (.new n maxRaftStateSize rand) none 0 := .inl ⟨rfl,rfl⟩
    exact place_boot sourced v maxRaftStateSize (rand v)

theorem refines_initial (maxRaftStateSize : Int) (rand : Nat → Nat → Nat) :
    Refines (.new n maxRaftStateSize rand) (initial n maxRaftStateSize rand) :=
  ⟨backed_initial maxRaftStateSize rand,rfl,fun _ _ held => (by cases held),rfl,rfl,rfl⟩

theorem Backed.frame (backed : Backed t s) (cluster : s'.cluster = s.cluster) (channels : s'.channels = s.channels)
    (servers : s'.servers = s.servers) : Backed t s' := by
  obtain ⟨_,_,_,_,_,_,_⟩ := s
  obtain ⟨_,_,_,_,_,_,_⟩ := s'
  subst cluster channels servers
  exact ⟨backed.reach,backed.started,backed.based,backed.entries,backed.node,backed.ordered,backed.rising,
    backed.contents,backed.places⟩

/-! ### Clerks -/

theorem Refines.setClerk (refines : Refines t s) (client : String) (p : ClerkProcess) :
    Refines (t.setClerk client p) (s.setClerk client p) where
  backed := by
    have grown : Backed (t.setClerk client p) s := refines.backed.grow (fun _ => id) (fun _ => id) rfl
    exact grown.frame rfl rfl rfl
  servers := refines.servers
  made := refines.made
  clerks := by
    change Function.update t.clerks client p = Function.update s.clerks client p
    rw [refines.clerks]
  sent := refines.sent
  events := refines.events

theorem Refines.record (refines : Refines t s) (e : CallEvent Op String) : Refines (t.record e) (s.record e) where
  backed := by
    have grown : Backed (t.record e) s := refines.backed.grow (fun _ => id) (fun _ => id) rfl
    exact grown.frame rfl rfl rfl
  servers := refines.servers
  made := refines.made
  clerks := refines.clerks
  sent := refines.sent
  events := by
    have whole : (t.record e).events = t.events ++ [e] := List.map_append ..
    rw [whole,refines.events]
    rfl

theorem Refines.resume (refines : Refines t s) (client : String) (args : Args) (round : Clerk × Clerk.Round) :
    Refines (t.resume client args round) (s.resume client args round) := by
  obtain ⟨clerk,round⟩ := round
  cases round with
  | again leaderId => exact refines.setClerk client _
  | done value => exact (refines.setClerk client _).record _

/-! ### Servers -/

theorem Refines.setServer (refines : Refines t s) {server : Server} (place : Place (s.channels v) server) :
    Refines (t.setServer v server) (s.setServer v server) where
  backed := by
    have grown : Backed (t.setServer v server) s := refines.backed.grow (fun _ => id) (fun _ => id) rfl
    exact grown.setServer place
  servers := by
    change Function.update t.servers v server = Function.update s.servers v server
    rw [refines.servers]
  made := refines.made
  clerks := refines.clerks
  sent := refines.sent
  events := refines.events

theorem Refines.setChannel (refines : Refines t s) {channel : ApplyChannel n Op Server} {server : Server}
    {action : ChannelAction n Op Server} (push : ∀ a, action ≠ .handle a) (turn : (s.channels v).InTurn action)
    (moved : (s.channels v).step action = some channel) (node : channel.node = (s.channels v).node)
    (place : Place channel server) : Refines (t.setServer v server) ((s.setChannel v channel).setServer v server) where
  backed := by
    have grown : Backed (t.setServer v server) s := refines.backed.grow (fun _ => id) (fun _ => id) rfl
    exact grown.setChannel push turn moved node place
  servers := by
    change Function.update t.servers v server = Function.update s.servers v server
    rw [refines.servers]
  made := refines.made
  clerks := refines.clerks
  sent := refines.sent
  events := refines.events

/-- Only `check` looks at the entries. -/
theorem step_entries {server server' : Server} {a : Requests.Action} (taken : server.step [] a = some server')
    (entries : List Op) : server.step entries a = some server' := by
  cases a with
  | check =>
    simp only [Server.step] at taken
    split at taken
    · next here => cases here
    · cases taken
  | _ => exact taken

theorem Place.serve {c : ApplyChannel n Op Server} {server server' : Server} (place : Place c server)
    {a : Requests.Action} (inner : KvSystem.inner a = true) (taken : server.step [] a = some server') : Place c server' := by
  cases Server.moves taken with
  | getImpl => cases inner
  | putAppendImpl => cases inner
  | handler there ran =>
    refine ⟨place.restored,place.popped,fun idle => ?_,place.current⟩
    have same := ran.skips
    simp only [Server.goOn] at idle ⊢
    rw [same]
    exact place.reached idle
  | skip here => cases here
  | check here => cases here
  | @execute op duplicate here =>
    have last := place.current op (.inr ⟨duplicate,here⟩)
    have popped := place.popped
    simp only [upto,here] at last popped
    refine ⟨place.restored.trans (by simp),popped,fun here => (by cases here),?_⟩
    rintro other (same | ⟨_,same⟩)
    · cases same
      exact last
    · cases same
  | @sendMsgToWaitChan op here =>
    have last := place.current op (.inl here)
    have popped := place.popped
    simp only [upto,here] at last popped
    refine ⟨place.restored,popped,fun _ => .inr (.inl ⟨op,last⟩),?_⟩
    rintro other (same | ⟨_,same⟩) <;> cases same
  | getSnapshotFromRaft => cases inner

/-! ### Nodes -/

theorem RaftMoves.clients {action : KvStorage.Action n Op Server} {again : Nat → Nat}
    (moves : RaftMoves s action again s') :
    s'.clerks = s.clerks ∧ s'.sent = s.sent ∧ s'.history = s.history ∧ ∀ v, ∀ saved ∈ s'.made v, saved ∈ s.made v := by
  cases moves with
  | idle => exact ⟨rfl,rfl,rfl,fun _ _ => id⟩
  | ran => exact ⟨rfl,rfl,rfl,fun _ _ => id⟩
  | @ended _ u =>
    refine ⟨rfl,rfl,rfl,fun v saved held => ?_⟩
    change saved ∈ Function.update s.made u none v at held
    by_cases same : v = u
    · subst same
      rw [Function.update_self] at held
      cases held
    · rwa [Function.update_of_ne same] at held

/-- A section of a node is nothing to the clerks, or restarts a server. -/
theorem Refines.raft (refines : Refines t s)
    (reached : Run.Reach KvSystem.step KvSystem.Keeps (.new n maxRaftStateSize rand) t)
    {action : KvStorage.Action n Op Server} {again : Nat → Nat} (clean : s.cluster.Clean action)
    (turn : ∀ v a, s.cluster.handles action = some (v,a) → (s.channels v).InTurn (.handle a))
    (started : ∀ v command, action = .start v command → (s.cluster.node v).status = .Leader → command ∈ t.started)
    (saved : ∀ v index data, action = .snapshot v index data → Sourced t data index)
    (moves : RaftMoves s action again s') : Explained maxRaftStateSize rand s' := by
  obtain ⟨clerks,sent,history,made⟩ := moves.clients
  obtain ⟨backed,restarts⟩ := refines.backed.raft clean turn started saved moves
  cases restarts with
  | none servers =>
    refine ⟨t,reached,backed,?_,fun v saved held => refines.made v saved (made v saved held),?_,?_,?_⟩
    · rw [servers,refines.servers]
    · rw [clerks,refines.clerks]
    · rw [sent,refines.sent]
    · rw [history,refines.events]
  | some v snapshot held servers =>
    obtain ⟨k,restart⟩ := KvSystem.step_restart held v again
    have met : t.Keeps (.restart v again k) := trivial
    refine ⟨_,.next reached met restart,backed.grow (fun _ => id) (fun _ => id) rfl,?_,
      fun v saved held => refines.made v saved (made v saved held),?_,?_,?_⟩
    · rw [servers,← refines.servers]
      rfl
    · rw [clerks]
      exact refines.clerks
    · rw [sent]
      exact refines.sent
    · rw [history]
      exact refines.events

/-- What a node hands out for the next index is committed, now or before. -/
theorem Refines.commit (refines : Refines t s)
    (reached : Run.Reach KvSystem.step KvSystem.Keeps (.new n maxRaftStateSize rand) t) {w : Fin n} {op : Op} {k : Nat}
    (applied : .apply w (k + 1) op ∈ s.cluster.history) (inside : k ≤ t.entries.length) :
    ∃ t', Run.Reach KvSystem.step KvSystem.Keeps (.new n maxRaftStateSize rand) t' ∧ Refines t' s ∧
      t'.entries[k]? = some op ∧ t'.snapshots = t.snapshots := by
  obtain ⟨ghost,sim⟩ := Cluster.simulated_of_clean refines.backed.reach
  rcases inside.lt_or_eq with before | rfl
  · refine ⟨t,reached,refines,?_,rfl⟩
    have here := List.getElem?_eq_getElem before
    obtain ⟨u,there⟩ := refines.backed.entries k _ here
    rw [here,Cluster.appliedAgree_of_simulates sim u w (k + 1) _ _ there applied]
  · obtain ⟨_,started⟩ := refines.backed.started.applied w _ op applied
    have taken : t.step (.commit op) = some { t with entries := t.entries ++ [op] } := if_pos started
    have entries : ∀ (k : Nat) other, (t.entries ++ [op])[k]? = some other →
        ∃ v, .apply v (k + 1) other ∈ s.cluster.history := by
      intro k other here
      rcases Nat.lt_trichotomy k t.entries.length with before | rfl | after
      · rw [List.getElem?_append_left before] at here
        exact refines.backed.entries k other here
      · rw [List.getElem?_concat_length] at here
        cases here
        exact ⟨w,applied⟩
      · rw [List.getElem?_eq_none (by simp; omega)] at here
        cases here
    have backed := refines.backed
    have met : t.Keeps (.commit op) := trivial
    refine ⟨_,.next reached met taken,
      ⟨?_,refines.servers,refines.made,refines.clerks,refines.sent,refines.events⟩,?_,rfl⟩
    · exact ⟨backed.reach,backed.started,backed.based,entries,backed.node,backed.ordered,backed.rising,
        backed.contents,backed.places⟩
    · exact List.getElem?_concat_length

/-! ### Each step -/

section Simulation
variable (refines : Refines t s) (reached : Run.Reach KvSystem.step KvSystem.Keeps (.new n maxRaftStateSize rand) t)
include refines reached

/-- A handler starts, and `start` with it. -/
theorem Refines.deliver {args : Args} (taken : s.step (.deliver v args) = some s') :
    Explained maxRaftStateSize rand s' := by
  simp only [step] at taken
  split at taken
  · next arrived =>
    generalize starts : (s.cluster.node v).start args.op = result at taken
    obtain ⟨rf,newLogIndex,newLogTerm,isLeader⟩ := result
    obtain ⟨mid,ran,taken⟩ := Option.bind_eq_some_iff.mp taken
    obtain ⟨server,served,rfl⟩ := Option.map_eq_some_iff.mp taken
    let t₁ : KvSystem := { t with started := if isLeader then t.started ++ [args.op] else t.started }
    have grown : Backed t₁ s := by
      refine refines.backed.grow (fun op member => ?_) (fun _ => id) rfl
      change op ∈ if isLeader then t.started ++ [args.op] else t.started
      split
      · exact List.mem_append_left _ member
      · exact member
    have leading : (s.cluster.node v).status = .Leader → args.op ∈ t₁.started := by
      intro leader
      rw [Raft.start_leader leader] at starts
      cases starts
      exact List.mem_append_right _ List.mem_cons_self
    have moves := raftMoves ran
    obtain ⟨clerks,sent,history,made⟩ := moves.clients
    have servers : mid.servers = s.servers := by
      cases moves with
      | idle => rfl
      | ran => rfl
      | ended _ runs _ exit =>
        obtain ⟨rfl,rfl⟩ := Prod.mk.inj (Option.some.inj runs)
        cases exit
    have clean : s.cluster.Clean (.start v args.op) := trivial
    have turn : ∀ w a, s.cluster.handles (.start v args.op) = some (w,a) → (s.channels w).InTurn (.handle a) := by
      rintro w a ⟨⟩
      trivial
    obtain ⟨backed,_⟩ := grown.raft clean turn (by rintro w command ⟨⟩; exact leading) (by rintro w i data ⟨⟩) moves
    have same : Refines t₁ mid :=
      ⟨backed,refines.servers.trans servers.symm,fun w saved held => refines.made w saved (made w saved held),
        refines.clerks.trans clerks.symm,refines.sent.trans sent.symm,refines.events.trans history.symm⟩
    have place : Place (mid.channels v) server := by
      have before := backed.places v
      cases args with
      | Get =>
        obtain rfl := Option.some.inj served
        exact ⟨before.restored,before.popped,before.reached,before.current⟩
      | PutAppend =>
        obtain rfl := Option.some.inj served
        exact ⟨before.restored,before.popped,before.reached,before.current⟩
    have met : t.Keeps (.deliver v args newLogIndex isLeader) := trivial
    have sent_ : (v.val,args) ∈ t.sent := by
      rw [refines.sent]
      exact List.contains_iff_mem.mp arrived
    have delivered : t.step (.deliver v args newLogIndex isLeader) = some (t₁.setServer v server) := by
      have served := step_entries served t.entries
      rw [servers,← refines.servers] at served
      simp only [KvSystem.step,if_pos sent_,served]
      rfl
    exact ⟨_,.next reached met delivered,same.setServer place⟩
  · cases taken

/-- The server makes a snapshot of itself. -/
theorem Refines.ifNeedToSendSnapshotCommand {raftStateSize : Int}
    (taken : s.step (.ifNeedToSendSnapshotCommand v raftStateSize) = some s') : Explained maxRaftStateSize rand s' := by
  simp only [step] at taken
  split at taken
  · next op here _ =>
    split at taken
    · next due =>
      obtain rfl := Option.some.inj taken
      have met : t.Keeps (.ifNeedToSendSnapshotCommand v raftStateSize) := trivial
      have makes : t.step (.ifNeedToSendSnapshotCommand v raftStateSize) =
          some { t with snapshots := t.snapshots ++ [t.servers v] } := by
        simp only [KvSystem.step,refines.servers,here,if_pos due]
      have grown : Backed { t with snapshots := t.snapshots ++ [t.servers v] } s :=
        refines.backed.grow (fun _ => id) (fun _ => List.mem_append_left _) rfl
      refine ⟨_,.next reached met makes,grown.frame rfl rfl rfl,refines.servers,fun w saved held => ?_,
        refines.clerks,refines.sent,refines.events⟩
      change saved ∈ Function.update s.made v (some (s.servers v)) w at held
      by_cases same : w = v
      · subst same
        rw [Function.update_self] at held
        obtain rfl := Option.some.inj held
        rw [← refines.servers]
        exact List.mem_append_right _ List.mem_cons_self
      · rw [Function.update_of_ne same] at held
        exact List.mem_append_left _ (refines.made w saved held)
    · cases taken
  · cases taken

/-- The node is given the snapshot that its server has made. -/
theorem Refines.snapshot {again : Nat → Nat} (taken : s.step (.snapshot v again) = some s') :
    Explained maxRaftStateSize rand s' := by
  simp only [step] at taken
  split at taken
  · next saved here =>
    obtain ⟨mid,ran,rfl⟩ := Option.map_eq_some_iff.mp taken
    have clean : s.cluster.Clean (.snapshot v saved.covered (some saved)) := trivial
    have turn : ∀ w a, s.cluster.handles (.snapshot v saved.covered (some saved)) = some (w,a) →
        (s.channels w).InTurn (.handle a) := by
      rintro w a ⟨⟩
      trivial
    have sourced : Sourced t (some saved) saved.covered := .inr ⟨saved,refines.made v saved here,rfl,rfl⟩
    obtain ⟨t₁,reached₁,same⟩ := refines.raft reached clean turn (by rintro w command ⟨⟩)
      (by rintro w index data ⟨⟩; exact sourced) (raftMoves ran)
    refine ⟨t₁,reached₁,same.backed.frame rfl rfl rfl,same.servers,fun w other held => ?_,
      same.clerks,same.sent,same.events⟩
    change other ∈ Function.update mid.made v none w at held
    by_cases equal : w = v
    · subst equal
      rw [Function.update_self] at held
      cases held
    · rw [Function.update_of_ne equal] at held
      exact same.made w other held
  · cases taken

/-- A step of a server that is none of its handlers' calls. -/
theorem Refines.serve {a : Requests.Action} (met : Requests.Keeps (s.servers v) a)
    (taken : s.step (.serve v a) = some s') : Explained maxRaftStateSize rand s' := by
  simp only [step] at taken
  split at taken
  · next ready =>
    obtain ⟨inner,_⟩ := ready
    obtain ⟨server,served,rfl⟩ := Option.map_eq_some_iff.mp taken
    have kept : t.Keeps (.serve v a) := by
      change Requests.Keeps (t.servers v) a
      rwa [refines.servers]
    have serves : t.step (.serve v a) = some (t.setServer v server) := by
      simp only [KvSystem.step,if_pos inner,refines.servers,step_entries served t.entries]
      rfl
    exact ⟨_,.next reached kept serves,refines.setServer ((refines.backed.places v).serve inner served)⟩
  · cases taken

end Simulation

/-! ### What the server pops -/

section Popped
variable {c c' : ApplyChannel n Op Server} {server : Server} (place : Place c server) (idle : server.applying = .idle)
include place idle

theorem Place.skip {msg : ApplyMsg Op Server} (behind : msg.index ≤ server.covered)
    (popped : c'.popped = c.popped ++ [msg]) (restored : c'.restored = c.restored) : Place c' server := by
  refine ⟨restored ▸ place.restored,fun other member => ?_,fun idle => ?_,fun op here => ?_⟩
  · rw [popped] at member
    rcases List.mem_append.mp member with before | last
    · exact place.popped other before
    · obtain rfl := List.mem_singleton.mp last
      rw [upto,idle]
      exact behind
  · rw [popped,restored]
    rcases place.reached idle with base | ⟨other,member⟩ | skipped
    · exact .inl base
    · exact .inr (.inl ⟨other,List.mem_append_left _ member⟩)
    · exact .inr (.inr skipped)
  · rw [popped]
    exact List.mem_append_left _ (place.current op here)

theorem Place.check {op : Op} (duplicate : Bool) (popped : c'.popped = c.popped ++ [.command op (server.covered + 1)])
    (restored : c'.restored = c.restored) : Place c' { server with applying := .checked op duplicate } := by
  refine ⟨restored ▸ place.restored,fun other member => ?_,fun here => (by cases here),?_⟩
  · change other.index ≤ (server.covered + 1 : Nat)
    rw [popped] at member
    rcases List.mem_append.mp member with before | last
    · have le := place.popped other before
      rw [upto,idle] at le
      simp only at le
      omega
    · obtain rfl := List.mem_singleton.mp last
      exact le_rfl
  · rw [popped]
    rintro other (here | ⟨_,here⟩)
    · cases here
    · cases here
      exact List.mem_append_right _ List.mem_cons_self

theorem Place.load {other : Server} {term : Int} (ahead : server.covered < other.covered)
    (popped : c'.popped = c.popped ++ [.snapshot (some other) term other.covered])
    (restored : c'.restored = c.restored) : Place c' (received server (.snapshot (some other) term other.covered)) := by
  have covered : (received server (.snapshot (some other) term other.covered)).covered = other.covered := rfl
  have still : (received server (.snapshot (some other) term other.covered)).applying = .idle := idle
  refine ⟨?_,fun msg member => ?_,fun _ => .inr (.inr le_rfl),?_⟩
  · have base := place.restored
    rw [restored,covered]
    omega
  · rw [upto,still]
    change msg.index ≤ (other.covered : Int)
    rw [popped] at member
    rcases List.mem_append.mp member with before | last
    · have le := place.popped msg before
      rw [upto,idle] at le
      simp only at le
      omega
    · obtain rfl := List.mem_singleton.mp last
      exact le_rfl
  · rintro op (here | ⟨_,here⟩) <;> cases still.symm.trans here

end Popped

/-- The next command is the one after those covered, or the server skips it. -/
theorem Backed.next (backed : Backed t s) {op : Op} {i : Int} {rest : List (ApplyMsg Op Server)}
    (idle : (s.servers v).applying = .idle) (waiting : (s.channels v).applyChan = .command op i :: rest) :
    i ≤ (s.servers v).covered + 1 ∧
      ((s.servers v).covered < i ∨ i ≤ (s.servers v).kv.lastSnapShotRaftLogIndex) := by
  have place := backed.places v
  have rising := backed.rising v
  have upto : upto (s.servers v) = (s.servers v).covered := by rw [KvCluster.upto,idle]
  have popped := place.popped
  rw [upto] at popped
  have split : (s.channels v).pushed = (s.channels v).popped ++ .command op i :: rest := by
    rw [ApplyChannel.pushed,waiting]
  have commands : (s.channels v).commands = (s.channels v).popped.filterMap ApplyMsg.commandIndex ++
      i :: (rest ++ (s.channels v).applyMsgs).filterMap ApplyMsg.commandIndex := by
    rw [ApplyChannel.commands,split,List.append_assoc,List.filterMap_append]
    rfl
  constructor
  · by_cases first : i ≤ 1
    · omega
    obtain ⟨_,ordered⟩ := backed.ordered v
    rcases ordered.order.gapless _ op i rest split (i - 1) (by omega) (by omega) with base | ⟨msg,member,covers⟩
    · have restored := place.restored
      omega
    · have le := popped msg member
      cases msg with
      | command other j =>
        obtain rfl : j = i - 1 := covers
        change i - 1 ≤ _ at le
        omega
      | snapshot data term j =>
        change i - 1 ≤ j at covers
        change j ≤ _ at le
        omega
  · by_contra! beyond
    have order := rising.order
    rw [commands] at order
    rcases place.reached idle with base | ⟨other,member⟩ | skipped
    · have above := (rising.within i (by rw [commands]; exact List.mem_append_right _ List.mem_cons_self)).1
      omega
    · have earlier : ((s.servers v).covered : Int) ∈ (s.channels v).popped.filterMap ApplyMsg.commandIndex :=
        List.mem_filterMap.mpr ⟨_,member,rfl⟩
      have less := (List.pairwise_append.mp order).2.2 _ earlier i List.mem_cons_self
      omega
    · omega

theorem setServer_self {channel : ApplyChannel n Op Server} :
    (s.setChannel v channel).setServer v (s.servers v) = s.setChannel v channel := by
  change { s.setChannel v channel with servers := Function.update s.servers v (s.servers v) } = _
  rw [Function.update_eq_self]
  rfl

theorem pop_push (a : NodeAction n Op Server) : ChannelAction.pop ≠ .handle a := fun eq => by cases eq

section Messages
variable (refines : Refines t s) (reached : Run.Reach KvSystem.step KvSystem.Keeps (.new n maxRaftStateSize rand) t)
include refines

/-- A channel moves and its server does not. -/
theorem Refines.stay {channel : ApplyChannel n Op Server} {action : ChannelAction n Op Server}
    (push : ∀ a, action ≠ .handle a) (turn : (s.channels v).InTurn action)
    (moved : (s.channels v).step action = some channel) (node : channel.node = (s.channels v).node)
    (place : Place channel (s.servers v)) : Refines t (s.setChannel v channel) := by
  have both := refines.setChannel push turn moved node place
  have here : t.setServer v (s.servers v) = t := by
    rw [← refines.servers,KvSystem.setServer,Function.update_eq_self]
  rwa [here,setServer_self] at both

theorem Refines.pushApplied (turn : (s.channels v).InTurn .pushApplied) (taken : s.step (.pushApplied v) = some s') :
    Refines t s' := by
  obtain ⟨channel,moved,rfl⟩ := Option.map_eq_some_iff.mp taken
  have pushed := moved
  simp only [ApplyChannel.step] at pushed
  split at pushed
  · cases pushed
  · obtain rfl := Option.some.inj pushed
    have push : ∀ a, (ChannelAction.pushApplied : ChannelAction n Op Server) ≠ .handle a := fun a eq => by cases eq
    exact refines.stay push turn moved rfl ((refines.backed.places v).frame rfl rfl)

theorem Refines.pushMsgToKvServer {thread : Nat} (taken : s.step (.pushMsgToKvServer v thread) = some s') :
    Refines t s' := by
  obtain ⟨channel,moved,rfl⟩ := Option.map_eq_some_iff.mp taken
  have pushed := moved
  simp only [ApplyChannel.step] at pushed
  split at pushed
  · cases pushed
  · obtain rfl := Option.some.inj pushed
    have push : ∀ a, (ChannelAction.pushMsgToKvServer thread : ChannelAction n Op Server) ≠ .handle a :=
      fun a eq => by cases eq
    exact refines.stay push trivial moved rfl ((refines.backed.places v).frame rfl rfl)

include reached

/-- A command is skipped, or checked as the next entry. -/
theorem Refines.popCommand {op : Op} {i : Int} {rest : List (ApplyMsg Op Server)} {channel : ApplyChannel n Op Server}
    (idle : (s.servers v).applying = .idle) (waiting : (s.channels v).applyChan = .command op i :: rest)
    (moved : (s.channels v).step .pop = some channel) :
    Explained maxRaftStateSize rand
      ((s.setChannel v channel).setServer v (received (s.servers v) (.command op i))) := by
  obtain ⟨popped,restored,node⟩ := ApplyChannel.pops waiting moved
  have place := refines.backed.places v
  have serving := ((KvSystem.consistent_of_reach reached).servers v).serving
  rw [refines.servers] at serving
  obtain ⟨next,fresh⟩ := refines.backed.next idle waiting
  by_cases skipped : (s.servers v).kv.lastSnapShotRaftLogIndex ≥ i
  · have same : received (s.servers v) (.command op i) = s.servers v := if_pos skipped
    have behind : (ApplyMsg.command op i : ApplyMsg Op Server).index ≤ (s.servers v).covered :=
      skipped.trans serving.inv.skips
    have after := place.skip idle behind popped restored
    rw [same,setServer_self]
    exact ⟨t,reached,refines.stay pop_push trivial moved node after⟩
  · obtain rfl : i = (s.servers v).covered + 1 := by omega
    have applied := (refines.backed.contents v).waiting (.command op _) (by rw [waiting]; exact List.mem_cons_self)
    obtain ⟨t₁,reached₁,refines₁,here,_⟩ := refines.commit reached applied serving.covered
    have checked : received (s.servers v) (.command op ((s.servers v).covered + 1)) = { s.servers v with
        applying := .checked op ((s.servers v).kv.isRequestDuplicate op.ClientId op.RequestId) } := by
      simp only [received,if_neg skipped]
      simp
    rw [checked]
    have met : t₁.Keeps (.serve v .check) := trivial
    have serves : t₁.step (.serve v .check) = some (t₁.setServer v { s.servers v with
        applying := .checked op ((s.servers v).kv.isRequestDuplicate op.ClientId op.RequestId) }) := by
      simp only [KvSystem.step,KvSystem.inner,if_true,refines₁.servers,Server.step,idle,here,if_neg skipped]
      rfl
    have after := place.check idle ((s.servers v).kv.isRequestDuplicate op.ClientId op.RequestId) popped restored
    exact ⟨_,.next reached₁ met serves,refines₁.setChannel pop_push trivial moved node after⟩

/-- A snapshot that is ahead is loaded. -/
theorem Refines.popSnapshot {data : Option Server} {term i : Int} {rest : List (ApplyMsg Op Server)}
    {channel : ApplyChannel n Op Server} (idle : (s.servers v).applying = .idle)
    (waiting : (s.channels v).applyChan = .snapshot data term i :: rest)
    (moved : (s.channels v).step .pop = some channel) (ahead : (s.servers v).covered < i)
    (kept : ∀ other ∈ data, (s.servers v).kv.machine.Kept other.kv.machine) :
    Explained maxRaftStateSize rand
      ((s.setChannel v channel).setServer v (received (s.servers v) (.snapshot data term i))) := by
  obtain ⟨popped,restored,node⟩ := ApplyChannel.pops waiting moved
  have sourced := (refines.backed.contents v).waiting (.snapshot data term i) (by rw [waiting]; exact List.mem_cons_self)
  rcases sourced with ⟨_,zero⟩ | ⟨other,inside,rfl,rfl⟩
  · omega
  have before : (s.servers v).covered < other.covered := by omega
  obtain ⟨k,there⟩ := List.mem_iff_getElem?.mp inside
  have met : t.Keeps (.getSnapshotFromRaft v k) := by
    intro saved held
    rw [there] at held
    cases held
    change (t.servers v).kv.machine.Kept other.kv.machine
    rw [refines.servers]
    exact kept other rfl
  have serves : t.step (.getSnapshotFromRaft v k) =
      some (t.setServer v (received (s.servers v) (.snapshot (some other) term other.covered))) := by
    simp only [KvSystem.step,there,refines.servers,Server.step,idle,if_pos before]
    rw [received,idle]
    rfl
  have after := (refines.backed.places v).load idle before popped restored
  exact ⟨_,.next reached met serves,refines.setChannel pop_push trivial moved node after⟩

theorem Refines.pop (orderly : s.Orderly (.pop v)) (taken : s.step (.pop v) = some s') :
    Explained maxRaftStateSize rand s' := by
  simp only [step] at taken
  split at taken
  · next msg rest idle waiting =>
    obtain ⟨channel,moved,rfl⟩ := Option.map_eq_some_iff.mp taken
    cases msg with
    | command op i => exact refines.popCommand reached idle waiting moved
    | snapshot data term i =>
      obtain ⟨ahead,kept⟩ := orderly data term i (by rw [waiting]; rfl)
      exact refines.popSnapshot reached idle waiting moved ahead kept
  · cases taken

end Messages

/-! ### Runs -/

theorem explained_step (explained : Explained maxRaftStateSize rand s) {action : Action n} (orderly : s.Orderly action)
    (taken : s.step action = some s') : Explained maxRaftStateSize rand s' := by
  obtain ⟨t,reached,refines⟩ := explained
  cases action with
  | call client call =>
    simp only [step] at taken
    split at taken
    · cases taken
    · next free =>
      obtain rfl := Option.some.inj taken
      rw [← refines.clerks] at free ⊢
      have met : t.Keeps (.call client call) := trivial
      have called : t.step (.call client call) = some ((t.setClerk client ⟨((t.clerks client).clerk.begin call).1,
          some ⟨((t.clerks client).clerk.begin call).2,((t.clerks client).clerk.begin call).1.recentLeaderId⟩⟩).record
          (.call ((t.clerks client).clerk.begin call).2.op)) := by
        simp only [KvSystem.step,free]
      exact ⟨_,.next reached met called,(refines.setClerk client _).record _⟩
  | send client =>
    simp only [step] at taken
    split at taken
    · next calling here =>
      obtain rfl := Option.some.inj taken
      rw [← refines.clerks] at here
      have met : t.Keeps (.send client) := trivial
      have sends : t.step (.send client) = some { t with sent := t.sent ++ [(calling.leaderId,calling.args)] } := by
        simp only [KvSystem.step,here]
      have backed := refines.backed
      have same : Backed { t with sent := t.sent ++ [(calling.leaderId,calling.args)] } s :=
        backed.grow (fun _ => id) (fun _ => id) rfl
      refine ⟨_,.next reached met sends,same.frame rfl rfl rfl,refines.servers,refines.made,refines.clerks,?_,refines.events⟩
      change t.sent ++ _ = s.sent ++ _
      rw [refines.sent]
    · cases taken
  | deliver v args => exact refines.deliver reached taken
  | reply client i =>
    simp only [step] at taken
    split at taken
    · next calling here =>
      split at taken
      · next reply answered =>
        obtain rfl := Option.some.inj taken
        rw [← refines.clerks] at here ⊢
        rw [← refines.servers] at answered
        have met : t.Keeps (.reply client i) := trivial
        have replies : t.step (.reply client i) = some (t.resume client calling.args
            ((t.clerks client).clerk.received calling.args calling.leaderId (some reply))) := by
          simp only [KvSystem.step,here,answered]
        exact ⟨_,.next reached met replies,refines.resume client calling.args _⟩
      · cases taken
    · cases taken
  | fail client =>
    simp only [step] at taken
    split at taken
    · next calling here =>
      obtain rfl := Option.some.inj taken
      rw [← refines.clerks] at here ⊢
      have met : t.Keeps (.fail client) := trivial
      have fails : t.step (.fail client) = some (t.resume client calling.args
          ((t.clerks client).clerk.received calling.args calling.leaderId none)) := by
        simp only [KvSystem.step,here]
      exact ⟨_,.next reached met fails,refines.resume client calling.args _⟩
    · cases taken
  | raft action again =>
    simp only [step] at taken
    split at taken
    · next inside =>
      refine refines.raft reached orderly.1 orderly.2 ?_ ?_ (raftMoves taken)
      · rintro v command rfl
        cases inside
      · rintro v index data rfl
        cases inside
    · cases taken
  | pushApplied v => exact ⟨t,reached,refines.pushApplied orderly taken⟩
  | pushMsgToKvServer v thread => exact ⟨t,reached,refines.pushMsgToKvServer taken⟩
  | pop v => exact refines.pop reached orderly taken
  | serve v a => exact refines.serve reached orderly taken
  | ifNeedToSendSnapshotCommand v raftStateSize => exact refines.ifNeedToSendSnapshotCommand reached taken
  | snapshot v again => exact refines.snapshot reached taken

/-- Every state of an orderly run is one of clerks and servers over a committed sequence. -/
theorem explained_of_reach (reach : Run.Reach step Orderly (initial n maxRaftStateSize rand) s) :
    Explained maxRaftStateSize rand s :=
  reach.invariant (Explained maxRaftStateSize rand) ⟨_,.start,refines_initial maxRaftStateSize rand⟩
    fun _ _ _ _ explained orderly taken => explained_step explained orderly taken

end KvCluster
end KvStorage
