import KvStorage.AdoptRefinement
import KvStorage.ElectionSafety

/-! A cluster as a run of the abstract protocol. Besides the nodes, every message in
flight stands for a fact the protocol has recorded: a vote request for a campaign, an
append for a log its leader led, a snapshot for a committed log. -/
namespace KvStorage
open Replication

/-! ### What the messages stand for -/

structure AsksFor (s : Ghost n Cmd) (src : Fin n) (args : RequestVoteArgs) : Prop where
  positive : 1 ≤ args.term
  asked : ∃ L, s.asked src args.term L ∧ args.lastlogindex = L.length ∧
    args.lastlogterm = termAt L L.length

abbrev AppendThread (Cmd : Type) := Thread (AppendEntriesArgs Cmd) AppendEntriesReply
abbrev HeartbeatRound (n : Nat) (Cmd : Type) := Round n (AppendEntriesArgs Cmd) AppendEntriesReply

/-- The threads of one heartbeat round bring every peer to the same log. -/
structure Sends (s : Ghost n Cmd) (round : HeartbeatRound n Cmd) (T : Int)
    (M : List (LogEntry Cmd)) : Prop where
  acked : s.acked round.src T M
  peer : ∀ {p t}, round.thread p = some t → p ≠ round.src
  term : ∀ {p t}, round.thread p = some t → t.args.term = T
  carries : ∀ {p t}, round.thread p = some t → Carries s M t.args
  unanswered : ∀ {p t}, round.thread p = some t → t.inFlight = true → t.reply = none
  success : ∀ {p t reply}, round.thread p = some t → t.reply = some reply →
    reply.success = true → reply.term = T ∧ s.acked p T M
  counter : round.counter ≤ 1 + (round.tally (·.success)).card

def Heartbeat (s : Ghost n Cmd) (round : HeartbeatRound n Cmd) : Prop :=
  (∀ p, round.thread p = none) ∨ ∃ T M, Sends s round T M

/-- The command applied at an index is the one of a committed log. -/
def AppliedFrom (s : Ghost n Cmd) (i : Int) (x : Cmd) : Prop :=
  ∃ T K, s.Known T K ∧ ∃ (j : Nat) (e : LogEntry Cmd), i = (j : Int) + 1 ∧ K[j]? = some e ∧ e.command = x

namespace Sends

variable {s s' : Ghost n Cmd} {round : HeartbeatRound n Cmd} {T : Int} {M : List (LogEntry Cmd)}
  {p : Fin n} {t : AppendThread Cmd}

theorem mono (sends : Sends s round T M) (grows : Grows s s') : Sends s' round T M where
  acked := grows.acked sends.acked
  peer := sends.peer
  term := sends.term
  carries held := (sends.carries held).mono grows
  unanswered := sends.unanswered
  success held replied ok := (sends.success held replied ok).imp_right grows.acked
  counter := sends.counter

theorem setThread (sends : Sends s round T M) (held : round.thread p = some t)
    (t' : AppendThread Cmd) (args : t'.args = t.args)
    (unanswered : t'.inFlight = true → t'.reply = none)
    (success : ∀ {reply}, t'.reply = some reply → reply.success = true →
      reply.term = T ∧ s.acked p T M)
    (kept : t.reply.any (·.success) = true → t'.reply.any (·.success) = true)
    (settled : t.waiting = false → t'.waiting = false) {counter : Int}
    (counts : counter ≤ round.counter ∨ (counter ≤ round.counter + 1 ∧ t.waiting = true ∧
      t'.reply.any (·.success) = true ∧ t'.waiting = false)) :
    Sends s { round.setThread p t' with counter } T M where
  acked := sends.acked
  peer held' := by
    rcases Round.setThread_thread.mp held' with ⟨rfl,rfl⟩ | ⟨_,held'⟩
    exacts [sends.peer held,sends.peer held']
  term held' := by
    rcases Round.setThread_thread.mp held' with ⟨rfl,rfl⟩ | ⟨_,held'⟩
    exacts [args ▸ sends.term held,sends.term held']
  carries held' := by
    rcases Round.setThread_thread.mp held' with ⟨rfl,rfl⟩ | ⟨_,held'⟩
    exacts [args ▸ sends.carries held,sends.carries held']
  unanswered held' := by
    rcases Round.setThread_thread.mp held' with ⟨rfl,rfl⟩ | ⟨_,held'⟩
    exacts [unanswered,sends.unanswered held']
  success held' := by
    rcases Round.setThread_thread.mp held' with ⟨rfl,rfl⟩ | ⟨_,held'⟩
    exacts [success,sends.success held']
  counter := by
    have grown := Round.tally_setThread held kept settled counts
    have before := sends.counter
    change counter ≤ 1 + (((round.setThread p t').tally (·.success)).card : Int)
    omega

theorem abandon (sends : Sends s round T M) (v : Fin n) : Sends s (round.abandon v) T M where
  acked := Round.abandon_src.symm ▸ sends.acked
  peer held := by
    obtain ⟨_,before,_⟩ := Round.abandon_back held
    rw [Round.abandon_src]; exact sends.peer before
  term held := by
    obtain ⟨_,before,left⟩ := Round.abandon_back held
    rw [left.args]; exact sends.term before
  carries held := by
    obtain ⟨_,before,left⟩ := Round.abandon_back held
    rw [left.args]; exact sends.carries before
  unanswered held := by
    obtain ⟨_,before,left⟩ := Round.abandon_back held
    rw [left.inFlight,left.reply]; exact sends.unanswered before
  success held := by
    obtain ⟨_,before,left⟩ := Round.abandon_back held
    rw [left.reply]; exact sends.success before
  counter := by
    have more : (round.tally (·.success)).card ≤ ((round.abandon v).tally (·.success)).card :=
      Finset.card_le_card Round.tally_abandon
    have before := sends.counter
    rw [Round.abandon_counter]
    omega

/-- A full counter means that a majority acknowledged the log. -/
theorem majority (sends : Sends s round T M) (enough : ((n / 2 + 1 : Nat) : Int) ≤ round.counter) :
    ∃ A : Finset (Fin n), Majority A ∧ ∀ v ∈ A, s.acked v T M := by
  obtain ⟨A,card,members⟩ := round.tally_with (·.success) sends.peer
  have counter := sends.counter
  refine ⟨A,?_,fun v member => ?_⟩
  · unfold Majority
    rw [Fintype.card_fin]
    omega
  · rcases members v member with rfl | counted
    · exact sends.acked
    · obtain ⟨t,held,replied,_⟩ := Round.mem_tally.mp counted
      obtain ⟨reply,eq,ok⟩ := (Option.any_eq_true ..).mp replied
      exact (sends.success held eq ok).2

end Sends

/-- Every message in flight and every applied command stands for a recorded fact. -/
structure Traffic (s : Ghost n Cmd) (elections : List (VoteRound n))
    (heartbeats : List (HeartbeatRound n Cmd)) (snapshots : List (SnapshotCall n Snap))
    (history : List (Event n Cmd)) : Prop where
  asks : ∀ {round p t}, round ∈ elections → round.thread p = some t → AsksFor s round.src t.args
  polls : ∀ {v T w}, Voted elections v T w → (∀ L, ¬ s.elected T L) → ∃ L, s.voted v T w L
  sends : ∀ {round}, round ∈ heartbeats → Heartbeat s round
  restores : ∀ {call}, call ∈ snapshots → Restores s call.thread.args
  applied : ∀ {v i x}, .apply v i x ∈ history → AppliedFrom s i x

namespace Traffic

variable {s s' : Ghost n Cmd} {elections : List (VoteRound n)}
  {heartbeats : List (HeartbeatRound n Cmd)} {snapshots : List (SnapshotCall n Snap)}
  {history : List (Event n Cmd)}

theorem mono (traffic : Traffic s elections heartbeats snapshots history) (grows : Grows s s') :
    Traffic s' elections heartbeats snapshots history where
  asks member held :=
    have ⟨positive,asked⟩ := traffic.asks member held
    ⟨positive,asked.imp fun _ => .imp_left grows.asked⟩
  polls voted vacant :=
    (traffic.polls voted fun L won => vacant L (grows.elected won)).imp fun _ => grows.voted
  sends member := (traffic.sends member).imp_right fun ⟨T,M,sends⟩ => ⟨T,M,sends.mono grows⟩
  restores member := (traffic.restores member).mono grows
  applied member :=
    have ⟨T,K,known,rest⟩ := traffic.applied member
    ⟨T,K,grows.known known,rest⟩

theorem abandon (traffic : Traffic s elections heartbeats snapshots history) (v : Fin n) :
    Traffic s (elections.map (·.abandon v)) (heartbeats.map (·.abandon v))
      (snapshots.map (·.abandon v)) history where
  asks member held := by
    obtain ⟨round,inside,rfl⟩ := List.mem_map.mp member
    obtain ⟨t,before,left⟩ := Round.abandon_back held
    rw [Round.abandon_src,left.args]
    exact traffic.asks inside before
  polls {u T w} voted vacant := by
    obtain ⟨k,round',found,src,⟨p,x,held,term⟩,votes⟩ := voted
    rw [List.getElem?_map] at found
    obtain ⟨round,there,rfl⟩ := Option.map_eq_some_iff.mp found
    obtain ⟨t,before,left⟩ := Round.abandon_back held
    refine traffic.polls ⟨k,round,there,Round.abandon_src ▸ src,⟨p,t,before,left.args ▸ term⟩,?_⟩ vacant
    refine votes.imp (fun self => self.trans Round.abandon_src) fun ⟨x,held,granted⟩ => ?_
    obtain ⟨t,before,left⟩ := Round.abandon_back held
    exact ⟨t,before,by rwa [Thread.granted,← left.reply]⟩
  sends member := by
    obtain ⟨round,inside,rfl⟩ := List.mem_map.mp member
    rcases traffic.sends inside with idle | ⟨T,M,sends⟩
    · refine .inl fun p => Option.eq_none_iff_forall_ne_some.mpr fun x held => ?_
      obtain ⟨t,before,_⟩ := Round.abandon_back held
      simp [idle] at before
    · exact .inr ⟨T,M,sends.abandon v⟩
  restores member := by
    obtain ⟨call,inside,rfl⟩ := List.mem_map.mp member
    have restored := traffic.restores inside
    unfold SnapshotCall.abandon
    split <;> exact restored
  applied := traffic.applied

theorem setHeartbeat (traffic : Traffic s elections heartbeats snapshots history)
    {round : HeartbeatRound n Cmd} (sends : Heartbeat s round) :
    Traffic s elections (heartbeats.set k round) snapshots history :=
  { traffic with
    sends := fun member => (List.mem_or_eq_of_mem_set member).elim traffic.sends (· ▸ sends) }

theorem setSnapshot (traffic : Traffic s elections heartbeats snapshots history)
    {call : SnapshotCall n Snap} (restores : Restores s call.thread.args) :
    Traffic s elections heartbeats (snapshots.set k call) history :=
  { traffic with
    restores := fun member => (List.mem_or_eq_of_mem_set member).elim traffic.restores (· ▸ restores) }

/-- A thread of an election round moves on; a vote it brings must have been recorded. -/
theorem setElection (traffic : Traffic s elections heartbeats snapshots history)
    {k : Nat} {round : VoteRound n} {p : Fin n} {t : VoteThread} (ok : round.Wellformed)
    (found : elections[k]? = some round) (held : round.thread p = some t) (t' : VoteThread)
    (args : t'.args = t.args) {counter : Int}
    (recorded : t'.granted = true → t.granted = true ∨ ((∀ L, ¬ s.elected t.args.term L) →
      ∃ L, s.voted p t.args.term round.src L)) :
    Traffic s (elections.set k { round.setThread p t' with counter }) heartbeats snapshots history :=
  { traffic with
    asks := by
      intro round' q x member held'
      have inside := List.mem_of_getElem? found
      rcases List.mem_or_eq_of_mem_set member with old | rfl
      · exact traffic.asks old held'
      · rcases Round.setThread_thread.mp held' with ⟨rfl,rfl⟩ | ⟨_,before⟩
        · have asked := traffic.asks inside held
          exact args ▸ asked
        · have asked := traffic.asks inside before
          exact asked
    polls := by
      intro v T w voted vacant
      obtain ⟨j,round',found',src,⟨q,x,held',term⟩,votes⟩ := voted
      by_cases same : k = j
      · subst same
        rw [List.getElem?_set_self (List.getElem?_eq_some_iff.mp found).1] at found'
        cases found'
        have asks : round.Asks T := by
          rcases Round.setThread_thread.mp held' with ⟨rfl,rfl⟩ | ⟨_,held'⟩
          · exact ⟨q,t,held,args ▸ term⟩
          · exact ⟨q,x,held',term⟩
        have old : round.VotedBy v → ∃ L, s.voted v T w L := fun before =>
          traffic.polls ⟨k,round,found,src,asks,before⟩ vacant
        rcases votes with self | ⟨y,held',granted⟩
        · exact old (.inl self)
        · rcases Round.setThread_thread.mp held' with ⟨rfl,rfl⟩ | ⟨_,held'⟩
          · have term := (ok.asks held).mp asks
            rcases recorded granted with granted | recorded
            · exact old (.inr ⟨t,held,granted⟩)
            · rw [term] at recorded
              exact src ▸ recorded vacant
          · exact old (.inr ⟨y,held',granted⟩)
      · rw [List.getElem?_set_ne same] at found'
        exact traffic.polls ⟨j,round',found',src,⟨q,x,held',term⟩,votes⟩ vacant }

end Traffic

/-- The nodes as replicas of a reachable state of the protocol. -/
structure Replicated (s : Ghost n Cmd) (node : Fin n → Raft n Cmd Snap)
    (leads : Fin n → Int → Prop) : Prop where
  reached : Relation.ReflTransGen Ghost.Step (.empty 0) s
  refines : ∀ v, Refines s leads v (node v)
  numbered : ∀ {t L}, s.led t L → Numbered L
  known : ∀ {t L}, s.elected t L → ∃ w, leads w t

namespace Replicated

variable {s s' : Ghost n Cmd} {node : Fin n → Raft n Cmd Snap} {leads leads' : Fin n → Int → Prop}
  {v : Fin n} {rf : Raft n Cmd Snap}

theorem sound (here : Replicated s node leads) : s.Sound :=
  Ghost.sound_of_steps here.reached (.empty 0)

/-- One node moves on together with its replica. -/
theorem move (here : Replicated s node leads) (adv : Advance v leads' s s')
    (old : ∀ {w t}, leads w t → leads' w t) (unique : ∀ {w w' t}, leads' w t → leads' w' t → w = w')
    (rel : Refines s' leads' v rf) : Replicated s' (Function.update node v rf) leads' where
  reached := here.reached.trans adv.steps
  refines w := by
    by_cases same : w = v
    · subst same; rw [Function.update_self]; exact rel
    · rw [Function.update_of_ne same]
      exact (here.refines w).frame adv same old unique
  numbered made := (adv.led made).elim here.numbered And.right
  known won := (adv.elected won).elim (fun won => (here.known won).imp fun _ => old) fun won => ⟨v,won⟩

/-- A quiet section moves the durable term at most. -/
theorem quiet (here : Replicated s node leads)
    (unique : ∀ {w w' t}, leads w t → leads w' t → w = w') (quiet : (node v).Quiet rf)
    (order : (node v).persister.image.currentTerm ≤ rf.persister.image.currentTerm) :
    ∃ s', s' = s.observe v rf.persister.image.currentTerm ∧ Grows s s' ∧
      Replicated s' (Function.update node v rf) leads := by
  obtain ⟨adv,rel⟩ := (here.refines v).quiet quiet order
  exact ⟨_,rfl,adv.grows,here.move adv id unique rel⟩

/-- A restart from unchanged files is no move at all. -/
theorem restart (here : Replicated s node leads)
    (unique : ∀ {w w' t}, leads w t → leads w' t → w = w') (v : Fin n) :
    Replicated s (Function.update node v (Raft.init v (node v).persister)) leads :=
  here.move .refl id unique (here.refines v).restart

/-- A move that records a fact and changes no replica. -/
theorem record (here : Replicated s node leads) (step : Ghost.Step s s') (term : s'.term = s.term)
    (log : s'.log = s.log) (led : s'.led = s.led) (elected : s'.elected = s.elected) :
    Replicated s' node leads where
  reached := here.reached.tail step
  refines v := by
    have grows := Replication.Step.grows step
    obtain ⟨b,holds,known⟩ := (here.refines v).holds
    obtain ⟨k,commit,bound,known'⟩ := (here.refines v).commit
    refine ⟨by rw [term]; exact (here.refines v).term,(here.refines v).saved,
      ⟨b,by rwa [log],by rw [log,term]; exact grows.known known⟩,
      ⟨k,commit,by rwa [log],by rw [log,term]; exact grows.known known'⟩,fun leader => ?_⟩
    obtain ⟨positive,leads,durable,made,latest,acked⟩ := (here.refines v).leader leader
    exact ⟨positive,leads,durable,by rwa [log,led],by rwa [log,led],by rw [log]; exact grows.acked acked⟩
  numbered := by rw [led]; exact here.numbered
  known := by rw [elected]; exact here.known

theorem nonneg (here : Replicated s node leads) (v : Fin n) : 0 ≤ s.term v :=
  (Ghost.grows_of_steps here.reached).term v

end Replicated
end KvStorage
