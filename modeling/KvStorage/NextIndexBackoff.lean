import KvStorage.LateAppends
import KvStorage.LogCompaction
import KvStorage.Lib.Word

/-! The exchange of one leader with one follower that refuses: each refusal names the next entry
to try. The hints go down inside the follower's log; only the hint behind the follower's snapshot
goes up, and what is sent from there is accepted. -/
namespace KvStorage
open Exit LogMatching Word

/-- The leader, the follower and whether the last answer was a success. -/
structure Backoff (n : Nat) (Cmd Snap : Type) where
  leader : Raft n Cmd Snap
  follower : Raft n Cmd Snap
  success : Bool
  deriving DecidableEq

namespace Backoff
open Raft

variable [DecidableEq Cmd]

/-- The request for the peer, its answer and the update of `nextIndex_`; nothing is left to do
after a success, or when the peer needs a snapshot. The hint is the only sum of a round, and an `int32`. -/
def exchange (peer : Fin n) (s : Backoff n Cmd Snap) (_ : Unit) : Option (Backoff n Cmd Snap) :=
  if s.success then none
  else match s.leader.heartBeatPeer peer with
  | .ok (.sendAppendEntries peer args) =>
    match s.follower.appendEntriesimpl args with
    | .error _ => none
    | .ok (follower,reply) =>
      if reply.success then some { s with follower, success := true }
      else
        let received := { reply with updatenextindex := int32 reply.updatenextindex }
        (s.leader.sendAppendEntries peer args received 1).toOption.map fun answer =>
          { s with leader := answer.1, follower }
  | _ => none

/-- A success, or a next entry that only a snapshot holds. -/
def Ended (peer : Fin n) (s : Backoff n Cmd Snap) : Prop :=
  s.success = true ∨ s.leader.nextIndex.get peer ≤ s.leader.lastSnapshotIncludeIndex

/-- A leader and a follower of matching logs, the follower's snapshot part of the leader's log. -/
structure Related (peer : Fin n) (s : Backoff n Cmd Snap) : Prop where
  office : s.leader.status = .Leader
  term : s.follower.currentTerm ≤ s.leader.currentTerm
  numbered : s.leader.Numbered
  follower : s.follower.Numbered
  base : 0 ≤ s.follower.lastSnapshotIncludeIndex
  bounded : s.follower.commitIndex ≤ s.follower.getLastLogIndex
  matching : Matches LogEntry.logterm s.follower.held s.leader.held
  within : s.follower.lastSnapshotIncludeIndex ≤ s.leader.getLastLogIndex
  edge : s.leader.lastSnapshotIncludeIndex ≤ s.follower.lastSnapshotIncludeIndex →
    s.leader.getLogTermFromLogIndex s.follower.lastSnapshotIncludeIndex = .ok s.follower.lastSnapshotIncludeTerm
  low : 1 ≤ s.leader.nextIndex.get peer
  high : s.leader.nextIndex.get peer ≤ s.leader.getLastLogIndex + 1
  /-- The leader's indexes are values of `int`. -/
  last : s.leader.getLastLogIndex < 2 ^ 31

variable {s s' : Backoff n Cmd Snap} {peer : Fin n}

/-- How far the exchange still is: inside the follower's snapshot it is farthest. -/
def rank (peer : Fin n) (s : Backoff n Cmd Snap) : Nat :=
  if s.leader.nextIndex.get peer ≤ s.follower.lastSnapshotIncludeIndex then
    (s.leader.getLastLogIndex + 2).toNat
  else (s.leader.nextIndex.get peer).toNat

omit [DecidableEq Cmd] in
theorem sendAppendEntries_retries {rf : Raft n Cmd Snap} {args : AppendEntriesArgs Cmd} {hint appendNums : Int}
    (office : rf.status = .Leader) (positive : 1 ≤ hint) : rf.sendAppendEntries peer args
      { term := rf.currentTerm, success := false, updatenextindex := hint, appstate := AppNormal } appendNums =
      .ok (rf.retryFrom peer hint,appendNums) := by
  have connected : ¬ AppNormal = Disconnected := by decide
  have named : hint ≠ -100 := by omega
  simp only [sendAppendEntries,if_neg connected]
  refine (if_neg (lt_irrefl _)).trans ((if_neg (lt_irrefl _)).trans ((if_neg (not_not.mpr office)).trans ?_))
  refine bind_ok.mpr ⟨(),myAssert_ok.mpr trivial,?_⟩
  exact (if_pos Bool.false_ne_true).trans (if_pos named)

omit [DecidableEq Cmd] in
/-- A hint lies inside the leader's log and brings the exchange nearer to its end. -/
theorem hint_progress (related : s.Related peer) {args : AppendEntriesArgs Cmd} {hint : Int}
    (above : s.leader.lastSnapshotIncludeIndex ≤ args.prevlogindex)
    (previous : args.prevlogindex = s.leader.nextIndex.get peer - 1)
    (read : s.leader.getLogTermFromLogIndex args.prevlogindex = .ok args.prevlogterm)
    (unmatched : s.follower.getLogTermFromLogIndex args.prevlogindex ≠ .ok args.prevlogterm)
    (hinted : s.follower.Hint args hint) : 1 ≤ hint ∧ hint ≤ s.leader.getLastLogIndex + 1 ∧
      s.follower.lastSnapshotIncludeIndex < hint ∧
      (hint < s.leader.nextIndex.get peer ∨
        s.leader.nextIndex.get peer ≤ s.follower.lastSnapshotIncludeIndex) := by
  obtain ⟨_,_,_,follower,base,_,_,within,edge,_,high,_⟩ := related
  have last := getLastLogIndex_eq follower
  cases hinted with
  | short beyond => omega
  | compacted below => omega
  | conflict above' within' back inside =>
    -- at the follower's own base the terms agree
    have apart : args.prevlogindex ≠ s.follower.lastSnapshotIncludeIndex := by
      intro same
      have agreed := edge (same ▸ above)
      rw [← same,read] at agreed
      refine unmatched (getLogTermFromLogIndex_ok.mpr ⟨above',within',.inl ⟨same,Except.ok.inj agreed⟩⟩)
    omega

omit [DecidableEq Cmd] in
/-- Where the follower's snapshot is not the last entry an `int` can name, no hint wraps. -/
theorem hint_fits (related : s.Related peer) (room : s.follower.lastSnapshotIncludeIndex < 2 ^ 31 - 1)
    {args : AppendEntriesArgs Cmd} {hint : Int} (previous : args.prevlogindex = s.leader.nextIndex.get peer - 1)
    (hinted : s.follower.Hint args hint) (positive : 1 ≤ hint) : Fits hint := by
  have high := related.high
  have last := related.last
  refine ⟨by omega,?_⟩
  cases hinted with
  | short beyond => omega
  | compacted below => omega
  | conflict above within back inside => omega

/-- A round that does not find the exchange ended gets a success, or keeps the relation and comes
nearer. -/
theorem exchange_progress (related : s.Related peer) (room : s.follower.lastSnapshotIncludeIndex < 2 ^ 31 - 1)
    (going : ¬ s.Ended peer) :
    ∃ next, s.exchange peer () = some next ∧
      ((next.success = true ∧ next.leader = s.leader) ∨
        next.Related peer ∧ next.follower.lastSnapshotIncludeIndex = s.follower.lastSnapshotIncludeIndex ∧
          SameLog s.leader next.leader ∧ next.rank peer < s.rank peer) := by
  obtain ⟨unanswered,ahead⟩ := not_or.mp going
  have continued : Continued [] s.leader := ⟨by simpa [whole] using related.numbered,by simp⟩
  have plain : (s.leader.whole []).held = s.leader.held := by
    simp only [whole,List.nil_append,List.length_nil,Nat.cast_zero,sub_zero]
  obtain ⟨thread,started⟩ := (heartBeatPeer_goes_iff related.numbered).mpr ⟨related.low,related.high⟩
  rcases heartBeatPeer_ok started with ⟨_,behind⟩ | ⟨args,rfl,term,_,_,_,above,previous,read,_⟩
  · exact absurd behind ahead
  have taken := (heartBeatPeer_taken continued started).2
  rw [plain] at taken
  have current : s.follower.currentTerm ≤ args.term := term ▸ related.term
  by_cases matched : s.follower.getLogTermFromLogIndex args.prevlogindex = .ok args.prevlogterm
  · rcases appendEntriesimpl_accepts related.follower related.bounded current taken.numbered matched with
      ⟨_,done⟩ | ⟨clash,_⟩
    · refine ⟨{ s with follower := s.follower.accepted args, success := true },?_,.inl ⟨rfl,rfl⟩⟩
      simp only [exchange,if_neg unanswered,started,done,if_true]
    · exact absurd (taken.agrees related.matching) clash
  · obtain ⟨hint,hinted,done⟩ := appendEntriesimpl_refuses related.follower current matched
    obtain ⟨positive,inside,behind,nearer⟩ := hint_progress related above previous read matched hinted
    have same := (SameLog.follow s.follower args.term).persist
    have sent : int32 hint = hint := int32_of_fits (hint_fits related room previous hinted positive)
    have retried : s.leader.sendAppendEntries peer args
        { term := s.leader.currentTerm, success := false, updatenextindex := hint, appstate := AppNormal } 1 =
        .ok (s.leader.retryFrom peer hint,1) :=
      sendAppendEntries_retries related.office positive
    rw [← term] at retried
    have next : (s.leader.retryFrom peer hint).nextIndex.get peer = hint := Vector.getElem_set_self ..
    have lasts : (s.leader.retryFrom peer hint).getLastLogIndex = s.leader.getLastLogIndex := rfl
    refine ⟨{ s with leader := s.leader.retryFrom peer hint, follower := (s.follower.follow args.term).persist },
      ?_,.inr ⟨?_,same.base,⟨rfl,rfl,rfl⟩,?_⟩⟩
    · simp only [exchange,if_neg unanswered,started,done,Bool.false_eq_true,if_false,sent,retried]
      rfl
    · constructor
      all_goals simp only [next,lasts,same.base,same.baseTerm,same.held,same.last]
      · exact related.office
      · exact (observe_of_le s.follower _ current).trans term |>.le
      · exact related.numbered
      · exact same.numbered related.follower
      · exact related.base
      · exact (observe_commitIndex s.follower args.term).trans_le related.bounded
      · exact related.matching
      · exact related.within
      · exact related.edge
      · exact positive
      · exact inside
      · exact related.last
    · have low := related.low
      simp only [rank,next,lasts,same.base,if_neg (not_le.mpr behind)]
      split <;> omega

/-- What stays during the exchange: the leader's log, and a next entry inside it. -/
structure Probing (first : Raft n Cmd Snap) (peer : Fin n) (s : Backoff n Cmd Snap) : Prop where
  log : SameLog first s.leader
  low : 1 ≤ s.leader.nextIndex.get peer
  high : s.leader.nextIndex.get peer ≤ first.getLastLogIndex + 1
  related : s.success = false → s.Related peer ∧ s.follower.lastSnapshotIncludeIndex < 2 ^ 31 - 1

theorem exchange_probing {first : Raft n Cmd Snap} (probing : s.Probing first peer) (going : ¬ s.Ended peer) :
    ∃ next, s.exchange peer () = some next ∧ next.Probing first peer ∧
      (next.Ended peer ∨ next.rank peer < s.rank peer) := by
  obtain ⟨related,room⟩ := probing.related (Bool.not_eq_true _ ▸ (not_or.mp going).1)
  obtain ⟨next,taken,⟨success,leader⟩ | ⟨kept,base,same,nearer⟩⟩ := exchange_progress related room going
  · refine ⟨next,taken,⟨?_,?_,?_,?_⟩,.inl (.inl success)⟩
    · exact leader ▸ probing.log
    · exact leader ▸ probing.low
    · exact leader ▸ probing.high
    · intro failed
      rw [success] at failed
      cases failed
  · have log := probing.log.trans same
    exact ⟨next,taken,⟨log,kept.low,log.last ▸ kept.high,fun _ => ⟨kept,base.trans_lt room⟩⟩,.inr nearer⟩

/-- An ended exchange takes no further round. -/
theorem exchange_ended (ended : s.Ended peer) : s.exchange peer () = none := by
  rcases ended with success | behind
  · simp only [exchange,success,if_true]
  · unfold exchange
    split
    · rfl
    cases started : s.leader.heartBeatPeer peer with
    | error => rfl
    | ok thread =>
      rcases heartBeatPeer_ok started with ⟨rfl,_⟩ | ⟨args,rfl,_,_,_,_,above,previous,_⟩
      · rfl
      · omega

/-- Rounds of refusals end, in a success or where a snapshot is needed, and never lead the leader
outside its log, where an `int` can name the entry after the follower's snapshot. -/
theorem backoff_ends (related : s.Related peer) (room : s.follower.lastSnapshotIncludeIndex < 2 ^ 31 - 1) :
    (∀ s', Run.Reach (exchange peer) Run.always s s' → SameLog s.leader s'.leader ∧
      1 ≤ s'.leader.nextIndex.get peer ∧ s'.leader.nextIndex.get peer ≤ s.leader.getLastLogIndex + 1) ∧
    ∃ rounds last, Run.run (exchange peer) s (List.replicate rounds ()) = some last ∧ last.Ended peer := by
  have start : s.Probing s.leader peer := ⟨⟨rfl,rfl,rfl⟩,related.low,related.high,fun _ => ⟨related,room⟩⟩
  constructor
  · intro s' reach
    have probing : s'.Probing s.leader peer := by
      refine reach.invariant _ start ?_
      intro mid _ next _ probing _ taken
      by_cases ended : mid.Ended peer
      · rw [exchange_ended ended] at taken
        cases taken
      · obtain ⟨other,taken',kept,_⟩ := exchange_probing probing ended
        obtain rfl := Option.some.inj (taken'.symm.trans taken)
        exact kept
    exact ⟨probing.log,probing.low,probing.high⟩
  · obtain ⟨rounds,last,ran,_,ended⟩ := Run.ends (Probing s.leader peer) (Ended peer) (rank peer)
      (fun _ probing going => exchange_probing probing going) start
    exact ⟨rounds,last,ran,ended⟩

/-- A follower with two entries of term 1 behind its snapshot, which the leader overwrote. -/
def stale : Backoff 3 Nat Unit where
  leader := { init 0 {} with
    status := .Leader, currentTerm := 3, logs := [⟨7,1,1⟩,⟨8,2,2⟩,⟨9,3,3⟩], nextIndex := .replicate 3 4 }
  follower := { init 1 {} with
    currentTerm := 1, logs := [⟨5,1,2⟩,⟨6,1,3⟩], lastSnapshotIncludeIndex := 1, lastSnapshotIncludeTerm := 1
    commitIndex := 1, lastApplied := 1 }
  success := false

theorem backoff_ends_stale :
    (∀ s', Run.Reach (exchange 1) Run.always stale s' → SameLog stale.leader s'.leader ∧
      1 ≤ s'.leader.nextIndex.get 1 ∧ s'.leader.nextIndex.get 1 ≤ stale.leader.getLastLogIndex + 1) ∧
    ∃ rounds last, Run.run (exchange 1) stale (List.replicate rounds ()) = some last ∧ last.Ended 1 :=
  backoff_ends ⟨rfl,by decide,by decide,by decide,by decide,by decide,
    matches_held (by decide) (by decide) (by decide),by decide,fun _ => rfl,by decide,by decide,by decide⟩
    (by decide)

/-- Two refusals and a success. -/
example : ((Run.run (exchange 1) stale (List.replicate 3 ())).map fun s =>
    (s.leader.nextIndex.get 1,s.success,s.follower.logs)) = some (2,true,[⟨8,2,2⟩,⟨9,3,3⟩]) := by decide

/-- The follower's snapshot reaches to the last entry that an `int` can name, and the leader tries that entry. -/
def full : Backoff 3 Nat Unit where
  leader := { init 0 {} with
    status := .Leader, currentTerm := 1, logs := [⟨7,1,2147483647⟩], lastSnapshotIncludeIndex := 2147483646
    lastSnapshotIncludeTerm := 1, commitIndex := 2147483646, lastApplied := 2147483646
    nextIndex := .replicate 3 2147483647 }
  follower := { init 1 {} with
    currentTerm := 1, lastSnapshotIncludeIndex := 2147483647, lastSnapshotIncludeTerm := 1
    commitIndex := 2147483647, lastApplied := 2147483647 }
  success := false

/-- The hint behind that snapshot wraps. -/
theorem backoff_leaves_log : ∃ s' : Backoff 3 Nat Unit, full.Related 1 ∧
    Run.Reach (exchange 1) Run.always full s' ∧ s'.leader.nextIndex.get 1 = -2147483648 := by
  have runs : ((exchange 1 full ()).any fun s' => s'.leader.nextIndex.get 1 = -2147483648) = true := by
    decide +kernel
  obtain ⟨s',taken,wrapped⟩ := (Option.any_eq_true ..).mp runs
  refine ⟨s',?_,.next .start trivial taken,of_decide_eq_true wrapped⟩
  exact ⟨rfl,by decide,by decide,by decide,by decide,by decide,
    matches_held (by decide) (by decide) (by decide),by decide,fun _ => rfl,by decide,by decide,by decide⟩

end Backoff
end KvStorage
