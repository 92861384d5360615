import KvStorage.ClusterAppends

/-! What a leader commits by counting the successes of one heartbeat round: an entry of its own
term, which a majority has said to hold. -/
namespace KvStorage.Cluster

variable {c c' : Cluster n Cmd Snap}

/-- `q` has answered with success, in term `T`, to args of `v` that reach index `N`. -/
def Acknowledged (c : Cluster n Cmd Snap) (v q : Fin n) (T N : Int) : Prop :=
  ∃ round ∈ c.heartbeats, round.src = v ∧ ∃ t reply, round.thread q = some t ∧ t.reply = some reply ∧
    reply.success = true ∧ reply.term = T ∧ t.args.term = T ∧ N ≤ t.args.lastIndex

/-- The entry at index `N` is of `v`'s term, and `v` with those that acknowledged it is a majority. -/
structure Sound (c : Cluster n Cmd Snap) (v : Fin n) (N : Int) : Prop where
  entry : ∃ entry, (c.node v).entryAt N = .ok entry ∧ entry.logterm = (c.node v).currentTerm
  majority : ∃ A : Finset (Fin n), (c.node v).majority ≤ A.card ∧
    ∀ q ∈ A, q = v ∨ c.Acknowledged v q (c.node v).currentTerm N

variable [DecidableEq Cmd]

/-- Only the reply that completes the majority of its round raises the commit index. -/
theorem raised_cases {k : Nat} {p v : Fin n} (indexed : (c.node v).Indexed)
    (taken : c.step (.sendAppendEntries k p) = some c')
    (raised : (c.node v).commitIndex < (c'.node v).commitIndex) : ∃ round thread reply,
      c.heartbeats[k]? = some round ∧ round.src = v ∧ round.thread p = some thread ∧
      thread.reply = some reply ∧ thread.waiting = true ∧ (c.node v).status = .Leader ∧ reply.success = true ∧
      reply.term = (c.node v).currentTerm ∧ (c.node v).majority ≤ round.counter + 1 ∧
      thread.args.lastLogTerm? = some (c.node v).currentTerm ∧
      c'.heartbeats = c.heartbeats.set k { round.setThread p thread.finished with counter := 0 } ∧
      c'.node v = { (c.node v).acknowledge p thread.args with commitIndex := thread.args.lastIndex } := by
  obtain ⟨round,thread,reply,found,held,replied,waiting,rfl⟩ := step_sendAppendEntries taken
  have uncommitted := indexed.uncommitted
  cases done : (c.node round.src).sendAppendEntries p thread.args reply round.counter with
  | error left =>
    rw [done] at raised
    change (c.node v).commitIndex < (Function.update c.node round.src _ v).commitIndex at raised
    by_cases own : v = round.src
    · subst own
      rw [Function.update_self,Raft.init_eq] at raised
      change (c.node _).commitIndex < 0 at raised
      omega
    · rw [Function.update_of_ne own] at raised
      omega
  | ok result =>
    obtain ⟨rf,counter⟩ := result
    rw [done] at raised
    change (c.node v).commitIndex < (Function.update c.node round.src rf v).commitIndex at raised
    by_cases own : v = round.src
    · subst own
      rw [Function.update_self] at raised
      rcases Raft.sendAppendEntries_ok done with ⟨_,_,rfl,_⟩ | ⟨rfl,_⟩ | ⟨_,_,_,rfl,_⟩ | ⟨_,_,_,_,rfl,_⟩ |
        ⟨leader,term,success,enough,rfl,_,rfl⟩
      · exact absurd raised (lt_irrefl _)
      · exact absurd raised (lt_irrefl _)
      · exact absurd raised (lt_irrefl _)
      · exact absurd raised (lt_irrefl _)
      · unfold Raft.commitRound at raised
        split at raised
        · next current =>
          refine ⟨round,thread,reply,found,rfl,held,replied,waiting,leader,success,term,enough,current,rfl,?_⟩
          have further : (c.node round.src).commitIndex < max (c.node round.src).commitIndex thread.args.lastIndex := raised
          change Function.update c.node round.src (((c.node round.src).acknowledge p thread.args).commitRound thread.args)
            round.src = _
          rw [Function.update_self,Raft.commitRound,if_pos current]
          simp only [Raft.acknowledge]
          congr 1
          omega
        · exact absurd raised (lt_irrefl _)
    · rw [Function.update_of_ne own] at raised
      omega

omit [DecidableEq Cmd] in
/-- The peers whose success the completed round counted have acknowledged what it reaches. -/
theorem round_acknowledged {k : Nat} {p : Fin n} {round : Round n (AppendEntriesArgs Cmd) AppendEntriesReply}
    {thread : Thread (AppendEntriesArgs Cmd) AppendEntriesReply} {reply : AppendEntriesReply} {counter : Int}
    (alike : round.Alike) (after : c'.Appending) (found : c.heartbeats[k]? = some round)
    (held : round.thread p = some thread) (replied : thread.reply = some reply) (waiting : thread.waiting = true)
    (success : reply.success = true)
    (heartbeats : c'.heartbeats = c.heartbeats.set k { round.setThread p thread.finished with counter }) :
    ∃ A : Finset (Fin n), round.counter + 1 ≤ A.card ∧
      ∀ q ∈ A, q = round.src ∨ c'.Acknowledged round.src q thread.args.term thread.args.lastIndex := by
  -- the reply that is taken now is one more success than the counter stood for
  have counted : thread.finished.reply.any (·.success) = true := by simp [replied,success]
  have kept : thread.reply.any (·.success) = true → thread.finished.reply.any (·.success) = true := id
  have settled : thread.waiting = false → thread.finished.waiting = false := fun _ => rfl
  have more := Round.tally_setThread held kept settled (.inr ⟨le_rfl,waiting,counted,rfl⟩)
  have backed := alike.counter
  have there : { round.setThread p thread.finished with counter } ∈ c'.heartbeats := by
    rw [heartbeats]
    exact List.mem_of_getElem? (List.getElem?_set_self (List.getElem?_eq_some_iff.mp found).1)
  have alike' := after.alike _ there
  have own : (round.setThread p thread.finished).thread p = some thread.finished :=
    Round.setThread_thread.mpr (.inl ⟨rfl,rfl⟩)
  have peer : ∀ {q t}, (round.setThread p thread.finished).thread q = some t → q ≠ round.src := alike'.peer
  obtain ⟨A,card,members⟩ := Round.tally_with (·.success) peer
  refine ⟨A,by omega,fun q inside => (members q inside).imp_right fun counted => ?_⟩
  obtain ⟨t,asked,answered,_⟩ := Round.mem_tally.mp counted
  obtain ⟨answer,replied',good⟩ := (Option.any_eq_true ..).mp answered
  have args : t.args.term = thread.finished.args.term := alike'.term asked own
  have last : t.args.lastIndex = thread.finished.args.lastIndex := alike'.last asked own
  exact ⟨_,there,rfl,t,answer,asked,replied',good,(alike'.sameTerm asked replied' good).trans args,args,last.ge⟩

/-- Whenever `sendAppendEntries` raises the commit index, the entry there is of the leader's term, and
the leader with the peers that answered success for it is a majority. -/
theorem commit_sound (reach : c.Reachable) (k : Nat) (p v : Fin n)
    (taken : c.step (.sendAppendEntries k p) = some c')
    (raised : (c.node v).commitIndex < (c'.node v).commitIndex) : c'.Sound v (c'.node v).commitIndex := by
  have appending := appending_of_reach reach
  have after := appending.step taken
  obtain ⟨round,thread,reply,found,rfl,held,replied,waiting,leader,success,term,enough,current,heartbeats,node⟩ :=
    raised_cases (appending.indexed v) taken raised
  have member := List.mem_of_getElem? found
  have alike := appending.alike round member
  have argsTerm : thread.args.term = (c.node round.src).currentTerm := (alike.sameTerm held replied success).symm.trans term
  have reaches := appending.reaches round member p thread held leader argsTerm.symm
  rw [node] at raised
  constructor
  · rcases reaches.entry _ current with committed | ⟨entry,there,own⟩
    · exact absurd committed (not_le.mpr raised)
    · refine ⟨entry,?_,?_⟩
      · rw [node]
        exact there
      · rw [node]
        exact own
  · obtain ⟨A,card,acknowledged⟩ :=
      round_acknowledged alike after found held replied waiting success heartbeats
    rw [argsTerm] at acknowledged
    rw [node]
    exact ⟨A,enough.trans card,acknowledged⟩

/-- The first round commits at a majority of three, and a second one after the leader compacted its log. -/
def twoCommits : List (Action 3 Nat Unit) :=
  [.doElection 0,.requestVoteImpl 0 1,.sendRequestVote 0 1,.start 0 7,.doHeartBeat 0,.appendEntriesimpl 0 1,
    .sendAppendEntries 0 1,.snapshot 0 1 (some ()),.start 0 8,.doHeartBeat 0,.appendEntriesimpl 1 1]

theorem commit_sound_twoCommits : ∃ c c' : Cluster 3 Nat Unit, c.step (.sendAppendEntries 1 1) = some c' ∧
    (c.node 0).commitIndex = 1 ∧ (c'.node 0).commitIndex = 2 ∧ c'.Sound 0 2 := by
  have runs : (Run.run step (initial 3 Nat Unit) twoCommits).any (fun c => (c.node 0).commitIndex = 1 ∧
      (c.step (.sendAppendEntries 1 1)).any fun c' => (c'.node 0).commitIndex = 2) = true := by decide +kernel
  obtain ⟨c,ran,rest⟩ := (Option.any_eq_true ..).mp runs
  obtain ⟨before,step⟩ := of_decide_eq_true rest
  obtain ⟨c',taken,raised⟩ := (Option.any_eq_true ..).mp step
  have after : (c'.node 0).commitIndex = 2 := of_decide_eq_true raised
  have sound := commit_sound (Run.reach_of_run twoCommits ran) 1 1 0 taken (by rw [before,after]; decide)
  exact ⟨c,c',taken,before,after,after ▸ sound⟩

end KvStorage.Cluster
