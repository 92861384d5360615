import KvStorage.Lib.Majority
import KvStorage.ClusterRound
import KvStorage.RaftVote

/-! Election safety. A vote is a granted reply of an election round, or the round's
own candidate; each one is backed by the voter's disk, so a voter has one vote a
term, and the counter of a round never runs ahead of its voters. -/
namespace KvStorage

abbrev VoteRound (n : Nat) := Round n RequestVoteArgs RequestVoteReply
abbrev VoteThread := Thread RequestVoteArgs RequestVoteReply

def Thread.granted (thread : VoteThread) : Bool := thread.reply.any (·.votegranted)

@[simp] theorem Thread.granted_answered (t : VoteThread) (reply : RequestVoteReply) :
    (t.answered reply).granted = reply.votegranted := rfl

namespace Round
variable (round : VoteRound n)

/-- The round asks for votes in this term; a leader's empty round asks for none. -/
def Asks (term : Int) : Prop := ∃ p thread, round.thread p = some thread ∧ thread.args.term = term

def VotedBy (v : Fin n) : Prop :=
  v = round.src ∨ ∃ thread, round.thread v = some thread ∧ thread.granted = true

/-- The peers whose granted vote was counted. -/
def counted : Finset (Fin n) := round.tally (·.votegranted)

structure Wellformed : Prop where
  peer : ∀ {p t}, round.thread p = some t → p ≠ round.src
  candidate : ∀ {p t}, round.thread p = some t → t.args.candidateid = round.src.val
  unanswered : ∀ {p t}, round.thread p = some t → t.inFlight = true → t.reply = none
  sameTerm : ∀ {p t reply}, round.thread p = some t → t.reply = some reply →
    reply.votegranted = true → reply.term = t.args.term
  oneTerm : ∀ {p q t t'}, round.thread p = some t → round.thread q = some t' →
    t.args.term = t'.args.term
  counter : round.counter ≤ 1 + round.counted.card

variable {round} {p : Fin n} {t : VoteThread}

theorem Wellformed.asks (ok : round.Wellformed) (held : round.thread p = some t) :
    round.Asks term ↔ t.args.term = term := by
  constructor
  · rintro ⟨q,other,held',rfl⟩; exact ok.oneTerm held held'
  · intro same; exact ⟨p,t,held,same⟩

/-- The candidate and the peers counted, as one set of voters. -/
theorem Wellformed.voters (ok : round.Wellformed) :
    ∃ A : Finset (Fin n), A.card = round.counted.card + 1 ∧ ∀ v ∈ A, round.VotedBy v := by
  obtain ⟨A,card,members⟩ := round.tally_with (·.votegranted) ok.peer
  refine ⟨A,card,fun v member => (members v member).imp_right fun counted => ?_⟩
  obtain ⟨t,held,granted,_⟩ := mem_tally.mp counted
  exact ⟨t,held,granted⟩

end Round

/-- `v` voted for `w` in this term. -/
def Voted (elections : List (VoteRound n)) (v : Fin n) (term : Int) (w : Fin n) : Prop :=
  ∃ (k : Nat) (round : VoteRound n), elections[k]? = some round ∧ round.src = w ∧
    round.Asks term ∧ round.VotedBy v

/-- A candidate votes for itself in every term it asks for. -/
theorem Voted.self {elections : List (VoteRound n)} (voted : Voted elections v term w) :
    Voted elections w term w := by
  obtain ⟨k,round,found,rfl,asks,_⟩ := voted
  exact ⟨k,round,found,rfl,asks,.inl rfl⟩

def Cluster.Leads (c : Cluster n Cmd Snap) (w : Fin n) (term : Int) : Prop :=
  Event.becomeLeader w term ∈ c.history

/-- Everything an election rests on, over the part of a cluster that elections read. -/
structure Ballots (node : Fin n → Raft n Cmd Snap) (elections : List (VoteRound n))
    (leads : Fin n → Int → Prop) : Prop where
  raftId : ∀ v, (node v).raftId = v
  durable : ∀ v, (node v).VoteDurable
  wellformed : ∀ {k : Nat} {round : VoteRound n}, elections[k]? = some round → round.Wellformed
  /-- A vote is on the voter's disk as long as the voter stays in its term. -/
  backed : ∀ {v term w}, Voted elections v term w →
    term ≤ (node v).persister.image.currentTerm ∧
    ((node v).persister.image.currentTerm = term →
      (node v).persister.image.votedFor = (w.val : Int))
  single : ∀ {v term w w'}, Voted elections v term w → Voted elections v term w' → w = w'
  distinct : ∀ {k k' : Nat} {round round' : VoteRound n} {term}, elections[k]? = some round →
    elections[k']? = some round' → round.src = round'.src → round.Asks term → round'.Asks term → k = k'
  /-- A round that made its candidate leader has spent a majority of its votes. -/
  spent : ∀ {k : Nat} {round : VoteRound n} {term}, elections[k]? = some round →
    round.Asks term → leads round.src term → ((n / 2 + 1 : Nat) : Int) + round.counter ≤ 1 + round.counted.card
  elected : ∀ {w term}, leads w term →
    ∃ A : Finset (Fin n), Majority A ∧ ∀ v ∈ A, Voted elections v term w

namespace Ballots

variable {node : Fin n → Raft n Cmd Snap} {elections : List (VoteRound n)}
  {leads : Fin n → Int → Prop}

/-- Two leaders of one term share a voter, who had one vote. -/
theorem leader_unique (ballots : Ballots node elections leads) (one : leads w term)
    (two : leads w' term) : w = w' := by
  obtain ⟨A,most,first⟩ := ballots.elected one
  obtain ⟨B,most',second⟩ := ballots.elected two
  obtain ⟨v,inA,inB⟩ := most.meet most'
  exact ballots.single (first v inA) (second v inB)

/-- A node moves on without taking back what its files promise. -/
theorem move (ballots : Ballots node elections leads) {v : Fin n} {rf : Raft n Cmd Snap}
    (raftId : rf.raftId = v) (durable : rf.VoteDurable)
    (kept : VoteKept (node v).persister.image rf.persister.image) :
    Ballots (Function.update node v rf) elections leads where
  raftId w := by
    by_cases same : w = v
    · subst same; rw [Function.update_self]; exact raftId
    · rw [Function.update_of_ne same]; exact ballots.raftId w
  durable w := by
    by_cases same : w = v
    · subst same; rw [Function.update_self]; exact durable
    · rw [Function.update_of_ne same]; exact ballots.durable w
  wellformed := ballots.wellformed
  backed {u term w} voted := by
    obtain ⟨reached,vote⟩ := ballots.backed voted
    by_cases same : u = v
    · subst same
      rw [Function.update_self]
      obtain ⟨later,unchanged⟩ := kept
      refine ⟨le_trans reached later,fun eq => ?_⟩
      have before := vote (by omega)
      rw [unchanged (by omega) (by omega),before]
    · rw [Function.update_of_ne same]; exact ⟨reached,vote⟩
  single := ballots.single
  distinct := ballots.distinct
  spent := ballots.spent
  elected := ballots.elected

theorem setNode (ballots : Ballots node elections leads) {v : Fin n} {rf : Raft n Cmd Snap}
    (step : (node v).VoteStep rf) : Ballots (Function.update node v rf) elections leads :=
  ballots.move (step.raftId.trans (ballots.raftId v)) (step.durable (ballots.durable v))
    (step.kept (ballots.durable v))

/-- Only what the files hold survives a restart. -/
theorem restart (ballots : Ballots node elections leads) {v : Fin n} {disk : Persister Cmd Snap}
    (kept : VoteKept (node v).persister.image disk.image) :
    Ballots (Function.update node v (Raft.init v disk)) elections leads :=
  ballots.move (Raft.init_raftId v disk) (Raft.voteDurable_init v disk)
    (by rw [Raft.init_persister]; exact kept)

end Ballots

/-! ### Rounds -/

/-- The same round later on: votes are only added, each on its voter's disk, and the
counter grows no faster than the votes counted. -/
structure Round.Revised (node : Fin n → Raft n Cmd Snap) (round round' : VoteRound n) : Prop where
  src : round'.src = round.src
  asks : ∀ {term}, round'.Asks term ↔ round.Asks term
  wellformed : round'.Wellformed
  kept : ∀ {v}, round.VotedBy v → round'.VotedBy v
  fresh : ∀ {v term}, round'.VotedBy v → round.Asks term → round.VotedBy v ∨
    ((node v).persister.image.currentTerm = term ∧
      (node v).persister.image.votedFor = (round.src.val : Int))
  spare : (round.counted.card : Int) - round.counter ≤ round'.counted.card - round'.counter

namespace Round

variable {node : Fin n → Raft n Cmd Snap} {round : VoteRound n} {p : Fin n} {t t' : VoteThread}

theorem Revised.refl (ok : round.Wellformed) : round.Revised node round :=
  ⟨rfl,Iff.rfl,ok,id,fun voted _ => .inl voted,le_rfl⟩

/-- One thread moves on; only a thread that counts its vote now may raise the counter. -/
theorem Wellformed.setThread (ok : round.Wellformed) (held : round.thread p = some t)
    (t' : VoteThread) (args : t'.args = t.args) (unanswered : t'.inFlight = true → t'.reply = none)
    (sameTerm : ∀ {reply}, t'.reply = some reply → reply.votegranted = true →
      reply.term = t.args.term)
    (kept : t.granted = true → t'.granted = true)
    (fresh : t'.granted = true → t.granted = true ∨
      ((node p).persister.image.currentTerm = t.args.term ∧
        (node p).persister.image.votedFor = (round.src.val : Int)))
    (settled : t.waiting = false → t'.waiting = false) {counter : Int}
    (counts : counter ≤ round.counter ∨ (counter ≤ round.counter + 1 ∧ t.waiting = true ∧
      t'.granted = true ∧ t'.waiting = false)) :
    round.Revised node { round.setThread p t' with counter } := by
  have grown : counter - round.counter ≤ ((round.setThread p t').counted.card : Int) -
      round.counted.card := tally_setThread held kept settled counts
  have each : ∀ {q other}, (round.setThread p t').thread q = some other →
      ∃ before, round.thread q = some before ∧ other.args = before.args := by
    intro q other found
    rcases setThread_thread.mp found with ⟨rfl,rfl⟩ | ⟨_,found⟩
    · exact ⟨t,held,args⟩
    · exact ⟨other,found,rfl⟩
  refine ⟨rfl,fun {term} => ⟨?_,?_⟩,⟨?_,?_,?_,?_,?_,?_⟩,fun {v} voted => ?_,fun {v term} voted asks => ?_,?_⟩
  · rintro ⟨q,other,found,same⟩
    obtain ⟨before,found',eq⟩ := each found
    exact ⟨q,before,found',eq ▸ same⟩
  · rintro ⟨q,other,found,same⟩
    refine ⟨p,t',setThread_thread.mpr (.inl ⟨rfl,rfl⟩),?_⟩
    rw [args,ok.oneTerm held found,same]
  · intro q other found
    obtain ⟨before,found',_⟩ := each found
    exact ok.peer found'
  · intro q other found
    obtain ⟨before,found',eq⟩ := each found
    rw [eq]; exact ok.candidate found'
  · intro q other found
    rcases setThread_thread.mp found with ⟨rfl,rfl⟩ | ⟨_,found⟩
    · exact unanswered
    · exact ok.unanswered found
  · intro q other reply found
    rcases setThread_thread.mp found with ⟨rfl,rfl⟩ | ⟨_,found⟩
    · rw [args]; exact sameTerm
    · exact ok.sameTerm found
  · intro q q' other other' found found'
    obtain ⟨_,before,eq⟩ := each found
    obtain ⟨_,before',eq'⟩ := each found'
    rw [eq,eq']; exact ok.oneTerm before before'
  · have := ok.counter
    change counter ≤ 1 + ((round.setThread p t').counted.card : Int)
    omega
  · refine voted.imp_right fun ⟨other,found,granted⟩ => ?_
    by_cases same : v = p
    · subst same
      obtain rfl := Option.some.inj (held.symm.trans found)
      exact ⟨t',setThread_thread.mpr (.inl ⟨rfl,rfl⟩),kept granted⟩
    · exact ⟨other,setThread_thread.mpr (.inr ⟨same,found⟩),granted⟩
  · rcases voted with self | ⟨other,found,granted⟩
    · exact .inl (.inl self)
    · rcases setThread_thread.mp found with ⟨rfl,rfl⟩ | ⟨_,found⟩
      · exact (fresh granted).imp (fun granted => .inr ⟨t,held,granted⟩)
          fun fresh => (ok.asks held).mp asks ▸ fresh
      · exact .inl (.inr ⟨other,found,granted⟩)
  · change (round.counted.card : Int) - round.counter ≤ (round.setThread p t').counted.card - counter
    omega

theorem launch_wellformed {v : Fin n} {requests : List (Fin n × RequestVoteArgs)} (term : Int)
    (each : ∀ q ∈ requests, q.1 ≠ v ∧ q.2.candidateid = v.val ∧ q.2.term = term) :
    (launch v requests : VoteRound n).Wellformed := by
  refine ⟨?_,?_,?_,?_,?_,le_add_of_nonneg_right (Int.natCast_nonneg _)⟩
  · intro p t held
    obtain ⟨args,member,rfl⟩ := launch_thread held
    exact (each _ member).1
  · intro p t held
    obtain ⟨args,member,rfl⟩ := launch_thread held
    exact (each _ member).2.1
  · intro p t held _
    obtain ⟨args,member,rfl⟩ := launch_thread held
    rfl
  · intro p t reply held replied
    obtain ⟨args,member,rfl⟩ := launch_thread held
    simp at replied
  · intro p q t t' held held'
    obtain ⟨args,member,rfl⟩ := launch_thread held
    obtain ⟨args',member',rfl⟩ := launch_thread held'
    exact (each _ member).2.2.trans (each _ member').2.2.symm

theorem launch_votedBy {v w : Fin n} {requests : List (Fin n × RequestVoteArgs)}
    (voted : (launch v requests : VoteRound n).VotedBy w) : w = v := by
  rcases voted with self | ⟨t,held,granted⟩
  · exact self
  · obtain ⟨args,_,rfl⟩ := launch_thread held
    simp [Thread.granted] at granted

/-- A crash of the candidate ends its waits; votes and requests in flight stay. -/
theorem Wellformed.abandon (ok : round.Wellformed) (v : Fin n) :
    round.Revised node (round.abandon v) := by
  have more : round.counted.card ≤ (round.abandon v).counted.card :=
    Finset.card_le_card tally_abandon
  refine ⟨abandon_src,fun {term} => ⟨?_,?_⟩,⟨?_,?_,?_,?_,?_,?_⟩,fun {v} voted => ?_,
    fun {v term} voted _ => .inl ?_,?_⟩
  · rintro ⟨q,other,found,same⟩
    obtain ⟨before,found',left⟩ := abandon_back found
    exact ⟨q,before,found',left.args ▸ same⟩
  · rintro ⟨q,before,found,same⟩
    obtain ⟨after,found',left⟩ := abandon_forth found
    exact ⟨q,after,found',left.args.symm ▸ same⟩
  · intro q other found
    obtain ⟨before,found',_⟩ := abandon_back found
    rw [abandon_src]; exact ok.peer found'
  · intro q other found
    obtain ⟨before,found',left⟩ := abandon_back found
    rw [abandon_src,left.args]; exact ok.candidate found'
  · intro q other found
    obtain ⟨before,found',left⟩ := abandon_back found
    rw [left.inFlight,left.reply]; exact ok.unanswered found'
  · intro q other reply found
    obtain ⟨before,found',left⟩ := abandon_back found
    rw [left.reply,left.args]; exact ok.sameTerm found'
  · intro q q' other other' found found'
    obtain ⟨_,before,left⟩ := abandon_back found
    obtain ⟨_,before',left'⟩ := abandon_back found'
    rw [left.args,left'.args]; exact ok.oneTerm before before'
  · have := ok.counter
    rw [abandon_counter]
    omega
  · rcases voted with self | ⟨before,found,granted⟩
    · exact .inl (self.trans abandon_src.symm)
    · obtain ⟨after,found',left⟩ := abandon_forth found
      exact .inr ⟨after,found',by rwa [Thread.granted,left.reply]⟩
  · rcases voted with self | ⟨other,found,granted⟩
    · exact .inl (self.trans abandon_src)
    · obtain ⟨before,found',left⟩ := abandon_back found
      exact .inr ⟨before,found',by rwa [Thread.granted,← left.reply]⟩
  · rw [abandon_counter]
    omega

end Round

namespace Ballots

variable {node : Fin n → Raft n Cmd Snap} {elections elections' : List (VoteRound n)}
  {leads : Fin n → Int → Prop}

theorem revise (ballots : Ballots node elections leads)
    (length : elections'.length = elections.length)
    (revised : ∀ {k : Nat} {round : VoteRound n}, elections[k]? = some round →
      ∃ round', elections'[k]? = some round' ∧ round.Revised node round') :
    Ballots node elections' leads := by
  have back : ∀ {k : Nat} {round' : VoteRound n}, elections'[k]? = some round' →
      ∃ round, elections[k]? = some round ∧ round.Revised node round' := by
    intro k round' found'
    have bound : k < elections.length := length ▸ (List.getElem?_eq_some_iff.mp found').1
    obtain ⟨other,found,rev⟩ := revised (List.getElem?_eq_getElem bound)
    rw [found'] at found
    exact ⟨_,List.getElem?_eq_getElem bound,Option.some.inj found ▸ rev⟩
  have old : ∀ {v term w}, Voted elections v term w → Voted elections' v term w := by
    rintro v term w ⟨k,round,found,rfl,asks,voted⟩
    obtain ⟨round',found',rev⟩ := revised found
    exact ⟨k,round',found',rev.src,rev.asks.mpr asks,rev.kept voted⟩
  have new : ∀ {v term w}, Voted elections' v term w → Voted elections v term w ∨
      ((node v).persister.image.currentTerm = term ∧
        (node v).persister.image.votedFor = (w.val : Int)) := by
    rintro v term w ⟨k,round',found',rfl,asks,voted⟩
    obtain ⟨round,found,rev⟩ := back found'
    rw [rev.src]
    rcases rev.fresh voted (rev.asks.mp asks) with voted | fresh
    · exact .inl ⟨k,round,found,rfl,rev.asks.mp asks,voted⟩
    · exact .inr fresh
  have backed : ∀ {v term w}, Voted elections' v term w →
      term ≤ (node v).persister.image.currentTerm ∧
      ((node v).persister.image.currentTerm = term →
        (node v).persister.image.votedFor = (w.val : Int)) := by
    intro v term w voted
    rcases new voted with voted | ⟨same,vote⟩
    · exact ballots.backed voted
    · exact ⟨le_of_eq same.symm,fun _ => vote⟩
  exact {
    raftId := ballots.raftId
    durable := ballots.durable
    wellformed := fun found => (back found).elim fun _ rev => rev.2.wellformed
    backed := backed
    single := by
      intro v term w w' one two
      rcases new one with one' | ⟨same,vote⟩
      · rcases new two with two' | ⟨same,vote⟩
        · exact ballots.single one' two'
        · exact Fin.ext (by have := (backed one).2 same; omega)
      · exact Fin.ext (by have := (backed two).2 same; omega)
    distinct := by
      intro k k' round round' term one two same asks asks'
      obtain ⟨before,found,rev⟩ := back one
      obtain ⟨before',found',rev'⟩ := back two
      exact ballots.distinct found found' (rev.src.symm.trans (same.trans rev'.src))
        (rev.asks.mp asks) (rev'.asks.mp asks')
    spent := by
      intro k round' term found' asks won
      obtain ⟨round,found,rev⟩ := back found'
      have before := ballots.spent found (rev.asks.mp asks) (rev.src ▸ won)
      have := rev.spare
      omega
    elected := by
      intro w term won
      obtain ⟨A,most,voted⟩ := ballots.elected won
      exact ⟨A,most,fun v member => old (voted v member)⟩ }

/-- One round of the list is replaced by its later self. -/
theorem setElection (ballots : Ballots node elections leads) {k : Nat} {round round' : VoteRound n}
    (found : elections[k]? = some round) (revised : round.Revised node round') :
    Ballots node (elections.set k round') leads := by
  have bound : k < elections.length := (List.getElem?_eq_some_iff.mp found).1
  refine ballots.revise List.length_set fun {j before} found' => ?_
  by_cases same : k = j
  · subst same
    obtain rfl := Option.some.inj (found.symm.trans found')
    exact ⟨round',List.getElem?_set_self bound,revised⟩
  · exact ⟨before,by rw [List.getElem?_set_ne same,found'],.refl (ballots.wellformed found')⟩

theorem abandon (ballots : Ballots node elections leads) (v : Fin n) :
    Ballots node (elections.map (·.abandon v)) leads := by
  refine ballots.revise (List.length_map _) fun {k round} found => ?_
  exact ⟨round.abandon v,by rw [List.getElem?_map,found]; rfl,(ballots.wellformed found).abandon v⟩

/-- A new round for a term its candidate never asked for before, voted for on its disk. -/
theorem launch (ballots : Ballots node elections leads) {round : VoteRound n}
    (ok : round.Wellformed) (unvoted : ∀ {v}, round.VotedBy v → v = round.src)
    (new : ∀ {term}, round.Asks term →
      (node round.src).persister.image.currentTerm = term ∧
      (node round.src).persister.image.votedFor = (round.src.val : Int))
    (first : ∀ {term v}, round.Asks term → ¬ Voted elections v term round.src) :
    Ballots node (elections ++ [round]) leads := by
  have rows : ∀ {k : Nat} {other : VoteRound n}, (elections ++ [round])[k]? = some other →
      elections[k]? = some other ∨ (k = elections.length ∧ other = round) := by
    intro k other found
    rcases Nat.lt_trichotomy k elections.length with less | eq | more
    · rw [List.getElem?_append_left less] at found; exact .inl found
    · subst eq
      rw [List.getElem?_concat_length] at found
      exact .inr ⟨rfl,(Option.some.inj found).symm⟩
    · rw [List.getElem?_eq_none (by simp; omega)] at found
      simp at found
  have old : ∀ {v term w}, Voted elections v term w → Voted (elections ++ [round]) v term w := by
    rintro v term w ⟨k,other,found,rest⟩
    exact ⟨k,other,by rw [List.getElem?_append_left (List.getElem?_eq_some_iff.mp found).1,found],rest⟩
  have split : ∀ {v term w}, Voted (elections ++ [round]) v term w → Voted elections v term w ∨
      (v = round.src ∧ w = round.src ∧ round.Asks term) := by
    rintro v term w ⟨k,other,found,rfl,asks,voted⟩
    rcases rows found with found | ⟨_,rfl⟩
    · exact .inl ⟨k,other,found,rfl,asks,voted⟩
    · exact .inr ⟨unvoted voted,rfl,asks⟩
  have asked : ∀ {k : Nat} {other : VoteRound n} {term}, elections[k]? = some other →
      other.Asks term → Voted elections other.src term other.src :=
    fun {k other _} found asks => ⟨k,other,found,rfl,asks,.inl rfl⟩
  have backed : ∀ {v term w}, Voted (elections ++ [round]) v term w →
      term ≤ (node v).persister.image.currentTerm ∧
      ((node v).persister.image.currentTerm = term →
        (node v).persister.image.votedFor = (w.val : Int)) := by
    intro v term w voted
    rcases split voted with voted | ⟨rfl,rfl,asks⟩
    · exact ballots.backed voted
    · exact ⟨le_of_eq (new asks).1.symm,fun _ => (new asks).2⟩
  exact {
    raftId := ballots.raftId
    durable := ballots.durable
    wellformed := by
      intro k other found
      rcases rows found with found | ⟨_,rfl⟩
      · exact ballots.wellformed found
      · exact ok
    backed := backed
    single := by
      intro v term w w' one two
      rcases split one with one' | ⟨rfl,rfl,asks⟩
      · rcases split two with two' | ⟨rfl,rfl,asks⟩
        · exact ballots.single one' two'
        · exact Fin.ext (by have := (backed one).2 (new asks).1; have := (new asks).2; omega)
      · exact Fin.ext (by have := (backed two).2 (new asks).1; have := (new asks).2; omega)
    distinct := by
      intro k k' r r' term one two same asks asks'
      rcases rows one with before | ⟨rfl,rfl⟩
      · rcases rows two with before' | ⟨rfl,rfl⟩
        · exact ballots.distinct before before' same asks asks'
        · exact absurd (same ▸ asked before asks) (first asks')
      · rcases rows two with before' | ⟨rfl,_⟩
        · exact absurd (same ▸ asked before' asks') (first asks)
        · rfl
    spent := by
      intro k other term found asks won
      rcases rows found with found | ⟨_,rfl⟩
      · exact ballots.spent found asks won
      · obtain ⟨A,most,voted⟩ := ballots.elected won
        obtain ⟨v,member,_⟩ := most.meet most
        exact absurd (voted v member) (first asks)
    elected := by
      intro w term won
      obtain ⟨A,most,voted⟩ := ballots.elected won
      exact ⟨A,most,fun v member => old (voted v member)⟩ }

/-- A round with a majority of counted votes may make its candidate leader. -/
theorem promote (ballots : Ballots node elections leads) {k : Nat} {round : VoteRound n}
    (found : elections[k]? = some round) (asks : round.Asks term)
    (most : ((n / 2 + 1 : Nat) : Int) + round.counter ≤ 1 + round.counted.card)
    (none : 0 ≤ round.counter) {leads' : Fin n → Int → Prop}
    (new : ∀ {w t}, leads' w t → leads w t ∨ (w = round.src ∧ t = term)) :
    Ballots node elections leads' where
  raftId := ballots.raftId
  durable := ballots.durable
  wellformed := ballots.wellformed
  backed := ballots.backed
  single := ballots.single
  distinct := ballots.distinct
  spent {j other t} found' asks' won := by
    rcases new won with won | ⟨same,rfl⟩
    · exact ballots.spent found' asks' won
    · obtain rfl := ballots.distinct found found' same.symm asks asks'
      obtain rfl := Option.some.inj (found.symm.trans found')
      exact most
  elected {w t} won := by
    rcases new won with won | ⟨rfl,rfl⟩
    · exact ballots.elected won
    · obtain ⟨A,card,voted⟩ := (ballots.wellformed found).voters
      refine ⟨A,?_,fun v member => ⟨k,round,found,rfl,asks,voted v member⟩⟩
      unfold Majority
      rw [Fintype.card_fin]
      omega

theorem weaken (ballots : Ballots node elections leads) {leads' : Fin n → Int → Prop}
    (old : ∀ {w t}, leads' w t → leads w t) : Ballots node elections leads' where
  raftId := ballots.raftId
  durable := ballots.durable
  wellformed := ballots.wellformed
  backed := ballots.backed
  single := ballots.single
  distinct := ballots.distinct
  spent found asks won := ballots.spent found asks (old won)
  elected won := ballots.elected (old won)

/-- A round never makes its candidate leader twice: no two majorities of votes fit in it. -/
theorem unpromoted (ballots : Ballots node elections leads) {k : Nat} {round : VoteRound n}
    {t : VoteThread} (found : elections[k]? = some round) (held : round.thread p = some t)
    (waiting : t.waiting = true)
    (enough : ((n / 2 + 1 : Nat) : Int) ≤ round.counter + 1) :
    ¬ leads round.src t.args.term := by
  intro won
  have ok := ballots.wellformed found
  have most := ballots.spent found ((ok.asks held).mpr rfl) won
  have few : round.counted ⊆ (Finset.univ.erase round.src).erase p := by
    intro q member
    obtain ⟨other,held',_,done⟩ := Round.mem_tally.mp member
    refine Finset.mem_erase.mpr ⟨fun same => ?_,Finset.mem_erase.mpr ⟨ok.peer held',Finset.mem_univ q⟩⟩
    subst same
    obtain rfl := Option.some.inj (held.symm.trans held')
    simp [waiting] at done
  have card := Finset.card_le_card few
  rw [Finset.card_erase_of_mem (Finset.mem_erase.mpr ⟨ok.peer held,Finset.mem_univ p⟩),
    Finset.card_erase_of_mem (Finset.mem_univ _),Finset.card_univ,Fintype.card_fin] at card
  have two := Fin.val_ne_of_ne (ok.peer held)
  omega

end Ballots
end KvStorage
