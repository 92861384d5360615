import KvStorage.ClusterSpec

/-! The threads of one round over time, and the peers whose good reply its counter
has seen. Elections and heartbeat rounds count the same way. -/
namespace KvStorage

namespace Thread
variable (t : Thread Args Reply)
@[simp] theorem answered_args (reply : Reply) : (t.answered reply).args = t.args := rfl
@[simp] theorem answered_reply (reply : Reply) : (t.answered reply).reply = some reply := rfl
@[simp] theorem answered_inFlight (reply : Reply) : (t.answered reply).inFlight = false := rfl
@[simp] theorem unanswered_args : t.unanswered.args = t.args := rfl
@[simp] theorem unanswered_reply : t.unanswered.reply = t.reply := rfl
@[simp] theorem unanswered_inFlight : t.unanswered.inFlight = false := rfl
@[simp] theorem finished_args : t.finished.args = t.args := rfl
@[simp] theorem finished_reply : t.finished.reply = t.reply := rfl
@[simp] theorem finished_inFlight : t.finished.inFlight = t.inFlight := rfl
@[simp] theorem finished_waiting : t.finished.waiting = false := rfl
end Thread

namespace Round

variable {round : Round n Args Reply} {p q v : Fin n} {t t' x : Thread Args Reply}

theorem launch_thread {requests : List (Fin n × Args)}
    (held : (Round.launch v requests : Round n Args Reply).thread p = some t) :
    ∃ args, (p,args) ∈ requests ∧ t = { args } := by
  obtain ⟨args,found,rfl⟩ := Option.map_eq_some_iff.mp held
  obtain ⟨front,back,rfl,_⟩ := List.lookup_eq_some_iff.mp found
  exact ⟨args,by simp,rfl⟩

theorem setThread_thread : (round.setThread p t').thread q = some x ↔
    (q = p ∧ x = t') ∨ (q ≠ p ∧ round.thread q = some x) := by
  simp only [setThread,Function.update_apply]
  by_cases same : q = p <;> simp [same,eq_comm]

/-- Being abandoned ends the wait and changes nothing else. -/
structure Left (t t' : Thread Args Reply) : Prop where
  args : t'.args = t.args
  reply : t'.reply = t.reply
  inFlight : t'.inFlight = t.inFlight
  waiting : t.waiting = false → t'.waiting = false

@[simp] theorem abandon_src : (round.abandon v).src = round.src := by
  unfold abandon; split <;> rfl
@[simp] theorem abandon_counter : (round.abandon v).counter = round.counter := by
  unfold abandon; split <;> rfl

theorem abandon_back (held : (round.abandon v).thread p = some t') :
    ∃ t, round.thread p = some t ∧ Left t t' := by
  unfold abandon at held
  split at held
  · obtain ⟨t,found,rfl⟩ := Option.map_eq_some_iff.mp held
    exact ⟨t,found,rfl,rfl,rfl,fun _ => rfl⟩
  · exact ⟨t',held,rfl,rfl,rfl,id⟩

theorem abandon_forth (held : round.thread p = some t) :
    ∃ t', (round.abandon v).thread p = some t' ∧ Left t t' := by
  unfold abandon
  split
  · exact ⟨t.finished,by simp [held],rfl,rfl,rfl,fun _ => rfl⟩
  · exact ⟨t,held,rfl,rfl,rfl,id⟩

/-! ### The counter -/

/-- Peers whose good reply was counted, or dropped by a crash of the sender. -/
def tally (round : Round n Args Reply) (good : Reply → Bool) : Finset (Fin n) :=
  Finset.univ.filter fun p => (round.thread p).any fun t => t.reply.any good && !t.waiting

variable {good : Reply → Bool}

theorem mem_tally : p ∈ round.tally good ↔
    ∃ t, round.thread p = some t ∧ t.reply.any good = true ∧ t.waiting = false := by
  cases held : round.thread p <;> simp [tally,held]

theorem tally_abandon : round.tally good ⊆ (round.abandon v).tally good := by
  intro p member
  obtain ⟨t,held,replied,done⟩ := mem_tally.mp member
  obtain ⟨t',held',left⟩ := abandon_forth held
  exact mem_tally.mpr ⟨t',held',by rwa [left.reply],left.waiting done⟩

/-- The counter may rise by one when a waiting thread is counted now, and only then. -/
theorem tally_setThread (held : round.thread p = some t)
    (kept : t.reply.any good = true → t'.reply.any good = true)
    (settled : t.waiting = false → t'.waiting = false) {counter : Int}
    (counts : counter ≤ round.counter ∨ (counter ≤ round.counter + 1 ∧ t.waiting = true ∧
      t'.reply.any good = true ∧ t'.waiting = false)) :
    counter - round.counter ≤
      ((round.setThread p t').tally good).card - ((round.tally good).card : Int) := by
  have more : round.tally good ⊆ (round.setThread p t').tally good := by
    intro q member
    obtain ⟨x,found,replied,done⟩ := mem_tally.mp member
    by_cases same : q = p
    · subst same
      obtain rfl := Option.some.inj (held.symm.trans found)
      exact mem_tally.mpr ⟨t',setThread_thread.mpr (.inl ⟨rfl,rfl⟩),kept replied,settled done⟩
    · exact mem_tally.mpr ⟨x,setThread_thread.mpr (.inr ⟨same,found⟩),replied,done⟩
  have atLeast := Finset.card_le_card more
  rcases counts with less | ⟨one,waiting,replied,done⟩
  · omega
  · have absent : p ∉ round.tally good := fun member => by
      obtain ⟨x,found,_,done'⟩ := mem_tally.mp member
      obtain rfl := Option.some.inj (held.symm.trans found)
      simp [waiting] at done'
    have present : p ∈ (round.setThread p t').tally good :=
      mem_tally.mpr ⟨t',setThread_thread.mpr (.inl ⟨rfl,rfl⟩),replied,done⟩
    have := Finset.card_lt_card (Finset.ssubset_iff_subset_ne.mpr
      ⟨more,fun eq => absent (eq ▸ present)⟩)
    omega

/-- The sender and the peers counted, as one set. -/
theorem tally_with (good : Reply → Bool) (peer : ∀ {p t}, round.thread p = some t → p ≠ round.src) :
    ∃ A : Finset (Fin n), A.card = (round.tally good).card + 1 ∧
      ∀ v ∈ A, v = round.src ∨ v ∈ round.tally good := by
  have apart : round.src ∉ round.tally good := fun member => by
    obtain ⟨t,held,_⟩ := mem_tally.mp member
    exact peer held rfl
  exact ⟨insert round.src (round.tally good),Finset.card_insert_of_notMem apart,
    fun v member => Finset.mem_insert.mp member⟩

end Round
end KvStorage
