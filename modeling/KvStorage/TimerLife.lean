import KvStorage.TimerHeap

/-! Runs of the timer manager with a clock that does not go back: what the set holds, what can be
found in it, and which callbacks are handed out over a whole run. -/
namespace KvStorage

/-- A callback was handed out, or a cancellation succeeded. -/
inductive TimerEvent where
  | fired (timer : Nat)
  | cancelled (timer : Nat)
  deriving DecidableEq, Repr

/-- The manager with the last clock reading and what happened so far, oldest first. -/
structure TimerLife (Cb : Type) where
  heap : TimerHeap Cb
  clock : UInt64
  log : List TimerEvent

inductive LifeCall (Cb : Type) where
  | addTimer (clock ms : UInt64) (cb : Cb) (is_repeat : Bool) (address : Nat)
  | cancel (timer : Nat)
  | refresh (clock : UInt64) (timer : Nat)
  | reset (timer : Nat) (clock ms : UInt64) (from_now : Bool)
  | getNextTimer (clock : UInt64)
  | listExpiredCb (now_ms : UInt64) (probe : Nat)

namespace TimerLife
open TimerEvent

def start (clock : UInt64) : TimerLife Cb := ⟨.new clock,clock,[]⟩

def step (s : TimerLife Cb) : LifeCall Cb → Option (TimerLife Cb)
  | .addTimer clock ms cb is_repeat address =>
    some { s with heap := (s.heap.addTimer clock ms cb is_repeat address).1, clock }
  | .cancel timer =>
    let (heap,done) := s.heap.cancel timer
    some { s with heap, log := s.log ++ if done then [cancelled timer] else [] }
  | .refresh clock timer => some { s with heap := (s.heap.refresh clock timer).1, clock }
  | .reset timer clock ms from_now => some { s with heap := (s.heap.reset timer clock ms from_now).1, clock }
  | .getNextTimer clock => some { s with heap := (s.heap.getNextTimer clock).1, clock }
  | .listExpiredCb now_ms probe =>
    let (heap,expireds) := s.heap.listExpired now_ms probe
    some ⟨heap,now_ms,s.log ++ expireds.map fun e => fired e.1⟩

/-- Readings do not go back, and `new` returns no address that a timer of the set still has. -/
def Admissible (s : TimerLife Cb) : LifeCall Cb → Prop
  | .addTimer clock _ _ _ address =>
    s.clock ≤ clock ∧ ∀ p ∈ s.heap.timers, (s.heap.objects p).address ≠ address
  | .cancel _ => True
  | .refresh clock _ => s.clock ≤ clock
  | .reset _ clock _ _ => s.clock ≤ clock
  | .getNextTimer clock => s.clock ≤ clock
  | .listExpiredCb now_ms _ => s.clock ≤ now_ms

instance (s : TimerLife Cb) : ∀ call, Decidable (s.Admissible call)
  | .addTimer _ _ _ _ _ => inferInstanceAs (Decidable (_ ∧ ∀ p ∈ s.heap.timers, _))
  | .cancel _ => .isTrue trivial
  | .refresh clock _ => inferInstanceAs (Decidable (s.clock ≤ clock))
  | .reset _ clock _ _ => inferInstanceAs (Decidable (s.clock ≤ clock))
  | .getNextTimer clock => inferInstanceAs (Decidable (s.clock ≤ clock))
  | .listExpiredCb now_ms _ => inferInstanceAs (Decidable (s.clock ≤ now_ms))

/-- A callback comes after no cancellation of its timer, and again only if the timer repeats. -/
def Allowed (heap : TimerHeap Cb) (earlier later : TimerEvent) : Prop :=
  ∀ p, later = fired p → earlier ≠ cancelled p ∧ (earlier = fired p → (heap.objects p).isRepeat)

/-- The invariant of runs: events are of timers that can fire again only as allowed. -/
structure Kept (s : TimerLife Cb) : Prop where
  tidy : s.heap.Tidy
  stored : s.heap.previousTime ≤ s.clock
  gone : ∀ p, cancelled p ∈ s.log → p < s.heap.allocated ∧ (s.heap.objects p).cb = none
  spent : ∀ p, fired p ∈ s.log → p < s.heap.allocated ∧
    ((s.heap.objects p).isRepeat = false → (s.heap.objects p).cb = none)
  log : s.log.Pairwise (Allowed s.heap)

variable {s s' : TimerLife Cb}

theorem start_kept (clock : UInt64) : (start clock : TimerLife Cb).Kept := by
  refine ⟨TimerHeap.new_tidy clock,UInt64.le_refl clock,?_,?_,.nil⟩
  all_goals
    intro p here
    cases here

theorem Kept.later (kept : s.Kept) {heap : TimerHeap Cb} {clock : UInt64} (tidy : heap.Tidy)
    (later : s.heap.Later heap) (stored : heap.previousTime ≤ clock) : Kept ⟨heap,clock,s.log⟩ := by
  refine ⟨tidy,stored,fun p here => ?_,fun p here => ?_,?_⟩
  · obtain ⟨known,dead⟩ := kept.gone p here
    exact ⟨known.trans_le later.allocated,later.dead p known dead⟩
  · obtain ⟨known,dead⟩ := kept.spent p here
    refine ⟨known.trans_le later.allocated,fun once => later.dead p known (dead ?_)⟩
    exact (later.isRepeat p known).symm.trans once
  · refine kept.log.imp_of_mem fun {earlier event} _ inside allowed p eq => ?_
    obtain ⟨after,again⟩ := allowed p eq
    subst eq
    exact ⟨after,fun twice => (later.isRepeat p (kept.spent p inside).1).trans (again twice)⟩

theorem Kept.addTimer (kept : s.Kept) (clock ms : UInt64) (cb : Cb) (is_repeat : Bool) {address : Nat}
    (steady : s.clock ≤ clock) (fresh : ∀ p ∈ s.heap.timers, (s.heap.objects p).address ≠ address) :
    Kept ⟨(s.heap.addTimer clock ms cb is_repeat address).1,clock,s.log⟩ := by
  obtain ⟨tidy,later⟩ := kept.tidy.addTimer clock ms cb is_repeat fresh
  exact kept.later tidy later (UInt64.le_trans kept.stored steady)

theorem Kept.cancel (kept : s.Kept) (p : Nat) : Kept ⟨(s.heap.cancel p).1,s.clock,
    s.log ++ if (s.heap.cancel p).2 then [cancelled p] else []⟩ := by
  obtain ⟨done,tidy,later,stored,dead⟩ := kept.tidy.cancel p
  have after := kept.later tidy later (stored ▸ kept.stored)
  split
  case isFalse => rw [List.append_nil]; exact after
  next succeeded =>
    have known : p < (s.heap.cancel p).1.allocated :=
      (kept.tidy.known p ((kept.tidy.member p).mpr (done ▸ succeeded))).trans_le later.allocated
    refine ⟨tidy,after.stored,fun q here => ?_,fun q here => ?_,?_⟩
    · rcases List.mem_append.mp here with here | here
      · exact after.gone q here
      · obtain rfl := cancelled.inj (List.mem_singleton.mp here)
        exact ⟨known,dead⟩
    · rcases List.mem_append.mp here with here | here
      · exact after.spent q here
      · cases List.mem_singleton.mp here
    · refine List.pairwise_append.mpr ⟨after.log,List.pairwise_singleton ..,?_⟩
      intro earlier _ event here q eq
      rw [List.mem_singleton.mp here] at eq
      cases eq

theorem Kept.listExpired (kept : s.Kept) {now_ms : UInt64} (steady : s.clock ≤ now_ms) (probe : Nat) :
    Kept ⟨(s.heap.listExpired now_ms probe).1,now_ms,
      s.log ++ (s.heap.listExpired now_ms probe).2.map fun e => fired e.1⟩ := by
  obtain ⟨heap,done,expired⟩ := kept.tidy.listExpired (UInt64.le_trans kept.stored steady) probe
  have after := kept.later expired.tidy expired.later expired.stored
  rw [done]
  have events : ((s.heap.due now_ms).map fun p => (p,(s.heap.objects p).cb)).map (fun e => fired e.1) =
      (s.heap.due now_ms).map fired := List.map_map
  simp only [events]
  -- a due timer has its callback, so it was not cancelled, and fired before only if it repeats
  have live : ∀ p ∈ s.heap.due now_ms, p < s.heap.allocated ∧ (s.heap.objects p).cb ≠ none := by
    intro p here
    have inside := (TimerHeap.mem_due.mp here).1
    exact ⟨kept.tidy.known p inside,Option.isSome_iff_ne_none.mp ((kept.tidy.member p).mp inside)⟩
  refine ⟨expired.tidy,expired.stored,fun p here => ?_,fun p here => ?_,?_⟩
  · rcases List.mem_append.mp here with here | here
    · exact after.gone p here
    · obtain ⟨_,_,eq⟩ := List.mem_map.mp here
      cases eq
  · rcases List.mem_append.mp here with here | here
    · exact after.spent p here
    · obtain ⟨q,soon,eq⟩ := List.mem_map.mp here
      obtain rfl := fired.inj eq
      refine ⟨(live q soon).1.trans_le expired.later.allocated,?_⟩
      rw [expired.objects,if_pos soon]
      unfold TimerHeap.expire
      split
      · next repeats =>
        intro once
        rw [repeats] at once
        cases once
      · exact fun _ => rfl
  · refine List.pairwise_append.mpr ⟨after.log,?_,?_⟩
    · refine List.pairwise_map.mpr ((kept.tidy.toOrdered.nodup.filter _).imp ?_)
      intro p q apart r eq
      obtain rfl := fired.inj eq
      refine ⟨fun wrong => ?_,fun same => absurd (fired.inj same) apart⟩
      cases wrong
    · intro earlier before event here p eq
      subst eq
      obtain ⟨q,soon,eq⟩ := List.mem_map.mp here
      obtain rfl := fired.inj eq
      obtain ⟨known,alive⟩ := live q soon
      refine ⟨?_,?_⟩
      · rintro rfl
        exact alive (kept.gone q before).2
      · rintro rfl
        rw [expired.later.isRepeat q known]
        by_contra once
        exact alive ((kept.spent q before).2 (Bool.not_eq_true _ ▸ once))

theorem Kept.step (kept : s.Kept) {call : LifeCall Cb} (admissible : s.Admissible call)
    (taken : s.step call = some s') : s'.Kept := by
  cases call with
  | addTimer clock ms cb is_repeat address =>
    obtain rfl := Option.some.inj taken
    exact kept.addTimer clock ms cb is_repeat admissible.1 admissible.2
  | cancel timer =>
    obtain rfl := Option.some.inj taken
    exact kept.cancel timer
  | refresh clock timer =>
    obtain rfl := Option.some.inj taken
    obtain ⟨_,tidy,later,stored⟩ := kept.tidy.refresh clock timer
    exact kept.later tidy later (stored ▸ UInt64.le_trans kept.stored admissible)
  | reset timer clock ms from_now =>
    obtain rfl := Option.some.inj taken
    obtain ⟨_,tidy,later,stored⟩ := kept.tidy.reset timer clock ms from_now
    exact kept.later tidy later (stored ▸ UInt64.le_trans kept.stored admissible)
  | getNextTimer clock =>
    obtain rfl := Option.some.inj taken
    exact kept.later (kept.tidy.tickled false) ⟨le_rfl,fun _ _ => rfl,fun _ _ dead => dead⟩
      (UInt64.le_trans kept.stored admissible)
  | listExpiredCb now_ms probe =>
    obtain rfl := Option.some.inj taken
    exact kept.listExpired admissible probe

theorem reach_kept {clock : UInt64} (reach : Run.Reach step Admissible (start clock : TimerLife Cb) s) : s.Kept :=
  reach.invariant Kept (start_kept clock) fun _ _ _ _ kept admissible taken => kept.step admissible taken

/-- What a call of `listExpiredCb` hands out and leaves: every due timer once, in the order of
`next_`; the repeating ones go on at the reading and their period. -/
structure Expires (heap : TimerHeap Cb) (now_ms : UInt64) (probe : Nat) : Prop where
  returned : (heap.listExpiredCb now_ms probe).2 = (heap.due now_ms).map fun p => (heap.objects p).cb
  callbacks : ∀ p ∈ heap.due now_ms, (heap.objects p).cb.isSome
  once : (heap.due now_ms).Nodup
  ordered : (heap.due now_ms).Pairwise fun p q => (heap.objects p).next ≤ (heap.objects q).next
  members : ∀ p, p ∈ (heap.listExpiredCb now_ms probe).1.timers ↔
    p ∈ heap.timers ∧ (p ∈ heap.due now_ms → (heap.objects p).isRepeat)
  again : ∀ p ∈ heap.due now_ms, (heap.objects p).isRepeat → (heap.listExpiredCb now_ms probe).1.objects p =
    { heap.objects p with next := now_ms + (heap.objects p).ms }
  others : ∀ p ∉ heap.due now_ms, (heap.listExpiredCb now_ms probe).1.objects p = heap.objects p

/-- The life cycle of timers in a state: the set, what can be found in it, what expires next, and
what was ever handed out. -/
structure LifeCycle (s : TimerLife Cb) : Prop where
  sorted : s.heap.timers.Pairwise fun p q => (s.heap.objects p).next < (s.heap.objects q).next ∨
    (s.heap.objects p).next = (s.heap.objects q).next ∧ (s.heap.objects p).address < (s.heap.objects q).address
  member : ∀ p, p ∈ s.heap.timers ↔ (s.heap.objects p).cb.isSome
  found : ∀ p, (s.heap.objects p).cb.isSome → ∃ it, s.heap.find p = some it ∧ s.heap.timers[it]? = some p
  cancels : ∀ p, (s.heap.cancel p).2 = (s.heap.objects p).cb.isSome
  refreshes : ∀ clock p, (s.heap.refresh clock p).2 = (s.heap.objects p).cb.isSome
  resets : ∀ p clock ms from_now, (s.heap.reset p clock ms from_now).2 =
    (decide (ms = (s.heap.objects p).ms ∧ ¬ from_now) || (s.heap.objects p).cb.isSome)
  expires : ∀ now_ms, s.clock ≤ now_ms → ∀ probe, Expires s.heap now_ms probe
  next : ∀ now_ms, s.clock ≤ now_ms → ∀ probe,
    (s.heap.getNextTimer now_ms).2 = 0 ↔ (s.heap.listExpiredCb now_ms probe).2 ≠ []
  log : s.log.Pairwise (Allowed s.heap)

theorem Kept.expires (kept : s.Kept) {now_ms : UInt64} (steady : s.clock ≤ now_ms) (probe : Nat) :
    Expires s.heap now_ms probe := by
  obtain ⟨heap,done,expired⟩ := kept.tidy.listExpired (UInt64.le_trans kept.stored steady) probe
  have done : s.heap.listExpiredCb now_ms probe =
      (heap,(s.heap.due now_ms).map fun p => (s.heap.objects p).cb) := by
    simp only [TimerHeap.listExpiredCb,done,List.map_map]
    rfl
  constructor
  all_goals try rw [done]
  · exact fun p here => (kept.tidy.member p).mp (TimerHeap.mem_due.mp here).1
  · exact kept.tidy.toOrdered.nodup.filter _
  · exact kept.tidy.toOrdered.next_le.filter _
  · exact expired.members
  · intro p soon repeats
    rw [expired.objects,if_pos soon]
    exact if_pos repeats
  · intro p waits
    rw [expired.objects,if_neg waits]

/-- Two timers due at the same time, one of them repeating, and one that is cancelled. -/
def threeTimers : List (LifeCall Nat) := [.addTimer 5 10 7 false 30,.addTimer 5 10 8 true 20,.addTimer 6 1 9 false 40,
  .cancel 2,.listExpiredCb 15 50,.refresh 16 0]

/-- The repeating timer has the lower address: it is handed out first, and alone stays. -/
example : ((Run.run step (start 5 : TimerLife Nat) threeTimers).map fun s => (s.log,s.heap.timers)) =
    some ([.cancelled 2,.fired 1,.fired 0],[1]) := by decide +kernel

end TimerLife
end KvStorage
