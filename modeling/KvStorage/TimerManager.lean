import Mathlib
import KvStorage.Lib.Run

/-! The timer set and its clock readings. A timer is due at its `next_`; a reading far below
the stored one counts as a rollover, which takes every timer for due. -/
namespace KvStorage

structure Timer (Cb : Type) where
  address : Nat
  isRepeat : Bool
  ms : UInt64
  next : UInt64
  cb : Option Cb
  deriving DecidableEq, Repr

namespace Timer

/-- The set's order: by due time, then by address. -/
def Before (t u : Timer Cb) : Prop := if t.next = u.next then t.address < u.address else t.next < u.next

instance (t u : Timer Cb) : Decidable (t.Before u) :=
  inferInstanceAs (Decidable (if t.next = u.next then t.address < u.address else t.next < u.next))

theorem Before.trans {t u v : Timer Cb} (one : t.Before u) (two : u.Before v) : t.Before v := by
  simp only [Before,← UInt64.toNat_inj,UInt64.lt_iff_toNat_lt] at *
  split at one <;> split at two <;> split <;> omega

theorem Before.irrefl (t : Timer Cb) : ¬ t.Before t := by simp [Before]

theorem Before.total {t u : Timer Cb} (apart : t.address ≠ u.address) : t.Before u ∨ u.Before t := by
  simp only [Before,← UInt64.toNat_inj,UInt64.lt_iff_toNat_lt]
  split <;> split <;> omega

theorem Before.next_le {t u : Timer Cb} (before : t.Before u) : t.next ≤ u.next := by
  simp only [Before,← UInt64.toNat_inj,UInt64.lt_iff_toNat_lt,UInt64.le_iff_toNat_le] at *
  split at before <;> omega

/-- `std::set::insert`. -/
def insert (timer : Timer Cb) : List (Timer Cb) → List (Timer Cb)
  | [] => [timer]
  | t :: rest =>
    if timer.Before t then timer :: t :: rest
    else if t.Before timer then t :: insert timer rest
    else t :: rest

theorem insert_subset (timer : Timer Cb) (timers : List (Timer Cb)) :
    insert timer timers ⊆ timer :: timers := by
  induction timers with
  | nil => simp [insert]
  | cons t rest ih =>
    simp only [insert]
    split
    · exact List.Subset.refl _
    split
    · intro u inside
      rcases List.mem_cons.mp inside with rfl | later
      · simp
      · rcases List.mem_cons.mp (ih later) with rfl | later <;> simp [*]
    · exact List.subset_cons_self ..

theorem insert_sorted (timer : Timer Cb) {timers : List (Timer Cb)} (sorted : timers.Pairwise Before) :
    (insert timer timers).Pairwise Before := by
  induction timers with
  | nil => simp [insert]
  | cons t rest ih =>
    obtain ⟨first,later⟩ := List.pairwise_cons.mp sorted
    simp only [insert]
    split
    · next before =>
      apply List.pairwise_cons.mpr
      refine ⟨fun u inside => ?_,sorted⟩
      rcases List.mem_cons.mp inside with rfl | inside
      · exact before
      · exact before.trans (first u inside)
    split
    · next after =>
      apply List.pairwise_cons.mpr
      refine ⟨fun u inside => ?_,ih later⟩
      rcases List.mem_cons.mp (insert_subset timer rest inside) with rfl | inside
      · exact after
      · exact first u inside
    · exact sorted

end Timer

/-- `timers_` holds its elements in the order of the comparator. -/
structure TimerManager (Cb : Type) where
  timers : List (Timer Cb)
  tickled : Bool
  previousTime : UInt64
  sorted : timers.Pairwise Timer.Before

namespace TimerManager

/-- The constructor, at the clock reading it takes. -/
def new (clock : UInt64) : TimerManager Cb := ⟨[],false,clock,.nil⟩

variable (m : TimerManager Cb)

def insert (timer : Timer Cb) : TimerManager Cb :=
  { m with timers := timer.insert m.timers, sorted := timer.insert_sorted m.sorted }

def erase (address : Nat) : TimerManager Cb :=
  { m with
    timers := m.timers.filter fun t => t.address ≠ address
    sorted := m.sorted.sublist List.filter_sublist }

/-- The locked `addTimer`; the flag says whether `OnTimerInsertedAtFront` is called. -/
def addLocked (timer : Timer Cb) : TimerManager Cb × Bool :=
  let m := m.insert timer
  let at_front := m.timers.head?.any (fun t => t.address = timer.address) && !m.tickled
  ({ m with tickled := m.tickled || at_front },at_front)

def addTimer (clock ms : UInt64) (cb : Option Cb) (is_repeat : Bool) (address : Nat) :
    TimerManager Cb × Bool :=
  m.addLocked ⟨address,is_repeat,ms,clock + ms,cb⟩

/-- A timer that `cancel`, `refresh` and `reset` act on: in the set and with a callback. -/
def pending (address : Nat) : Option (Timer Cb) :=
  m.timers.find? fun t => t.address = address ∧ t.cb.isSome

def cancel (address : Nat) : TimerManager Cb × Bool :=
  match m.pending address with
  | none => (m,false)
  | some _ => (m.erase address,true)

def refresh (clock : UInt64) (address : Nat) : TimerManager Cb × Bool :=
  match m.pending address with
  | none => (m,false)
  | some t => ((m.erase address).insert { t with next := clock + t.ms },true)

/-- `timer` is the caller's own; a timer that is no longer pending may still be reset to its period. -/
def reset (timer : Timer Cb) (clock ms : UInt64) (from_now : Bool) : TimerManager Cb × Bool :=
  if ms = timer.ms ∧ ¬ from_now then (m,true)
  else match m.pending timer.address with
  | none => (m,false)
  | some t =>
    let start_tm := if from_now then clock else t.next - t.ms
    (((m.erase t.address).addLocked { t with ms, next := start_tm + ms }).1,true)

/-- The wait until the next timer; all ones when there is none. -/
def getNextTimer (clock : UInt64) : TimerManager Cb × UInt64 :=
  ({ m with tickled := false },
    match m.timers with
    | [] => ~~~0
    | next :: _ => if clock ≥ next.next then 0 else next.next - clock)

def hasTimer : Bool := !m.timers.isEmpty

/-- More than an hour below the stored reading; the subtraction is unsigned. -/
def detectClockRollover (now_ms : UInt64) : TimerManager Cb × Bool :=
  if now_ms < m.previousTime ∧ now_ms < m.previousTime - 60*60*1000 then (m,true)
  else ({ m with previousTime := now_ms },false)

/-- How many timers `[begin, it)` holds; `now_timer` is a probe allocated at some address. -/
def expiredCount (now_ms : UInt64) (now_timer : Timer Cb) (isRollover : Bool) : Nat :=
  if isRollover then m.timers.length
  else
    let lower_bound := (m.timers.takeWhile fun t => t.Before now_timer).length
    lower_bound + ((m.timers.drop lower_bound).takeWhile fun t => t.next ≤ now_ms).length

/-- The repeating ones among the expired timers go back into the set. -/
def reinsert (now_ms : UInt64) : List (Timer Cb) → TimerManager Cb → TimerManager Cb
  | [], m => m
  | t :: rest, m =>
    reinsert now_ms rest (if t.isRepeat then m.insert { t with next := now_ms + t.ms } else m)

/-- The timers whose callbacks `listExpiredCb` hands out, taken out of the set. -/
def listExpired (now_ms : UInt64) (probe : Nat) : TimerManager Cb × List (Timer Cb) :=
  match m.timers with
  | [] => (m,[])
  | first :: _ =>
    let (m,isRollover) := m.detectClockRollover now_ms
    if ¬ isRollover ∧ first.next > now_ms then (m,[])
    else
      let it := m.expiredCount now_ms ⟨probe,false,0,now_ms,none⟩ isRollover
      let expireds := m.timers.take it
      let rest := { m with timers := m.timers.drop it, sorted := m.sorted.sublist (List.drop_sublist ..) }
      (reinsert now_ms expireds rest,expireds)

def listExpiredCb (now_ms : UInt64) (probe : Nat) : TimerManager Cb × List (Option Cb) :=
  let (m,expireds) := m.listExpired now_ms probe
  (m,expireds.map Timer.cb)

/-! ### What expires -/

theorem detectClockRollover_iff (now : UInt64) : (m.detectClockRollover now).2 = true ↔
    now < m.previousTime ∧
      (m.previousTime.toNat < 3600000 ∨ now.toNat + 3600000 < m.previousTime.toNat) := by
  have hour : (60*60*1000 : UInt64).toNat = 3600000 := rfl
  have size := m.previousTime.toNat_lt
  have below := now.toNat_lt
  have wrapped := UInt64.toNat_sub m.previousTime (60*60*1000)
  rw [hour] at wrapped
  unfold detectClockRollover
  split
  · next rollover =>
    simp only [UInt64.lt_iff_toNat_lt] at rollover ⊢
    simp only [true_iff]
    omega
  · next steady =>
    simp only [UInt64.lt_iff_toNat_lt] at steady ⊢
    simp only [Bool.false_eq_true,false_iff]
    omega

/-- Without a rollover only timers that are due expire. -/
theorem expiredCount_due {now : UInt64} {probe : Nat} {t : Timer Cb}
    (inside : t ∈ m.timers.take (m.expiredCount now ⟨probe,false,0,now,none⟩ false)) : t.next ≤ now := by
  simp only [expiredCount,Bool.false_eq_true,if_false] at inside
  generalize split : (m.timers.takeWhile fun t => t.Before ⟨probe,false,0,now,none⟩).length = lower at inside
  rw [List.take_add,List.mem_append] at inside
  rcases inside with low | high
  · have front : m.timers.take lower = m.timers.takeWhile fun t => t.Before ⟨probe,false,0,now,none⟩ := by
      rw [← split]
      exact (List.prefix_iff_eq_take.mp (List.takeWhile_prefix _)).symm
    rw [front] at low
    have before := List.mem_takeWhile_imp low
    exact (of_decide_eq_true before).next_le
  · rw [← List.prefix_iff_eq_take.mp (List.takeWhile_prefix _)] at high
    have due := List.mem_takeWhile_imp (p := fun t : Timer Cb => decide (t.next ≤ now)) high
    exact of_decide_eq_true due

theorem detectClockRollover_timers (now : UInt64) :
    (m.detectClockRollover now).1.timers = m.timers := by
  unfold detectClockRollover
  split <;> rfl

/-- A rollover hands out every timer, a steady clock only those that are due. -/
theorem listExpired_cases (now : UInt64) (probe : Nat) :
    ((m.detectClockRollover now).2 = true ∧ (m.listExpired now probe).2 = m.timers) ∨
    ((m.detectClockRollover now).2 = false ∧ ∀ t ∈ (m.listExpired now probe).2, t.next ≤ now) := by
  have same := m.detectClockRollover_timers now
  unfold listExpired
  cases held : m.timers with
  | nil =>
    cases rollover : (m.detectClockRollover now).2 with
    | true => exact .inl ⟨rfl,rfl⟩
    | false => exact .inr ⟨rfl,by simp⟩
  | cons first rest =>
    rw [held] at same
    cases rollover : (m.detectClockRollover now).2 with
    | true =>
      refine .inl ⟨rfl,?_⟩
      simp [rollover,expiredCount,same]
    | false =>
      refine .inr ⟨rfl,fun t inside => ?_⟩
      simp only [rollover] at inside
      split at inside
      · cases inside
      · exact expiredCount_due _ inside

end TimerManager

/-! ### Runs -/

/-- `last` is the reading of the previous `listExpiredCb` that found timers. -/
structure TimerRun (Cb : Type) where
  manager : TimerManager Cb
  last : UInt64

inductive TimerCall (Cb : Type) where
  | addTimer (clock ms : UInt64) (cb : Option Cb) (is_repeat : Bool) (address : Nat)
  | cancel (address : Nat)
  | refresh (clock : UInt64) (address : Nat)
  | reset (timer : Timer Cb) (clock ms : UInt64) (from_now : Bool)
  | getNextTimer (clock : UInt64)
  | listExpiredCb (now_ms : UInt64) (probe : Nat)

namespace TimerRun

def start (clock : UInt64) : TimerRun Cb := ⟨.new clock,clock⟩

def step (run : TimerRun Cb) : TimerCall Cb → Option (TimerRun Cb)
  | .addTimer clock ms cb is_repeat address =>
    some { run with manager := (run.manager.addTimer clock ms cb is_repeat address).1 }
  | .cancel address => some { run with manager := (run.manager.cancel address).1 }
  | .refresh clock address => some { run with manager := (run.manager.refresh clock address).1 }
  | .reset timer clock ms from_now =>
    some { run with manager := (run.manager.reset timer clock ms from_now).1 }
  | .getNextTimer clock => some { run with manager := (run.manager.getNextTimer clock).1 }
  | .listExpiredCb now_ms probe =>
    some ⟨(run.manager.listExpiredCb now_ms probe).1,if run.manager.hasTimer then now_ms else run.last⟩

/-- A timer that is not due expires only when the clock fell by more than an hour since `last`. -/
def Punctual (run : TimerRun Cb) : TimerCall Cb → Prop
  | .listExpiredCb now_ms probe => ∀ t ∈ (run.manager.listExpired now_ms probe).2,
      now_ms < t.next → now_ms.toNat + 3600000 < run.last.toNat
  | _ => True

/-- The reading is not below the stored one, or the stored one is past the first hour and at
most an hour above it, unless the clock fell since `last` or nothing waits beyond the reading. -/
def Steady (run : TimerRun Cb) : TimerCall Cb → Prop
  | .listExpiredCb now_ms _ => run.manager.previousTime ≤ now_ms ∨
      (3600000 ≤ run.manager.previousTime.toNat ∧
        run.manager.previousTime.toNat ≤ now_ms.toNat + 3600000) ∨
      now_ms.toNat + 3600000 < run.last.toNat ∨ ∀ t ∈ run.manager.timers, t.next ≤ now_ms
  | _ => True

theorem punctual_iff (run : TimerRun Cb) (call : TimerCall Cb) : run.Punctual call ↔ run.Steady call := by
  cases call with
  | listExpiredCb now probe =>
    have detected := run.manager.detectClockRollover_iff now
    simp only [Punctual,Steady]
    rcases run.manager.listExpired_cases now probe with ⟨rollover,all⟩ | ⟨steady,due⟩
    · obtain ⟨below,far⟩ := detected.mp rollover
      have notAbove : ¬ run.manager.previousTime ≤ now := by
        simp only [UInt64.lt_iff_toNat_lt,UInt64.le_iff_toNat_le] at *
        omega
      rw [all]
      constructor
      · intro law
        by_cases fell : now.toNat + 3600000 < run.last.toNat
        · exact .inr (.inr (.inl fell))
        · refine .inr (.inr (.inr fun t inside => ?_))
          by_contra late
          exact fell (law t inside (UInt64.not_le.mp late))
      · rintro (above | near | fell | due) t inside late
        · exact absurd above notAbove
        · omega
        · exact fell
        · exact absurd late (UInt64.not_lt.mpr (due t inside))
    · constructor
      · intro _
        rw [steady] at detected
        have apart := mt detected.mpr (by simp)
        by_cases above : run.manager.previousTime ≤ now
        · exact .inl above
        · refine .inr (.inl ?_)
          simp only [UInt64.lt_iff_toNat_lt,UInt64.le_iff_toNat_le] at *
          omega
      · intro _ t inside late
        exact absurd late (UInt64.not_lt.mpr (due t inside))
  | _ => exact Iff.rfl

/-- Over whole runs, timers are punctual exactly when every reading is steady. -/
theorem punctual_run_iff (clock : UInt64) (calls : List (TimerCall Cb)) :
    Run.Each step Punctual (start clock) calls ↔ Run.Each step Steady (start clock) calls :=
  Run.each_iff (fun _ => True) (fun run call _ _ _ => punctual_iff run call)
    (fun _ _ _ _ _ _ => trivial) calls trivial

/-- One second after the boot, a reading one millisecond below the stored one. -/
def earlyJitter : List (TimerCall Nat) := [.addTimer 1000 60000 (some 7) false 1,.listExpiredCb 999 2]

theorem punctual_fails : ¬ ∀ (clock : UInt64) (calls : List (TimerCall Nat)),
    Run.Each step Punctual (start clock) calls := by
  intro law
  have late := ((law 1000 earlyJitter _ rfl).2 _ rfl).1 ⟨1,false,60000,61000,some 7⟩ (by decide +kernel) (by decide +kernel)
  exact absurd late (by decide +kernel)

/-- A rollover keeps the old stored reading, so a clock that goes on after a jump still looks rolled over. -/
example : (Run.run step (start 10000000 : TimerRun Nat) [.addTimer 10000000 60000 none false 1,
    .listExpiredCb 1000000 2,.addTimer 1000000 60000 none false 3]).map
      (fun run => (run.last,(run.manager.listExpired 1000001 4).2.map Timer.next)) =
    some (1000000,[1060000]) := by decide +kernel

end TimerRun
end KvStorage
