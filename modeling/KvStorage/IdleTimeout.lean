import KvStorage.TimerManager

/-! The timeout that `idle` hands to `epoll_wait`: the distance of the next timer, narrowed to an
`int`, cut at five seconds and stored back into 64 bits, again on every retry. -/
namespace KvStorage.IdleTimeout

def MAX_TIMEOUT : Int32 := 5000

/-- The conversion to `int` keeps the low 32 bits. -/
def toInt (value : UInt64) : Int32 := value.toUInt32.toInt32

/-- The conversion back extends the sign. -/
def ofInt (value : Int32) : UInt64 := value.toInt64.toUInt64

/-- `std::min`. -/
def min (a b : Int32) : Int32 := if b < a then b else a

inductive WaitResult where
  | EINTR
  | error
  | ready (events : Nat)
  deriving DecidableEq, Repr

/-- The assignment to `next_timeout` before each wait. -/
def cut (next_timeout : UInt64) : UInt64 :=
  if next_timeout ≠ ~~~0 then ofInt (min (toInt next_timeout) MAX_TIMEOUT) else ofInt MAX_TIMEOUT

/-- The timeouts passed to `epoll_wait`, given what its calls return. -/
def waits (next_timeout : UInt64) : List WaitResult → List Int32
  | [] => []
  | ret :: later =>
    let next_timeout := cut next_timeout
    toInt next_timeout :: if ret = .EINTR then waits next_timeout later else []

/-! ### Conversions -/

@[simp] theorem toInt_ofInt (value : Int32) : toInt (ofInt value) = value := by
  apply Int32.toBitVec_inj.mp
  simp only [toInt,ofInt,UInt32.toBitVec_toInt32,UInt64.toBitVec_toUInt32,Int64.toBitVec_toUInt64,Int32.toBitVec_toInt64]
  apply BitVec.eq_of_getLsbD_eq
  intro i inside
  simp [BitVec.getLsbD_signExtend,inside]
  omega

/-- Bit 31 of the distance is the sign. -/
theorem toInt_toInt (value : UInt64) : (toInt value).toInt =
    if value.toNat % 2^32 < 2^31 then ((value.toNat % 2^32 : Nat) : Int) else (value.toNat % 2^32 : Nat) - 2^32 := by
  rw [toInt,← Int32.toInt_toBitVec,BitVec.toInt_eq_toNat_bmod]
  simp only [UInt32.toBitVec_toInt32,UInt64.toBitVec_toUInt32,BitVec.toNat_setWidth,UInt64.toNat_toBitVec,Int.bmod]
  omega

theorem min_toInt (a b : Int32) : (min a b).toInt = Min.min a.toInt b.toInt := by
  unfold min
  split
  · next less =>
    have less := Int32.lt_iff_toInt_lt.mp less
    omega
  · next least =>
    have least := Int32.lt_iff_toInt_lt.not.mp least
    omega

/-- What is passed on is the low half of the distance, if its sign is clear. -/
theorem cut_toInt (value : UInt64) : (toInt (cut value)).toInt =
    if value = ~~~0 then 5000 else Min.min (toInt value).toInt 5000 := by
  unfold cut
  by_cases none : value = ~~~0
  · simp only [none,ne_eq,not_true_eq_false,if_false,if_true,toInt_ofInt]
    rfl
  · simp only [none,ne_eq,not_false_eq_true,if_true,if_false,toInt_ofInt,min_toInt]
    rfl

/-- A timeout that is in range stays as it is on a retry. -/
theorem cut_ofInt {value : Int32} (least : 0 ≤ value.toInt) (most : value.toInt ≤ 5000) : cut (ofInt value) = ofInt value := by
  have some : ofInt value ≠ ~~~0 := by
    intro none
    have same : toInt (ofInt value) = toInt (~~~0) := congrArg toInt none
    rw [toInt_ofInt] at same
    rw [same] at least
    exact absurd least (by decide)
  have smaller : ¬ MAX_TIMEOUT < value := by
    rw [Int32.lt_iff_toInt_lt]
    exact not_lt.mpr most
  rw [cut,if_pos some,toInt_ofInt,min,if_neg smaller]

theorem ofInt_cut (value : UInt64) : ofInt (toInt (cut value)) = cut value := by
  unfold cut
  split <;> rw [toInt_ofInt]

/-- All retries of one wait pass the same timeout, once the first is in range. -/
theorem waits_eq {value : UInt64} (least : 0 ≤ (toInt (cut value)).toInt) (most : (toInt (cut value)).toInt ≤ 5000)
    (rets : List WaitResult) : ∀ timeout ∈ waits value rets, timeout = toInt (cut value) := by
  induction rets generalizing value with
  | nil => simp [waits]
  | cons ret later ih =>
    have again : cut (cut value) = cut value := by
      have kept := cut_ofInt least most
      rwa [ofInt_cut] at kept
    intro timeout there
    simp only [waits,List.mem_cons] at there
    rcases there with rfl | later'
    · rfl
    · split at later'
      · have same : timeout = toInt (cut (cut value)) := ih (by rwa [again]) (by rwa [again]) timeout later'
        rwa [again] at same
      · cases later'

/-! ### Against the timer set -/

variable {Cb : Type} (m : TimerManager Cb) (clock : UInt64)

/-- Every wait ends within five seconds and not after the next timer. -/
def InTime : Prop := ∀ rets, ∀ timeout ∈ waits (m.getNextTimer clock).2 rets,
  0 ≤ timeout.toInt ∧ timeout.toInt ≤ 5000 ∧ timeout.toInt ≤ (m.getNextTimer clock).2.toNat

/-- Bit 31 of the distance to the first timer is clear, unless the distance reads as no timer. -/
def SignClear : Prop := ∀ first ∈ m.timers.head?, clock < first.next →
  (first.next.toNat - clock.toNat) % 2^32 < 2^31 ∨ first.next.toNat - clock.toNat = 2^64 - 1

theorem getNextTimer_signClear_iff : SignClear m clock ↔
    (m.getNextTimer clock).2 = ~~~0 ∨ (m.getNextTimer clock).2.toNat % 2^32 < 2^31 := by
  have ones : (~~~0 : UInt64).toNat = 2^64 - 1 := by decide
  simp only [SignClear,TimerManager.getNextTimer]
  cases timers : m.timers with
  | nil => simp
  | cons first rest =>
    simp only [List.head?_cons,Option.mem_def,Option.some.injEq,forall_eq']
    split
    · next due =>
      have due := UInt64.not_lt.mpr due
      simp [due]
    · next later =>
      have later := UInt64.not_le.mp later
      have distance : (first.next - clock).toNat = first.next.toNat - clock.toNat :=
        UInt64.toNat_sub_of_le _ _ (UInt64.le_of_lt later)
      simp only [later,true_imp_iff,← UInt64.toNat_inj,distance,ones]
      exact or_comm

/-- For every timer set and clock reading, and any number of interrupted waits. -/
theorem waits_inTime_iff : InTime m clock ↔ SignClear m clock := by
  rw [getNextTimer_signClear_iff,InTime]
  generalize (m.getNextTimer clock).2 = value
  have first := cut_toInt value
  have low := toInt_toInt value
  constructor
  · intro law
    obtain ⟨least,_⟩ := law [.ready 0] (toInt (cut value)) List.mem_cons_self
    by_cases none : value = ~~~0
    · exact .inl none
    · rw [if_neg none] at first
      split at low
      · next clear => exact .inr clear
      · omega
  · intro clear rets timeout there
    have range : 0 ≤ (toInt (cut value)).toInt ∧ (toInt (cut value)).toInt ≤ 5000 ∧ (toInt (cut value)).toInt ≤ value.toNat := by
      by_cases none : value = ~~~0
      · have ones : value.toNat = 2^64 - 1 := by
          rw [none]
          decide
        rw [if_pos none] at first
        omega
      · rw [if_neg none] at first
        rw [if_pos (clear.resolve_left none)] at low
        omega
    rw [waits_eq range.1 range.2.1 rets timeout there]
    exact range

/-- One timer, 2^31 ms (some 25 days) ahead: `epoll_wait` is given -2^31 and waits for ever. -/
theorem waits_inTime_fails : ¬ ∀ (m : TimerManager Nat) (clock : UInt64), InTime m clock := by
  intro law
  have passed : waits (((TimerManager.new 0).addTimer 0 (2^31) (some 7) false 1).1.getNextTimer 0).2 [.ready 0] =
      [Int32.minValue] := by decide +kernel
  have least := (law ((TimerManager.new 0).addTimer 0 (2^31) (some 7) false 1).1 0 [.ready 0] Int32.minValue (by simp [passed])).1
  exact absurd least (by decide)

end KvStorage.IdleTimeout
