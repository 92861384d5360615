import KvStorage.Lib.OrderedSet
import KvStorage.TimerManager

/-! Timers as the shared objects they are: the set holds pointers and orders them by the `next_`
that the objects have at the time. An object is named by the number of its allocation; addresses
may be used again. -/
namespace KvStorage

/-- The manager and all timers ever allocated; `timers` holds their numbers. -/
structure TimerHeap (Cb : Type) where
  objects : Nat → Timer Cb
  allocated : Nat
  timers : List Nat
  tickled : Bool
  previousTime : UInt64

namespace TimerHeap

/-- The constructor, at the clock reading it takes. -/
def new (clock : UInt64) : TimerHeap Cb := ⟨fun _ => ⟨0,false,0,0,none⟩,0,[],false,clock⟩

variable (h : TimerHeap Cb)

/-- `Timer::Comparator`; a null pointer comes first. -/
def Comparator (lhs rhs : Option Nat) : Bool :=
  match lhs,rhs with
  | none,none => false
  | none,some _ => true
  | some _,none => false
  | some lhs,some rhs => decide ((h.objects lhs).Before (h.objects rhs))

def before (p q : Nat) : Bool := h.Comparator (some p) (some q)

def find (p : Nat) : Option Nat := OrderedSet.find h.before p h.timers

def erase (it : Nat) : TimerHeap Cb := { h with timers := h.timers.eraseIdx it }

def update (p : Nat) (f : Timer Cb → Timer Cb) : TimerHeap Cb :=
  { h with objects := Function.update h.objects p (f (h.objects p)) }

/-- `timers_.insert`, with the position it returns. -/
def insert (p : Nat) : TimerHeap Cb × Nat :=
  let (timers,it) := OrderedSet.insert h.before p h.timers
  ({ h with timers },it)

/-- The locked `addTimer`; the flag says whether `OnTimerInsertedAtFront` is called. -/
def addLocked (p : Nat) : TimerHeap Cb × Bool :=
  let (h,it) := h.insert p
  let at_front := decide (it = 0) && !h.tickled
  ({ h with tickled := h.tickled || at_front },at_front)

/-- The timer is the next one allocated, at some address. -/
def addTimer (clock ms : UInt64) (cb : Cb) (is_repeat : Bool) (address : Nat) : TimerHeap Cb × Bool :=
  let timer := h.allocated
  let h := { h with
    objects := Function.update h.objects timer ⟨address,is_repeat,ms,clock + ms,some cb⟩
    allocated := timer + 1 }
  h.addLocked timer

def cancel (p : Nat) : TimerHeap Cb × Bool :=
  if (h.objects p).cb.isSome then
    let h := h.update p fun t => { t with cb := none }
    match h.find p with
    | none => (h,false)
    | some it => (h.erase it,true)
  else (h,false)

def refresh (clock : UInt64) (p : Nat) : TimerHeap Cb × Bool :=
  if (h.objects p).cb.isNone then (h,false)
  else match h.find p with
  | none => (h,false)
  | some it =>
    let h := (h.erase it).update p fun t => { t with next := clock + t.ms }
    ((h.insert p).1,true)

def reset (p : Nat) (clock ms : UInt64) (from_now : Bool) : TimerHeap Cb × Bool :=
  if ms = (h.objects p).ms ∧ ¬ from_now then (h,true)
  else if (h.objects p).cb.isNone then (h,false)
  else match h.find p with
  | none => (h,false)
  | some it =>
    let h := (h.erase it).update p fun t =>
      { t with ms, next := (if from_now then clock else t.next - t.ms) + ms }
    ((h.addLocked p).1,true)

/-- The wait until the next timer; all ones when there is none. -/
def getNextTimer (clock : UInt64) : TimerHeap Cb × UInt64 :=
  ({ h with tickled := false },
    match h.timers with
    | [] => ~~~0
    | next :: _ => if clock ≥ (h.objects next).next then 0 else (h.objects next).next - clock)

/-- More than an hour below the stored reading; the subtraction is unsigned. -/
def detectClockRollover (now_ms : UInt64) : TimerHeap Cb × Bool :=
  if now_ms < h.previousTime ∧ now_ms < h.previousTime - 60*60*1000 then (h,true)
  else ({ h with previousTime := now_ms },false)

/-- How many timers `[begin, it)` holds; `now_timer` is allocated at some address. -/
def expiredCount (now_ms : UInt64) (now_timer : Timer Cb) (isRollover : Bool) : Nat :=
  if isRollover then h.timers.length
  else
    let lower_bound := (h.timers.takeWhile fun p => (h.objects p).Before now_timer).length
    lower_bound + ((h.timers.drop lower_bound).takeWhile fun p => (h.objects p).next ≤ now_ms).length

/-- The loop over the expired timers: each callback with the timer it is from. -/
def handOut (now_ms : UInt64) : List Nat → TimerHeap Cb → TimerHeap Cb × List (Nat × Option Cb)
  | [], h => (h,[])
  | p :: rest, h =>
    let cb := (h.objects p).cb
    let h :=
      if (h.objects p).isRepeat then ((h.update p fun t => { t with next := now_ms + t.ms }).insert p).1
      else h.update p fun t => { t with cb := none }
    let (h,cbs) := handOut now_ms rest h
    (h,(p,cb) :: cbs)

def listExpired (now_ms : UInt64) (probe : Nat) : TimerHeap Cb × List (Nat × Option Cb) :=
  match h.timers with
  | [] => (h,[])
  | first :: _ =>
    let (h,isRollover) := h.detectClockRollover now_ms
    if ¬ isRollover ∧ (h.objects first).next > now_ms then (h,[])
    else
      let it := h.expiredCount now_ms ⟨probe,false,0,now_ms,none⟩ isRollover
      handOut now_ms (h.timers.take it) { h with timers := h.timers.drop it }

def listExpiredCb (now_ms : UInt64) (probe : Nat) : TimerHeap Cb × List (Option Cb) :=
  let (h,expireds) := h.listExpired now_ms probe
  (h,expireds.map Prod.snd)

/-! ### The order of the set -/

variable {h : TimerHeap Cb} {p q : Nat}

theorem before_iff : h.before p q = true ↔ (h.objects p).Before (h.objects q) := by
  simp only [before,Comparator,decide_eq_true_eq]

theorem before_irrefl (p : Nat) : h.before p p = false := by
  simp only [before,Comparator,decide_eq_false_iff_not]
  exact Timer.Before.irrefl _

theorem before_trans (p q r : Nat) (one : h.before p q = true) (two : h.before q r = true) :
    h.before p r = true :=
  before_iff.mpr ((before_iff.mp one).trans (before_iff.mp two))

@[simp] theorem update_timers (f : Timer Cb → Timer Cb) : (h.update p f).timers = h.timers := rfl
@[simp] theorem update_same (f : Timer Cb → Timer Cb) : (h.update p f).objects p = f (h.objects p) :=
  Function.update_self ..
theorem update_other (f : Timer Cb → Timer Cb) (other : q ≠ p) : (h.update p f).objects q = h.objects q :=
  Function.update_of_ne other ..
@[simp] theorem erase_objects (it : Nat) : (h.erase it).objects = h.objects := rfl
@[simp] theorem insert_objects : (h.insert p).1.objects = h.objects := rfl
@[simp] theorem addLocked_objects : (h.addLocked p).1.objects = h.objects := rfl
@[simp] theorem addLocked_timers : (h.addLocked p).1.timers = (h.insert p).1.timers := rfl

/-- In the comparator's order, at addresses of their own. -/
structure Ordered (h : TimerHeap Cb) : Prop where
  sorted : OrderedSet.Sorted h.before h.timers
  apart : ∀ p ∈ h.timers, ∀ q ∈ h.timers, p ≠ q → (h.objects p).address ≠ (h.objects q).address

theorem Ordered.nodup (ordered : Ordered h) : h.timers.Nodup :=
  OrderedSet.sorted_nodup before_irrefl ordered.sorted

/-- Only the order of the set's own elements counts. -/
theorem Ordered.congr {h' : TimerHeap Cb} (ordered : Ordered h) (timers : h'.timers = h.timers)
    (next : ∀ p ∈ h.timers, (h'.objects p).next = (h.objects p).next)
    (address : ∀ p ∈ h.timers, (h'.objects p).address = (h.objects p).address) : Ordered h' := by
  constructor
  · rw [timers]
    refine ordered.sorted.imp_of_mem fun {p q} here there less => before_iff.mpr ?_
    have less := before_iff.mp less
    simpa only [Timer.Before,next p here,next q there,address p here,address q there] using less
  · rw [timers]
    intro p here q there other
    rw [address p here,address q there]
    exact ordered.apart p here q there other

theorem Ordered.update (ordered : Ordered h) (f : Timer Cb → Timer Cb) (out : p ∉ h.timers) :
    Ordered (h.update p f) := by
  have same : ∀ q ∈ h.timers, (h.update p f).objects q = h.objects q := fun q here =>
    update_other f fun eq => out (eq ▸ here)
  exact ordered.congr rfl (fun q here => by rw [same q here]) (fun q here => by rw [same q here])

theorem Ordered.insert (ordered : Ordered h)
    (fresh : ∀ q ∈ h.timers, (h.objects q).address ≠ (h.objects p).address) :
    Ordered (h.insert p).1 ∧ ∀ q, q ∈ (h.insert p).1.timers ↔ q = p ∨ q ∈ h.timers := by
  have apart : OrderedSet.Apart h.before p h.timers := fun q here =>
    (Timer.Before.total (fresh q here)).imp before_iff.mpr before_iff.mpr
  have members : ∀ q, q ∈ (h.insert p).1.timers ↔ q = p ∨ q ∈ h.timers := fun q =>
    OrderedSet.mem_insert apart
  refine ⟨⟨OrderedSet.insert_sorted before_trans ordered.sorted apart,?_⟩,members⟩
  intro q here r there other
  rcases (members q).mp here with rfl | inside
  · rcases (members r).mp there with rfl | inside'
    · exact absurd rfl other
    · exact (fresh r inside').symm
  · rcases (members r).mp there with rfl | inside'
    · exact fresh q inside
    · exact ordered.apart q inside r inside' other

/-- A timer of the set is found, and taken out without a change of the others. -/
theorem Ordered.find (ordered : Ordered h) (here : p ∈ h.timers) :
    ∃ it, h.find p = some it ∧ h.timers[it]? = some p ∧ Ordered (h.erase it) ∧
      ∀ q, q ∈ (h.erase it).timers ↔ q ∈ h.timers ∧ q ≠ p := by
  obtain ⟨it,found,at_it⟩ := OrderedSet.find_member (before_irrefl p) ordered.sorted here
  have members : ∀ q, q ∈ h.timers.eraseIdx it ↔ q ∈ h.timers ∧ q ≠ p := fun q =>
    OrderedSet.mem_eraseIdx ordered.nodup at_it
  refine ⟨it,found,at_it,⟨ordered.sorted.sublist (List.eraseIdx_sublist ..),?_⟩,members⟩
  intro q here r there other
  exact ordered.apart q ((members q).mp here).1 r ((members r).mp there).1 other

/-! ### The loop over the expired timers -/

/-- What the loop does to a timer. -/
def expire (now_ms : UInt64) (t : Timer Cb) : Timer Cb :=
  if t.isRepeat then { t with next := now_ms + t.ms } else { t with cb := none }

/-- One round: the object changes, and goes back into the set if it repeats. -/
def round (h : TimerHeap Cb) (now_ms : UInt64) (p : Nat) : TimerHeap Cb :=
  if (h.objects p).isRepeat then ((h.update p fun t => { t with next := now_ms + t.ms }).insert p).1
  else h.update p fun t => { t with cb := none }

theorem round_objects (now_ms : UInt64) (q : Nat) :
    (h.round now_ms p).objects q = if q = p then expire now_ms (h.objects q) else h.objects q := by
  unfold round expire
  by_cases same : q = p
  · subst same
    rw [if_pos rfl]
    split <;> simp
  · rw [if_neg same]
    split
    · rw [insert_objects]
      exact update_other _ same
    · exact update_other _ same

theorem round_frame (now_ms : UInt64) : (h.round now_ms p).allocated = h.allocated ∧
    (h.round now_ms p).previousTime = h.previousTime := by
  unfold round
  split <;> exact ⟨rfl,rfl⟩

theorem Ordered.round (ordered : Ordered h) (now_ms : UInt64) (out : p ∉ h.timers)
    (fresh : ∀ q ∈ h.timers, (h.objects q).address ≠ (h.objects p).address) :
    Ordered (h.round now_ms p) ∧
      ∀ q, q ∈ (h.round now_ms p).timers ↔ q ∈ h.timers ∨ q = p ∧ (h.objects p).isRepeat := by
  unfold TimerHeap.round
  split
  · next repeats =>
    have moved := ordered.update (fun t => { t with next := now_ms + t.ms }) out
    have fresh' : ∀ q ∈ (h.update p fun t => { t with next := now_ms + t.ms }).timers,
        ((h.update p fun t => { t with next := now_ms + t.ms }).objects q).address ≠
          ((h.update p fun t => { t with next := now_ms + t.ms }).objects p).address := by
      intro q here
      have other : q ≠ p := by
        rintro rfl
        exact out here
      rw [update_same,update_other _ other]
      exact fresh q here
    obtain ⟨ordered',members⟩ := moved.insert fresh'
    refine ⟨ordered',fun q => ?_⟩
    rw [members,update_timers]
    tauto
  · next once =>
    refine ⟨ordered.update _ out,fun q => ?_⟩
    rw [update_timers]
    tauto

/-- What the loop leaves of the timers that it is given and of the others. -/
structure HandedOut (h h' : TimerHeap Cb) (now_ms : UInt64) (expireds : List Nat) : Prop where
  ordered : Ordered h'
  objects : ∀ q, h'.objects q = if q ∈ expireds then expire now_ms (h.objects q) else h.objects q
  members : ∀ q, q ∈ h'.timers ↔ q ∈ h.timers ∨ q ∈ expireds ∧ (h.objects q).isRepeat
  allocated : h'.allocated = h.allocated
  previousTime : h'.previousTime = h.previousTime

theorem handOut_spec (now_ms : UInt64) (expireds : List Nat) (ordered : Ordered h) (nodup : expireds.Nodup)
    (out : ∀ p ∈ expireds, p ∉ h.timers)
    (apart : ∀ p ∈ expireds ++ h.timers, ∀ q ∈ expireds ++ h.timers, p ≠ q →
      (h.objects p).address ≠ (h.objects q).address) :
    HandedOut h (handOut now_ms expireds h).1 now_ms expireds ∧
      (handOut now_ms expireds h).2 = expireds.map fun p => (p,(h.objects p).cb) := by
  induction expireds generalizing h with
  | nil => exact ⟨⟨ordered,fun q => by simp [handOut],fun q => by simp [handOut],rfl,rfl⟩,rfl⟩
  | cons p rest ih =>
    obtain ⟨first,nodup'⟩ := List.nodup_cons.mp nodup
    have p_out := out p List.mem_cons_self
    have fresh : ∀ q ∈ h.timers, (h.objects q).address ≠ (h.objects p).address := fun q here =>
      apart q (List.mem_append_right _ here) p (List.mem_append_left _ List.mem_cons_self)
        fun eq => p_out (eq ▸ here)
    obtain ⟨ordered',members⟩ := ordered.round now_ms p_out fresh
    have objects := h.round_objects (p := p) now_ms
    have address : ∀ q, ((h.round now_ms p).objects q).address = (h.objects q).address := by
      intro q
      rw [objects]
      unfold expire
      split_ifs <;> rfl
    have old : ∀ q ∈ rest, (h.round now_ms p).objects q = h.objects q := by
      intro q here
      have other : q ≠ p := by
        rintro rfl
        exact first here
      rw [objects,if_neg other]
    have inside : ∀ q ∈ rest ++ (h.round now_ms p).timers, q ∈ (p :: rest) ++ h.timers := by
      intro q here
      rcases List.mem_append.mp here with here | here
      · simp [here]
      · rcases (members q).mp here with here | ⟨rfl,_⟩
        · simp [here]
        · simp
    obtain ⟨⟨ordered'',objects',members',allocated,previousTime⟩,handed⟩ := ih ordered' nodup'
      (fun q here there => by
        rcases (members q).mp there with there | ⟨rfl,_⟩
        · exact out q (List.mem_cons_of_mem _ here) there
        · exact first here)
      (fun q here r there other => by
        rw [address,address]
        exact apart q (inside q here) r (inside r there) other)
    obtain ⟨allocated',previousTime'⟩ := h.round_frame (p := p) now_ms
    have unfolded : handOut now_ms (p :: rest) h = ((handOut now_ms rest (h.round now_ms p)).1,
        (p,(h.objects p).cb) :: (handOut now_ms rest (h.round now_ms p)).2) := rfl
    rw [unfolded]
    refine ⟨⟨ordered'',fun q => ?_,fun q => ?_,allocated.trans allocated',previousTime.trans previousTime'⟩,?_⟩
    · rw [objects',objects]
      by_cases same : q = p
      · subst same
        simp [first]
      · simp [same]
    · rw [members',members]
      by_cases later : q ∈ rest
      · rw [old q later]
        have other : q ≠ p := fun eq => first (eq ▸ later)
        simp [later,other]
      · by_cases same : q = p
        · subst same
          simp [later]
        · simp [later,same]
    · rw [List.map_cons,handed]
      exact congrArg _ (List.map_congr_left fun q here => by rw [old q here])

/-! ### The operations -/

/-- The set holds exactly the timers that have a callback. -/
structure Tidy (h : TimerHeap Cb) : Prop extends Ordered h where
  member : ∀ p, p ∈ h.timers ↔ (h.objects p).cb.isSome
  known : ∀ p ∈ h.timers, p < h.allocated

/-- No callback comes back, no timer changes its kind, and the stored reading stays. -/
structure Later (h h' : TimerHeap Cb) : Prop where
  allocated : h.allocated ≤ h'.allocated
  isRepeat : ∀ p < h.allocated, (h'.objects p).isRepeat = (h.objects p).isRepeat
  dead : ∀ p < h.allocated, (h.objects p).cb = none → (h'.objects p).cb = none

theorem Later.refl (h : TimerHeap Cb) : Later h h := ⟨le_rfl,fun _ _ => rfl,fun _ _ dead => dead⟩

theorem new_tidy (clock : UInt64) : Tidy (new clock : TimerHeap Cb) := by
  refine ⟨⟨.nil,?_⟩,?_,?_⟩
  · intro p here
    cases here
  · intro p
    simp [new]
  · intro p here
    cases here

theorem Tidy.tickled (tidy : Tidy h) (tickled : Bool) : Tidy { h with tickled } :=
  ⟨⟨tidy.sorted,tidy.apart⟩,tidy.member,tidy.known⟩

theorem Tidy.addTimer (tidy : Tidy h) (clock ms : UInt64) (cb : Cb) (is_repeat : Bool) {address : Nat}
    (fresh : ∀ p ∈ h.timers, (h.objects p).address ≠ address) :
    Tidy (h.addTimer clock ms cb is_repeat address).1 ∧ Later h (h.addTimer clock ms cb is_repeat address).1 := by
  let timer : Timer Cb := ⟨address,is_repeat,ms,clock + ms,some cb⟩
  let grown : TimerHeap Cb := { h.update h.allocated fun _ => timer with allocated := h.allocated + 1 }
  have out : h.allocated ∉ h.timers := fun here => lt_irrefl _ (tidy.known _ here)
  have self : grown.objects h.allocated = timer := Function.update_self ..
  have other : ∀ p, p ≠ h.allocated → grown.objects p = h.objects p := fun p apart =>
    Function.update_of_ne apart ..
  have old : ∀ p ∈ h.timers, grown.objects p = h.objects p := fun p here =>
    other p fun eq => out (eq ▸ here)
  have ordered : Ordered grown := tidy.toOrdered.congr rfl (fun p here => by rw [old p here])
    fun p here => by rw [old p here]
  have apart : ∀ p ∈ grown.timers, (grown.objects p).address ≠ (grown.objects h.allocated).address := by
    intro p here
    rw [self,old p here]
    exact fresh p here
  obtain ⟨inserted,members⟩ := ordered.insert apart
  have tidy' : Tidy (grown.insert h.allocated).1 := by
    refine ⟨inserted,fun p => ?_,fun p here => ?_⟩
    · rw [members,insert_objects]
      by_cases new : p = h.allocated
      · subst new
        simp [self,timer]
      · rw [other p new]
        exact (or_iff_right new).trans (tidy.member p)
    · rcases (members p).mp here with rfl | here
      · exact Nat.lt_succ_self _
      · exact Nat.lt_succ_of_lt (tidy.known p here)
  refine ⟨tidy'.tickled _,Nat.le_succ _,fun p known => ?_,fun p known dead => ?_⟩
  · exact congrArg Timer.isRepeat (other p known.ne)
  · exact (congrArg Timer.cb (other p known.ne)).trans dead

/-- `cancel` succeeds on every timer that still has a callback. -/
theorem Tidy.cancel (tidy : Tidy h) (p : Nat) : (h.cancel p).2 = (h.objects p).cb.isSome ∧
    Tidy (h.cancel p).1 ∧ Later h (h.cancel p).1 ∧ (h.cancel p).1.previousTime = h.previousTime ∧
    ((h.cancel p).1.objects p).cb = none := by
  by_cases live : (h.objects p).cb.isSome
  case neg =>
    have done : h.cancel p = (h,false) := if_neg live
    have dead : (h.objects p).cb = none := by simpa using live
    rw [done]
    exact ⟨by simp [dead],tidy,.refl h,rfl,dead⟩
  case pos =>
    let cleared := h.update p fun t => { t with cb := none }
    have self : cleared.objects p = { h.objects p with cb := none } := update_same _
    have other : ∀ q, q ≠ p → cleared.objects q = h.objects q := fun q apart => update_other _ apart
    have ordered : Ordered cleared := by
      refine tidy.toOrdered.congr rfl (fun q _ => ?_) fun q _ => ?_
      all_goals
        by_cases same : q = p
        · rw [same,self]
        · rw [other q same]
    obtain ⟨it,found,_,erased,members⟩ := ordered.find ((tidy.member p).mpr live)
    have done : h.cancel p = (cleared.erase it,true) := by
      refine (if_pos live).trans ?_
      change (match cleared.find p with | none => (cleared,false) | some it => (cleared.erase it,true)) = _
      rw [found]
    rw [done]
    refine ⟨live.symm,⟨erased,fun q => ?_,fun q here => ?_⟩,⟨le_rfl,fun q _ => ?_,fun q _ dead => ?_⟩,rfl,?_⟩
    · rw [members,erase_objects]
      by_cases same : q = p
      · rw [same,self]
        simp
      · rw [other q same]
        exact (and_iff_left same).trans (tidy.member q)
    · exact tidy.known q ((members q).mp here).1
    · change (cleared.objects q).isRepeat = _
      by_cases same : q = p
      · rw [same,self]
      · rw [other q same]
    · change (cleared.objects q).cb = none
      by_cases same : q = p
      · rw [same,self]
      · rw [other q same,dead]
    · exact congrArg Timer.cb self

/-- A timer taken out, changed and put back: found before, and in its place after. -/
theorem Tidy.moved (tidy : Tidy h) (here : p ∈ h.timers) (f : Timer Cb → Timer Cb)
    (address : ∀ t, (f t).address = t.address) (cb : ∀ t, (f t).cb = t.cb)
    (isRepeat : ∀ t, (f t).isRepeat = t.isRepeat) : ∃ it, h.find p = some it ∧
      Tidy (((h.erase it).update p f).insert p).1 ∧ Later h (((h.erase it).update p f).insert p).1 := by
  obtain ⟨it,found,_,erased,members⟩ := tidy.toOrdered.find here
  have out : p ∉ (h.erase it).timers := fun inside => ((members p).mp inside).2 rfl
  have self : ((h.erase it).update p f).objects p = f (h.objects p) := update_same _
  have other : ∀ q, q ≠ p → ((h.erase it).update p f).objects q = h.objects q := fun q apart => update_other _ apart
  have apart : ∀ q ∈ ((h.erase it).update p f).timers,
      (((h.erase it).update p f).objects q).address ≠ (((h.erase it).update p f).objects p).address := by
    intro q inside
    obtain ⟨there,different⟩ := (members q).mp inside
    rw [self,other q different,address]
    exact tidy.apart q there p here different
  obtain ⟨inserted,members'⟩ := (erased.update f out).insert apart
  refine ⟨it,found,⟨inserted,fun q => ?_,fun q inside => ?_⟩,le_rfl,fun q _ => ?_,fun q _ dead => ?_⟩
  · rw [members',update_timers,members,insert_objects]
    by_cases same : q = p
    · rw [same,self,cb]
      simpa using (tidy.member p).mp here
    · rw [other q same]
      simpa [same] using tidy.member q
  · rcases (members' q).mp inside with rfl | inside
    · exact tidy.known q here
    · exact tidy.known q ((members q).mp inside).1
  · rw [insert_objects]
    by_cases same : q = p
    · rw [same,self,isRepeat]
    · rw [other q same]
  · rw [insert_objects]
    by_cases same : q = p
    · rw [same] at dead ⊢
      rw [self,cb,dead]
    · rw [other q same,dead]

theorem Tidy.refresh (tidy : Tidy h) (clock : UInt64) (p : Nat) :
    (h.refresh clock p).2 = (h.objects p).cb.isSome ∧ Tidy (h.refresh clock p).1 ∧
      Later h (h.refresh clock p).1 ∧ (h.refresh clock p).1.previousTime = h.previousTime := by
  unfold TimerHeap.refresh
  split
  next dead =>
    refine ⟨?_,tidy,.refl h,rfl⟩
    rw [Option.isNone_iff_eq_none.mp dead]
    rfl
  next live =>
    have live : (h.objects p).cb.isSome := by simpa [Option.isSome_iff_ne_none] using live
    obtain ⟨it,found,tidy',later⟩ := tidy.moved ((tidy.member p).mpr live)
      (fun t => { t with next := clock + t.ms }) (fun _ => rfl) (fun _ => rfl) fun _ => rfl
    rw [found]
    exact ⟨live.symm,tidy',later,rfl⟩

theorem Tidy.reset (tidy : Tidy h) (p : Nat) (clock ms : UInt64) (from_now : Bool) :
    (h.reset p clock ms from_now).2 =
      (decide (ms = (h.objects p).ms ∧ ¬ from_now) || (h.objects p).cb.isSome) ∧
      Tidy (h.reset p clock ms from_now).1 ∧ Later h (h.reset p clock ms from_now).1 ∧
      (h.reset p clock ms from_now).1.previousTime = h.previousTime := by
  unfold TimerHeap.reset
  split
  next unchanged => exact ⟨by simp [unchanged],tidy,.refl h,rfl⟩
  next changed =>
    split
    next dead =>
      refine ⟨?_,tidy,.refl h,rfl⟩
      rw [Option.isNone_iff_eq_none.mp dead,decide_eq_false changed]
      rfl
    next live =>
      have live : (h.objects p).cb.isSome := by simpa [Option.isSome_iff_ne_none] using live
      obtain ⟨it,found,tidy',later⟩ := tidy.moved ((tidy.member p).mpr live)
        (fun t => { t with ms, next := (if from_now then clock else t.next - t.ms) + ms })
        (fun _ => rfl) (fun _ => rfl) fun _ => rfl
      rw [found]
      exact ⟨by simp [live],tidy'.tickled _,⟨later.allocated,later.isRepeat,later.dead⟩,rfl⟩

/-! ### What expires -/

def due (h : TimerHeap Cb) (now_ms : UInt64) : List Nat := h.timers.filter fun p => (h.objects p).next ≤ now_ms

theorem mem_due {now_ms : UInt64} : p ∈ h.due now_ms ↔ p ∈ h.timers ∧ (h.objects p).next ≤ now_ms := by
  simp only [due,List.mem_filter,decide_eq_true_eq]

theorem Ordered.next_le (ordered : Ordered h) :
    h.timers.Pairwise fun p q => (h.objects p).next ≤ (h.objects q).next :=
  ordered.sorted.imp fun less => (before_iff.mp less).next_le

theorem Ordered.front (ordered : Ordered h) (now_ms : UInt64) :
    (h.timers.takeWhile fun p => (h.objects p).next ≤ now_ms) = h.due now_ms := by
  refine OrderedSet.takeWhile_eq_filter (ordered.next_le.imp fun {p q} less inside => ?_)
  exact decide_eq_true (UInt64.le_trans less (of_decide_eq_true inside))

/-- The search for the probe's place and the scan over equal deadlines stop behind the last due timer. -/
theorem Ordered.expired (ordered : Ordered h) (now_ms : UInt64) (probe : Nat) :
    h.timers.take (h.expiredCount now_ms ⟨probe,false,0,now_ms,none⟩ false) = h.due now_ms := by
  have scanned := OrderedSet.scan_from (p := fun p => decide ((h.objects p).next ≤ now_ms))
    (q := fun p => decide ((h.objects p).Before ⟨probe,false,0,now_ms,none⟩))
    (fun p before => decide_eq_true (of_decide_eq_true before).next_le) h.timers
  simp only [expiredCount,Bool.false_eq_true,if_false]
  rw [scanned,OrderedSet.take_takeWhile,ordered.front]

/-- A call at a reading that is not below the stored one. -/
structure Expired (h h' : TimerHeap Cb) (now_ms : UInt64) : Prop where
  tidy : Tidy h'
  later : Later h h'
  objects : ∀ q, h'.objects q = if q ∈ h.due now_ms then expire now_ms (h.objects q) else h.objects q
  members : ∀ q, q ∈ h'.timers ↔ q ∈ h.timers ∧ (q ∈ h.due now_ms → (h.objects q).isRepeat)
  stored : h'.previousTime ≤ now_ms

theorem Expired.none_due {now_ms : UInt64} (tidy : Tidy h) (nothing : h.due now_ms = [])
    {previousTime : UInt64} (stored : previousTime ≤ now_ms) : Expired h { h with previousTime } now_ms := by
  refine ⟨⟨⟨tidy.sorted,tidy.apart⟩,tidy.member,tidy.known⟩,⟨le_rfl,fun _ _ => rfl,fun _ _ dead => dead⟩,
    fun q => ?_,fun q => ?_,stored⟩
  all_goals simp [nothing]

theorem Tidy.listExpired (tidy : Tidy h) {now_ms : UInt64} (steady : h.previousTime ≤ now_ms) (probe : Nat) :
    ∃ h', h.listExpired now_ms probe = (h',(h.due now_ms).map fun p => (p,(h.objects p).cb)) ∧
      Expired h h' now_ms := by
  have clock : h.detectClockRollover now_ms = ({ h with previousTime := now_ms },false) :=
    if_neg fun rollover => absurd rollover.1 (UInt64.not_lt.mpr steady)
  cases held : h.timers with
  | nil =>
    have nothing : h.due now_ms = [] := by rw [due,held,List.filter_nil]
    refine ⟨h,?_,.none_due tidy nothing steady⟩
    simp only [TimerHeap.listExpired,held,nothing,List.map_nil]
  | cons first rest =>
    by_cases waits : (h.objects first).next > now_ms
    · have nothing : h.due now_ms = [] := by
        refine List.filter_eq_nil_iff.mpr fun q here soon => ?_
        have soon := of_decide_eq_true soon
        have ordered := tidy.toOrdered.next_le
        rw [held] at ordered here
        rcases List.mem_cons.mp here with rfl | here
        · exact absurd waits (UInt64.not_lt.mpr soon)
        · exact absurd waits (UInt64.not_lt.mpr (UInt64.le_trans ((List.pairwise_cons.mp ordered).1 q here) soon))
      refine ⟨_,?_,.none_due tidy nothing (UInt64.le_refl now_ms)⟩
      simp only [TimerHeap.listExpired,held,clock,nothing,List.map_nil]
      exact if_pos ⟨Bool.false_ne_true,waits⟩
    · let it := h.expiredCount now_ms ⟨probe,false,0,now_ms,none⟩ false
      let left : TimerHeap Cb := { h with previousTime := now_ms, timers := h.timers.drop it }
      have front : h.timers.take it = h.due now_ms := tidy.toOrdered.expired now_ms probe
      have split : h.due now_ms ++ left.timers = h.timers := by
        rw [← front]
        exact List.take_append_drop it h.timers
      have nodup := tidy.toOrdered.nodup
      rw [← split] at nodup
      have apart := tidy.apart
      obtain ⟨nodup_due,_,disjoint⟩ := List.nodup_append.mp nodup
      have ordered : Ordered left := by
        refine ⟨tidy.sorted.sublist (List.drop_sublist ..),fun p here q there => ?_⟩
        exact apart p (List.mem_of_mem_drop here) q (List.mem_of_mem_drop there)
      obtain ⟨⟨ordered',objects,members,allocated,previousTime⟩,handed⟩ := handOut_spec now_ms (h.due now_ms)
        ordered nodup_due (fun p here there => disjoint p here p there rfl) (by rw [split]; exact apart)
      have done : h.listExpired now_ms probe = handOut now_ms (h.due now_ms) left := by
        rw [← front]
        simp only [TimerHeap.listExpired,held,clock]
        refine (if_neg fun early => waits early.2).trans ?_
        rw [← held]
        rfl
      refine ⟨_,done.trans (Prod.ext rfl handed),?_⟩
      have objects : ∀ q, (handOut now_ms (h.due now_ms) left).1.objects q =
          if q ∈ h.due now_ms then expire now_ms (h.objects q) else h.objects q := objects
      have inside : ∀ q, q ∈ h.timers ↔ q ∈ h.due now_ms ∨ q ∈ left.timers := fun q => by
        rw [← List.mem_append,split]
      have members : ∀ q, q ∈ (handOut now_ms (h.due now_ms) left).1.timers ↔
          q ∈ h.timers ∧ (q ∈ h.due now_ms → (h.objects q).isRepeat) := by
        intro q
        rw [members,inside]
        have apart : q ∈ h.due now_ms → q ∉ left.timers := fun here there => disjoint q here q there rfl
        change q ∈ left.timers ∨ q ∈ h.due now_ms ∧ (h.objects q).isRepeat = true ↔ _
        tauto
      refine ⟨⟨ordered',fun q => ?_,fun q here => ?_⟩,⟨allocated.ge,fun q _ => ?_,fun q _ dead => ?_⟩,objects,members,?_⟩
      · rw [members,objects,tidy.member q]
        by_cases soon : q ∈ h.due now_ms
        · have live := (tidy.member q).mp (mem_due.mp soon).1
          rw [if_pos soon]
          unfold expire
          split
          · next repeats => simp [live,repeats]
          · next once => simp [once,soon]
        · simp [soon]
      · rw [allocated]
        exact tidy.known q ((members q).mp here).1
      · rw [objects]
        unfold expire
        split_ifs <;> rfl
      · rw [objects]
        unfold expire
        split_ifs <;> simp [dead]
      · rw [previousTime]
        exact UInt64.le_refl now_ms

/-- The wait is 0 exactly when something is due. -/
theorem Tidy.getNextTimer_zero (tidy : Tidy h) (now_ms : UInt64) :
    (h.getNextTimer now_ms).2 = 0 ↔ h.due now_ms ≠ [] := by
  unfold TimerHeap.getNextTimer due
  cases held : h.timers with
  | nil => simp
  | cons first rest =>
    simp only
    by_cases soon : (h.objects first).next ≤ now_ms
    · simp [soon]
    · have waits : ¬ now_ms ≥ (h.objects first).next := soon
      have ordered := tidy.toOrdered.next_le
      rw [held] at ordered
      rw [if_neg waits]
      constructor
      · intro zero
        have := congrArg UInt64.toNat zero
        rw [UInt64.toNat_sub_of_le _ _ (UInt64.le_of_lt (UInt64.not_le.mp soon))] at this
        simp only [UInt64.le_iff_toNat_le,UInt64.toNat_zero] at soon this
        omega
      · intro something
        refine absurd (List.filter_eq_nil_iff.mpr fun q here early => ?_) something
        rcases List.mem_cons.mp here with rfl | here
        · exact soon (of_decide_eq_true early)
        · exact soon (UInt64.le_trans ((List.pairwise_cons.mp ordered).1 q here) (of_decide_eq_true early))

end TimerHeap

end KvStorage
