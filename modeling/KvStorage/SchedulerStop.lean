import Mathlib
import KvStorage.Lib.Run

/-! The queue of the scheduler while it stops: tasks are taken and counted under the lock, and
counted off after their `resume`. When `stopping` answers true, nothing is left behind. -/
namespace KvStorage.Scheduler

/-- `number` is not in the code: it counts the accepted tasks, to tell them apart. -/
structure SchedulerTask (T : Type) where
  task : T
  threadId : Int
  number : Nat

/-- Where a worker is in `run`: before the lock; in the `resume` of a task; after it, before the
decrement; in the idle fiber; out of the loop. -/
inductive Place where
  | run
  | resume (number : Nat)
  | resumed (number : Nat)
  | idle
  | exit
  deriving DecidableEq, Repr

def Place.holds : Place → Option Nat
  | .resume k => some k
  | .resumed k => some k
  | _ => none

/-- `idleTerm` says whose idle fiber has ended. The last four fields record the accepted tasks, the
numbers taken and by which thread, the returns from `resume`, and the decrements. -/
structure State (T : Type) (n : Nat) where
  tasks : List (SchedulerTask T)
  activeThreadCnt : Nat
  isStopped : Bool
  workers : Fin n → Place
  idleTerm : Fin n → Bool
  accepted : List (T × Int)
  dequeued : List (Nat × Int)
  returned : List Nat
  decremented : List Nat

/-- `scheduler` may be called by any thread, and by a task while it runs. `others` is what a derived
scheduler's `stopping` asks for besides. -/
inductive Action (T : Type) (n : Nat) where
  | scheduler (task : Option T) (threadId : Int)
  | stop
  | dequeue (w : Fin n)
  | resume (w : Fin n)
  | decrement (w : Fin n)
  | idle (w : Fin n) (others : Bool)

namespace State

variable {T : Type} {n : Nat}

def start (T : Type) (n : Nat) : State T n :=
  ⟨[],0,false,fun _ => .run,fun _ => false,[],[],[],[]⟩

variable (s : State T n)

def goto (w : Fin n) (place : Place) : State T n := { s with workers := Function.update s.workers w place }

/-- An empty task is not pushed. -/
def scheduler (task : Option T) (threadId : Int) : State T n :=
  match task with
  | none => s
  | some task => { s with
      tasks := s.tasks ++ [⟨task,threadId,s.accepted.length⟩]
      accepted := s.accepted ++ [(task,threadId)] }

def stopping : Bool := s.isStopped && s.activeThreadCnt == 0 && s.tasks.isEmpty

/-- A task for any thread, or for the one that looks. -/
def eligible (id : Int) (t : SchedulerTask T) : Bool := ¬ (t.threadId ≠ -1 ∧ t.threadId ≠ id)

/-- The locked part of `run`: the first eligible task, else the idle fiber, unless that has ended. -/
def dequeue (id : Int) (w : Fin n) : State T n :=
  match s.tasks.find? (eligible id) with
  | some t => { s with
      tasks := s.tasks.eraseP (eligible id)
      activeThreadCnt := s.activeThreadCnt + 1
      dequeued := s.dequeued ++ [(t.number,id)] }.goto w (.resume t.number)
  | none => s.goto w (if s.idleTerm w then .exit else .idle)

/-- `id` is `GetThreadId` of a worker. -/
def step (id : Fin n → Int) (s : State T n) : Action T n → Option (State T n)
  | .scheduler task threadId => some (s.scheduler task threadId)
  | .stop => some { s with isStopped := true }
  | .dequeue w =>
    match s.workers w with
    | .run => some (s.dequeue (id w) w)
    | _ => none
  | .resume w =>
    match s.workers w with
    | .resume k => some ({ s with returned := s.returned ++ [k] }.goto w (.resumed k))
    | _ => none
  | .decrement w =>
    match s.workers w with
    | .resumed k => some ({ s with
        activeThreadCnt := s.activeThreadCnt - 1
        decremented := s.decremented ++ [k] }.goto w .run)
    | _ => none
  | .idle w others =>
    match s.workers w with
    | .idle => some ({ s with idleTerm := Function.update s.idleTerm w (s.stopping && others) }.goto w .run)
    | _ => none

/-! ### What is taken, and what is left -/

/-- The tasks taken whose decrement has not run. -/
def active : List (Nat × Int) := s.dequeued.filter fun e => !s.decremented.contains e.1

/-- Each task is taken at most once and by a thread it was meant for; the counter counts those not
counted off; and when `stopping` answers true all accepted tasks have been taken and have returned. -/
structure Lossless (id : Fin n → Int) (s : State T n) : Prop where
  once : (s.dequeued.map Prod.fst).Nodup
  affinity : ∀ e ∈ s.dequeued, (∃ w, e.2 = id w) ∧
    ∃ t, s.accepted[e.1]? = some t ∧ (t.2 = e.2 ∨ t.2 = -1)
  counted : s.activeThreadCnt = s.active.length
  stopped : s.stopping = true → ∀ k < s.accepted.length, k ∈ s.dequeued.map Prod.fst ∧ k ∈ s.returned

structure Inv (id : Fin n → Int) (s : State T n) : Prop where
  distinct : (s.tasks.map SchedulerTask.number ++ s.dequeued.map Prod.fst).Nodup
  known : ∀ t ∈ s.tasks, s.accepted[t.number]? = some (t.task,t.threadId)
  affinity : ∀ e ∈ s.dequeued, (∃ w, e.2 = id w) ∧
    ∃ t, s.accepted[e.1]? = some t ∧ (t.2 = e.2 ∨ t.2 = -1)
  all : ∀ k < s.accepted.length, k ∈ s.tasks.map SchedulerTask.number ++ s.dequeued.map Prod.fst
  counted : s.activeThreadCnt = s.active.length
  held : ∀ w k, (s.workers w).holds = some k → k ∈ s.dequeued.map Prod.fst ∧ k ∉ s.decremented
  apart : ∀ v w k, (s.workers v).holds = some k → (s.workers w).holds = some k → v = w
  resumed : ∀ w k, s.workers w = .resumed k → k ∈ s.returned
  done : ∀ k ∈ s.decremented, k ∈ s.returned ∧ k ∈ s.dequeued.map Prod.fst

theorem start_inv (id : Fin n → Int) : Inv id (start T n) := by
  constructor <;> simp [start,active,Place.holds]

theorem Inv.lossless {id : Fin n → Int} {s : State T n} (inv : Inv id s) : Lossless id s where
  once := inv.distinct.of_append_right
  affinity := inv.affinity
  counted := inv.counted
  stopped := by
    intro stopping k accepted
    simp only [State.stopping,Bool.and_eq_true,beq_iff_eq,List.isEmpty_iff] at stopping
    obtain ⟨⟨_,none⟩,empty⟩ := stopping
    have taken := inv.all k accepted
    rw [empty,List.map_nil,List.nil_append] at taken
    obtain ⟨e,there,rfl⟩ := List.mem_map.mp taken
    refine ⟨taken,?_⟩
    have idle : s.active = [] := List.eq_nil_of_length_eq_zero (inv.counted.symm.trans none)
    have off : e.1 ∈ s.decremented := by simpa using List.filter_eq_nil_iff.mp idle e there
    exact (inv.done e.1 off).1

/-! ### Steps -/

variable {id : Fin n → Int} {s s' : State T n} {w : Fin n}

@[simp] theorem goto_same (place : Place) : (s.goto w place).workers w = place := Function.update_self ..

theorem goto_other {v : Fin n} (place : Place) (other : v ≠ w) : (s.goto w place).workers v = s.workers v :=
  Function.update_of_ne other ..

theorem Inv.scheduler (inv : Inv id s) (task : Option T) (threadId : Int) : Inv id (s.scheduler task threadId) := by
  cases task with
  | none => exact inv
  | some task =>
    have fresh : s.accepted.length ∉ s.tasks.map SchedulerTask.number ++ s.dequeued.map Prod.fst := by
      intro there
      rcases List.mem_append.mp there with queued | taken
      · obtain ⟨t,inside,same⟩ := List.mem_map.mp queued
        have known := inv.known t inside
        rw [same,List.getElem?_eq_none (Nat.le_refl _)] at known
        cases known
      · obtain ⟨e,inside,same⟩ := List.mem_map.mp taken
        obtain ⟨_,t,known,_⟩ := inv.affinity e inside
        rw [same,List.getElem?_eq_none (Nat.le_refl _)] at known
        cases known
    have old : ∀ {k : Nat} {t : T × Int}, s.accepted[k]? = some t → (s.accepted ++ [(task,threadId)])[k]? = some t := by
      intro k t known
      rw [List.getElem?_append_left (List.getElem?_eq_some_iff.mp known).1]
      exact known
    constructor
    · simp only [State.scheduler,List.map_append,List.map_cons,List.map_nil,List.append_assoc,List.singleton_append]
      exact (List.nodup_middle ..).mpr (List.nodup_cons.mpr ⟨fresh,inv.distinct⟩)
    · intro t there
      rcases List.mem_append.mp there with before | last
      · exact old (inv.known t before)
      · obtain rfl := List.mem_singleton.mp last
        simp [State.scheduler]
    · intro e there
      obtain ⟨thread,t,known,meant⟩ := inv.affinity e there
      exact ⟨thread,t,old known,meant⟩
    · intro k inside
      simp only [State.scheduler,List.length_append,List.length_singleton,List.map_append,List.map_cons,List.map_nil,
        List.mem_append,List.mem_singleton] at inside ⊢
      rcases Nat.lt_succ_iff_lt_or_eq.mp inside with before | rfl
      · rcases List.mem_append.mp (inv.all k before) with queued | taken
        · exact .inl (.inl queued)
        · exact .inr taken
      · exact .inl (.inr rfl)
    · exact inv.counted
    · exact inv.held
    · exact inv.apart
    · exact inv.resumed
    · exact inv.done

/-- A worker that goes to a place where it holds nothing new. -/
theorem Inv.goto {place : Place} (inv : Inv id s) (w : Fin n)
    (holds : ∀ k, place.holds = some k → (s.workers w).holds = some k)
    (resumed : ∀ k, place = .resumed k → k ∈ s.returned) : Inv id (s.goto w place) := by
  have held : ∀ v k, ((s.goto w place).workers v).holds = some k → (s.workers v).holds = some k := by
    intro v k here
    by_cases same : v = w
    · subst same
      rw [goto_same] at here
      exact holds k here
    · rw [goto_other place same] at here
      exact here
  constructor
  · exact inv.distinct
  · exact inv.known
  · exact inv.affinity
  · exact inv.all
  · exact inv.counted
  · exact fun v k here => inv.held v k (held v k here)
  · exact fun u v k one two => inv.apart u v k (held u k one) (held v k two)
  · intro v k back
    by_cases same : v = w
    · subst same
      rw [goto_same] at back
      exact resumed k back
    · rw [goto_other place same] at back
      exact inv.resumed v k back
  · exact inv.done

/-- The first eligible task with what is left. -/
theorem find_split {i : Int} {t : SchedulerTask T} (found : s.tasks.find? (eligible i) = some t) :
    (t.threadId = i ∨ t.threadId = -1) ∧ (t :: s.tasks.eraseP (eligible i)).Perm s.tasks := by
  obtain ⟨meant,before,after,split,others⟩ := List.find?_eq_some_iff_append.mp found
  constructor
  · simp only [eligible,decide_eq_true_eq] at meant
    tauto
  · rw [split,List.eraseP_append_right _ (by simpa using others),List.eraseP_cons_of_pos meant]
    exact List.perm_middle.symm

theorem Inv.dequeue (inv : Inv id s) (at_w : s.workers w = .run) : Inv id (s.dequeue (id w) w) := by
  unfold State.dequeue
  split
  · next t found =>
    obtain ⟨meant,perm⟩ := find_split found
    have mine : t ∈ s.tasks := List.mem_of_find?_eq_some found
    have known := inv.known t mine
    have numbers := (perm.map SchedulerTask.number).append_right (s.dequeued.map Prod.fst)
    have distinct := numbers.nodup_iff.mpr inv.distinct
    rw [List.map_cons,List.cons_append,List.nodup_cons] at distinct
    obtain ⟨unused,distinct⟩ := distinct
    have fresh : t.number ∉ s.dequeued.map Prod.fst := fun there => unused (List.mem_append_right _ there)
    have waiting : t.number ∉ s.decremented := fun off => fresh (inv.done _ off).2
    constructor
    · simp only [State.goto,List.map_append,List.map_cons,List.map_nil]
      rw [← List.append_assoc]
      exact (List.nodup_append_comm ..).mp (List.nodup_cons.mpr ⟨unused,distinct⟩)
    · exact fun u there => inv.known u (perm.mem_iff.mp (List.mem_cons_of_mem _ there))
    · intro e there
      rcases List.mem_append.mp there with before | last
      · exact inv.affinity e before
      · obtain rfl := List.mem_singleton.mp last
        exact ⟨⟨w,rfl⟩,_,known,meant⟩
    · intro k accepted
      have somewhere := numbers.mem_iff.mpr (inv.all k accepted)
      simp only [State.goto,List.map_append,List.map_cons,List.map_nil,List.cons_append,List.mem_cons,List.mem_append,
        List.not_mem_nil,or_false] at somewhere ⊢
      tauto
    · simp only [State.goto,State.active,List.filter_append,List.length_append]
      rw [inv.counted]
      simp [State.active,waiting]
    · intro v k holds
      by_cases same : v = w
      · subst same
        rw [goto_same] at holds
        obtain rfl := Option.some.inj holds
        exact ⟨by simp [State.goto],waiting⟩
      · rw [goto_other _ same] at holds
        obtain ⟨taken,active⟩ := inv.held v k holds
        exact ⟨by simp only [State.goto,List.map_append]; exact List.mem_append_left _ taken,active⟩
    · intro u v k one two
      by_cases first : u = w
      · by_cases second : v = w
        · exact first.trans second.symm
        · rw [first,goto_same] at one
          rw [goto_other _ second] at two
          obtain rfl := Option.some.inj one
          exact absurd (inv.held v _ two).1 fresh
      · rw [goto_other _ first] at one
        by_cases second : v = w
        · rw [second,goto_same] at two
          obtain rfl := Option.some.inj two
          exact absurd (inv.held u _ one).1 fresh
        · rw [goto_other _ second] at two
          exact inv.apart u v k one two
    · intro v k back
      by_cases same : v = w
      · subst same
        rw [goto_same] at back
        cases back
      · rw [goto_other _ same] at back
        exact inv.resumed v k back
    · intro k off
      obtain ⟨returned,taken⟩ := inv.done k off
      exact ⟨returned,by simp only [State.goto,List.map_append]; exact List.mem_append_left _ taken⟩
  · next none =>
    apply inv.goto
    · intro k holds
      split at holds <;> cases holds
    · intro k resumed
      split at resumed <;> cases resumed

theorem Inv.resume {k : Nat} (inv : Inv id s) (at_w : s.workers w = .resume k) :
    Inv id ({ s with returned := s.returned ++ [k] }.goto w (.resumed k)) := by
  have logged : Inv id { s with returned := s.returned ++ [k] } := by
    refine ⟨inv.distinct,inv.known,inv.affinity,inv.all,inv.counted,inv.held,inv.apart,?_,?_⟩
    · exact fun v j back => List.mem_append_left _ (inv.resumed v j back)
    · exact fun j off => ⟨List.mem_append_left _ (inv.done j off).1,(inv.done j off).2⟩
  apply logged.goto
  · intro j holds
    rw [at_w]
    exact holds
  · intro j same
    obtain rfl := Place.resumed.inj same
    exact List.mem_append_right _ (List.mem_singleton_self k)

theorem active_erase {k : Nat} (s : State T n) (once : (s.dequeued.map Prod.fst).Nodup)
    (taken : k ∈ s.dequeued.map Prod.fst) (waiting : k ∉ s.decremented) :
    (s.dequeued.filter fun e => !(s.decremented ++ [k]).contains e.1).length + 1 = s.active.length := by
  obtain ⟨e,there,rfl⟩ := List.mem_map.mp taken
  have inside : e ∈ s.active := List.mem_filter.mpr ⟨there,by simpa using waiting⟩
  have single : (s.active.map Prod.fst).count e.1 = 1 :=
    List.count_eq_one_of_mem (once.sublist (List.filter_sublist.map Prod.fst)) (List.mem_map_of_mem inside)
  have others : (s.dequeued.filter fun e' => !(s.decremented ++ [e.1]).contains e'.1) = s.active.filter fun e' => !(e'.1 == e.1) := by
    rw [State.active,List.filter_filter]
    apply List.filter_congr
    intro e' _
    simp only [List.contains_append,Bool.not_or,List.contains_cons,List.contains_nil,Bool.or_false]
    exact Bool.and_comm ..
  have split := s.active.length_eq_length_filter_add fun e' => e'.1 == e.1
  rw [List.count,List.countP_map,List.countP_eq_length_filter] at single
  rw [others,split]
  change (s.active.filter fun e' => e'.1 == e.1).length = 1 at single
  omega

/-- The task that is counted off was counted. -/
theorem Inv.decrement {k : Nat} (inv : Inv id s) (at_w : s.workers w = .resumed k) :
    Inv id ({ s with activeThreadCnt := s.activeThreadCnt - 1, decremented := s.decremented ++ [k] }.goto w .run) := by
  have mine : (s.workers w).holds = some k := by rw [at_w]; rfl
  obtain ⟨taken,waiting⟩ := inv.held w k mine
  have others : ∀ v j, v ≠ w → (s.workers v).holds = some j → j ≠ k := by
    rintro v j apart holds rfl
    exact apart (inv.apart v w _ holds mine)
  constructor
  · exact inv.distinct
  · exact inv.known
  · exact inv.affinity
  · exact inv.all
  · have one := s.active_erase (inv.distinct.of_append_right) taken waiting
    change s.activeThreadCnt - 1 = (s.dequeued.filter fun e => !(s.decremented ++ [k]).contains e.1).length
    rw [inv.counted]
    omega
  · intro v j holds
    by_cases same : v = w
    · subst same
      rw [goto_same] at holds
      cases holds
    · rw [goto_other _ same] at holds
      obtain ⟨there,active⟩ := inv.held v j holds
      refine ⟨there,?_⟩
      simp only [State.goto,List.mem_append,List.mem_singleton,not_or]
      exact ⟨active,others v j same holds⟩
  · intro u v j one two
    by_cases first : u = w
    · rw [first,goto_same] at one
      cases one
    · by_cases second : v = w
      · rw [second,goto_same] at two
        cases two
      · rw [goto_other _ first] at one
        rw [goto_other _ second] at two
        exact inv.apart u v j one two
  · intro v j back
    by_cases same : v = w
    · subst same
      rw [goto_same] at back
      cases back
    · rw [goto_other _ same] at back
      exact inv.resumed v j back
  · intro j off
    rcases List.mem_append.mp off with before | last
    · exact inv.done j before
    · obtain rfl := List.mem_singleton.mp last
      exact ⟨inv.resumed w _ at_w,taken⟩

theorem step_inv {a : Action T n} (inv : Inv id s) (taken : step id s a = some s') : Inv id s' := by
  cases a with
  | scheduler task threadId =>
    obtain rfl := Option.some.inj taken
    exact inv.scheduler task threadId
  | stop =>
    obtain rfl := Option.some.inj taken
    exact ⟨inv.distinct,inv.known,inv.affinity,inv.all,inv.counted,inv.held,inv.apart,inv.resumed,inv.done⟩
  | dequeue w =>
    simp only [step] at taken
    split at taken
    · next at_w =>
      obtain rfl := Option.some.inj taken
      exact inv.dequeue at_w
    · cases taken
  | resume w =>
    simp only [step] at taken
    split at taken
    · next at_w =>
      obtain rfl := Option.some.inj taken
      exact inv.resume at_w
    · cases taken
  | decrement w =>
    simp only [step] at taken
    split at taken
    · next at_w =>
      obtain rfl := Option.some.inj taken
      exact inv.decrement at_w
    · cases taken
  | idle w others =>
    simp only [step] at taken
    split at taken
    · obtain rfl := Option.some.inj taken
      have ended : Inv id { s with idleTerm := Function.update s.idleTerm w (s.stopping && others) } :=
        ⟨inv.distinct,inv.known,inv.affinity,inv.all,inv.counted,inv.held,inv.apart,inv.resumed,inv.done⟩
      apply ended.goto
      · intro k holds
        cases holds
      · intro k resumed
        cases resumed
    · cases taken

/-- For any number of workers, any thread ids and every interleaving. -/
theorem stopping_lossless (id : Fin n → Int) (actions : List (Action T n)) (s : State T n)
    (ran : Run.run (step id) (start T n) actions = some s) : Lossless id s := by
  have reach := Run.reach_of_run actions ran
  apply Inv.lossless
  exact reach.invariant (Inv id) (start_inv id) fun _ _ _ _ inv _ taken => step_inv inv taken

/-- A task for worker 1 is passed over by worker 0, whose own task schedules one more while it runs. -/
def affinityRun (one two : Fin 2) : List (Action Nat 2) :=
  [.scheduler (some 7) 1,.scheduler (some 8) (-1),.dequeue one,.scheduler (some 9) 0,.stop,.resume one,
    .decrement one,.dequeue two,.dequeue one,.resume two,.decrement two,.resume one,.decrement one]

theorem stopping_lossless_affinityRun :
    (Run.run (step fun w : Fin 2 => (w.val : Int)) (start Nat 2) (affinityRun 0 1)).any
      (fun s => s.stopping && s.dequeued == [(1,0),(0,1),(2,0)]) = true ∧
    ∀ s, Run.run (step fun w : Fin 2 => (w.val : Int)) (start Nat 2) (affinityRun 0 1) = some s →
      Lossless (fun w : Fin 2 => (w.val : Int)) s :=
  ⟨by decide +kernel,fun s ran => stopping_lossless (fun w => w.val) (affinityRun 0 1) s ran⟩

end State
end KvStorage.Scheduler
