import KvStorage.FiberScheduler

/-! Each fiber has at most one wake-up, be it an armed timer, a registered event or a task. From
that: `run` takes fibers that are READY, where a fiber is taken only once it has left its worker. -/
namespace KvStorage

/-! ### Wake-ups in the IO manager -/

namespace FdContext

variable {fdCtx : FdContext} {event : IoEvent}

/-- How many of the registered events would schedule the fiber. -/
def waiting (fiber : Nat) (fdCtx : FdContext) : Nat :=
  (if fdCtx.events .READ ∧ (fdCtx.context .READ).task = some (.fiber fiber) then 1 else 0) +
  if fdCtx.events .WRITE ∧ (fdCtx.context .WRITE).task = some (.fiber fiber) then 1 else 0

theorem register_waiting (fiber : Nat) (ctx : EventContext) (free : fdCtx.events event = false) :
    (fdCtx.register event ctx).waiting fiber =
      fdCtx.waiting fiber + if ctx.task = some (.fiber fiber) then 1 else 0 := by
  cases event with
  | READ =>
    simp only [waiting,register,Function.update]
    simp [free]
    omega
  | WRITE =>
    simp only [waiting,register,Function.update]
    simp [free]

theorem unregister_waiting (fiber : Nat) (held : fdCtx.events event = true) :
    (fdCtx.unregister event).waiting fiber +
      (if (fdCtx.context event).task = some (.fiber fiber) then 1 else 0) = fdCtx.waiting fiber := by
  cases event with
  | READ =>
    simp only [waiting,unregister,Function.update]
    simp [held]
    omega
  | WRITE =>
    simp only [waiting,unregister,Function.update]
    simp [held]

end FdContext

namespace IOManager

variable {m m' : IOManager} {c : Nat} {event : IoEvent}

def waiting (m : IOManager) (fiber : Nat) : Nat :=
  Tally.total (FdContext.waiting fiber) (Finset.range m.allocated) m.contexts

/-- How often the fiber has been scheduled. -/
def handed (m : IOManager) (fiber : Nat) : Nat := m.scheduled.countP fun e => e.2 = .fiber fiber

/-- An operation that registers nothing: what it schedules was waiting before. -/
structure Moves (m m' : IOManager) : Prop where
  sound : m'.Sound
  later : m.scheduled <+: m'.scheduled
  owed : ∀ fiber, m'.waiting fiber + m'.handed fiber ≤ m.waiting fiber + m.handed fiber

theorem Moves.refl (sound : m.Sound) : Moves m m := ⟨sound,List.prefix_rfl,fun _ => Nat.le_refl _⟩

theorem Moves.trans {m'' : IOManager} (first : Moves m m') (second : Moves m' m'') : Moves m m'' where
  sound := second.sound
  later := first.later.trans second.later
  owed := fun fiber => (second.owed fiber).trans (first.owed fiber)

theorem setContext_waiting (fiber : Nat) (fdCtx : FdContext) (known : c < m.allocated) :
    (m.setContext c fdCtx).waiting fiber + (m.contexts c).waiting fiber = m.waiting fiber + fdCtx.waiting fiber :=
  Tally.total_update (Finset.mem_range.mpr known) fdCtx

theorem moves_trigger (sound : m.Sound) (c : Nat) (event : IoEvent) : Moves m (m.trigger c event) := by
  refine ⟨sound.trigger c event,List.prefix_append .., ?_⟩
  intro fiber
  cases held : (m.contexts c).events event with
  | false =>
    rw [trigger_free held]
    exact Nat.le_refl _
  | true =>
    rw [trigger_held held]
    have moved := setContext_waiting fiber ((m.contexts c).unregister event) (sound.known c event held)
    have gone := FdContext.unregister_waiting fiber held
    change (m.setContext c _).waiting fiber + handed _ fiber ≤ _
    simp only [handed,List.countP_append]
    cases task : ((m.contexts c).context event).task with
    | none =>
      simp only [Option.toList_none,List.map_nil,List.countP_nil]
      omega
    | some task' =>
      simp only [task,Option.some.injEq] at gone
      simp only [Option.toList_some,List.map_cons,List.map_nil,List.countP_singleton,decide_eq_true_eq]
      omega

theorem moves_triggerIf (sound : m.Sound) (condition : Bool) (c : Nat) (event : IoEvent) :
    Moves m (m.triggerIf condition c event) := by
  cases condition with
  | false => exact .refl sound
  | true => exact moves_trigger sound c event

theorem moves_delEvent (sound : m.Sound) (c : Nat) (event : IoEvent) : Moves m (m.delEvent c event).1 := by
  refine ⟨sound.delEvent c event,?_,?_⟩
  all_goals
    unfold delEvent
    split
  · exact List.prefix_rfl
  · exact List.prefix_rfl
  · exact fun _ => Nat.le_refl _
  · next held =>
    intro fiber
    have held := not_not.mp held
    have moved := setContext_waiting fiber ((m.contexts c).unregister event) (sound.known c event held)
    have gone := FdContext.unregister_waiting fiber held
    change (m.setContext c _).waiting fiber + m.handed fiber ≤ _
    omega

theorem moves_cancelEvent (sound : m.Sound) (c : Nat) (event : IoEvent) : Moves m (m.cancelEvent c event).1 := by
  unfold cancelEvent
  split
  · exact .refl sound
  · exact moves_trigger sound c event

theorem moves_cancelAll (sound : m.Sound) (c : Nat) : Moves m (m.cancelAll c).1 := by
  unfold cancelAll
  split
  · exact .refl sound
  · have read := moves_triggerIf sound ((m.contexts c).events .READ) c .READ
    exact read.trans (moves_triggerIf read.sound _ c .WRITE)

theorem moves_idleEvent (sound : m.Sound) (c : Nat) (flags : EpollFlags) : Moves m (m.idleEvent c flags) := by
  simp only [idleEvent]
  split
  · have read := moves_triggerIf sound ((m.contexts c).realEvents flags .READ) c .READ
    exact read.trans (moves_triggerIf read.sound _ c .WRITE)
  · exact .refl sound

theorem moves_contextResize (sound : m.Sound) (size : Nat) : Moves m (m.contextResize size) where
  sound := sound.contextResize size
  later := List.prefix_rfl
  owed := by
    intro fiber
    have same : (m.contextResize size).waiting fiber = m.waiting fiber :=
      contextResize_total (fun _ => rfl) size
    rw [same]
    exact Nat.le_refl _

/-- `addEvent` without a callback registers its own fiber. -/
theorem addEvent_waiting {fiber : Nat} (sound : m.Sound) (known : c < m.allocated)
    (done : m.addEvent c event none fiber = some m') :
    m'.Sound ∧ m'.scheduled = m.scheduled ∧
    ∀ other, m'.waiting other = m.waiting other + if fiber = other then 1 else 0 := by
  have sound' := sound.addEvent known done
  obtain ⟨free,rfl⟩ := addEvent_ok done
  refine ⟨sound',rfl,?_⟩
  intro other
  obtain ⟨task,_⟩ := task_fill (sound.blank c event free) none fiber m.registrations.length
  have moved := setContext_waiting other ((m.contexts c).register event
    (((m.contexts c).context event).fill none fiber m.registrations.length)) known
  rw [FdContext.register_waiting other _ free,task] at moved
  simp only [IoTask.given,Option.some.injEq,IoTask.fiber.injEq] at moved
  change (m.setContext c _).waiting other = _
  omega

end IOManager

/-! ### Wake-ups of the process -/

namespace FiberScheduler

def Callback.wakes (fiber : Nat) : Callback → Nat
  | .scheduler id => if id = fiber then 1 else 0
  | _ => 0

def Task.wakes (fiber : Nat) : Task → Nat
  | .fiber id => if id = fiber then 1 else 0
  | .cb callback => callback.wakes fiber

def Worker.wakes (fiber : Nat) : Worker → Nat
  | .taken task => task.wakes fiber
  | .fiber _ (.running callback) => callback.wakes fiber
  | .idle cbs => (cbs.map (Callback.wakes fiber)).sum
  | _ => 0

/-- A worker has the fiber's code, or is about to. -/
def Worker.hands (fiber : Nat) : Worker → Nat
  | .taken (.fiber id) => if id = fiber then 1 else 0
  | .fiber id _ => if id = fiber then 1 else 0
  | _ => 0

def Worker.runs (fiber : Nat) : Worker → Nat
  | .fiber id (.running _) => if id = fiber then 1 else 0
  | .fiber id .published => if id = fiber then 1 else 0
  | _ => 0

def Worker.unpublished (fiber : Nat) : Worker → Nat
  | .fiber id (.running _) => if id = fiber then 1 else 0
  | _ => 0

namespace State

variable {n : Nat} {s s' : State n} {w : Fin n} {f : Nat}

def count (s : State n) (measure : Worker → Nat) : Nat := Tally.total measure Finset.univ s.workers

/-- The wake-ups of a fiber that no worker holds. -/
def pool (s : State n) (fiber : Nat) : Nat :=
  (s.tasks.map fun t => t.task.wakes fiber).sum + (s.timers.map (Callback.wakes fiber)).sum + s.io.waiting fiber

def wakes (s : State n) (fiber : Nat) : Nat := s.pool fiber + s.count (Worker.wakes fiber)

/-- One fiber: one worker has it at most; it has one wake-up at most, and none while it may still
publish one or has ended. -/
structure Orderly (s : State n) (fiber : Nat) : Prop where
  hands : s.count (Worker.hands fiber) ≤ 1
  wakes : s.wakes fiber + s.count (Worker.unpublished fiber) + (if s.fibers fiber = .TERM then 1 else 0) ≤ 1
  runs : s.count (Worker.runs fiber) = if s.fibers fiber = .RUNNING then 1 else 0
  fresh : s.created ≤ fiber → s.wakes fiber + s.count (Worker.hands fiber) = 0 ∧ s.fibers fiber = .READY

structure Inv (s : State n) : Prop where
  sound : s.io.Sound
  going : s.aborted = false
  fiber : ∀ fiber, Orderly s fiber

theorem held (s : State n) (measure : Worker → Nat) (w : Fin n) : measure (s.workers w) ≤ s.count measure :=
  Tally.le_total (Finset.mem_univ w)

theorem runs_le_hands : s.count (Worker.runs f) ≤ s.count (Worker.hands f) := by
  apply Tally.total_mono
  intro place
  cases place with
  | fiber id stage => cases stage <;> simp [Worker.runs,Worker.hands]
  | _ => exact Nat.zero_le _

theorem unpublished_le_runs : s.count (Worker.unpublished f) ≤ s.count (Worker.runs f) := by
  apply Tally.total_mono
  intro place
  cases place with
  | fiber id stage => cases stage <;> simp [Worker.unpublished,Worker.runs]
  | _ => exact Nat.zero_le _

theorem start_inv (n : Nat) : Inv (start n) := by
  refine ⟨IOManager.new_sound,rfl,?_⟩
  intro fiber
  have none : IOManager.new.waiting fiber = 0 :=
    IOManager.contextResize_total (m := ⟨fun _ => .new 0,0,[],0,[],[]⟩) (fun _ => rfl) 32
  constructor
  all_goals simp [none,start,State.wakes,pool,count,Tally.total,Worker.hands,Worker.runs,Worker.unpublished,Worker.wakes]

/-! ### Steps that move no worker -/

/-- Only wake-ups may have got fewer. -/
theorem Orderly.fewer (orderly : Orderly s f) (workers : s'.workers = s.workers) (fibers : s'.fibers f = s.fibers f)
    (created : s.created ≤ s'.created) (fewer : s'.pool f ≤ s.pool f) : Orderly s' f := by
  have same : ∀ measure, s'.count measure = s.count measure := fun measure => by rw [count,count,workers]
  have wakes : s'.wakes f ≤ s.wakes f := by
    rw [State.wakes,same]
    exact Nat.add_le_add_right fewer _
  constructor
  · rw [same]
    exact orderly.hands
  · have := orderly.wakes
    rw [same,fibers]
    omega
  · rw [same,fibers]
    exact orderly.runs
  · intro beyond
    obtain ⟨none,ready⟩ := orderly.fresh (created.trans beyond)
    rw [same,fibers]
    exact ⟨by omega,ready⟩

theorem ofEvent_wakes (e : Nat × IoTask) :
    (ofEvent e.2).task.wakes f = if e.2 = .fiber f then 1 else 0 := by
  rcases e with ⟨_,id | id⟩
  · rfl
  · simp [ofEvent,Task.wakes]

theorem events_wakes (added : List (Nat × IoTask)) :
    ((added.map (ofEvent ·.2)).map fun t => t.task.wakes f).sum = added.countP fun e => e.2 = .fiber f := by
  induction added with
  | nil => rfl
  | cons e rest ih =>
    rw [List.map_cons,List.map_cons,List.sum_cons,ih,ofEvent_wakes,List.countP_cons]
    simp only [decide_eq_true_eq]
    omega

theorem withIo_pool {io : IOManager} (moves : IOManager.Moves s.io io) : (s.withIo io).pool f ≤ s.pool f := by
  obtain ⟨added,same⟩ := moves.later
  have owed := moves.owed f
  have handed : io.handed f = s.io.handed f + added.countP fun e => e.2 = .fiber f := by
    rw [IOManager.handed,← same,List.countP_append]
    rfl
  unfold pool
  simp only [withIo,← same,List.drop_left,List.map_append,List.sum_append]
  rw [events_wakes]
  omega

theorem Inv.withIo {io : IOManager} (inv : Inv s) (moves : IOManager.Moves s.io io) : Inv (s.withIo io) where
  sound := moves.sound
  going := inv.going
  fiber := fun f => (inv.fiber f).fewer rfl rfl (Nat.le_refl _) (withIo_pool moves)

/-! ### Steps of one worker -/

theorem counts (s' : State n) {old place : Worker} (at_w : s.workers w = old) (moved : s'.workers = Function.update s.workers w place)
    (measure : Worker → Nat) : s'.count measure + measure old = s.count measure + measure place := by
  rw [count,moved,← at_w]
  exact Tally.total_update (Finset.mem_univ w) place

theorem take_wakes {w : Nat} {tasks rest : List SchedulerTask} {task : Task} (found : take w tasks = some (task,rest))
    (f : Nat) :
    (tasks.map fun t => t.task.wakes f).sum = task.wakes f + (rest.map fun t => t.task.wakes f).sum := by
  induction tasks generalizing rest with
  | nil => cases found
  | cons t tasks ih =>
    unfold take at found
    split at found
    · obtain ⟨⟨task',others⟩,taken,same⟩ := Option.map_eq_some_iff.mp found
      obtain ⟨rfl,rfl⟩ := Prod.mk.inj same
      have tail := ih taken
      simp only [List.map_cons,List.sum_cons]
      omega
    · obtain ⟨rfl,rfl⟩ := Prod.mk.inj (Option.some.inj found)
      rfl

theorem eraseIdx_wakes {timers : List Callback} {i : Nat} {cb : Callback} (found : timers[i]? = some cb) (f : Nat) :
    cb.wakes f + ((timers.eraseIdx i).map (Callback.wakes f)).sum = (timers.map (Callback.wakes f)).sum := by
  obtain ⟨inside,rfl⟩ := List.getElem?_eq_some_iff.mp found
  rw [← List.eraseIdx_map,← List.CommMonoid.add_sum_eraseIdx (l := timers.map _) (by simpa using inside),
    List.getElem_map]

/-- One worker goes from one place to another: what that changes for a fiber, in numbers. -/
theorem Orderly.moves {old place : Worker} (orderly : Orderly s f) (at_w : s.workers w = old)
    (moved : s'.workers = Function.update s.workers w place)
    (hands : s.count (Worker.hands f) + place.hands f ≤ 1 + old.hands f)
    (wakes : s'.pool f + place.wakes f + place.unpublished f + (if s'.fibers f = .TERM then 1 else 0) ≤
      s.pool f + old.wakes f + old.unpublished f + if s.fibers f = .TERM then 1 else 0)
    (runs : place.runs f + (if s.fibers f = .RUNNING then 1 else 0) = old.runs f + if s'.fibers f = .RUNNING then 1 else 0)
    (fresh : s'.created ≤ f → s.created ≤ f ∧ s'.fibers f = s.fibers f ∧
      s'.pool f + place.wakes f + place.hands f ≤ s.pool f + old.wakes f + old.hands f) : Orderly s' f := by
  have hands' := counts s' at_w moved (Worker.hands f)
  have runs' := counts s' at_w moved (Worker.runs f)
  have unpublished' := counts s' at_w moved (Worker.unpublished f)
  have wakes' := counts s' at_w moved (Worker.wakes f)
  have before := orderly.runs
  have single := orderly.wakes
  unfold State.wakes at single
  constructor
  · omega
  · unfold State.wakes
    omega
  · omega
  · intro beyond
    obtain ⟨known,same,fewer⟩ := fresh beyond
    obtain ⟨none,ready⟩ := orderly.fresh known
    rw [same]
    unfold State.wakes at none ⊢
    exact ⟨by omega,ready⟩

/-- A fiber that a worker has taken and nobody executes has left `yield`. -/
theorem Inv.taken_ready {id : Nat} (inv : Inv s) (at_w : s.workers w = .taken (.fiber id)) : s.fibers id = .READY := by
  have orderly := inv.fiber id
  have first := counts (s.goto w .run) at_w rfl (Worker.hands id)
  have second := counts (s.goto w .run) at_w rfl (Worker.runs id)
  have wake : (s.workers w).wakes id ≤ s.count (Worker.wakes id) :=
    s.held (Worker.wakes id) w
  have runs_le := runs_le_hands (s := s.goto w .run) (f := id)
  have one := orderly.hands
  have single := orderly.wakes
  have runs := orderly.runs
  rw [at_w] at wake
  simp only [Worker.hands,Worker.runs,Worker.wakes,Task.wakes,if_true] at first second wake
  unfold State.wakes pool at single
  cases state : s.fibers id with
  | READY => rfl
  | RUNNING =>
    rw [if_pos state] at runs
    omega
  | TERM =>
    rw [if_pos state] at single
    omega

theorem Inv.known {id : Nat} (inv : Inv s) (hands : 1 ≤ (s.workers w).hands id) : id < s.created := by
  by_contra beyond
  have none := ((inv.fiber id).fresh (not_lt.mp beyond)).1
  have some : (s.workers w).hands id ≤ s.count (Worker.hands id) :=
    s.held (Worker.hands id) w
  omega

theorem Inv.running {id : Nat} (inv : Inv s) (runs : 1 ≤ (s.workers w).runs id) : s.fibers id = .RUNNING := by
  by_contra still
  have none := (inv.fiber id).runs
  rw [if_neg still] at none
  have some : (s.workers w).runs id ≤ s.count (Worker.runs id) :=
    s.held (Worker.runs id) w
  omega

theorem setState_fibers (id f : Nat) (state : FiberState) :
    (s.setState id state).fibers f = if id = f then state else s.fibers f :=
  (Function.update_apply ..).trans (if_congr eq_comm rfl rfl)

theorem Inv.resume_fiber {id : Nat} (inv : Inv s) (at_w : s.workers w = .taken (.fiber id)) :
    Inv (s.resume w (.fiber id)) := by
  have ready := inv.taken_ready at_w
  have known : id < s.created := inv.known (w := w) (by simp [at_w,Worker.hands])
  have same : s.resume w (.fiber id) = (s.setState id .RUNNING).goto w (.fiber id (.running .function)) := by
    simp [resume,ready]
  rw [same]
  refine ⟨inv.sound,inv.going,?_⟩
  intro f
  have fibers : ((s.setState id .RUNNING).goto w (.fiber id (.running .function))).fibers f =
      if id = f then .RUNNING else s.fibers f := setState_fibers id f .RUNNING
  have pool : ((s.setState id .RUNNING).goto w (.fiber id (.running .function))).pool f = s.pool f := rfl
  apply (inv.fiber f).moves at_w rfl
  · exact Nat.add_le_add_right (inv.fiber f).hands _
  · rw [fibers,pool]
    simp only [Worker.wakes,Worker.unpublished,Callback.wakes,Task.wakes]
    by_cases here : id = f
    · simp [here]
    · simp [here]
  · rw [fibers]
    simp only [Worker.runs]
    by_cases here : id = f
    · subst here
      simp [ready]
    · simp [here]
  · intro beyond
    have apart : id ≠ f := (known.trans_le beyond).ne
    rw [fibers,pool,if_neg apart]
    refine ⟨beyond,rfl,?_⟩
    simp [Worker.wakes,Worker.hands,Task.wakes,Callback.wakes,apart]

/-- A new fiber, which nobody knew before, starts. -/
theorem Inv.resume_cb {callback : Callback} (inv : Inv s) (at_w : s.workers w = .taken (.cb callback)) :
    Inv (s.resume w (.cb callback)) := by
  refine ⟨inv.sound,inv.going,?_⟩
  intro f
  have fibers : (s.resume w (.cb callback)).fibers f = if s.created = f then .RUNNING else s.fibers f :=
    setState_fibers s.created f .RUNNING
  have pool : (s.resume w (.cb callback)).pool f = s.pool f := rfl
  have created : (s.resume w (.cb callback)).created = s.created + 1 := rfl
  have orderly := inv.fiber f
  by_cases here : s.created = f
  · obtain ⟨none,ready⟩ := orderly.fresh here.le
    have moved := counts (s.resume w (.cb callback)) at_w rfl
    have hands := moved (Worker.hands f)
    have runs := moved (Worker.runs f)
    have unpublished := moved (Worker.unpublished f)
    have wakes := moved (Worker.wakes f)
    simp only [Worker.hands,Worker.runs,Worker.unpublished,Worker.wakes,Task.wakes,if_pos here] at hands runs unpublished wakes
    have runs_le := runs_le_hands (s := s) (f := f)
    have unpublished_le := unpublished_le_runs (s := s) (f := f)
    rw [if_pos here] at fibers
    unfold State.wakes at none
    constructor
    · omega
    · rw [fibers,State.wakes,pool]
      simp only [reduceCtorEq,if_false]
      omega
    · rw [fibers,if_pos rfl]
      omega
    · intro beyond
      omega
  · rw [if_neg here] at fibers
    apply orderly.moves at_w rfl
    · simp only [Worker.hands,if_neg here]
      exact orderly.hands
    · rw [fibers,pool]
      simp [Worker.wakes,Worker.unpublished,Task.wakes,here]
    · rw [fibers]
      simp [Worker.runs,here]
    · intro beyond
      rw [fibers,pool]
      refine ⟨by omega,rfl,?_⟩
      simp [Worker.wakes,Worker.hands,Task.wakes,here]

theorem finish_eq {id : Nat} (s : State n) (w : Fin n) :
    s.finish w id = (s.setState id .TERM).goto w (.fiber id .leaving) := by
  have term : (s.setState id .TERM).fibers id = .TERM := Function.update_self ..
  simp [finish,yield,term]

/-- The end of a fiber, after its callback's own effect. -/
theorem Inv.finish {id : Nat} {callback : Callback} (inv : Inv s) (at_w : s.workers w = .fiber id (.running callback))
    (sound : s'.io.Sound) (going : s'.aborted = false) (workers : s'.workers = s.workers) (fibers : s'.fibers = s.fibers)
    (created : s'.created = s.created) (pool : ∀ f, s'.pool f ≤ s.pool f + callback.wakes f) : Inv (s'.finish w id) := by
  have known : id < s.created := inv.known (w := w) (by simp [at_w,Worker.hands])
  have running : s.fibers id = .RUNNING := inv.running (w := w) (by simp [at_w,Worker.runs])
  rw [finish_eq]
  refine ⟨sound,going,?_⟩
  intro f
  have fibers' : ((s'.setState id .TERM).goto w (.fiber id .leaving)).fibers f = if id = f then .TERM else s.fibers f := by
    rw [← fibers]
    exact setState_fibers id f .TERM
  have pool' : ((s'.setState id .TERM).goto w (.fiber id .leaving)).pool f = s'.pool f := rfl
  have fewer := pool f
  have orderly := inv.fiber f
  have moved : ((s'.setState id .TERM).goto w (.fiber id .leaving)).workers = Function.update s.workers w (.fiber id .leaving) := by
    rw [← workers]
    rfl
  apply orderly.moves at_w moved
  · exact Nat.add_le_add_right orderly.hands _
  · rw [fibers',pool']
    simp only [Worker.wakes,Worker.unpublished]
    by_cases here : id = f
    · simp only [here,if_true]
      omega
    · simp only [here,if_false]
      omega
  · rw [fibers']
    simp only [Worker.runs]
    by_cases here : id = f
    · subst here
      simp [running]
    · simp [here]
  · intro beyond
    have apart : id ≠ f := (known.trans_le (created.symm.trans_le beyond)).ne
    rw [fibers',pool',if_neg apart]
    refine ⟨created.symm.trans_le beyond,rfl,?_⟩
    simp only [Worker.wakes,Worker.hands,if_neg apart]
    omega

theorem Inv.yield {id : Nat} (inv : Inv s) (at_w : s.workers w = .fiber id .published) : Inv (s.yield w id) := by
  have known : id < s.created := inv.known (w := w) (by simp [at_w,Worker.hands])
  have running : s.fibers id = .RUNNING := inv.running (w := w) (by simp [at_w,Worker.runs])
  have same : s.yield w id = (s.setState id .READY).goto w (.fiber id .leaving) := by
    simp [State.yield,running]
  rw [same]
  refine ⟨inv.sound,inv.going,?_⟩
  intro f
  have fibers : ((s.setState id .READY).goto w (.fiber id .leaving)).fibers f = if id = f then .READY else s.fibers f :=
    setState_fibers id f .READY
  have pool : ((s.setState id .READY).goto w (.fiber id .leaving)).pool f = s.pool f := rfl
  apply (inv.fiber f).moves at_w rfl
  · exact Nat.add_le_add_right (inv.fiber f).hands _
  · rw [fibers,pool]
    by_cases here : id = f
    · simp [here,Worker.wakes,Worker.unpublished]
    · simp [here,Worker.wakes,Worker.unpublished]
  · rw [fibers]
    by_cases here : id = f
    · subst here
      simp [running,Worker.runs]
    · simp [here,Worker.runs]
  · intro beyond
    have apart : id ≠ f := (known.trans_le beyond).ne
    rw [fibers,pool,if_neg apart]
    refine ⟨beyond,rfl,?_⟩
    simp [Worker.wakes,Worker.hands]

/-- A worker that changes no fiber's state. -/
theorem Inv.goes {old place : Worker} (inv : Inv s) (at_w : s.workers w = old) (sound : s'.io.Sound)
    (same : s'.aborted = s.aborted ∧ s'.fibers = s.fibers ∧ s'.created = s.created ∧
      s'.workers = Function.update s.workers w place)
    (hands : ∀ f, s.count (Worker.hands f) + place.hands f ≤ 1 + old.hands f)
    (runs : ∀ f, place.runs f = old.runs f)
    (wakes : ∀ f, s'.pool f + place.wakes f + place.unpublished f ≤ s.pool f + old.wakes f + old.unpublished f)
    (known : ∀ f, s.created ≤ f → s'.pool f + place.wakes f + place.hands f ≤ s.pool f + old.wakes f + old.hands f) :
    Inv s' := by
  obtain ⟨aborted,fibers,created,workers⟩ := same
  refine ⟨sound,aborted.trans inv.going,?_⟩
  intro f
  apply (inv.fiber f).moves at_w workers (hands f)
  · rw [fibers]
    exact Nat.add_le_add_right (wakes f) _
  · rw [fibers,runs]
  · rw [fibers,created]
    exact fun beyond => ⟨beyond,rfl,known f beyond⟩

/-- The fiber that a worker takes from the queue is not on any worker's stack. -/
def SwitchedOut (s : State n) : Action n → Prop
  | .worker w .dequeue => ∀ id rest, take w s.tasks = some (.fiber id,rest) → ∀ v stage, s.workers v ≠ .fiber id stage
  | _ => True

theorem pool_task {id : Nat} {rest : List SchedulerTask} {task : Task} (found : take id s.tasks = some (task,rest)) (f : Nat) :
    ({ s with tasks := rest } : State n).pool f + task.wakes f = s.pool f := by
  have tasks := take_wakes found f
  simp only [pool,tasks]
  omega

/-- A fiber whose wake-up is in the queue is held by no worker that does not execute it. -/
theorem Inv.unheld {id : Nat} (inv : Inv s) (pooled : 1 ≤ s.pool id) (out : ∀ v stage, s.workers v ≠ .fiber id stage) :
    s.count (Worker.hands id) = 0 := by
  have single := (inv.fiber id).wakes
  unfold State.wakes at single
  unfold count Tally.total
  apply Finset.sum_eq_zero
  intro v _
  have held : (s.workers v).wakes id ≤ s.count (Worker.wakes id) :=
    s.held (Worker.wakes id) v
  cases at_v : s.workers v with
  | run => rfl
  | idle cbs => rfl
  | fiber other stage =>
    have apart : other ≠ id := fun same => out v stage (same ▸ at_v)
    simp [Worker.hands,apart]
  | taken task =>
    cases task with
    | cb callback => rfl
    | fiber other =>
      have apart : other ≠ id := by
        rintro rfl
        simp only [at_v,Worker.wakes,Task.wakes,if_true] at held
        omega
      simp [Worker.hands,apart]

theorem Inv.dequeue (inv : Inv s) (at_w : s.workers w = .run) (out : SwitchedOut s (.worker w .dequeue)) :
    Inv (s.dequeue w) := by
  unfold State.dequeue
  split
  · next id rest found =>
    have pool := pool_task found
    have pooled : 1 ≤ s.pool id := by
      have := pool id
      simp only [Task.wakes,if_true] at this
      omega
    have unheld := inv.unheld pooled (out id rest found)
    have ready : s.fibers id = .READY := by
      have single := (inv.fiber id).wakes
      have runs := (inv.fiber id).runs
      have runs_le := runs_le_hands (s := s) (f := id)
      unfold State.wakes at single
      cases state : s.fibers id with
      | READY => rfl
      | RUNNING =>
        rw [if_pos state] at runs
        omega
      | TERM =>
        rw [if_pos state] at single
        omega
    rw [if_pos ready]
    apply inv.goes at_w
    · exact inv.sound
    · exact ⟨rfl,rfl,rfl,rfl⟩
    · intro f
      have one := (inv.fiber f).hands
      simp only [Worker.hands]
      by_cases here : id = f
      · subst here
        simp [unheld]
      · simp [here,one]
    · exact fun _ => rfl
    · intro f
      exact (pool f).le
    · intro f beyond
      have none := ((inv.fiber f).fresh beyond).1
      have := pool f
      unfold State.wakes at none
      have apart : id ≠ f := by
        rintro rfl
        omega
      change ({ s with tasks := rest } : State n).pool f + (if id = f then 1 else 0) + (if id = f then 1 else 0) ≤ s.pool f
      simp only [Task.wakes,if_neg apart] at this ⊢
      omega
  · next callback rest found =>
    have pool := pool_task found
    apply inv.goes at_w
    · exact inv.sound
    · exact ⟨rfl,rfl,rfl,rfl⟩
    · exact fun f => (inv.fiber f).hands
    · exact fun _ => rfl
    · exact fun f => (pool f).le
    · exact fun f _ => (pool f).le
  · apply inv.goes at_w
    · exact inv.sound
    · exact ⟨rfl,rfl,rfl,rfl⟩
    · exact fun f => (inv.fiber f).hands
    · exact fun _ => rfl
    · exact fun _ => Nat.le_refl _
    · exact fun _ _ => Nat.le_refl _

theorem Inv.fewer (inv : Inv s) (sound : s'.io.Sound) (going : s'.aborted = s.aborted) (workers : s'.workers = s.workers)
    (fibers : s'.fibers = s.fibers) (created : s'.created = s.created) (fewer : ∀ f, s'.pool f ≤ s.pool f) : Inv s' :=
  ⟨sound,going.trans inv.going,fun f => (inv.fiber f).fewer workers (congrFun fibers f) created.symm.le (fewer f)⟩

theorem timers_pool (timer : Callback) (f : Nat) :
    ({ s with timers := s.timers ++ [timer] } : State n).pool f = s.pool f + timer.wakes f := by
  simp only [pool,List.map_append,List.map_cons,List.map_nil,List.sum_append,List.sum_singleton]
  omega

theorem scheduler_pool (task : Task) (threadId : Option Nat) (f : Nat) :
    (s.scheduler task threadId).pool f = s.pool f + task.wakes f := by
  simp only [pool,scheduler,List.map_append,List.map_cons,List.map_nil,List.sum_append,List.sum_singleton]
  omega

theorem eraseIdx_pool {timer : Nat} {cb : Callback} (found : s.timers[timer]? = some cb) (f : Nat) :
    ({ s with timers := s.timers.eraseIdx timer } : State n).pool f + cb.wakes f = s.pool f := by
  have timers := eraseIdx_wakes found f
  simp only [pool]
  omega

/-- The fiber that publishes its wake-up may do so no more. -/
theorem Inv.publish {id : Nat} (inv : Inv s) (at_w : s.workers w = .fiber id (.running .function)) (sound : s'.io.Sound)
    (same : s'.aborted = s.aborted ∧ s'.fibers = s.fibers ∧ s'.created = s.created ∧
      s'.workers = Function.update s.workers w (.fiber id .published))
    (pool : ∀ f, s'.pool f = s.pool f + if id = f then 1 else 0) : Inv s' := by
  have known : id < s.created := inv.known (w := w) (by simp [at_w,Worker.hands])
  apply inv.goes at_w sound same
  · exact fun f => Nat.add_le_add_right (inv.fiber f).hands _
  · exact fun _ => rfl
  · exact fun f => (pool f).le
  · intro f beyond
    have apart : id ≠ f := (known.trans_le beyond).ne
    rw [pool,if_neg apart]
    exact Nat.le_refl _

theorem Inv.newFiber (inv : Inv s) (threadId : Option Nat) :
    Inv ({ s with created := s.created + 1 }.scheduler (.fiber s.created) threadId) := by
  refine ⟨inv.sound,inv.going,?_⟩
  intro f
  have orderly := inv.fiber f
  have pool : ({ s with created := s.created + 1 }.scheduler (.fiber s.created) threadId).pool f =
      s.pool f + if s.created = f then 1 else 0 := scheduler_pool ..
  by_cases here : s.created = f
  · obtain ⟨none,ready⟩ := orderly.fresh here.le
    have runs_le := runs_le_hands (s := s) (f := f)
    have unpublished_le := unpublished_le_runs (s := s) (f := f)
    rw [if_pos here] at pool
    unfold State.wakes at none
    constructor
    · exact orderly.hands
    · rw [State.wakes,pool]
      change s.pool f + 1 + s.count _ + s.count _ + (if s.fibers f = .TERM then 1 else 0) ≤ 1
      simp only [ready,reduceCtorEq,if_false]
      omega
    · exact orderly.runs
    · intro beyond
      exact absurd (here ▸ beyond) (Nat.not_succ_le_self _)
  · rw [if_neg here] at pool
    exact orderly.fewer rfl rfl (Nat.le_succ _) pool.le

theorem Inv.runs_function {id : Nat} {act : Act} (inv : Inv s) (at_w : s.workers w = .fiber id (.running .function))
    (taken : s.running w id act = some s') : Inv s' := by
  cases act with
  | usleep =>
    obtain rfl := Option.some.inj taken
    exact inv.publish at_w inv.sound ⟨rfl,rfl,rfl,rfl⟩ fun f => timers_pool (s := s) (.scheduler id) f
  | addConditionTimer c event =>
    obtain rfl := Option.some.inj taken
    exact inv.fewer inv.sound rfl rfl rfl rfl fun f => (timers_pool (.timeout c event) f).le
  | cancelTimer timer =>
    simp only [State.running] at taken
    split at taken
    · next c event found =>
      obtain rfl := Option.some.inj taken
      exact inv.fewer inv.sound rfl rfl rfl rfl fun f => (eraseIdx_pool found f).le
    · cases taken
  | addEvent c event =>
    simp only [State.running] at taken
    split at taken
    · next known =>
      obtain ⟨io,added,rfl⟩ := Option.map_eq_some_iff.mp taken
      obtain ⟨sound,scheduled,waiting⟩ := IOManager.addEvent_waiting inv.sound known added
      apply inv.publish at_w
      · exact sound
      · exact ⟨rfl,rfl,rfl,rfl⟩
      · intro f
        have nothing : io.scheduled.drop s.io.scheduled.length = [] := by rw [scheduled,List.drop_length]
        change (s.withIo io).pool f = _
        simp only [pool,State.withIo,nothing,List.map_nil,List.append_nil,waiting]
        omega
    · cases taken
  | delEvent c event =>
    obtain rfl := Option.some.inj taken
    exact inv.withIo (IOManager.moves_delEvent inv.sound c event)
  | cancelEvent c event =>
    obtain rfl := Option.some.inj taken
    exact inv.withIo (IOManager.moves_cancelEvent inv.sound c event)
  | cancelAll c =>
    obtain rfl := Option.some.inj taken
    exact inv.withIo (IOManager.moves_cancelAll inv.sound c)
  | contextResize size =>
    obtain rfl := Option.some.inj taken
    exact inv.withIo (IOManager.moves_contextResize inv.sound size)
  | finish =>
    obtain rfl := Option.some.inj taken
    exact inv.finish at_w inv.sound inv.going rfl rfl rfl fun _ => Nat.le_refl _
  | _ => cases taken

theorem Inv.idles {cbs : List Callback} {act : Act} (inv : Inv s) (at_w : s.workers w = .idle cbs)
    (taken : s.idle w cbs act = some s') : Inv s' := by
  unfold State.idle at taken
  split at taken
  · next timer =>
    obtain ⟨cb,found,rfl⟩ := Option.map_eq_some_iff.mp taken
    have wakes : ∀ f, ({ s with timers := s.timers.eraseIdx timer } : State n).pool f +
        Worker.wakes f (.idle (cbs ++ [cb])) = s.pool f + Worker.wakes f (.idle cbs) := by
      intro f
      have pool := eraseIdx_pool found f
      simp only [Worker.wakes,List.map_append,List.map_cons,List.map_nil,List.sum_append,List.sum_singleton]
      omega
    apply inv.goes at_w
    · exact inv.sound
    · exact ⟨rfl,rfl,rfl,rfl⟩
    · exact fun f => (inv.fiber f).hands
    · exact fun _ => rfl
    · exact fun f => (wakes f).le
    · exact fun f _ => (wakes f).le
  · next cb rest =>
    obtain rfl := Option.some.inj taken
    have wakes : ∀ f, (s.scheduler (.cb cb) none).pool f + Worker.wakes f (.idle rest) =
        s.pool f + Worker.wakes f (.idle (cb :: rest)) := by
      intro f
      rw [scheduler_pool]
      simp only [Task.wakes,Worker.wakes,List.map_cons,List.sum_cons]
      omega
    apply inv.goes at_w
    · exact inv.sound
    · exact ⟨rfl,rfl,rfl,rfl⟩
    · exact fun f => (inv.fiber f).hands
    · exact fun _ => rfl
    · exact fun f => (wakes f).le
    · exact fun f _ => (wakes f).le
  · next c flags =>
    obtain rfl := Option.some.inj taken
    exact inv.withIo (IOManager.moves_idleEvent inv.sound c flags)
  · obtain rfl := Option.some.inj taken
    apply inv.goes at_w
    · exact inv.sound
    · exact ⟨rfl,rfl,rfl,rfl⟩
    · exact fun f => (inv.fiber f).hands
    · exact fun _ => rfl
    · exact fun _ => Nat.le_refl _
    · exact fun _ _ => Nat.le_refl _
  · cases taken

theorem perform_pool {callback : Callback} (sound : s.io.Sound) (cancelled : Bool) (f : Nat) :
    (s.perform callback cancelled).io.Sound ∧ (s.perform callback cancelled).pool f ≤ s.pool f + callback.wakes f := by
  cases callback with
  | function => exact ⟨sound,Nat.le_refl _⟩
  | scheduler id => exact ⟨sound,(scheduler_pool (.fiber id) none f).le⟩
  | timeout c event =>
    cases cancelled with
    | true => exact ⟨sound,Nat.le_refl _⟩
    | false =>
      have moves := IOManager.moves_cancelEvent sound c event
      exact ⟨moves.sound,withIo_pool moves⟩

theorem perform_same (callback : Callback) (cancelled : Bool) :
    (s.perform callback cancelled).aborted = s.aborted ∧ (s.perform callback cancelled).workers = s.workers ∧
    (s.perform callback cancelled).fibers = s.fibers ∧ (s.perform callback cancelled).created = s.created := by
  cases callback with
  | timeout c event => cases cancelled <;> exact ⟨rfl,rfl,rfl,rfl⟩
  | _ => exact ⟨rfl,rfl,rfl,rfl⟩

theorem Inv.act {act : Act} (inv : Inv s) (out : SwitchedOut s (.worker w act)) (taken : s.act w act = some s') : Inv s' := by
  unfold State.act at taken
  split at taken
  · next at_w =>
    obtain rfl := Option.some.inj taken
    exact inv.dequeue at_w out
  · next task at_w =>
    obtain rfl := Option.some.inj taken
    cases task with
    | fiber id => exact inv.resume_fiber at_w
    | cb callback => exact inv.resume_cb at_w
  · next at_w => exact inv.runs_function at_w taken
  · next id callback cancelled _ at_w =>
    obtain rfl := Option.some.inj taken
    obtain ⟨aborted,workers,fibers,created⟩ := perform_same (s := s) callback cancelled
    exact inv.finish at_w (perform_pool inv.sound cancelled 0).1 (aborted.trans inv.going) workers fibers created
      fun f => (perform_pool inv.sound cancelled f).2
  · next at_w =>
    obtain rfl := Option.some.inj taken
    exact inv.yield at_w
  · next id at_w =>
    obtain rfl := Option.some.inj taken
    apply inv.goes at_w
    · exact inv.sound
    · exact ⟨rfl,rfl,rfl,rfl⟩
    · exact fun f => Nat.add_le_add (inv.fiber f).hands (Nat.zero_le _)
    · exact fun _ => rfl
    · exact fun _ => Nat.le_refl _
    · exact fun f _ => Nat.add_le_add_left (Nat.zero_le _) _
  · next at_w => exact inv.idles at_w taken
  · cases taken

theorem step_inv {a : Action n} (inv : Inv s) (out : SwitchedOut s a) (taken : s.step a = some s') : Inv s' := by
  have going : ¬ s.aborted = true := by simp [inv.going]
  cases a with
  | scheduler threadId =>
    simp only [step] at taken
    rw [if_neg going] at taken
    obtain rfl := Option.some.inj taken
    exact inv.fewer inv.sound rfl rfl rfl rfl fun f => (scheduler_pool (.cb .function) threadId f).le
  | newFiber threadId =>
    simp only [step] at taken
    rw [if_neg going] at taken
    obtain rfl := Option.some.inj taken
    exact inv.newFiber threadId
  | worker w act =>
    simp only [step] at taken
    rw [if_neg going] at taken
    exact inv.act out taken

theorem reach_inv (reach : Run.Reach step SwitchedOut (start n) s) : Inv s :=
  reach.invariant Inv (start_inv n) fun _ _ _ _ inv out taken => step_inv inv out taken

/-! ### Only READY fibers -/

/-- No check of a fiber's state has failed, and no fiber is executed by two workers. -/
structure OnlyReady (s : State n) : Prop where
  going : s.aborted = false
  alone : ∀ id v w stage stage', s.workers v = .fiber id stage → s.workers w = .fiber id stage' → v = w

theorem Inv.onlyReady (inv : Inv s) : OnlyReady s where
  going := inv.going
  alone := by
    intro id v w stage stage' at_v at_w
    apply Tally.same_of_total_le_one (inv.fiber id).hands (Finset.mem_univ v) (Finset.mem_univ w)
    · simp [at_v,Worker.hands]
    · simp [at_w,Worker.hands]

theorem dequeue_step (taken : s.step (.worker w .dequeue) = some s') : s.workers w = .run ∧ s' = s.dequeue w := by
  simp only [step] at taken
  split at taken
  · cases taken
  · unfold State.act at taken
    cases at_w : s.workers w with
    | run =>
      rw [at_w] at taken
      exact ⟨rfl,(Option.some.inj taken).symm⟩
    | taken task =>
      rw [at_w] at taken
      cases taken
    | fiber id stage =>
      rw [at_w] at taken
      rcases stage with ⟨_ | _ | _⟩ | _ | _ <;> cases taken
    | idle cbs =>
      rw [at_w] at taken
      rcases cbs with _ | _ <;> cases taken

/-- Where a fiber is taken too early, its state is wrong, or the next step puts it on two workers. -/
theorem Inv.taken_early (inv : Inv s) (early : ¬ SwitchedOut s (.worker w .dequeue))
    (taken : s.step (.worker w .dequeue) = some s') :
    ¬ OnlyReady s' ∨ ∃ s'', s'.step (.worker w .resume) = some s'' ∧ ¬ OnlyReady s'' := by
  simp only [SwitchedOut,not_forall,not_not] at early
  obtain ⟨id,rest,found,v,stage,at_v⟩ := early
  obtain ⟨at_w,rfl⟩ := dequeue_step taken
  have apart : v ≠ w := by
    rintro rfl
    rw [at_w] at at_v
    cases at_v
  simp only [State.dequeue,found]
  split
  · next ready =>
    right
    generalize after : ({ s with tasks := rest } : State n).goto w (.taken (.fiber id)) = s₁
    have going : s₁.aborted = false := by
      rw [← after]
      exact inv.going
    have at_w₁ : s₁.workers w = .taken (.fiber id) := by
      rw [← after]
      exact Function.update_self ..
    have at_v₁ : s₁.workers v = .fiber id stage := by
      rw [← after]
      exact (Function.update_of_ne apart ..).trans at_v
    have ready₁ : s₁.fibers id = .READY := by
      rw [← after]
      exact ready
    have resumed : s₁.resume w (.fiber id) = (s₁.setState id .RUNNING).goto w (.fiber id (.running .function)) := by
      simp [State.resume,ready₁]
    refine ⟨s₁.resume w (.fiber id),?_,?_⟩
    · simp [step,going,State.act,at_w₁]
    · intro only
      rw [resumed] at only
      apply apart
      apply only.alone id v w stage (.running .function)
      · exact (Function.update_of_ne apart ..).trans at_v₁
      · exact Function.update_self ..
  · left
    intro only
    cases only.going

/-- Where every fiber is taken after its switch, `run` and `resume` find only READY fibers and no
fiber is on two workers; a fiber taken before that breaks one or the other. -/
theorem only_ready_resumed (n : Nat) :
    (∀ s : State n, Run.Reach step SwitchedOut (start n) s → OnlyReady s) ∧
    ∀ (s s' : State n) (w : Fin n), Run.Reach step SwitchedOut (start n) s → s.step (.worker w .dequeue) = some s' →
      ¬ SwitchedOut s (.worker w .dequeue) →
      ¬ OnlyReady s' ∨ ∃ s'', s'.step (.worker w .resume) = some s'' ∧ ¬ OnlyReady s'' :=
  ⟨fun _ reach => (reach_inv reach).onlyReady,fun _ _ _ reach taken early => (reach_inv reach).taken_early early taken⟩

/-- A single worker that takes a task executes nothing else. -/
theorem single_worker {s : State 1} (reach : Run.Reach step Run.always (start 1) s) : OnlyReady s := by
  have inv : Inv s := by
    apply reach.invariant Inv (start_inv 1)
    intro s a s' _ inv _ taken
    refine step_inv inv ?_ taken
    cases a with
    | worker w act =>
      cases act with
      | dequeue =>
        intro id rest _ v stage at_v
        obtain rfl : v = w := Subsingleton.elim v w
        rw [(dequeue_step taken).1] at at_v
        cases at_v
      | _ => trivial
    | _ => trivial
  exact inv.onlyReady

/-- A sleeper whose timer expires, and whose fiber is scheduled, before it yields. -/
def overtaken : List (Action 2) :=
  [.scheduler none,.worker 0 .dequeue,.worker 0 .resume,.worker 0 .usleep,
    .worker 1 .dequeue,.worker 1 (.listExpiredCb 0),.worker 1 .schedule,.worker 1 .idleYield,
    .worker 1 .dequeue,.worker 1 .resume,.worker 1 (.callback false),.worker 1 .swapcontext,.worker 1 .dequeue]

theorem only_ready_resumed_fails : ¬ ∀ (n : Nat) (s : State n), Run.Reach step Run.always (start n) s → OnlyReady s := by
  intro law
  have aborts : (Run.run step (start 2) overtaken).map State.aborted = some true := by decide +kernel
  obtain ⟨s,ran,aborted⟩ := Option.map_eq_some_iff.mp aborts
  have going := (law 2 s (Run.reach_of_run overtaken ran)).going
  rw [aborted] at going
  cases going

/-- The same with a yield that has set the state but not switched: the fiber ends up on both workers. -/
example : (Run.run step (start 2) (overtaken.insertIdx 4 (.worker 0 .yield) ++ [.worker 1 .resume])).map
    (fun s => (s.workers 0,s.workers 1)) =
      some (.fiber 0 .leaving,.fiber 0 (.running .function)) := by decide +kernel

end State
end FiberScheduler
end KvStorage
