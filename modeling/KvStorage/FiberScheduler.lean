import KvStorage.IOManagerEvents

/-! Fibers on the worker threads of one IO manager. A hooked call publishes the wake-up of its
fiber, as a timer or as an event, and yields after that; other workers may act in between. -/
namespace KvStorage.FiberScheduler

inductive FiberState where
  | READY
  | RUNNING
  | TERM
  deriving DecidableEq, Repr

/-- A function of the program; `scheduler` bound to a sleeping fiber; what `do_io` gives to the
timer of its time-out. -/
inductive Callback where
  | function
  | scheduler (fiber : Nat)
  | timeout (fdCtx : Nat) (event : IoEvent)
  deriving DecidableEq, Repr

inductive Task where
  | fiber (id : Nat)
  | cb (callback : Callback)
  deriving DecidableEq, Repr

/-- `threadId` is `none` where the code has -1. -/
structure SchedulerTask where
  task : Task
  threadId : Option Nat
  deriving DecidableEq, Repr

/-- Where a fiber's code is: its function; after a hooked call has published its wake-up and before
`yield`; in `yield` with the state set and the context not yet switched. -/
inductive Stage where
  | running (callback : Callback)
  | published
  | leaving
  deriving DecidableEq, Repr

/-- What a worker does: the loop of `run`, before it locks the queue or with a task taken; a fiber;
the idle fiber, with the expired callbacks it has not scheduled yet. -/
inductive Worker where
  | run
  | taken (task : Task)
  | fiber (id : Nat) (stage : Stage)
  | idle (cbs : List Callback)
  deriving DecidableEq, Repr

/-- Fibers are named by number, in the order of their creation. `timers` are the callbacks of the
armed timers. An `aborted` process takes no further step. -/
structure State (n : Nat) where
  fibers : Nat → FiberState
  created : Nat
  tasks : List SchedulerTask
  timers : List Callback
  io : IOManager
  workers : Fin n → Worker
  aborted : Bool

/-- What a worker's next step is. `cancelled` is what the callback finds in `timer_info`. -/
inductive Act where
  | dequeue
  | resume
  | usleep
  | addConditionTimer (fdCtx : Nat) (event : IoEvent)
  | cancelTimer (timer : Nat)
  | addEvent (fdCtx : Nat) (event : IoEvent)
  | delEvent (fdCtx : Nat) (event : IoEvent)
  | cancelEvent (fdCtx : Nat) (event : IoEvent)
  | cancelAll (fdCtx : Nat)
  | contextResize (size : Nat)
  | callback (cancelled : Bool)
  | finish
  | yield
  | swapcontext
  | listExpiredCb (timer : Nat)
  | schedule
  | idleEvent (fdCtx : Nat) (flags : EpollFlags)
  | idleYield
  deriving DecidableEq, Repr

/-- Any thread of the program may schedule a function or a fiber it has made. -/
inductive Action (n : Nat) where
  | scheduler (threadId : Option Nat)
  | newFiber (threadId : Option Nat)
  | worker (w : Fin n) (act : Act)
  deriving DecidableEq, Repr

/-- The first task that this worker may take, and the others. -/
def take (w : Nat) : List SchedulerTask → Option (Task × List SchedulerTask)
  | [] => none
  | t :: rest =>
    if t.threadId ≠ none ∧ t.threadId ≠ some w then (take w rest).map fun (task,others) => (task,t :: others)
    else some (t.task,rest)

namespace State

def start (n : Nat) : State n :=
  ⟨fun _ => .READY,0,[],[],.new,fun _ => .run,false⟩

variable (s : State n)

def goto (w : Fin n) (place : Worker) : State n :=
  { s with workers := Function.update s.workers w place }

def setState (fiber : Nat) (state : FiberState) : State n :=
  { s with fibers := Function.update s.fibers fiber state }

def scheduler (task : Task) (threadId : Option Nat) : State n :=
  { s with tasks := s.tasks ++ [⟨task,threadId⟩] }

/-- What an event hands over, as a task for any worker. -/
def ofEvent : IoTask → SchedulerTask
  | .cb _ => ⟨.cb .function,none⟩
  | .fiber id => ⟨.fiber id,none⟩

/-- The IO manager after an operation, with what the operation scheduled. -/
def withIo (io : IOManager) : State n :=
  { s with io, tasks := s.tasks ++ (io.scheduled.drop s.io.scheduled.length).map (ofEvent ·.2) }

/-- The locked part of `run`; the idle fiber where there is nothing to take. -/
def dequeue (w : Fin n) : State n :=
  match take w s.tasks with
  | some (.fiber id,rest) =>
    if s.fibers id = .READY then { s with tasks := rest }.goto w (.taken (.fiber id)) else { s with aborted := true }
  | some (.cb callback,rest) => { s with tasks := rest }.goto w (.taken (.cb callback))
  | none => s.goto w (.idle [])

/-- A callback gets a new fiber. -/
def resume (w : Fin n) : Task → State n
  | .fiber id =>
    if s.fibers id ≠ .TERM ∧ s.fibers id ≠ .RUNNING then (s.setState id .RUNNING).goto w (.fiber id (.running .function))
    else { s with aborted := true }
  | .cb callback =>
    ({ s with created := s.created + 1 }.setState s.created .RUNNING).goto w (.fiber s.created (.running callback))

/-- `yield` up to the switch. -/
def yield (w : Fin n) (id : Nat) : State n :=
  if s.fibers id = .RUNNING ∨ s.fibers id = .TERM then
    (if s.fibers id ≠ .TERM then s.setState id .READY else s).goto w (.fiber id .leaving)
  else { s with aborted := true }

/-- The end of `mainFunc`. -/
def finish (w : Fin n) (id : Nat) : State n := (s.setState id .TERM).yield w id

/-- What a timer's callback does. -/
def perform : Callback → Bool → State n
  | .function,_ => s
  | .scheduler fiber,_ => s.scheduler (.fiber fiber) none
  | .timeout _ _,true => s
  | .timeout fdCtx event,false => s.withIo (s.io.cancelEvent fdCtx event).1

/-- A step of the function that a fiber runs. -/
def running (w : Fin n) (id : Nat) : Act → Option (State n)
  | .usleep => some ({ s with timers := s.timers ++ [Callback.scheduler id] }.goto w (.fiber id .published))
  | .addConditionTimer fdCtx event => some { s with timers := s.timers ++ [.timeout fdCtx event] }
  | .cancelTimer timer =>
    match s.timers[timer]? with
    | some (.timeout _ _) => some { s with timers := s.timers.eraseIdx timer }
    | _ => none
  | .addEvent fdCtx event =>
    if fdCtx < s.io.allocated then
      (s.io.addEvent fdCtx event none id).map fun io => (s.withIo io).goto w (.fiber id .published)
    else none
  | .delEvent fdCtx event => some (s.withIo (s.io.delEvent fdCtx event).1)
  | .cancelEvent fdCtx event => some (s.withIo (s.io.cancelEvent fdCtx event).1)
  | .cancelAll fdCtx => some (s.withIo (s.io.cancelAll fdCtx).1)
  | .contextResize size => some (s.withIo (s.io.contextResize size))
  | .finish => some (s.finish w id)
  | _ => none

/-- A step of the idle fiber. -/
def idle (w : Fin n) : List Callback → Act → Option (State n)
  | cbs,.listExpiredCb timer =>
    (s.timers[timer]?).map fun cb => { s with timers := s.timers.eraseIdx timer }.goto w (.idle (cbs ++ [cb]))
  | cb :: rest,.schedule => some ((s.scheduler (.cb cb) none).goto w (.idle rest))
  | [],.idleEvent fdCtx flags => some (s.withIo (s.io.idleEvent fdCtx flags))
  | [],.idleYield => some (s.goto w .run)
  | _,_ => none

def act (w : Fin n) (act : Act) : Option (State n) :=
  match s.workers w,act with
  | .run,.dequeue => some (s.dequeue w)
  | .taken task,.resume => some (s.resume w task)
  | .fiber id (.running .function),act => s.running w id act
  | .fiber id (.running callback),.callback cancelled => some ((s.perform callback cancelled).finish w id)
  | .fiber id .published,.yield => some (s.yield w id)
  | .fiber _ .leaving,.swapcontext => some (s.goto w .run)
  | .idle cbs,act => s.idle w cbs act
  | _,_ => none

def step : Action n → Option (State n)
  | .scheduler threadId => if s.aborted then none else some (s.scheduler (.cb .function) threadId)
  | .newFiber threadId =>
    if s.aborted then none else some ({ s with created := s.created + 1 }.scheduler (.fiber s.created) threadId)
  | .worker w act => if s.aborted then none else s.act w act

end State
end KvStorage.FiberScheduler
