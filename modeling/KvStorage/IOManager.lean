import Mathlib
import KvStorage.Lib.Run

/-! Events registered with the IO manager. Each descriptor has a context under its own mutex; the
counter of pending events is shared, and idle threads work on what `epoll_wait` reported before. -/
namespace KvStorage

inductive IoEvent where
  | READ
  | WRITE
  deriving DecidableEq, Repr

/-- What an event hands to the scheduler. -/
inductive IoTask where
  | cb (id : Nat)
  | fiber (id : Nat)
  deriving DecidableEq, Repr

/-- `scheduler_` is always the manager itself; `registration` is not in the code: it counts the
registrations, to tell them apart. -/
structure EventContext where
  fiber : Option Nat
  cb : Option Nat
  registration : Nat
  deriving DecidableEq, Repr

/-- The mutex is held by every function below. -/
structure FdContext where
  fd : Nat
  events : IoEvent → Bool
  context : IoEvent → EventContext

/-- The flags of an `epoll_event`. -/
structure EpollFlags where
  epollin : Bool := false
  epollout : Bool := false
  epollerr : Bool := false
  epollhup : Bool := false
  deriving DecidableEq, Repr

/-- The task that `addEvent` is to register. -/
def IoTask.given (cb : Option Nat) (fiber : Nat) : IoTask :=
  match cb with
  | some cb => .cb cb
  | none => .fiber fiber

namespace EventContext

def resetContext (ctx : EventContext) : EventContext := { ctx with fiber := none, cb := none }

/-- What `addEvent` writes: the callback it is given, or the fiber that calls it. -/
def fill (ctx : EventContext) (cb : Option Nat) (fiber registration : Nat) : EventContext :=
  match cb with
  | some cb => { ctx with cb := some cb, registration }
  | none => { ctx with fiber := some fiber, registration }

/-- The callback if there is one, else the fiber; the scheduler takes no null pointer. -/
def task (ctx : EventContext) : Option IoTask :=
  match ctx.cb with
  | some cb => some (.cb cb)
  | none => ctx.fiber.map .fiber

end EventContext

namespace FdContext

def new (fd : Nat) : FdContext := ⟨fd,fun _ => false,fun _ => ⟨none,none,0⟩⟩

variable (fdCtx : FdContext)

/-- How many events are registered. -/
def registered : Nat := (if fdCtx.events .READ then 1 else 0) + if fdCtx.events .WRITE then 1 else 0

def register (event : IoEvent) (ctx : EventContext) : FdContext :=
  { fdCtx with
    events := Function.update fdCtx.events event true
    context := Function.update fdCtx.context event ctx }

def unregister (event : IoEvent) : FdContext :=
  { fdCtx with
    events := Function.update fdCtx.events event false
    context := Function.update fdCtx.context event (fdCtx.context event).resetContext }

/-- The context afterwards and what is scheduled; nothing for an event that is not registered. -/
def triggerEvent (event : IoEvent) : FdContext × List (Nat × IoTask) :=
  if ¬ fdCtx.events event then (fdCtx,[])
  else
    let ctx := fdCtx.context event
    (fdCtx.unregister event,ctx.task.toList.map fun task => (ctx.registration,task))

/-- `realEvents` of a reported event. -/
def realEvents (flags : EpollFlags) : IoEvent → Bool
  | .READ => if flags.epollerr || flags.epollhup then fdCtx.events .READ else flags.epollin
  | .WRITE => if flags.epollerr || flags.epollhup then fdCtx.events .WRITE else flags.epollout

end FdContext

/-- All contexts ever created, named by their number, and `fdContexts_`, which points to some.
`pendingEventCnt` is the sum of the counter's changes; the `size_t` is that modulo 2^64.
`registrations` and `scheduled` are the tasks ever registered and those handed to the scheduler,
each with the number of its registration. -/
structure IOManager where
  contexts : Nat → FdContext
  allocated : Nat
  fdContexts : List Nat
  pendingEventCnt : Int
  registrations : List IoTask
  scheduled : List (Nat × IoTask)

namespace IOManager

variable (m : IOManager)

def setContext (c : Nat) (fdCtx : FdContext) : IOManager :=
  { m with contexts := Function.update m.contexts c fdCtx }

/-- The vector cut or filled up with new contexts. -/
def contextResize (size : Nat) : IOManager :=
  let kept := m.fdContexts.take size
  let missing := List.range (size - kept.length)
  { m with
    contexts := fun c => if m.allocated ≤ c ∧ c < m.allocated + missing.length
      then .new (kept.length + (c - m.allocated)) else m.contexts c
    allocated := m.allocated + missing.length
    fdContexts := kept ++ missing.map (m.allocated + ·) }

/-- The constructor. -/
def new : IOManager :=
  contextResize ⟨fun _ => .new 0,0,[],0,[],[]⟩ 32

/-- `triggerEvent` and the decrement that follows it. -/
def trigger (c : Nat) (event : IoEvent) : IOManager :=
  { m.setContext c ((m.contexts c).triggerEvent event).1 with
    pendingEventCnt := m.pendingEventCnt - 1
    scheduled := m.scheduled ++ ((m.contexts c).triggerEvent event).2 }

def triggerIf (condition : Bool) (c : Nat) (event : IoEvent) : IOManager :=
  if condition then m.trigger c event else m

/-! ### Under the context's mutex -/

/-- An event that is registered already ends the process. -/
def addEvent (c : Nat) (event : IoEvent) (cb : Option Nat) (fiber : Nat) : Option IOManager :=
  if (m.contexts c).events event then none
  else
    let ctx := ((m.contexts c).context event).fill cb fiber m.registrations.length
    some { m.setContext c ((m.contexts c).register event ctx) with
      pendingEventCnt := m.pendingEventCnt + 1
      registrations := m.registrations ++ [.given cb fiber] }

def delEvent (c : Nat) (event : IoEvent) : IOManager × Bool :=
  if ¬ (m.contexts c).events event then (m,false)
  else
    let fdCtx := (m.contexts c).unregister event
    ({ m.setContext c fdCtx with pendingEventCnt := m.pendingEventCnt - 1 },true)

def cancelEvent (c : Nat) (event : IoEvent) : IOManager × Bool :=
  if ¬ (m.contexts c).events event then (m,false) else (m.trigger c event,true)

def cancelAll (c : Nat) : IOManager × Bool :=
  if ¬ (m.contexts c).events .READ ∧ ¬ (m.contexts c).events .WRITE then (m,false)
  else
    let m := m.triggerIf ((m.contexts c).events .READ) c .READ
    (m.triggerIf ((m.contexts c).events .WRITE) c .WRITE,true)

/-- One reported event in the loop of `idle`. -/
def idleEvent (c : Nat) (flags : EpollFlags) : IOManager :=
  let realEvents := (m.contexts c).realEvents flags
  if ((m.contexts c).events .READ && realEvents .READ) || ((m.contexts c).events .WRITE && realEvents .WRITE) then
    (m.triggerIf (realEvents .READ) c .READ).triggerIf (realEvents .WRITE) c .WRITE
  else m

end IOManager

/-! ### Threads -/

inductive IoCall where
  | addEvent (fd : Nat) (event : IoEvent) (cb : Option Nat) (fiber : Nat)
  | delEvent (fd : Nat) (event : IoEvent)
  | cancelEvent (fd : Nat) (event : IoEvent)
  | cancelAll (fd : Nat)
  deriving DecidableEq, Repr

def IoCall.fd : IoCall → Nat
  | .addEvent fd _ _ _ => fd
  | .delEvent fd _ => fd
  | .cancelEvent fd _ => fd
  | .cancelAll fd => fd

/-- Where a thread is: outside; before it takes the write lock to resize; with a context found but
not locked yet; in the loop over what `epoll_wait` reported. -/
inductive IoThread where
  | outside
  | resizing (call : IoCall)
  | resolved (call : IoCall) (fdCtx : Nat)
  | idling (events : List (Nat × EpollFlags))
  deriving DecidableEq, Repr

structure IoSystem where
  manager : IOManager
  threads : Nat → IoThread

inductive IoAction where
  | call (thread : Nat) (call : IoCall)
  | resize (thread : Nat)
  | locked (thread : Nat)
  | epoll_wait (thread : Nat) (events : List (Nat × EpollFlags))
  | deliver (thread : Nat)
  deriving DecidableEq, Repr

namespace IoSystem

def start : IoSystem := ⟨.new,fun _ => .outside⟩

variable (s : IoSystem)

def goto (thread : Nat) (place : IoThread) : IoSystem :=
  { s with threads := Function.update s.threads thread place }

/-- The reader's lock: the context of the descriptor, a resize for `addEvent`, false for the others. -/
def lookup (call : IoCall) : IoThread :=
  match s.manager.fdContexts[call.fd]?,call with
  | some c,_ => .resolved call c
  | none,.addEvent _ _ _ _ => .resizing call
  | none,_ => .outside

/-- The part of a call under the context's mutex. -/
def perform (c : Nat) : IoCall → Option IOManager
  | .addEvent _ event cb fiber => s.manager.addEvent c event cb fiber
  | .delEvent _ event => some (s.manager.delEvent c event).1
  | .cancelEvent _ event => some (s.manager.cancelEvent c event).1
  | .cancelAll _ => some (s.manager.cancelAll c).1

/-- `epoll_wait` reports what is registered when it returns; errors and hang-ups always. -/
def Reported (events : List (Nat × EpollFlags)) : Prop :=
  ∀ e ∈ events, e.1 < s.manager.allocated ∧
    (e.2.epollin → (s.manager.contexts e.1).events .READ) ∧ (e.2.epollout → (s.manager.contexts e.1).events .WRITE)

instance (events : List (Nat × EpollFlags)) : Decidable (s.Reported events) :=
  inferInstanceAs (Decidable (∀ e ∈ events, _ ∧ (_ → _) ∧ (_ → _)))

def step : IoAction → Option IoSystem
  | .call thread call =>
    match s.threads thread with
    | .outside => some (s.goto thread (s.lookup call))
    | _ => none
  | .resize thread =>
    match s.threads thread with
    | .resizing call =>
      let manager := s.manager.contextResize (call.fd * 3 / 2)
      manager.fdContexts[call.fd]?.map fun c => { s with manager }.goto thread (.resolved call c)
    | _ => none
  | .locked thread =>
    match s.threads thread with
    | .resolved call c => (s.perform c call).map fun manager => { s with manager }.goto thread .outside
    | _ => none
  | .epoll_wait thread events =>
    match s.threads thread with
    | .outside => if s.Reported events then some (s.goto thread (.idling events)) else none
    | _ => none
  | .deliver thread =>
    match s.threads thread with
    | .idling [] => some (s.goto thread .outside)
    | .idling ((c,flags) :: rest) =>
      some ({ s with manager := s.manager.idleEvent c flags }.goto thread (.idling rest))
    | _ => none

end IoSystem
end KvStorage
