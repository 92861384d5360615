import KvStorage.IOManager

/-! The hooked calls on one descriptor: its context, the kernel's flags, and the timer that a
hooked operation arms when it would block. -/
namespace KvStorage

structure FdCtx where
  isInit : Bool
  isSocket : Bool
  sysNonblock : Bool
  userNonblock : Bool
  isClosed : Bool
  fd : Nat
  recvTimeout : UInt64
  sendTimeout : UInt64
  deriving DecidableEq, Repr

namespace Hook

def O_NONBLOCK : BitVec 32 := 1#32 <<< 11
def SOL_SOCKET : Int := 1
def SO_RCVTIMEO : Int := 20
def SO_SNDTIMEO : Int := 21
def EBADF : Int := 9
def ETIMEDOUT : Int := 110

end Hook

open Hook

/-- The value of the enumerator. -/
def IoEvent.value : IoEvent → Int
  | .READ => 0x1
  | .WRITE => 0x4

namespace FdCtx

/-- `stat` is what `fstat` finds, if it finds anything: whether it is a socket. -/
def init (ctx : FdCtx) (stat : Option Bool) (flags : BitVec 32) : FdCtx × BitVec 32 :=
  if ctx.isInit then (ctx,flags)
  else
    let ctx := match stat with
      | some isSocket => { ctx with isInit := true, isSocket }
      | none => ctx
    if ctx.isSocket then
      ({ ctx with sysNonblock := true },if flags &&& O_NONBLOCK = 0 then flags ||| O_NONBLOCK else flags)
    else (ctx,flags)

/-- The constructor, with the flags it leaves in the kernel. -/
def new (fd : Nat) (stat : Option Bool) (flags : BitVec 32) : FdCtx × BitVec 32 :=
  init ⟨false,false,false,false,false,fd,0,0⟩ stat flags

def setTimeout (ctx : FdCtx) (type : Int) (times : UInt64) : FdCtx :=
  if type = SO_RCVTIMEO then { ctx with recvTimeout := times } else { ctx with sendTimeout := times }

def getTimeout (ctx : FdCtx) (type : Int) : UInt64 :=
  if type = SO_RCVTIMEO then ctx.recvTimeout else ctx.sendTimeout

end FdCtx

namespace Hook

/-! ### O_NONBLOCK -/

/-- What `FdManager` knows about the descriptor, and the kernel's status flags. -/
structure Descriptor where
  fdCtx : Option FdCtx
  flags : BitVec 32
  deriving DecidableEq, Repr

namespace Descriptor

variable (d : Descriptor)

/-- The original `fcntl(F_SETFL)` and `ioctl(FIONBIO)`. -/
def fcntl_f (arg : BitVec 32) : Descriptor := { d with flags := arg }

def ioctl_f (arg : Int) : Descriptor :=
  { d with flags := if arg ≠ 0 then d.flags ||| O_NONBLOCK else d.flags &&& ~~~O_NONBLOCK }

def fcntl_F_SETFL (arg : BitVec 32) : Descriptor :=
  match d.fdCtx with
  | none => d.fcntl_f arg
  | some fdCtx =>
    if fdCtx.isClosed || fdCtx.userNonblock then d.fcntl_f arg
    else
      let fdCtx := { fdCtx with userNonblock := arg &&& O_NONBLOCK ≠ 0 }
      let arg := if fdCtx.sysNonblock then arg ||| O_NONBLOCK else arg &&& ~~~O_NONBLOCK
      { d with fdCtx := some fdCtx }.fcntl_f arg

/-- The inner test repeats the outer one. -/
def fcntl_F_GETFL : BitVec 32 :=
  match d.fdCtx with
  | none => d.flags
  | some fdCtx =>
    if fdCtx.isClosed || fdCtx.userNonblock then d.flags
    else if fdCtx.userNonblock then d.flags ||| O_NONBLOCK
    else d.flags &&& ~~~O_NONBLOCK

def ioctl_FIONBIO (arg : Int) : Descriptor :=
  match d.fdCtx with
  | none => d.ioctl_f arg
  | some fdCtx =>
    if fdCtx.isClosed || !fdCtx.isSocket then d.ioctl_f arg
    else { d with fdCtx := some { fdCtx with userNonblock := arg ≠ 0 } }.ioctl_f arg

end Descriptor

/-! ### Time-outs -/

/-- `setsockopt`, for what it does to the context; `tv_sec` and `tv_usec` are the option's value. -/
def setsockopt (hookEnabled : Bool) (fdCtx : FdCtx) (level optname tv_sec tv_usec : Int) : FdCtx :=
  if !hookEnabled then fdCtx
  else if level = SOL_SOCKET then
    if optname = SO_RCVTIMEO ∨ optname = SO_SNDTIMEO then
      fdCtx.setTimeout optname (.ofInt (tv_sec * 1000 + tv_usec.tdiv 1000))
    else fdCtx
  else fdCtx

/-- What the original function returns; where it would block, whether the event could be added and
whether the timer has fired when the fiber goes on. -/
inductive Attempt where
  | done (n : Nat)
  | EINTR
  | EAGAIN (added cancelled : Bool)
  | error (errno : Int)
  deriving DecidableEq, Repr

/-- The timer's interval, if a timer is armed, and the event that is registered. -/
structure Wait where
  timer : Option UInt64
  event : IoEvent
  deriving DecidableEq, Repr

inductive Returned where
  | pending
  | value (n : Int)
  | error (errno : Int)
  deriving DecidableEq, Repr

def Attempt.direct : List Attempt → Returned
  | [] => .pending
  | .done n :: _ => .value n
  | .EINTR :: _ => .error 4
  | .EAGAIN _ _ :: _ => .error 11
  | .error errno :: _ => .error errno

/-- The loop, with the waits it goes through. -/
def retry (timeoutMs : UInt64) (event : IoEvent) : List Attempt → List Wait × Returned
  | [] => ([],.pending)
  | .done n :: _ => ([],.value n)
  | .EINTR :: later => retry timeoutMs event later
  | .error errno :: _ => ([],.error errno)
  | .EAGAIN added cancelled :: later =>
    let wait := ⟨if timeoutMs ≠ -1 then some timeoutMs else none,event⟩
    if !added then ([wait],.value (-1))
    else if cancelled then ([wait],.error ETIMEDOUT)
    else (wait :: (retry timeoutMs event later).1,(retry timeoutMs event later).2)

/-- The parameter for the time-out option is not used. -/
def do_io (hookEnabled : Bool) (fdCtx : Option FdCtx) (event : IoEvent) (_timeout : Int) (attempts : List Attempt) :
    List Wait × Returned :=
  if !hookEnabled then ([],Attempt.direct attempts)
  else
    match fdCtx with
    | none => ([],Attempt.direct attempts)
    | some fdCtx =>
      if !fdCtx.isSocket || fdCtx.userNonblock then ([],Attempt.direct attempts)
      else if fdCtx.isClosed then ([],.error EBADF)
      else retry (fdCtx.getTimeout event.value) event attempts

variable (hookEnabled : Bool) (fdCtx : Option FdCtx)

def accept := do_io hookEnabled fdCtx .READ SO_RCVTIMEO
def read := do_io hookEnabled fdCtx .READ SO_RCVTIMEO
def readv := do_io hookEnabled fdCtx .READ SO_RCVTIMEO
def recv := do_io hookEnabled fdCtx .READ SO_RCVTIMEO
def recvfrom := do_io hookEnabled fdCtx .READ SO_RCVTIMEO
def recvmsg := do_io hookEnabled fdCtx .READ SO_RCVTIMEO
def write := do_io hookEnabled fdCtx .WRITE SO_SNDTIMEO
def writev := do_io hookEnabled fdCtx .WRITE SO_SNDTIMEO
def send := do_io hookEnabled fdCtx .WRITE SO_SNDTIMEO
def sendto := do_io hookEnabled fdCtx .WRITE SO_SNDTIMEO
def sendmsg := do_io hookEnabled fdCtx .WRITE SO_SNDTIMEO

inductive IoFunction where
  | accept | read | readv | recv | recvfrom | recvmsg
  | write | writev | send | sendto | sendmsg
  deriving DecidableEq, Repr

def IoFunction.call : IoFunction → List Attempt → List Wait × Returned
  | .accept => Hook.accept hookEnabled fdCtx
  | .read => Hook.read hookEnabled fdCtx
  | .readv => Hook.readv hookEnabled fdCtx
  | .recv => Hook.recv hookEnabled fdCtx
  | .recvfrom => Hook.recvfrom hookEnabled fdCtx
  | .recvmsg => Hook.recvmsg hookEnabled fdCtx
  | .write => Hook.write hookEnabled fdCtx
  | .writev => Hook.writev hookEnabled fdCtx
  | .send => Hook.send hookEnabled fdCtx
  | .sendto => Hook.sendto hookEnabled fdCtx
  | .sendmsg => Hook.sendmsg hookEnabled fdCtx

end Hook
end KvStorage
