import KvStorage.Hook

/-! The timers of hooked operations against the time-out options of the socket: `do_io` looks its
time-out up under the event's code, which is no option's. -/
namespace KvStorage.Hook

/-- A hooked `setsockopt` call. -/
structure OptionCall where
  level : Int
  optname : Int
  tv_sec : Int
  tv_usec : Int
  deriving DecidableEq, Repr

namespace OptionCall

/-- In milliseconds. -/
def interval (c : OptionCall) : UInt64 := .ofInt (c.tv_sec * 1000 + c.tv_usec.tdiv 1000)

/-- The context after a history of calls, the last call first. -/
def after (fdCtx : FdCtx) : List OptionCall → FdCtx
  | [] => fdCtx
  | c :: before => setsockopt true (after fdCtx before) c.level c.optname c.tv_sec c.tv_usec

/-- The interval that the option was set to last. -/
def latest (optname : Int) : List OptionCall → Option UInt64
  | [] => none
  | c :: before => if c.level = SOL_SOCKET ∧ c.optname = optname then some c.interval else latest optname before

end OptionCall

open OptionCall

/-- The option that is to bound the operation's waits. -/
def IoFunction.option : IoFunction → Int
  | .accept | .read | .readv | .recv | .recvfrom | .recvmsg => SO_RCVTIMEO
  | .write | .writev | .send | .sendto | .sendmsg => SO_SNDTIMEO

/-- All ones stand for no time-out. -/
def configured (latest : Option UInt64) : Option UInt64 := latest.filter (· ≠ -1)

/-- Every wait of the operation on a registered socket is bounded by its option, and only then. -/
def WaitsAsConfigured (fd : Nat) (flags : BitVec 32) (history : List OptionCall) (f : IoFunction) : Prop :=
  ∀ attempts, ∀ wait ∈ (f.call true (some (after (FdCtx.new fd (some true) flags).1 history)) attempts).1,
    wait.timer = configured (latest f.option history)

/-- No code of an event is the code of an option. -/
theorem getTimeout_event (fdCtx : FdCtx) (event : IoEvent) : fdCtx.getTimeout event.value = fdCtx.sendTimeout := by
  cases event <;> rfl

theorem call_eq (f : IoFunction) (hookEnabled : Bool) (fdCtx : Option FdCtx) :
    ∃ event, f.call hookEnabled fdCtx = do_io hookEnabled fdCtx event f.option := by
  cases f <;> exact ⟨_,rfl⟩

/-- What a history leaves in the context: the flags as they were, the latest value of each option. -/
theorem after_spec (fdCtx : FdCtx) (history : List OptionCall) :
    (after fdCtx history).isSocket = fdCtx.isSocket ∧ (after fdCtx history).userNonblock = fdCtx.userNonblock ∧
    (after fdCtx history).isClosed = fdCtx.isClosed ∧
    (after fdCtx history).recvTimeout = (latest SO_RCVTIMEO history).getD fdCtx.recvTimeout ∧
    (after fdCtx history).sendTimeout = (latest SO_SNDTIMEO history).getD fdCtx.sendTimeout := by
  induction history with
  | nil => exact ⟨rfl,rfl,rfl,rfl,rfl⟩
  | cons c before ih =>
    obtain ⟨socket,user,opened,recvTimeout,sendTimeout⟩ := ih
    simp only [after,setsockopt,latest,Bool.not_true,Bool.false_eq_true,if_false]
    by_cases level : c.level = SOL_SOCKET
    · by_cases recv : c.optname = SO_RCVTIMEO
      · have other : ¬ SO_RCVTIMEO = SO_SNDTIMEO := by decide
        simp [level,recv,other,FdCtx.setTimeout,interval,socket,user,opened,sendTimeout]
      · by_cases send : c.optname = SO_SNDTIMEO
        · have other : ¬ SO_SNDTIMEO = SO_RCVTIMEO := by decide
          simp [level,send,other,FdCtx.setTimeout,interval,socket,user,opened,recvTimeout]
        · simp [level,recv,send,socket,user,opened,recvTimeout,sendTimeout]
    · simp [level,socket,user,opened,recvTimeout,sendTimeout]

theorem configured_some (timeoutMs : UInt64) :
    configured (some timeoutMs) = if timeoutMs ≠ -1 then some timeoutMs else none := by
  simp [configured,Option.filter]

/-- All ones are what an option that was never set counts for. -/
theorem configured_eq_iff (timeoutMs : UInt64) (latest : Option UInt64) :
    configured (some timeoutMs) = configured latest ↔ timeoutMs = latest.getD (-1) := by
  cases latest with
  | none => simp [configured]
  | some set =>
    rw [configured_some,configured_some,Option.getD_some]
    by_cases none : timeoutMs = -1
    · by_cases unset : set = -1
      · simp [none,unset]
      · simp [none,unset,eq_comm]
    · by_cases unset : set = -1
      · simp [none,unset]
      · simp [none,unset]

/-- Every wait of the loop has the one timer that the time-out gives. -/
theorem retry_waits (timeoutMs : UInt64) (event : IoEvent) (attempts : List Attempt) :
    ∀ wait ∈ (retry timeoutMs event attempts).1, wait.timer = configured (some timeoutMs) := by
  have timer := (configured_some timeoutMs).symm
  induction attempts with
  | nil => simp [retry]
  | cons attempt later ih =>
    cases attempt with
    | done n => simp [retry]
    | EINTR => exact ih
    | error errno => simp [retry]
    | EAGAIN added cancelled =>
      intro wait there
      simp only [retry] at there
      split at there
      · rw [List.mem_singleton.mp there]
        exact timer
      · split at there
        · rw [List.mem_singleton.mp there]
          exact timer
        · rcases List.mem_cons.mp there with rfl | there
          · exact timer
          · exact ih wait there

/-- A socket that `accept` or `socket` made, after a history of options. -/
theorem after_new (fd : Nat) (flags : BitVec 32) (history : List OptionCall) :
    (after (FdCtx.new fd (some true) flags).1 history).isSocket = true ∧
      (after (FdCtx.new fd (some true) flags).1 history).userNonblock = false ∧
      (after (FdCtx.new fd (some true) flags).1 history).isClosed = false ∧
      (after (FdCtx.new fd (some true) flags).1 history).sendTimeout = (latest SO_SNDTIMEO history).getD 0 := by
  obtain ⟨socket,user,opened,_,send⟩ := after_spec (FdCtx.new fd (some true) flags).1 history
  exact ⟨socket,user,opened,send⟩

/-- Whatever it is asked for, a hooked operation waits with the time-out for sending. -/
theorem call_retries (fd : Nat) (flags : BitVec 32) (history : List OptionCall) (f : IoFunction) :
    ∃ event, ∀ attempts, f.call true (some (after (FdCtx.new fd (some true) flags).1 history)) attempts =
      retry ((latest SO_SNDTIMEO history).getD 0) event attempts := by
  obtain ⟨event,called⟩ := call_eq f true (some (after (FdCtx.new fd (some true) flags).1 history))
  obtain ⟨socket,user,opened,send⟩ := after_new fd flags history
  refine ⟨event,fun attempts => ?_⟩
  rw [called]
  simp [do_io,socket,user,opened,getTimeout_event,send]

/-- For every history of options and every hooked operation. -/
theorem waits_as_configured_iff (fd : Nat) (flags : BitVec 32) (history : List OptionCall) (f : IoFunction) :
    WaitsAsConfigured fd flags history f ↔
      (latest SO_SNDTIMEO history).getD 0 = (latest f.option history).getD (-1) := by
  obtain ⟨event,loop⟩ := call_retries fd flags history f
  rw [WaitsAsConfigured,← configured_eq_iff]
  constructor
  · intro law
    have waits := law [.EAGAIN true true]
    rw [loop] at waits
    have timer := waits ⟨configured (some ((latest SO_SNDTIMEO history).getD 0)),event⟩ (by simp [retry,configured_some])
    exact timer
  · intro equal attempts wait there
    rw [loop] at there
    rw [retry_waits _ _ _ wait there,equal]

/-- A read with a time-out of 100 ms arms a timer of 0 ms. -/
theorem waits_as_configured_fails : ¬ ∀ (fd : Nat) (flags : BitVec 32) (history : List OptionCall) (f : IoFunction),
    WaitsAsConfigured fd flags history f := by
  intro law
  have timer := law 5 0 [⟨SOL_SOCKET,SO_RCVTIMEO,0,100000⟩] .recv [.EAGAIN true true] ⟨some 0,.READ⟩ (by decide)
  exact absurd timer (by decide)

end KvStorage.Hook
