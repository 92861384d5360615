import KvStorage.Hook

/-! The user's mode and the kernel's flag of a hooked socket: which calls of `fcntl` and `ioctl`
keep the two apart as they should be. -/
namespace KvStorage.Hook

/-- The flag as the test of a mask. -/
def nonblock (flags : BitVec 32) : Bool := flags &&& O_NONBLOCK ≠ 0

theorem nonblock_eq (flags : BitVec 32) : nonblock flags = flags.getLsbD 11 := by
  have mask : O_NONBLOCK = BitVec.twoPow 32 11 := (BitVec.twoPow_eq 32 11).symm
  have some : BitVec.twoPow 32 11 ≠ 0#32 := by decide
  rw [nonblock,mask,BitVec.and_twoPow]
  cases flags.getLsbD 11 <;> simp [some]

@[simp] theorem nonblock_set (flags : BitVec 32) : nonblock (flags ||| O_NONBLOCK) = true := by
  rw [nonblock_eq,BitVec.getLsbD_or]
  simp [O_NONBLOCK]

@[simp] theorem nonblock_clear (flags : BitVec 32) : nonblock (flags &&& ~~~O_NONBLOCK) = false := by
  rw [nonblock_eq,BitVec.getLsbD_and]
  simp [O_NONBLOCK]

/-- `do_io` calls the original function on a registered socket. -/
def Original (fdCtx : FdCtx) : Prop := !fdCtx.isSocket || fdCtx.userNonblock

/-- A registered socket and the mode that the latest request asked for. -/
structure Socket where
  descriptor : Descriptor
  requested : Bool
  deriving DecidableEq, Repr

inductive ModeCall where
  | setfl (arg : BitVec 32)
  | getfl
  | fionbio (arg : Int)
  deriving DecidableEq, Repr

namespace Socket

/-- A socket as `FdManager` registers it; it blocks until someone asks otherwise. -/
def start (fd : Nat) (flags : BitVec 32) : Socket :=
  ⟨⟨some (FdCtx.new fd (some true) flags).1,(FdCtx.new fd (some true) flags).2⟩,false⟩

def step (s : Socket) : ModeCall → Option Socket
  | .setfl arg => some ⟨s.descriptor.fcntl_F_SETFL arg,nonblock arg⟩
  | .getfl => some s
  | .fionbio arg => some ⟨s.descriptor.ioctl_FIONBIO arg,arg ≠ 0⟩

/-- The kernel's flag is set, and the user is told and served the mode requested last. -/
structure Consistent (s : Socket) : Prop where
  kernel : nonblock s.descriptor.flags = true
  user : ∃ fdCtx, s.descriptor.fdCtx = some fdCtx ∧ fdCtx.userNonblock = s.requested ∧
    (Original fdCtx → s.requested = true)
  reported : nonblock s.descriptor.fcntl_F_GETFL = s.requested

/-- Nobody asks for a blocking socket through `ioctl`, nor through `fcntl` once it is not one. -/
def Keeps (s : Socket) : ModeCall → Prop
  | .setfl arg => s.requested = true → nonblock arg = true
  | .getfl => True
  | .fionbio arg => arg ≠ 0

structure Inv (s : Socket) : Prop where
  registered : ∃ fdCtx, s.descriptor.fdCtx = some fdCtx ∧ fdCtx.isSocket = true ∧ fdCtx.isClosed = false ∧
    fdCtx.sysNonblock = true ∧ fdCtx.userNonblock = s.requested
  kernel : nonblock s.descriptor.flags = true

theorem start_inv (fd : Nat) (flags : BitVec 32) : Inv (start fd flags) := by
  constructor
  · exact ⟨_,rfl,rfl,rfl,rfl,rfl⟩
  · change nonblock (if flags &&& O_NONBLOCK = 0 then flags ||| O_NONBLOCK else flags) = true
    split
    · exact nonblock_set flags
    · next set => simpa [nonblock] using set

theorem Inv.consistent {s : Socket} (inv : Inv s) : Consistent s := by
  obtain ⟨fdCtx,found,socket,opened,_,user⟩ := inv.registered
  refine ⟨inv.kernel,⟨fdCtx,found,user,?_⟩,?_⟩
  · simp [Original,socket,user]
  · unfold Descriptor.fcntl_F_GETFL
    rw [found]
    simp only [opened,user,Bool.false_or]
    cases s.requested with
    | true => simp [inv.kernel]
    | false => simp

/-- A blocking mode asked for after a non-blocking one reaches the kernel. -/
theorem setfl_step {s : Socket} (inv : Inv s) (arg : BitVec 32) :
    (Keeps s (.setfl arg) → Inv ⟨s.descriptor.fcntl_F_SETFL arg,nonblock arg⟩) ∧
    (nonblock (s.descriptor.fcntl_F_SETFL arg).flags = true → Keeps s (.setfl arg)) := by
  obtain ⟨fdCtx,found,socket,opened,sys,user⟩ := inv.registered
  unfold Descriptor.fcntl_F_SETFL Keeps
  rw [found]
  simp only [opened,user,Bool.false_or,sys,if_true]
  cases asked : s.requested with
  | true =>
    simp only [if_true,true_imp_iff]
    constructor
    · intro set
      exact ⟨⟨fdCtx,found,socket,opened,sys,(user.trans asked).trans set.symm⟩,set⟩
    · exact id
  | false =>
    simp only [Bool.false_eq_true,if_false,false_imp_iff,true_imp_iff,implies_true,and_true]
    constructor
    · exact ⟨_,rfl,socket,rfl,rfl,rfl⟩
    · exact nonblock_set arg

theorem fionbio_step {s : Socket} (inv : Inv s) (arg : Int) :
    (Keeps s (.fionbio arg) → Inv ⟨s.descriptor.ioctl_FIONBIO arg,arg ≠ 0⟩) ∧
    (nonblock (s.descriptor.ioctl_FIONBIO arg).flags = true → Keeps s (.fionbio arg)) := by
  obtain ⟨fdCtx,found,socket,opened,sys,user⟩ := inv.registered
  unfold Descriptor.ioctl_FIONBIO Descriptor.ioctl_f Keeps
  rw [found]
  simp only [opened,socket,Bool.not_true,Bool.or_false,Bool.false_eq_true,if_false]
  constructor
  · intro some
    refine ⟨⟨_,rfl,rfl,rfl,sys,rfl⟩,?_⟩
    simp [some]
  · intro kernel zero
    simp [zero] at kernel

theorem step_inv {s next : Socket} {c : ModeCall} (inv : Inv s) (taken : step s c = some next) :
    (Keeps s c → Inv next) ∧ (nonblock next.descriptor.flags = true → Keeps s c) := by
  cases c with
  | setfl arg =>
    obtain rfl := Option.some.inj taken
    exact setfl_step inv arg
  | getfl =>
    obtain rfl := Option.some.inj taken
    exact ⟨fun _ => inv,fun _ => trivial⟩
  | fionbio arg =>
    obtain rfl := Option.some.inj taken
    exact fionbio_step inv arg

/-- Over any sequence of calls on a registered socket. -/
theorem consistent_run_iff (fd : Nat) (flags : BitVec 32) (calls : List ModeCall) :
    Run.Each step (fun s c => ∀ next, step s c = some next → Consistent next) (start fd flags) calls ↔
      Run.Each step Keeps (start fd flags) calls := by
  apply Run.each_iff Inv
  · intro s c next inv taken
    obtain ⟨keeps,needs⟩ := step_inv inv taken
    constructor
    · intro consistent
      exact needs (consistent next taken).kernel
    · intro kept next' taken'
      obtain rfl := Option.some.inj (taken.symm.trans taken')
      exact (keeps kept).consistent
  · intro s c next inv taken consistent
    obtain ⟨keeps,needs⟩ := step_inv inv taken
    exact keeps (needs (consistent next taken).kernel)
  · exact start_inv fd flags

/-- A registered socket that is asked through `ioctl` to block. -/
theorem consistent_run_fails : ¬ ∀ (fd : Nat) (flags : BitVec 32) (calls : List ModeCall),
    Run.Each step (fun s c => ∀ next, step s c = some next → Consistent next) (start fd flags) calls := by
  intro law
  have kernel := ((law 5 0 [.fionbio 0]) _ rfl).1 _ rfl |>.kernel
  exact absurd kernel (by decide)

/-- Through `fcntl`, the user's flag is stuck as well: the socket blocks, and `do_io` leaves it alone. -/
example : (Run.run step (start 5 0) [.setfl O_NONBLOCK,.setfl 0]).map
    (fun s => (nonblock s.descriptor.flags,s.descriptor.fdCtx.map FdCtx.userNonblock,s.requested)) =
      some (false,some true,false) := by decide

end Socket
end KvStorage.Hook
