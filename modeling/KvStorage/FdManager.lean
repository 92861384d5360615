import Mathlib
import KvStorage.Lib.Word

/-! The manager of descriptor contexts: a vector indexed by the descriptor that grows by half.
Its calls against the history of calls on one descriptor. -/
namespace KvStorage
open Word

/-- Descriptors below zero get a null pointer at once and are left out. -/
inductive FdCall where
  | get (fd : Nat) (autoCreate : Bool)
  | del (fd : Nat)
  deriving DecidableEq, Repr

/-- A context is named by the number of the call that made it; `made` lists these. -/
structure FdManager where
  fdCtxs : List (Option Nat)
  calls : Nat
  made : List Nat
  deriving DecidableEq, Repr

namespace FdManager

/-- `std::vector::resize`. -/
def resize (ctxs : List (Option Nat)) (size : Nat) : List (Option Nat) :=
  ctxs.take size ++ List.replicate (size - ctxs.length) none

def new : FdManager := ⟨resize [] 64,0,[]⟩

variable (m : FdManager)

/-- `static_cast<int>(fdCtxs_.size())`. -/
def size : Int := int32 m.fdCtxs.length

/-- Under the write lock; `none` for an index outside the vector. -/
def create (fd : Nat) : Option (FdManager × Option Nat) :=
  let fdCtxs := if fd ≥ m.size then resize m.fdCtxs (fd * 3 / 2) else m.fdCtxs
  if fd < fdCtxs.length then some ({ m with fdCtxs := fdCtxs.set fd (some m.calls), made := m.made ++ [m.calls] },some m.calls)
  else none

/-- The first check lets a descriptor through that equals the size. -/
def get (fd : Nat) (autoCreate : Bool) : Option (FdManager × Option Nat) :=
  if fd > m.size then
    if !autoCreate then some (m,none) else m.create fd
  else
    match m.fdCtxs[fd]? with
    | none => none
    | some ctx => if ctx.isSome || !autoCreate then some (m,ctx) else m.create fd

def del (fd : Nat) : FdManager :=
  if fd < m.size then { m with fdCtxs := m.fdCtxs.set fd none } else m

/-- A call with its answer. -/
def call : FdCall → Option (FdManager × Option Nat)
  | .get fd autoCreate => (m.get fd autoCreate).map fun (m,ctx) => ({ m with calls := m.calls + 1 },ctx)
  | .del fd => some ({ m.del fd with calls := m.calls + 1 },none)

/-- The answers to a sequence of calls, unless one of them leaves the vector. -/
def run (m : FdManager) : List FdCall → Option (FdManager × List (Option Nat))
  | [] => some (m,[])
  | c :: later => (m.call c).bind fun (m,answer) => (m.run later).map fun (m,answers) => (m,answer :: answers)

/-! ### The history of a descriptor -/

/-- The descriptor's context after the calls so far, the last call first: the one that the first
creating `get` since the last `del` made. -/
def owner (fd : Nat) : List FdCall → Option Nat
  | [] => none
  | .get other true :: before => if other = fd then some ((owner fd before).getD before.length) else owner fd before
  | .get _ false :: before => owner fd before
  | .del other :: before => if other = fd then none else owner fd before

/-- The calls that make a context: `get` with `autoCreate` where there is none. -/
def makes : List FdCall → List Nat
  | [] => []
  | .get fd true :: before => if owner fd before = none then makes before ++ [before.length] else makes before
  | _ :: before => makes before

/-- What a call is to answer, after the calls before it. -/
def answer (before : List FdCall) : FdCall → Option Nat
  | .get fd autoCreate => owner fd (.get fd autoCreate :: before)
  | .del _ => none

/-- The contexts made are those the history says, and `get` finds each one that it still has. -/
structure Represents (m : FdManager) (before : List FdCall) : Prop where
  made : m.made = makes before
  found : ∀ fd ctx, owner fd before = some ctx → m.get fd false = some (m,some ctx)

/-- Every call stays inside the vector, answers from the history and leaves a manager that represents it. -/
def Lawful (m : FdManager) (before : List FdCall) : List FdCall → Prop
  | [] => True
  | c :: later => ∃ m', m.call c = some (m',answer before c) ∧ Represents m' (c :: before) ∧ Lawful m' (c :: before) later

/-- The vector's size after a `get`. -/
def grown (size fd : Nat) (autoCreate : Bool) : Nat :=
  if autoCreate ∧ size ≤ fd then fd * 3 / 2 else size

/-- No `get` asks for the descriptor that equals the size the vector has at that moment, and none makes
the vector longer than an `int` can say. -/
def Misses : Nat → List FdCall → Prop
  | _,[] => True
  | size,.get fd autoCreate :: later =>
    fd ≠ size ∧ grown size fd autoCreate < 2 ^ 31 ∧ Misses (grown size fd autoCreate) later
  | size,.del _ :: later => Misses size later

/-- The vector holds what the history says, and nothing lies beyond it. -/
structure Holds (m : FdManager) (before : List FdCall) : Prop where
  size : 64 ≤ m.fdCtxs.length
  inside : ∀ fd < m.fdCtxs.length, m.fdCtxs[fd]? = some (owner fd before)
  beyond : ∀ fd, m.fdCtxs.length ≤ fd → owner fd before = none
  calls : m.calls = before.length
  made : m.made = makes before

theorem resize_length (ctxs : List (Option Nat)) {size : Nat} (grows : ctxs.length ≤ size) :
    (resize ctxs size).length = size := by
  rw [resize,List.take_of_length_le grows,List.length_append,List.length_replicate]
  omega

theorem resize_getElem? (ctxs : List (Option Nat)) {size : Nat} (grows : ctxs.length ≤ size) (fd : Nat) :
    (resize ctxs size)[fd]? = if fd < ctxs.length then ctxs[fd]? else if fd < size then some none else none := by
  rw [resize,List.take_of_length_le grows,List.getElem?_append]
  split
  · rfl
  · next after =>
    have same : fd - ctxs.length < size - ctxs.length ↔ fd < size := by omega
    rw [List.getElem?_replicate]
    simp only [same]

theorem new_holds : Holds new [] := by
  constructor
  · decide
  · intro fd inside
    change (resize [] 64)[fd]? = some none
    rw [resize_getElem? [] (Nat.zero_le _)]
    have inside : fd < 64 := inside
    simp [inside]
  · exact fun _ _ => rfl
  · rfl
  · rfl

variable {m : FdManager} {before : List FdCall} {fd : Nat}

theorem size_eq (fits : m.fdCtxs.length < 2 ^ 31) : m.size = m.fdCtxs.length :=
  int32_of_fits ⟨by omega,by omega⟩

/-- Where the vector grows past the range of `int`, the descriptor it grew for lies above what the cast says. -/
theorem size_lt (length : m.fdCtxs.length = fd * 3 / 2) (long : 2 ^ 31 ≤ m.fdCtxs.length) : m.size < fd := by
  by_cases small : fd < 2 ^ 31
  · have cast : m.size = m.fdCtxs.length - 2 ^ 32 := int32_of_ge (by omega) (by omega)
    omega
  · have range := (fits_int32 m.fdCtxs.length).2
    change m.size < 2 ^ 31 at range
    omega

/-- A call that changes no context. -/
theorem Holds.same (holds : Holds m before) {c : FdCall} (owners : ∀ fd, owner fd (c :: before) = owner fd before)
    (made : makes (c :: before) = makes before) : Holds { m with calls := m.calls + 1 } (c :: before) where
  size := holds.size
  inside := fun fd inside => by rw [owners,holds.inside fd inside]
  beyond := fun fd outside => by rw [owners,holds.beyond fd outside]
  calls := congrArg (· + 1) holds.calls
  made := by rw [made,holds.made]

/-- A new context for a descriptor without one; the vector grows over it first where it has to. -/
theorem Holds.create (holds : Holds m before) (fits : m.fdCtxs.length < 2 ^ 31) (free : owner fd before = none) :
    ∃ m', m.create fd = some (m',some before.length) ∧ Holds { m' with calls := m'.calls + 1 } (.get fd true :: before) ∧
      m'.fdCtxs.length = if m.fdCtxs.length ≤ fd then fd * 3 / 2 else m.fdCtxs.length := by
  have least := holds.size
  have cast : (fd : Int) ≥ m.size ↔ m.fdCtxs.length ≤ fd := by
    rw [size_eq fits]
    exact Int.ofNat_le
  generalize grown : (if m.fdCtxs.length ≤ fd then resize m.fdCtxs (fd * 3 / 2) else m.fdCtxs) = fdCtxs
  have length : fdCtxs.length = if m.fdCtxs.length ≤ fd then fd * 3 / 2 else m.fdCtxs.length := by
    rw [← grown]
    split
    · exact resize_length _ (by omega)
    · rfl
  have inside : fd < fdCtxs.length := by
    rw [length]
    split <;> omega
  have grows : m.fdCtxs.length ≤ fdCtxs.length := by
    rw [length]
    split <;> omega
  have entries : ∀ other < fdCtxs.length, fdCtxs[other]? = some (owner other before) := by
    intro other there
    rw [← grown]
    split
    · next beyond =>
      rw [length,if_pos beyond] at there
      rw [resize_getElem? _ (by omega)]
      split
      · next old => exact holds.inside other old
      · next new => rw [holds.beyond other (not_lt.mp new)]
    · next old =>
      rw [length,if_neg old] at there
      exact holds.inside other there
  refine ⟨{ m with fdCtxs := fdCtxs.set fd (some m.calls), made := m.made ++ [m.calls] },?_,?_,?_⟩
  · simp only [FdManager.create,cast]
    rw [grown,if_pos inside,holds.calls]
  · constructor
    · change 64 ≤ (fdCtxs.set fd (some m.calls)).length
      rw [List.length_set]
      omega
    · intro other there
      change other < (fdCtxs.set fd (some m.calls)).length at there
      rw [List.length_set] at there
      change (fdCtxs.set fd (some m.calls))[other]? = _
      rw [List.getElem?_set]
      by_cases here : fd = other
      · subst here
        simp [inside,owner,free,holds.calls]
      · simp [here,owner,entries other there]
    · intro other outside
      change (fdCtxs.set fd (some m.calls)).length ≤ other at outside
      rw [List.length_set] at outside
      have here : fd ≠ other := by omega
      simp only [owner,here,if_false]
      exact holds.beyond other (by omega)
    · exact congrArg (· + 1) holds.calls
    · simp only [makes,free,if_true,holds.made,holds.calls]
  · exact (List.length_set ..).trans length

theorem Holds.del (holds : Holds m before) (fits : m.fdCtxs.length < 2 ^ 31) (fd : Nat) :
    ∃ m', m.call (.del fd) = some (m',none) ∧ Holds m' (.del fd :: before) ∧
      m'.fdCtxs.length = m.fdCtxs.length := by
  by_cases there : fd < m.fdCtxs.length
  · have called : m.call (.del fd) =
        some ({ m with fdCtxs := m.fdCtxs.set fd none, calls := m.calls + 1 },none) := by
      rw [call,FdManager.del,size_eq fits,if_pos (Int.ofNat_lt.mpr there)]
    refine ⟨_,called,?_,List.length_set ..⟩
    constructor
    · exact holds.size.trans_eq (List.length_set ..).symm
    · intro other inside
      change other < (m.fdCtxs.set fd none).length at inside
      rw [List.length_set] at inside
      change (m.fdCtxs.set fd none)[other]? = _
      rw [List.getElem?_set]
      by_cases here : fd = other
      · simp [here,owner,inside]
      · simp [here,owner,holds.inside other inside]
    · intro other outside
      change (m.fdCtxs.set fd none).length ≤ other at outside
      rw [List.length_set] at outside
      simp only [owner]
      split
      · rfl
      · exact holds.beyond other outside
    · exact congrArg (· + 1) holds.calls
    · exact holds.made
  · have called : m.call (.del fd) = some ({ m with calls := m.calls + 1 },none) := by
      rw [call,FdManager.del,size_eq fits,if_neg (Int.ofNat_lt.not.mpr there)]
    refine ⟨_,called,holds.same (fun other => ?_) rfl,rfl⟩
    simp only [owner]
    split
    · next here => rw [← here,holds.beyond fd (not_lt.mp there)]
    · rfl

/-- At the descriptor that equals the size the first check passes and the index is outside. -/
theorem get_size (fits : m.fdCtxs.length < 2 ^ 31) (autoCreate : Bool) : m.get m.fdCtxs.length autoCreate = none := by
  rw [FdManager.get,size_eq fits,if_neg (lt_irrefl _),List.getElem?_eq_none le_rfl]

/-- Above the size there is nothing to find, whatever the vector holds. -/
theorem get_above (above : m.size < fd) : m.get fd false = some (m,none) := by
  rw [FdManager.get,if_pos above]
  rfl

theorem Holds.get_owned (holds : Holds m before) (fits : m.fdCtxs.length < 2 ^ 31) {ctx : Nat}
    (owned : owner fd before = some ctx) (autoCreate : Bool) : m.get fd autoCreate = some (m,some ctx) := by
  have within : fd < m.fdCtxs.length := by
    by_contra outside
    rw [holds.beyond fd (not_lt.mp outside)] at owned
    cases owned
  unfold FdManager.get
  rw [size_eq fits,if_neg (by omega),holds.inside fd within,owned]
  rfl

theorem Holds.get_free (holds : Holds m before) (fits : m.fdCtxs.length < 2 ^ 31) (free : owner fd before = none)
    (apart : fd ≠ m.fdCtxs.length) (autoCreate : Bool) :
    m.get fd autoCreate = if autoCreate then m.create fd else some (m,none) := by
  unfold FdManager.get
  rw [size_eq fits]
  split
  · cases autoCreate <;> simp
  · next within =>
    rw [holds.inside fd (by omega),free]
    cases autoCreate <;> simp

theorem Holds.represents (holds : Holds m before) (fits : m.fdCtxs.length < 2 ^ 31) : Represents m before :=
  ⟨holds.made,fun _ _ owned => holds.get_owned fits owned false⟩

/-- Every call but one for the descriptor that equals the size answers from the history. -/
theorem Holds.get (holds : Holds m before) (fits : m.fdCtxs.length < 2 ^ 31) (apart : fd ≠ m.fdCtxs.length)
    (autoCreate : Bool) :
    ∃ m', m.call (.get fd autoCreate) = some (m',owner fd (.get fd autoCreate :: before)) ∧
      Holds m' (.get fd autoCreate :: before) ∧ m'.fdCtxs.length = grown m.fdCtxs.length fd autoCreate := by
  cases owned : owner fd before with
  | none =>
    have got := holds.get_free fits owned apart autoCreate
    cases autoCreate with
    | false =>
      refine ⟨{ m with calls := m.calls + 1 },?_,holds.same (fun _ => rfl) rfl,by simp [grown]⟩
      rw [call,got,owner,owned]
      rfl
    | true =>
      obtain ⟨m',made,holds',length⟩ := holds.create fits owned
      refine ⟨{ m' with calls := m'.calls + 1 },?_,holds',by simpa [grown] using length⟩
      rw [call,got,if_pos rfl,made]
      simp [owner,owned]
  | some ctx =>
    have got := holds.get_owned fits owned autoCreate
    have within : fd < m.fdCtxs.length := by
      by_contra outside
      rw [holds.beyond fd (not_lt.mp outside)] at owned
      cases owned
    have owners : ∀ other, owner other (.get fd autoCreate :: before) = owner other before := by
      intro other
      cases autoCreate with
      | false => rfl
      | true =>
        simp only [owner]
        split
        · next here => rw [← here,owned]; rfl
        · rfl
    have made : makes (.get fd autoCreate :: before) = makes before := by
      cases autoCreate <;> simp [makes,owned]
    refine ⟨{ m with calls := m.calls + 1 },?_,holds.same owners made,by simp [grown]; omega⟩
    rw [call,got,owners,owned]
    rfl

theorem run_cons {m₁ : FdManager} {c : FdCall} {answer : Option Nat} {later : List FdCall}
    (called : m.call c = some (m₁,answer)) :
    m.run (c :: later) = (m₁.run later).map fun (m',answers) => (m',answer :: answers) := by
  rw [run,called,Option.bind_some]

theorem lawful_cons {m₁ : FdManager} {c : FdCall} {later : List FdCall} (called : m.call c = some (m₁,answer before c)) :
    Lawful m before (c :: later) ↔ Represents m₁ (c :: before) ∧ Lawful m₁ (c :: before) later := by
  rw [Lawful,called]
  constructor
  · rintro ⟨m',same,law⟩
    cases same
    exact law
  · exact fun law => ⟨m₁,rfl,law⟩

/-- From any state that holds its history in a vector whose size an `int` can say. -/
theorem Holds.lawful_iff (holds : Holds m before) (fits : m.fdCtxs.length < 2 ^ 31) (calls : List FdCall) :
    Lawful m before calls ↔ Misses m.fdCtxs.length calls := by
  induction calls generalizing m before with
  | nil => exact Iff.rfl
  | cons c later ih =>
    cases c with
    | get fd autoCreate =>
      by_cases apart : fd = m.fdCtxs.length
      · subst apart
        simp [Lawful,call,get_size fits,Misses]
      obtain ⟨m₁,called,holds₁,length⟩ := holds.get fits apart autoCreate
      rw [lawful_cons called,Misses,← length]
      by_cases long : m₁.fdCtxs.length < 2 ^ 31
      · rw [ih holds₁ long,and_iff_right (holds₁.represents long),and_iff_right apart,and_iff_right long]
      -- the descriptor that the vector grew for is lost
      · have grew : autoCreate = true ∧ m.fdCtxs.length ≤ fd := by
          by_contra kept
          rw [length,grown,if_neg kept] at long
          exact long fits
        rw [grown,if_pos grew] at length
        have lost := get_above (size_lt length (not_lt.mp long))
        rw [grew.1]
        constructor
        · rintro ⟨represents,_⟩
          have found := represents.found fd _ (by simp only [owner,if_pos]; rfl)
          rw [lost] at found
          cases found
        · exact fun misses => absurd misses.2.1 long
    | del fd =>
      obtain ⟨m₁,called,holds₁,length⟩ := holds.del fits fd
      have fits₁ := length.trans_lt fits
      rw [lawful_cons called,ih holds₁ fits₁,length,Misses]
      exact and_iff_right (holds₁.represents fits₁)

/-- For every sequence of calls to the constructed manager. -/
theorem fdManager_lawful_iff (calls : List FdCall) : Lawful new [] calls ↔ Misses 64 calls :=
  new_holds.lawful_iff (by decide) calls

/-- The descriptor that equals the size, and a live context that a vector too long for `int` hides. -/
theorem fdManager_lawful_fails : ¬ Lawful new [] [.get 64 false] ∧
    ¬ Lawful new [] [.get 5 true,.get 1431655766 true,.get 5 false] ∧
    ∃ m, new.run [.get 5 true,.get 1431655766 true,.get 5 false] = some (m,[some 0,some 1,none]) := by
  have outside : new.call (.get 64 false) = none := by
    rw [call,show new.get 64 false = none from get_size (by decide) false,Option.map_none]
  obtain ⟨m₁,first,holds₁,length₁⟩ := new_holds.get (by decide) (by decide : 5 ≠ new.fdCtxs.length) true
  have length₁ : m₁.fdCtxs.length = 64 := length₁
  obtain ⟨m₂,second,holds₂,length₂⟩ := holds₁.get (by omega) (by omega : 1431655766 ≠ m₁.fdCtxs.length) true
  have length₂ : m₂.fdCtxs.length = 2147483649 := by
    rw [length₂,length₁]
    simp [grown]
  have wide : m₂.size = m₂.fdCtxs.length - 2 ^ 32 := int32_of_ge (by omega) (by omega)
  have lost : ∀ fd : Nat, m₂.get fd false = some (m₂,none) := fun fd => get_above (by omega)
  refine ⟨?_,?_,{ m₂ with calls := m₂.calls + 1 },?_⟩
  · rintro ⟨m,called,_⟩
    rw [outside] at called
    cases called
  · intro law
    have represents := ((lawful_cons second).mp ((lawful_cons first).mp law).2).1
    have found := represents.found 5 0 rfl
    rw [lost] at found
    cases found
  · have third : m₂.call (.get 5 false) = some ({ m₂ with calls := m₂.calls + 1 },none) := by
      rw [call,lost,Option.map_some]
    rw [run_cons first,run_cons second,run_cons third]
    rfl

end FdManager
end KvStorage
