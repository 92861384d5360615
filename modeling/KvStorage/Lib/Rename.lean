import Mathlib.Data.List.Basic
import Mathlib.Logic.Function.Basic

/-! Files replaced by writing a temporary one and renaming it. A process that stops
leaves the effect of a prefix of its file operations. -/
namespace KvStorage.Rename

/-- Operations on files named by `N`; a write of many bytes may be cut between any two. -/
inductive FileOp (N B : Type) where
  | truncate (file : N)
  | append (file : N) (byte : B)
  | rename (source target : N)

/-- The files that exist, with their contents. -/
abbrev Disk (N B : Type) := N → Option (List B)

variable {N B : Type} [DecidableEq N]

def perform (disk : Disk N B) : FileOp N B → Disk N B
  | .truncate file => Function.update disk file (some [])
  | .append file byte => Function.update disk file ((disk file).map (· ++ [byte]))
  | .rename source target =>
    if (disk source).isSome then Function.update (Function.update disk target (disk source)) source none
    else disk

def performAll (disk : Disk N B) (ops : List (FileOp N B)) : Disk N B := ops.foldl perform disk

@[simp] theorem performAll_nil (disk : Disk N B) : performAll disk [] = disk := rfl

@[simp] theorem performAll_cons (disk : Disk N B) (op : FileOp N B) (ops : List (FileOp N B)) :
    performAll disk (op :: ops) = performAll (perform disk op) ops := rfl

@[simp] theorem performAll_append (disk : Disk N B) (first later : List (FileOp N B)) :
    performAll disk (first ++ later) = performAll (performAll disk first) later :=
  List.foldl_append ..

omit [DecidableEq N] in
/-- All bytes of `data` go to a fresh `file`. -/
def write (file : N) (data : List B) : List (FileOp N B) := .truncate file :: data.map (.append file)

omit [DecidableEq N] in
@[simp] theorem write_length (file : N) (data : List B) : (write file data).length = data.length + 1 := by
  simp [write]

theorem performAll_appends (disk : Disk N B) (file : N) (held data : List B)
    (holds : disk file = some held) :
    performAll disk (data.map (.append file)) = Function.update disk file (some (held ++ data)) := by
  induction data generalizing disk held with
  | nil => simp [← holds]
  | cons byte rest ih =>
    have next : perform disk (.append file byte) file = some (held ++ [byte]) := by
      simp [perform,holds]
    rw [List.map_cons,performAll_cons,ih _ _ next]
    simp [perform]

theorem performAll_write (disk : Disk N B) (file : N) (data : List B) :
    performAll disk (write file data) = Function.update disk file (some data) := by
  rw [write,performAll_cons,performAll_appends _ file [] data (by simp [perform])]
  simp [perform]

/-- A write that was cut left its other files alone. -/
theorem performAll_write_take (disk : Disk N B) (file other : N) (data : List B) (point : Nat)
    (distinct : other ≠ file) : performAll disk ((write file data).take point) other = disk other := by
  cases point with
  | zero => rfl
  | succ point =>
    rw [write,List.take_succ_cons,performAll_cons,← List.map_take,
      performAll_appends _ file [] _ (by simp [perform])]
    simp [perform,distinct]

theorem performAll_rename (disk : Disk N B) (source target : N) (data : List B) :
    performAll disk (write source data ++ [.rename source target]) =
      Function.update (Function.update disk target (some data)) source none := by
  rw [performAll_append,performAll_write]
  by_cases same : target = source
  · subst same
    simp [perform]
  · simp [perform,Function.update_comm same]

end KvStorage.Rename
