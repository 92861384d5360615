import Mathlib.Algebra.Group.Int.Defs
import Mathlib.Algebra.Group.Nat.Defs

/-! The 32-bit `int`: what is stored keeps its residue modulo `2^32` in the signed range. -/
namespace KvStorage.Word

def int32 (i : Int) : Int := i.bmod (2 ^ 32)

def Fits (i : Int) : Prop := -2 ^ 31 ≤ i ∧ i < 2 ^ 31

instance (i : Int) : Decidable (Fits i) := inferInstanceAs (Decidable (_ ∧ _))

variable {i : Int}

theorem fits_int32 (i : Int) : Fits (int32 i) := by
  have low := Int.le_bmod (x := i) (m := 2 ^ 32) (by decide)
  have high := Int.bmod_lt (x := i) (m := 2 ^ 32) (by decide)
  exact ⟨by unfold int32; omega,by unfold int32; omega⟩

/-- A value in range is stored as it is. -/
theorem int32_of_fits (fits : Fits i) : int32 i = i :=
  Int.bmod_eq_of_le_mul_two (by have := fits.1; omega) (by have := fits.2; omega)

/-- The first values past the range come back from below. -/
theorem int32_of_ge (past : 2 ^ 31 ≤ i) (below : i < 3 * 2 ^ 31) : int32 i = i - 2 ^ 32 := by
  have same : int32 i = int32 (i - 2 ^ 32) := (Int.sub_bmod_right i (2 ^ 32)).symm
  rw [same]
  exact int32_of_fits ⟨by omega,by omega⟩

end KvStorage.Word
