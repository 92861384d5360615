import Mathlib.Data.Fintype.Card
import Mathlib.Data.Finset.Card

/-! Majorities of a finite set of voters. Any two of them share a voter. -/
namespace KvStorage

variable {V : Type u} [Fintype V]

/-- At least `card / 2 + 1` voters. -/
def Majority (A : Finset V) : Prop := Fintype.card V / 2 + 1 ≤ A.card

instance (A : Finset V) : Decidable (Majority A) := inferInstanceAs (Decidable (_ ≤ _))

theorem Majority.mono {A B : Finset V} (some : Majority A) (sub : A ⊆ B) : Majority B :=
  le_trans some (Finset.card_le_card sub)

theorem Majority.meet [DecidableEq V] {A B : Finset V} (one : Majority A) (two : Majority B) : ∃ v ∈ A, v ∈ B := by
  have many : Fintype.card V < A.card + B.card := by
    unfold Majority at one two
    omega
  obtain ⟨v,member⟩ := Finset.inter_nonempty_of_card_lt_card_add_card
    (Finset.subset_univ A) (Finset.subset_univ B) (by simpa using many)
  exact ⟨v,(Finset.mem_inter.mp member).1,(Finset.mem_inter.mp member).2⟩

end KvStorage
