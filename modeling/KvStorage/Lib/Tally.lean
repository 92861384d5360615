import Mathlib

/-! What finitely many places hold in all. One place changes at a time, and the total with it. -/
namespace KvStorage.Tally

variable {ι α : Type} {measure : α → Nat} {s : Finset ι} {places : ι → α} {i j : ι}

def total (measure : α → Nat) (s : Finset ι) (places : ι → α) : Nat := ∑ i ∈ s, measure (places i)

/-- The old value of the changed place is on the other side, so nothing is subtracted. -/
theorem total_update [DecidableEq ι] (inside : i ∈ s) (place : α) :
    total measure s (Function.update places i place) + measure (places i) = total measure s places + measure place := by
  unfold total
  have others : ∑ j ∈ s.erase i, measure (Function.update places i place j) = ∑ j ∈ s.erase i, measure (places j) :=
    Finset.sum_congr rfl fun j there => by rw [Function.update_of_ne (Finset.ne_of_mem_erase there)]
  have before := Finset.add_sum_erase s (fun j => measure (places j)) inside
  have after := Finset.add_sum_erase s (fun j => measure (Function.update places i place j)) inside
  rw [Function.update_self] at after
  omega

theorem le_total (inside : i ∈ s) : measure (places i) ≤ total measure s places :=
  Finset.single_le_sum (f := fun j => measure (places j)) (fun _ _ => Nat.zero_le _) inside

theorem total_mono {other : α → Nat} (le : ∀ a, measure a ≤ other a) : total measure s places ≤ total other s places :=
  Finset.sum_le_sum fun i _ => le (places i)

/-- Where the total is at most one, at most one place holds something. -/
theorem same_of_total_le_one (one : total measure s places ≤ 1) (first : i ∈ s) (second : j ∈ s)
    (here : 1 ≤ measure (places i)) (there : 1 ≤ measure (places j)) : i = j := by
  classical
  by_contra apart
  have two : ∑ k ∈ {i,j}, measure (places k) ≤ total measure s places := by
    apply Finset.sum_le_sum_of_subset
    intro k member
    rcases Finset.mem_insert.mp member with rfl | last
    · exact first
    · rw [Finset.mem_singleton.mp last]
      exact second
  rw [Finset.sum_pair apart] at two
  omega

end KvStorage.Tally
