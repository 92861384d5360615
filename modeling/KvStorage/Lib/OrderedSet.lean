import Mathlib

/-! A set kept in the order of a comparator, as a sorted list. The comparator may read values that
change while an element is out of the set; inside it, an element is found where it was put. -/
namespace KvStorage.OrderedSet

variable (lt : α → α → Bool)

/-- The list with `x`, and the position of `x` or of an equivalent that was there already. -/
def insert (x : α) : List α → List α × Nat
  | [] => ([x],0)
  | y :: rest =>
    if lt y x then
      let (rest,i) := insert x rest
      (y :: rest,i + 1)
    else if lt x y then (x :: y :: rest,0)
    else (y :: rest,0)

/-- The position of an element equivalent to `x`. -/
def find (x : α) : List α → Option Nat
  | [] => none
  | y :: rest =>
    if lt y x then (find x rest).map (· + 1)
    else if lt x y then none
    else some 0

abbrev Sorted (l : List α) : Prop := l.Pairwise fun a b => lt a b = true

/-- `x` is equivalent to no element. -/
def Apart (x : α) (l : List α) : Prop := ∀ y ∈ l, lt y x = true ∨ lt x y = true

variable {lt} {l : List α} {x : α}

theorem mem_insert (apart : Apart lt x l) : z ∈ (insert lt x l).1 ↔ z = x ∨ z ∈ l := by
  induction l with
  | nil => simp [insert]
  | cons y rest ih =>
    have later := ih fun w here => apart w (List.mem_cons_of_mem _ here)
    unfold insert
    split
    · simp only [List.mem_cons,later]
      tauto
    · next notBelow =>
      rw [if_pos ((apart y List.mem_cons_self).resolve_left notBelow)]
      exact List.mem_cons

theorem insert_sorted (trans : ∀ a b c, lt a b = true → lt b c = true → lt a c = true) (sorted : Sorted lt l)
    (apart : Apart lt x l) : Sorted lt (insert lt x l).1 := by
  induction l with
  | nil => simp [insert,Sorted]
  | cons y rest ih =>
    obtain ⟨first,later⟩ := List.pairwise_cons.mp sorted
    have apart' : Apart lt x rest := fun w here => apart w (List.mem_cons_of_mem _ here)
    unfold insert
    split
    · next below =>
      refine List.pairwise_cons.mpr ⟨fun w here => ?_,ih later apart'⟩
      rcases (mem_insert apart').mp here with rfl | here
      · exact below
      · exact first w here
    · next notBelow =>
      have above := (apart y List.mem_cons_self).resolve_left notBelow
      rw [if_pos above]
      refine List.pairwise_cons.mpr ⟨fun w here => ?_,sorted⟩
      rcases List.mem_cons.mp here with rfl | here
      · exact above
      · exact trans x y w above (first w here)

/-- An element of the set is found, at its own position. -/
theorem find_member (irrefl : lt x x = false) (sorted : Sorted lt l) (member : x ∈ l) :
    ∃ i, find lt x l = some i ∧ l[i]? = some x := by
  induction l with
  | nil => cases member
  | cons y rest ih =>
    obtain ⟨first,later⟩ := List.pairwise_cons.mp sorted
    unfold find
    rcases List.mem_cons.mp member with rfl | member
    · exact ⟨0,by simp [irrefl],rfl⟩
    · obtain ⟨i,found,here⟩ := ih later member
      exact ⟨i + 1,by rw [if_pos (first x member),found]; rfl,here⟩

theorem sorted_nodup (irrefl : ∀ a, lt a a = false) (sorted : Sorted lt l) : l.Nodup :=
  sorted.imp fun {a b} less same => by
    rw [same,irrefl] at less
    cases less

theorem mem_eraseIdx {i : Nat} (nodup : l.Nodup) (here : l[i]? = some x) : z ∈ l.eraseIdx i ↔ z ∈ l ∧ z ≠ x := by
  obtain ⟨bound,rfl⟩ := List.getElem?_eq_some_iff.mp here
  rw [List.mem_eraseIdx_iff_getElem]
  constructor
  · rintro ⟨j,inside,other,rfl⟩
    exact ⟨List.getElem_mem inside,fun same => other ((nodup.getElem_inj_iff).mp same)⟩
  · rintro ⟨member,other⟩
    obtain ⟨j,inside,rfl⟩ := List.mem_iff_getElem.mp member
    exact ⟨j,inside,fun same => other (by subst same; rfl),rfl⟩

/-! ### The front of the set -/

/-- What holds of an element only if it holds of those before it, holds of a front. -/
theorem takeWhile_eq_filter {p : α → Bool} (down : l.Pairwise fun a b => p b = true → p a = true) :
    l.takeWhile p = l.filter p := by
  induction l with
  | nil => rfl
  | cons y rest ih =>
    obtain ⟨first,later⟩ := List.pairwise_cons.mp down
    cases holds : p y with
    | true => rw [List.takeWhile_cons_of_pos holds,List.filter_cons_of_pos holds,ih later]
    | false =>
      have none_later : rest.filter p = [] := List.filter_eq_nil_iff.mpr fun w here inside => by
        rw [first w here inside] at holds
        cases holds
      rw [List.takeWhile_cons_of_neg (by simp [holds]),List.filter_cons_of_neg (by simp [holds]),none_later]

/-- A search for a lower bound followed by a scan ends where the scan alone ends. -/
theorem scan_from {p q : α → Bool} (implied : ∀ a, q a = true → p a = true) (l : List α) :
    (l.takeWhile q).length + ((l.drop (l.takeWhile q).length).takeWhile p).length = (l.takeWhile p).length := by
  induction l with
  | nil => rfl
  | cons y rest ih =>
    cases holds : q y with
    | true =>
      rw [List.takeWhile_cons_of_pos holds,List.takeWhile_cons_of_pos (implied y holds)]
      simp only [List.length_cons,List.drop_succ_cons]
      omega
    | false =>
      rw [List.takeWhile_cons_of_neg (by simp [holds])]
      simp

theorem take_takeWhile (p : α → Bool) (l : List α) : l.take (l.takeWhile p).length = l.takeWhile p :=
  (List.prefix_iff_eq_take.mp (List.takeWhile_prefix p)).symm

end KvStorage.OrderedSet
