import Mathlib.Data.List.Basic
import Mathlib.Data.List.Nodup

/-! Singly linked chains in a memory of pointers. `next` reads the pointer stored at a
node and fails outside the memory; a chain ends in the null pointer. -/
namespace KvStorage

variable {A : Type} {next next' : A → Option (Option A)} {first : A}

/-- From `first` the pointers lead through `nodes` and end. -/
def Chain (next : A → Option (Option A)) : A → List A → Prop
  | first, [] => next first = some none
  | first, node :: rest => next first = some (some node) ∧ Chain next node rest

/-- The node that the walk over `nodes` from `first` ends at. -/
def lastOf (first : A) : List A → A
  | [] => first
  | node :: rest => lastOf node rest

@[simp] theorem lastOf_nil (first : A) : lastOf first [] = first := rfl

@[simp] theorem lastOf_cons (first node : A) (rest : List A) :
    lastOf first (node :: rest) = lastOf node rest := rfl

@[simp] theorem lastOf_append (first : A) (before after : List A) :
    lastOf first (before ++ after) = lastOf (lastOf first before) after := by
  induction before generalizing first with
  | nil => rfl
  | cons node rest ih => exact ih node

theorem lastOf_mem (first : A) (nodes : List A) : lastOf first nodes ∈ first :: nodes := by
  induction nodes generalizing first with
  | nil => exact List.mem_cons_self
  | cons node rest ih => exact List.mem_cons_of_mem _ (ih node)

theorem Chain.head (chain : Chain next first nodes) : next first = some nodes.head? := by
  cases nodes with
  | nil => exact chain
  | cons node rest => exact chain.1

/-- What follows a part of the chain hangs on its last node. -/
theorem Chain.drop (chain : Chain next first (before ++ after)) :
    Chain next (lastOf first before) after := by
  induction before generalizing first with
  | nil => exact chain
  | cons node rest ih => exact ih chain.2

theorem Chain.congr (chain : Chain next first nodes)
    (same : ∀ node ∈ first :: nodes, next' node = next node) : Chain next' first nodes := by
  induction nodes generalizing first with
  | nil => exact (same first List.mem_cons_self).trans chain
  | cons node rest ih =>
    exact ⟨(same first List.mem_cons_self).trans chain.1,
      ih chain.2 fun other inside => same other (List.mem_cons_of_mem _ inside)⟩

/-- Two chains are joined when the last node of the first one points into the second. -/
theorem Chain.join (before : List A) (distinct : (first :: before).Nodup)
    (chain : Chain next first (before ++ after))
    (same : ∀ node ∈ first :: before, node ≠ lastOf first before → next' node = next node)
    (rest : Chain next' (lastOf first before) after') : Chain next' first (before ++ after') := by
  induction before generalizing first with
  | nil => exact rest
  | cons node tail ih =>
    have apart : first ≠ lastOf node tail := by
      have inside : lastOf node tail ∈ node :: tail := lastOf_mem ..
      exact fun eq => (List.nodup_cons.mp distinct).1 (eq ▸ inside)
    refine ⟨(same first List.mem_cons_self apart).trans chain.1,?_⟩
    exact ih (List.nodup_cons.mp distinct).2 chain.2
      (fun other inside differs => same other (List.mem_cons_of_mem _ inside) differs) rest

/-- A new node takes over the pointer of the node it is put behind. -/
theorem Chain.insert (before : List A) (distinct : (first :: (before ++ after)).Nodup)
    (fresh : new ∉ first :: (before ++ after)) (chain : Chain next first (before ++ after))
    (linked : next' (lastOf first before) = some (some new))
    (takesOver : next' new = next (lastOf first before))
    (same : ∀ node, node ≠ lastOf first before → node ≠ new → next' node = next node) :
    Chain next' first (before ++ new :: after) := by
  have prefixNodup : (first :: before).Nodup :=
    distinct.sublist (by simp)
  have ne_new : ∀ node ∈ first :: (before ++ after), node ≠ new := fun node inside eq => fresh (eq ▸ inside)
  have last : lastOf first before ∈ first :: before := lastOf_mem ..
  have tail := chain.drop
  refine chain.join before prefixNodup (fun node inside differs => same node differs
    (ne_new node (by rcases List.mem_cons.mp inside with rfl | inside <;> simp [*]))) ⟨linked,?_⟩
  have apart : ∀ node ∈ after, node ≠ lastOf first before := by
    intro node inside eq
    have split : ((first :: before) ++ after).Nodup := by simpa using distinct
    exact (List.nodup_append.mp split).2.2 _ last _ inside eq.symm
  cases after with
  | nil => exact takesOver.trans tail
  | cons node rest =>
    refine ⟨takesOver.trans tail.1,tail.2.congr fun other inside => ?_⟩
    exact same other (apart other inside) (ne_new other (by simp at inside ⊢; tauto))

/-- A removed node hands its pointer to the node before it. -/
theorem Chain.remove (before : List A) (distinct : (first :: (before ++ old :: after)).Nodup)
    (chain : Chain next first (before ++ old :: after))
    (handed : next' (lastOf first before) = next old)
    (same : ∀ node, node ≠ lastOf first before → next' node = next node) :
    Chain next' first (before ++ after) := by
  have prefixNodup : (first :: before).Nodup := distinct.sublist (by simp)
  have last : lastOf first before ∈ first :: before := lastOf_mem ..
  have tail := chain.drop
  refine chain.join before prefixNodup (fun node _ differs => same node differs) ?_
  have apart : ∀ node ∈ after, node ≠ lastOf first before := by
    intro node inside eq
    have split : ((first :: before) ++ old :: after).Nodup := by simpa using distinct
    exact (List.nodup_append.mp split).2.2 _ last _ (List.mem_cons_of_mem _ inside) eq.symm
  cases after with
  | nil => exact handed.trans tail.2
  | cons node rest =>
    refine ⟨handed.trans tail.2.1,tail.2.2.congr fun other inside => ?_⟩
    exact same other (apart other inside)

end KvStorage
