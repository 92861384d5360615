import KvStorage.Lib.Run
import KvStorage.SkipMap

/-! Runs of skip list operations. Whatever levels are drawn, every chain is the one below
it without the lower nodes, and the search answers like a finite map. -/
namespace KvStorage

inductive MapOp (Key Value : Type) where
  | insertElement (key : Key) (val : Value)
  | insertSetElement (key : Key) (val : Value)
  | deleteElement (key : Key)

variable {Key Value : Type} [LinearOrder Key]

/-- The finite map operation. -/
def MapOp.effect (map : Key → Option Value) : MapOp Key Value → Key → Option Value
  | .insertElement key val => Function.update map key (some ((map key).getD val))
  | .insertSetElement key val => Function.update map key (some val)
  | .deleteElement key => Function.update map key none

namespace SkipList

variable {s : SkipList Key Value} {ts : List (Tower Key Value)}

def perform (s : SkipList Key Value) : MapOp Key Value → Option (SkipList Key Value)
  | .insertElement key val => (s.insertElement key val).map Prod.fst
  | .insertSetElement key val => s.insertSetElement key val
  | .deleteElement key => s.deleteElement key

/-- `level_` of the node at an address. -/
def levelAt (s : SkipList Key Value) (a : Addr) : Nat :=
  ((s.memory a).map fun node => node.forward.length - 1).getD 0

/-- The key at `a` is below the key at `b`. -/
def KeyBelow (s : SkipList Key Value) (a b : Addr) : Prop :=
  ∃ node node', s.memory a = some node ∧ s.memory b = some node' ∧ node.key < node'.key

/-- The list's structure as its pointers show it; `chain i` are the nodes met on level `i`. -/
structure Layered (s : SkipList Key Value) (chain : Nat → List Addr) : Prop where
  chains : ∀ i ≤ s.maxLevel, Chain (s.forward i) s.header (chain i)
  sorted : (chain 0).Pairwise s.KeyBelow
  thinner : ∀ i < s.maxLevel, chain (i + 1) = (chain i).filter fun a => i + 1 ≤ s.levelAt a
  empty : ∀ i, s.curLevel < i → chain i = []
  bounded : s.curLevel ≤ s.maxLevel
  top : s.curLevel ≠ 0 → ∃ a, s.forward s.curLevel s.header = some (some a)
  count : s.elementCount = (chain 0).length

omit [LinearOrder Key] in
theorem Stands.levelAt {t : Tower Key Value} (stands : s.Stands t) : s.levelAt t.address = t.level := by
  obtain ⟨forward,found,length⟩ := stands
  simp [SkipList.levelAt,found,length]

theorem Shape.thinner (shape : s.Shape ts) (i : Nat) :
    tall (i + 1) ts = (tall i ts).filter fun a => i + 1 ≤ s.levelAt a := by
  have level : ∀ t ∈ ts, s.levelAt t.address = t.level := fun t here => (shape.stands t here).levelAt
  unfold tall
  rw [List.filter_map,List.filter_filter]
  congr 1
  apply List.filter_congr
  intro t here
  simp only [Function.comp,level t here,← Bool.decide_and,decide_eq_decide]
  omega

theorem Shape.layered (shape : s.Shape ts) : s.Layered fun i => tall i ts where
  chains := shape.chains
  sorted := by
    rw [tall_zero,List.pairwise_map]
    apply shape.sorted.imp_of_mem
    intro t u here there below
    obtain ⟨_,found,_⟩ := shape.stands t here
    obtain ⟨_,found',_⟩ := shape.stands u there
    exact ⟨_,_,found,found',below⟩
  thinner i _ := shape.thinner i
  empty i above := by
    apply List.eq_nil_iff_forall_not_mem.mpr
    intro a inside
    obtain ⟨t,here,reach,_⟩ := mem_tall.mp inside
    have := shape.levels t here
    omega
  bounded := shape.bounded
  top positive := by
    obtain ⟨t,here,level⟩ := shape.top.resolve_left positive
    have inside : t.address ∈ tall s.curLevel ts := mem_tall.mpr ⟨t,here,level.ge,rfl⟩
    obtain ⟨a,rest,eq⟩ := List.exists_cons_of_ne_nil (List.ne_nil_of_mem inside)
    have chain := (shape.chains s.curLevel shape.bounded).head
    exact ⟨a,by rw [chain,eq]; rfl⟩
  count := by rw [shape.count,tall_zero,List.length_map]

theorem Shape.perform (shape : s.Shape ts) (op : MapOp Key Value) : ∃ s' ts',
    s.perform op = some s' ∧ s'.Shape ts' ∧ lookup ts' = op.effect (lookup ts) := by
  cases op with
  | insertElement key val =>
    obtain ⟨s',code,ts',done,shape',same⟩ := shape.insertElementNoBlock key val
    exact ⟨s',ts',by simp [SkipList.perform,insertElement,done],shape',same⟩
  | insertSetElement key val => exact shape.insertSetElement key val
  | deleteElement key => exact shape.deleteElement key

theorem Shape.run (shape : s.Shape ts) (ops : List (MapOp Key Value)) : ∃ s' ts',
    Run.run SkipList.perform s ops = some s' ∧ s'.Shape ts' ∧ lookup ts' = ops.foldl MapOp.effect (lookup ts) := by
  induction ops generalizing s ts with
  | nil => exact ⟨s,ts,rfl,shape,rfl⟩
  | cons op ops ih =>
    obtain ⟨middle,ts₁,first,shape₁,same₁⟩ := shape.perform op
    obtain ⟨s',ts',rest,shape',same⟩ := ih shape₁
    exact ⟨s',ts',by simp [Run.run,first,rest],shape',by rw [same,same₁]; rfl⟩

/-- Every sequence of operations runs through and leaves a layered list that answers like the map. -/
theorem run_layered [Inhabited Key] [Inhabited Value] (maxLevel : Nat) (rand : Nat → Nat)
    (ops : List (MapOp Key Value)) :
    ∃ s chain, Run.run perform (new maxLevel rand) ops = some s ∧ s.Layered chain ∧
      ∀ key, s.searchElement key = some (ops.foldl MapOp.effect (fun _ => none) key) := by
  obtain ⟨s,ts,ran,shape,same⟩ := (new_shape maxLevel rand).run ops
  refine ⟨s,_,ran,shape.layered,fun key => ?_⟩
  rw [shape.search key,same]
  rfl

end SkipList
end KvStorage
