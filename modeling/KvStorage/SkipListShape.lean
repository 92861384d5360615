import KvStorage.Lib.Chain
import KvStorage.SkipList

/-! What the memory of a skip list holds: towers in key order, chained on every level up
to their height. The search goes down the levels to the last tower before a key. -/
namespace KvStorage

/-- A node of the list with its forward pointers forgotten. -/
structure Tower (Key Value : Type) where
  address : Addr
  key : Key
  value : Value
  level : Nat

section Tall
variable {Key Value : Type} {ts : List (Tower Key Value)}

/-- The nodes on level `i`. -/
def tall (i : Nat) (ts : List (Tower Key Value)) : List Addr :=
  (ts.filter fun t => i ≤ t.level).map Tower.address

@[simp] theorem tall_nil (i : Nat) : tall i ([] : List (Tower Key Value)) = [] := rfl

@[simp] theorem tall_append (i : Nat) (below above : List (Tower Key Value)) :
    tall i (below ++ above) = tall i below ++ tall i above := by simp [tall]

theorem tall_cons_of_le (on : i ≤ t.level) : tall i (t :: ts) = t.address :: tall i ts := by
  simp [tall,on]

theorem tall_cons_of_lt (off : t.level < i) : tall i (t :: ts) = tall i ts := by
  simp [tall,off]

theorem tall_zero : tall 0 ts = ts.map Tower.address := by simp [tall]

theorem mem_tall : a ∈ tall i ts ↔ ∃ t ∈ ts, i ≤ t.level ∧ t.address = a := by
  simp [tall,and_assoc]

theorem tall_sublist (i : Nat) (ts : List (Tower Key Value)) :
    (tall i ts).Sublist (ts.map Tower.address) := List.filter_sublist.map _

theorem tall_length_le (i : Nat) (ts : List (Tower Key Value)) : (tall i ts).length ≤ ts.length := by
  simpa using (tall_sublist i ts).length_le

/-- The last node of a higher level is a node of the lower one, so it cuts that level in two. -/
theorem lastOf_tall (first : Addr) (le : i ≤ j) (ts : List (Tower Key Value)) : ∃ before after,
    tall i ts = before ++ after ∧ lastOf first (tall j ts) = lastOf first before := by
  induction ts using List.reverseRecOn with
  | nil => exact ⟨[],[],rfl,rfl⟩
  | append_singleton ts t ih =>
    obtain ⟨before,after,split,last⟩ := ih
    by_cases low : i ≤ t.level
    · have joined : tall i (ts ++ [t]) = before ++ (after ++ [t.address]) := by
        rw [tall_append,split,tall_cons_of_le low,tall_nil,List.append_assoc]
      by_cases high : j ≤ t.level
      · refine ⟨before ++ (after ++ [t.address]),[],by simpa using joined,?_⟩
        simp [tall_cons_of_le high]
      · exact ⟨before,after ++ [t.address],joined,by simp [tall_cons_of_lt (Nat.lt_of_not_le high),last]⟩
    · refine ⟨before,after,by simp [tall_cons_of_lt (Nat.lt_of_not_le low),split],?_⟩
      simp [tall_cons_of_lt (show t.level < j by omega),last]

end Tall

namespace SkipList

variable {Key Value : Type} {s : SkipList Key Value}

/-- Key, value and height of the node at the tower's address. -/
def Stands (s : SkipList Key Value) (t : Tower Key Value) : Prop :=
  ∃ forward, s.memory t.address = some ⟨t.key,t.value,forward⟩ ∧ forward.length = t.level + 1

variable [LinearOrder Key]

/-- The skip list invariant for the towers `ts`. -/
structure Shape (s : SkipList Key Value) (ts : List (Tower Key Value)) : Prop where
  sorted : ts.Pairwise fun t u => t.key < u.key
  stands : ∀ t ∈ ts, s.Stands t
  header : ∃ node, s.memory s.header = some node ∧ node.forward.length = s.maxLevel + 1
  chains : ∀ i ≤ s.maxLevel, Chain (s.forward i) s.header (tall i ts)
  distinct : (s.header :: ts.map Tower.address).Nodup
  used : ∀ a ∈ s.header :: ts.map Tower.address, a < s.unused
  levels : ∀ t ∈ ts, t.level ≤ s.curLevel
  bounded : s.curLevel ≤ s.maxLevel
  top : s.curLevel = 0 ∨ ∃ t ∈ ts, t.level = s.curLevel
  count : s.elementCount = ts.length

/-- The constructor builds the list without towers. -/
theorem new_shape [Inhabited Key] [Inhabited Value] (maxLevel : Nat) (rand : Nat → Nat) :
    (new maxLevel rand : SkipList Key Value).Shape [] := by
  refine ⟨.nil,by simp,⟨⟨default,default,List.replicate (maxLevel + 1) none⟩,rfl,by simp [new]⟩,
    fun i low => ?_,by simp,by simp [new],by simp,Nat.zero_le _,.inl rfl,rfl⟩
  have low : i < maxLevel + 1 := Nat.lt_succ_of_le low
  simp [Chain,forward,new,low]

/-! ### Search -/

/-- Where the key divides the towers. -/
structure Cut (key : Key) (ts below above : List (Tower Key Value)) : Prop where
  split : ts = below ++ above
  small : ∀ t ∈ below, t.key < key
  large : ∀ t ∈ above, key ≤ t.key

theorem exists_cut (sorted : ts.Pairwise fun t u : Tower Key Value => t.key < u.key) (key : Key) :
    ∃ below above, Cut key ts below above := by
  induction ts with
  | nil => exact ⟨[],[],rfl,by simp,by simp⟩
  | cons t ts ih =>
    obtain ⟨first,rest⟩ := List.pairwise_cons.mp sorted
    by_cases small : t.key < key
    · obtain ⟨below,above,rfl,smaller,larger⟩ := ih rest
      exact ⟨t :: below,above,rfl,by simpa [small] using smaller,larger⟩
    · have large : key ≤ t.key := not_lt.mp small
      exact ⟨[],t :: ts,rfl,by simp,by simpa [large] using fun u inside => large.trans (first u inside).le⟩

theorem advance_spec {key : Key} {before after : List Addr} (fuel : Nat)
    (chain : Chain (s.forward i) curNode (before ++ after))
    (small : ∀ a ∈ before, ∃ node, s.memory a = some node ∧ node.key < key)
    (large : ∀ a ∈ after.head?, ∃ node, s.memory a = some node ∧ ¬ node.key < key)
    (enough : before.length < fuel) : s.advance key i fuel curNode = some (lastOf curNode before) := by
  induction before generalizing curNode fuel with
  | nil =>
    obtain ⟨fuel,rfl⟩ : ∃ k, fuel = k + 1 := Nat.exists_eq_add_of_lt (by simpa using enough) |>.imp (by simp)
    cases after with
    | nil => simp [advance,chain.head]
    | cons next rest =>
      obtain ⟨node,found,stop⟩ := large next rfl
      simp [advance,chain.head,found,stop]
  | cons next rest ih =>
    obtain ⟨fuel,rfl⟩ : ∃ k, fuel = k + 1 := ⟨fuel - 1,by simp at enough; omega⟩
    obtain ⟨node,found,go⟩ := small next List.mem_cons_self
    have rest := ih fuel chain.2 (fun a inside => small a (List.mem_cons_of_mem _ inside))
      (by simpa using enough)
    simp [advance,chain.head,found,go,rest]

variable {ts below above : List (Tower Key Value)} {key : Key}

/-- `update[j]` is the last node before the key on level `j`. -/
def pathTo (s : SkipList Key Value) (below : List (Tower Key Value)) (levels : Nat) : List Addr :=
  (List.range levels).map fun j => lastOf s.header (tall j below)

theorem Shape.small (shape : s.Shape ts) (cut : Cut key ts below above) (a : Addr)
    (inside : a ∈ tall i below) : ∃ node, s.memory a = some node ∧ node.key < key := by
  obtain ⟨t,here,_,rfl⟩ := mem_tall.mp inside
  obtain ⟨forward,found,_⟩ := shape.stands t (by simp [cut.split,here])
  exact ⟨_,found,cut.small t here⟩

theorem Shape.large (shape : s.Shape ts) (cut : Cut key ts below above) (a : Addr)
    (inside : a ∈ (tall i above).head?) : ∃ node, s.memory a = some node ∧ ¬ node.key < key := by
  obtain ⟨t,here,_,rfl⟩ := mem_tall.mp (List.mem_of_mem_head? inside)
  obtain ⟨forward,found,_⟩ := shape.stands t (by simp [cut.split,here])
  exact ⟨_,found,not_lt.mpr (cut.large t here)⟩

/-- One level of the descent, entered at a node of that level. -/
theorem Shape.advance (shape : s.Shape ts) (cut : Cut key ts below above) (low : i ≤ s.maxLevel)
    (entered : tall i below = before ++ after) :
    s.advance key i (s.elementCount + 1) (lastOf s.header before) =
      some (lastOf s.header (tall i below)) := by
  have chain := shape.chains i low
  rw [cut.split,tall_append,entered,List.append_assoc] at chain
  have short : after.length < s.elementCount + 1 := by
    have inside := tall_length_le i below
    rw [entered,List.length_append] at inside
    rw [shape.count,cut.split,List.length_append]
    omega
  rw [advance_spec _ chain.drop (fun a inside => shape.small cut a (entered ▸ List.mem_append_right _ inside))
    (fun a inside => shape.large cut a inside) short,entered,lastOf_append]

theorem Shape.findUpdate (shape : s.Shape ts) (cut : Cut key ts below above) (low : i ≤ s.maxLevel)
    (entered : tall i below = before ++ after) :
    s.findUpdate key i (lastOf s.header before) = some (s.pathTo below (i + 1)) := by
  induction i generalizing before after with
  | zero => simp [SkipList.findUpdate,shape.advance cut low entered,pathTo]
  | succ i ih =>
    obtain ⟨before',after',split,same⟩ := lastOf_tall s.header (Nat.le_succ i) below
    have lower := ih (by omega) split
    simp [SkipList.findUpdate,shape.advance cut low entered,same,lower,pathTo,List.range_succ (n := i + 1)]

theorem Shape.locate (shape : s.Shape ts) (cut : Cut key ts below above) :
    s.locate key = some (s.pathTo below (s.curLevel + 1),above.head?.map Tower.address) := by
  have path : s.findUpdate key s.curLevel (lastOf s.header []) = _ :=
    shape.findUpdate cut shape.bounded rfl
  have chain := shape.chains 0 (Nat.zero_le _)
  rw [cut.split,tall_append] at chain
  have after := chain.drop.head
  rw [show tall 0 above = above.map Tower.address from tall_zero,List.head?_map] at after
  have first : (s.pathTo below (s.curLevel + 1)).head? = some (lastOf s.header (tall 0 below)) := by
    simp [pathTo,List.range_succ_eq_map]
  rw [lastOf_nil] at path
  simp [SkipList.locate,path,first,after]

/-- The node after the path is the key's own if the list holds the key. -/
theorem Shape.matching (shape : s.Shape ts) (cut : Cut key ts below above) :
    ∃ found, s.matching key (above.head?.map Tower.address) = some found ∧
      (found.map Node.value) = (above.head?.filter fun t => t.key = key).map Tower.value := by
  cases above with
  | nil => exact ⟨none,rfl,rfl⟩
  | cons t above =>
    obtain ⟨forward,found,_⟩ := shape.stands t (by simp [cut.split])
    by_cases same : t.key = key
    · exact ⟨some ⟨t.key,t.value,forward⟩,by simp [SkipList.matching,found,same],by simp [Option.filter,same]⟩
    · exact ⟨none,by simp [SkipList.matching,found,same],by simp [Option.filter,same]⟩

end SkipList
end KvStorage
