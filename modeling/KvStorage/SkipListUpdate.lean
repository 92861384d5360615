import KvStorage.SkipListShape

/-! Relinking the levels of a skip list. Every level is one chain; an insertion puts the
new node behind the last smaller node of each level it reaches, a deletion takes it out. -/
namespace KvStorage.SkipList

variable {Key Value : Type} {s s' : SkipList Key Value}

/-! ### Memory -/

theorem setForward_forward (s : SkipList Key Value) (i : Nat) (node : Addr) (target : Option Addr)
    (there : (s.forward i node).isSome) (j : Nat) (a : Addr) :
    (s.setForward i node target).forward j a = if j = i ∧ a = node then some target else s.forward j a := by
  by_cases same : a = node
  · subst same
    cases found : s.memory a with
    | none => simp [forward,found] at there
    | some n =>
      by_cases level : j = i
      · subst level
        have inside : j < n.forward.length := by simpa [forward,found] using there
        simp [forward,setForward,found,inside]
      · simp [forward,setForward,found,level,Ne.symm level]
  · simp [forward,setForward,same]

/-- Only forward pointers differ. -/
structure Relinked (s s' : SkipList Key Value) : Prop where
  rest : s' = { s with memory := s'.memory }
  nodes : ∀ a key value forward, s.memory a = some ⟨key,value,forward⟩ →
    ∃ forward', s'.memory a = some ⟨key,value,forward'⟩ ∧ forward'.length = forward.length

theorem Relinked.refl (s : SkipList Key Value) : Relinked s s :=
  ⟨rfl,fun _ _ _ forward found => ⟨forward,found,rfl⟩⟩

theorem Relinked.trans {middle : SkipList Key Value} (one : Relinked s middle) (two : Relinked middle s') :
    Relinked s s' := by
  refine ⟨?_,fun a key value forward found => ?_⟩
  · have := two.rest
    rw [one.rest] at this
    exact this
  · obtain ⟨_,found',length⟩ := one.nodes a key value forward found
    obtain ⟨forward',found'',length'⟩ := two.nodes a key value _ found'
    exact ⟨forward',found'',length'.trans length⟩

theorem relinked_setForward (s : SkipList Key Value) (i : Nat) (node : Addr) (target : Option Addr) :
    Relinked s (s.setForward i node target) := by
  refine ⟨rfl,fun a key value forward found => ?_⟩
  by_cases same : a = node
  · subst same; exact ⟨forward.set i target,by simp [setForward,found],by simp⟩
  · exact ⟨forward,by simp [setForward,same,found],rfl⟩

theorem Relinked.stands (relinked : Relinked s s') (stands : s.Stands t) : s'.Stands t := by
  obtain ⟨forward,found,length⟩ := stands
  obtain ⟨forward',found',length'⟩ := relinked.nodes _ _ _ _ found
  exact ⟨forward',found',length'.trans length⟩

/-! ### Insertion -/

/-- `link` puts `newNode` behind `update[k]` on level `i + k` and touches nothing else. -/
structure Linked (s s' : SkipList Key Value) (newNode : Addr) (i : Nat) (update : List Addr) : Prop where
  relinked : Relinked s s'
  outside : ∀ j a, j < i ∨ i + update.length ≤ j → s'.forward j a = s.forward j a
  linked : ∀ k before, update[k]? = some before → s'.forward (i + k) before = some (some newNode) ∧
    s'.forward (i + k) newNode = s.forward (i + k) before ∧
    ∀ a, a ≠ before → a ≠ newNode → s'.forward (i + k) a = s.forward (i + k) a

theorem link_spec (newNode : Addr) (update : List Addr) (i : Nat) (s : SkipList Key Value)
    (ready : ∀ k before, update[k]? = some before → before ≠ newNode ∧
      (s.forward (i + k) before).isSome ∧ (s.forward (i + k) newNode).isSome) :
    ∃ s', link newNode i update s = some s' ∧ Linked s s' newNode i update := by
  induction update generalizing i s with
  | nil => exact ⟨s,rfl,.refl s,fun _ _ _ => rfl,by simp⟩
  | cons before update ih =>
    obtain ⟨apart,from',to'⟩ : before ≠ newNode ∧ (s.forward i before).isSome ∧
        (s.forward i newNode).isSome := ready 0 before rfl
    obtain ⟨next,found⟩ := Option.isSome_iff_exists.mp from'
    have first := setForward_forward s i newNode next to'
    have from'' : ((s.setForward i newNode next).forward i before).isSome := by
      rw [first,if_neg (fun eq => apart eq.2)]; exact from'
    have second := setForward_forward (s.setForward i newNode next) i before (some newNode) from''
    let middle := (s.setForward i newNode next).setForward i before (some newNode)
    have elsewhere : ∀ j a, j ≠ i → middle.forward j a = s.forward j a := by
      intro j a differs
      rw [second,if_neg (fun eq => differs eq.1),first,if_neg (fun eq => differs eq.1)]
    obtain ⟨s',done,linked⟩ := ih (i + 1) middle fun k node at' => by
      obtain ⟨distinct,one,two⟩ := ready (k + 1) node (by simpa using at')
      rw [elsewhere _ _ (by omega),elsewhere _ _ (by omega)]
      exact ⟨distinct,by rwa [show i + 1 + k = i + (k + 1) by omega],
        by rwa [show i + 1 + k = i + (k + 1) by omega]⟩
    refine ⟨s',by simpa [link,found] using done,?_,fun j a out => ?_,fun k node at' => ?_⟩
    · exact ((relinked_setForward ..).trans (relinked_setForward ..)).trans linked.relinked
    · simp only [List.length_cons] at out
      rw [linked.outside j a (by omega),elsewhere j a (by omega)]
    · cases k with
      | zero =>
        obtain rfl : before = node := by simpa using at'
        simp only [Nat.add_zero]
        refine ⟨?_,?_,fun a other differs => ?_⟩
        · rw [linked.outside i before (by omega),second,if_pos ⟨rfl,rfl⟩]
        · rw [linked.outside i newNode (by omega),second,if_neg (fun eq => apart eq.2.symm),first,
            if_pos ⟨rfl,rfl⟩,found]
        · rw [linked.outside i a (by omega),second,if_neg (fun eq => other eq.2),first,
            if_neg (fun eq => differs eq.2)]
      | succ k =>
        obtain ⟨here,there,others⟩ := linked.linked k node (by simpa using at')
        rw [elsewhere _ _ (by omega)] at there
        rw [show i + 1 + k = i + (k + 1) by omega] at here there others
        refine ⟨here,there,fun a other differs => ?_⟩
        rw [others a other differs,elsewhere _ _ (by omega)]

variable [LinearOrder Key] {ts below above : List (Tower Key Value)} {key : Key}

omit [LinearOrder Key] in
theorem getRandomLevel_le (s : SkipList Key Value) : s.getRandomLevel.2 ≤ s.maxLevel := by
  simp only [getRandomLevel]
  split
  · next below => exact below.le
  · exact le_rfl

omit [LinearOrder Key] in
theorem createNode_forward (s : SkipList Key Value) (key : Key) (value : Value) (level j : Nat) (a : Addr) :
    (s.createNode key value level).1.forward j a =
      if a = s.unused then (if j ≤ level then some none else none) else s.forward j a := by
  by_cases same : a = s.unused
  · subst same
    by_cases inside : j ≤ level
    · have inside' : j < level + 1 := Nat.lt_succ_of_le inside
      simp [forward,createNode,inside,inside']
    · have outside : ¬ j < level + 1 := by omega
      simp [forward,createNode,inside,outside]
  · simp [forward,createNode,same]

/-- Levels above `curLevel` have no towers, so the header is the last node before the key. -/
theorem Shape.pathTo_take (shape : s.Shape ts) (cut : Cut key ts below above) (level : Nat) :
    (s.pathTo below (s.curLevel + 1) ++ List.replicate (level - s.curLevel) s.header).take (level + 1) =
      s.pathTo below (level + 1) := by
  refine List.ext_getElem? fun j => ?_
  by_cases out : level + 1 ≤ j
  · rw [List.getElem?_eq_none (by simp [pathTo]; omega),List.getElem?_eq_none (by simpa [pathTo] using out)]
  rw [List.getElem?_take_of_lt (by omega)]
  by_cases old : j < s.curLevel + 1
  · rw [List.getElem?_append_left (by simpa [pathTo] using old)]
    simp [pathTo,old,show j < level + 1 by omega]
  · have short : ∀ t ∈ below, ¬ j ≤ t.level := by
      intro t here
      have := shape.levels t (by simp [cut.split,here])
      omega
    have empty : tall j below = [] := by simpa [tall] using short
    rw [List.getElem?_append_right (by simp [pathTo]; omega)]
    simp [pathTo,empty,show j < level + 1 by omega,
      show j - (s.curLevel + 1) < level - s.curLevel by omega]

theorem Cut.mem_insert (cut : Cut key ts below above) (here : u ∈ below ++ t :: above) :
    u = t ∨ u ∈ ts := by
  rw [cut.split]; simp at here ⊢; tauto

omit [LinearOrder Key] in
theorem pathTo_getElem? (s : SkipList Key Value) (below : List (Tower Key Value)) (levels k : Nat) :
    (s.pathTo below levels)[k]? = if k < levels then some (lastOf s.header (tall k below)) else none := by
  by_cases inside : k < levels <;> simp [pathTo,inside]

/-- The nodes of one level in order are all different and were handed out by `new`. -/
theorem Shape.level_distinct (shape : s.Shape ts) (i : Nat) : (s.header :: tall i ts).Nodup :=
  shape.distinct.sublist ((tall_sublist i ts).cons_cons s.header)

theorem Shape.level_used (shape : s.Shape ts) {i : Nat} {a : Addr} (inside : a ∈ s.header :: tall i ts) :
    a < s.unused :=
  shape.used a (((tall_sublist i ts).cons_cons s.header).subset inside)

theorem Cut.lastOf_inside (cut : Cut key ts below above) (first : Addr) (i : Nat) :
    lastOf first (tall i below) ∈ first :: tall i ts := by
  have last := lastOf_mem first (tall i below)
  rw [cut.split,tall_append]
  exact ((List.sublist_append_left _ _).cons_cons first).subset last

theorem Shape.forward_lastOf (shape : s.Shape ts) (cut : Cut key ts below above) (low : i ≤ s.maxLevel) :
    s.forward i (lastOf s.header (tall i below)) = some (tall i above).head? := by
  have chain := shape.chains i low
  rw [cut.split,tall_append] at chain
  exact chain.drop.head

/-- The list right before its levels are linked: the height is drawn and the node exists. -/
def prepared (s : SkipList Key Value) (key : Key) (val : Value) (level draws : Nat) : SkipList Key Value :=
  (createNode { s with drawn := draws, curLevel := max s.curLevel level } key val level).1

theorem Shape.prepared_forward (shape : s.Shape ts) (key : Key) (val : Value) (level draws : Nat)
    (inside : a ∈ s.header :: tall i ts) : (s.prepared key val level draws).forward j a = s.forward j a := by
  have old : a ≠ s.unused := (shape.level_used inside).ne
  exact (createNode_forward ..).trans (if_neg old)

theorem Shape.linked (shape : s.Shape ts) (cut : Cut key ts below above) (absent : ∀ t ∈ above, t.key ≠ key)
    (low : level ≤ s.maxLevel)
    (linked : Linked (s.prepared key val level draws) s' s.unused 0 (s.pathTo below (level + 1))) :
    Shape { s' with elementCount := s'.elementCount + 1 } (below ++ ⟨s.unused,key,val,level⟩ :: above) := by
  obtain ⟨memory,rfl⟩ : ∃ memory, s' = { s.prepared key val level draws with memory } :=
    ⟨_,linked.relinked.rest⟩
  have stands := linked.relinked.stands (t := ⟨s.unused,key,val,level⟩)
    ⟨List.replicate (level + 1) none,by simp [prepared,createNode],by simp⟩
  have others : ∀ t ∈ ts, (s.prepared key val level draws).Stands t := by
    intro t here
    obtain ⟨forward,found,length⟩ := shape.stands t here
    have old : t.address ≠ s.unused := (shape.used _ (by simp; exact .inr ⟨t,here,rfl⟩)).ne
    exact ⟨forward,by simpa [prepared,createNode,old] using found,length⟩
  have address : ∀ a ∈ s.header :: ts.map Tower.address, a < s.unused := shape.used
  constructor
  · rw [cut.split] at shape
    obtain ⟨lower,upper,_⟩ := List.pairwise_append.mp shape.sorted
    refine List.pairwise_append.mpr ⟨lower,List.pairwise_cons.mpr ⟨fun t here => ?_,upper⟩,?_⟩
    · exact lt_of_le_of_ne (cut.large t here) (Ne.symm (absent t here))
    · intro t small u here
      rcases List.mem_cons.mp here with rfl | here
      · exact cut.small t small
      · exact (cut.small t small).trans_le (cut.large u here)
  · intro t here
    rcases cut.mem_insert here with rfl | old
    · exact stands
    · exact linked.relinked.stands (others t old)
  · obtain ⟨node,found,length⟩ := shape.header
    have old : s.header ≠ s.unused := (address _ List.mem_cons_self).ne
    obtain ⟨forward,found',same⟩ := linked.relinked.nodes s.header node.key node.value node.forward
      (by simpa [prepared,createNode,old] using found)
    exact ⟨_,found',same.trans length⟩
  · intro i reach
    have old : Chain ((s.prepared key val level draws).forward i) s.header (tall i ts) :=
      (shape.chains i reach).congr fun node inside => shape.prepared_forward key val level draws inside
    by_cases on : i ≤ level
    · obtain ⟨here,there,others⟩ := linked.linked i (lastOf s.header (tall i below)) (by
        rw [pathTo_getElem?,if_pos (by omega)])
      have distinct := shape.level_distinct i
      have fresh : s.unused ∉ s.header :: tall i ts := fun inside => (shape.level_used inside).ne rfl
      rw [cut.split,tall_append] at distinct fresh old
      rw [tall_append,tall_cons_of_le on]
      rw [Nat.zero_add] at here there others
      exact Chain.insert (tall i below) distinct fresh old here there others
    · rw [tall_append,tall_cons_of_lt (by simpa using on),← tall_append,← cut.split]
      refine old.congr fun node _ => linked.outside i node (.inr ?_)
      simp only [pathTo,List.length_map,List.length_range]
      omega
  · have distinct := shape.distinct
    have fresh : s.unused ∉ s.header :: ts.map Tower.address := fun inside => (address _ inside).ne rfl
    rw [cut.split,List.map_append] at distinct fresh
    simp only [List.map_append,List.map_cons]
    refine (List.Perm.nodup_iff ?_).mpr (List.nodup_cons.mpr ⟨fresh,distinct⟩)
    exact (List.perm_middle.cons _).trans (.swap ..)
  · intro a inside
    have spread : a = s.unused ∨ a ∈ s.header :: ts.map Tower.address := by
      rcases List.mem_cons.mp inside with rfl | inside
      · exact .inr List.mem_cons_self
      · obtain ⟨t,here,rfl⟩ := List.mem_map.mp inside
        rcases cut.mem_insert here with rfl | old
        · exact .inl rfl
        · exact .inr (List.mem_cons_of_mem _ (List.mem_map_of_mem old))
    rcases spread with rfl | old
    · exact Nat.lt_succ_self _
    · exact (address a old).trans (Nat.lt_succ_self _)
  · intro t here
    rcases cut.mem_insert here with rfl | old
    · exact le_max_right _ _
    · exact (shape.levels t old).trans (le_max_left _ _)
  · exact max_le shape.bounded low
  · rcases le_total s.curLevel level with grows | stays
    · exact .inr ⟨_,List.mem_append_right _ List.mem_cons_self,(max_eq_right grows).symm⟩
    · rcases shape.top with zero | ⟨t,here,high⟩
      · exact .inr ⟨_,List.mem_append_right _ List.mem_cons_self,(max_eq_right (zero ▸ Nat.zero_le _)).symm⟩
      · refine .inr ⟨t,?_,high.trans (max_eq_left stays).symm⟩
        rw [cut.split] at here; simp at here ⊢; tauto
  · have count := shape.count
    rw [cut.split] at count
    simp only [List.length_append,List.length_cons] at count ⊢
    exact (congrArg (· + 1) count).trans (by omega)

/-- Each level of the path can be relinked: the pointers are there, on old nodes and the new one. -/
theorem Shape.link (shape : s.Shape ts) (cut : Cut key ts below above) (low : level ≤ s.maxLevel)
    (val : Value) (draws : Nat) : ∃ s',
    SkipList.link s.unused 0 (s.pathTo below (level + 1)) (s.prepared key val level draws) = some s' ∧
    Linked (s.prepared key val level draws) s' s.unused 0 (s.pathTo below (level + 1)) := by
  refine link_spec _ _ _ _ fun k before at' => ?_
  rw [pathTo_getElem?] at at'
  split at at'
  case isFalse => cases at'
  next reach =>
  obtain rfl := Option.some.inj at'
  have inside := cut.lastOf_inside s.header k
  rw [Nat.zero_add]
  refine ⟨(shape.level_used inside).ne,?_,?_⟩
  · rw [shape.prepared_forward key val level draws inside,shape.forward_lastOf cut (by omega)]
    rfl
  · simp [prepared,createNode_forward,show k ≤ level by omega]

/-- An insertion that finds no such key adds one tower at the cut. -/
theorem Shape.insert (shape : s.Shape ts) (cut : Cut key ts below above)
    (absent : ∀ t ∈ above, t.key ≠ key) (val : Value) : ∃ s' t, t.key = key ∧ t.value = val ∧
    s.insertElementNoBlock key val = some (s',0) ∧ s'.Shape (below ++ t :: above) := by
  obtain ⟨linked,done,spec⟩ := shape.link cut s.getRandomLevel_le val (s.drawn + 1)
  refine ⟨_,⟨s.unused,key,val,s.getRandomLevel.2⟩,rfl,rfl,?_,shape.linked cut absent s.getRandomLevel_le spec⟩
  obtain ⟨found,matched,value⟩ := shape.matching cut
  have missing : found = none := by
    cases above with
    | nil => simpa using value
    | cons t above => simpa [Option.filter,absent t List.mem_cons_self] using value
  subst missing
  rw [← shape.pathTo_take cut] at done
  simp only [insertElementNoBlock,shape.locate cut,Option.bind_eq_bind,Option.bind_some,matched]
  exact (congrArg (Option.bind · _) done).trans rfl

/-- An insertion that finds the key does nothing. -/
theorem Shape.insert_present (shape : s.Shape ts) (cut : Cut key ts below (t :: above))
    (present : t.key = key) (val : Value) : s.insertElementNoBlock key val = some (s,1) := by
  obtain ⟨found,matched,value⟩ := shape.matching cut
  obtain ⟨node,rfl⟩ : ∃ node, found = some node := by
    cases found with
    | none => simp [Option.filter,present] at value
    | some node => exact ⟨node,rfl⟩
  simp only [insertElementNoBlock,shape.locate cut,Option.bind_eq_bind,Option.bind_some,matched]
  rfl

/-! ### Deletion -/

/-- `unlink` hands the pointers of `curNode` on up to `level` to the nodes before it. -/
structure Unlinked (s s' : SkipList Key Value) (curNode : Addr) (i level : Nat) (update : List Addr) :
    Prop where
  relinked : Relinked s s'
  outside : ∀ j a, j < i ∨ level < j → s'.forward j a = s.forward j a
  unlinked : ∀ k before, update[k]? = some before → i + k ≤ level →
    s'.forward (i + k) before = s.forward (i + k) curNode ∧
    ∀ a, a ≠ before → s'.forward (i + k) a = s.forward (i + k) a

omit [LinearOrder Key] in
theorem unlink_spec (curNode : Addr) (level : Nat) (update : List Addr) (i : Nat) (s : SkipList Key Value)
    (ready : ∀ k before, update[k]? = some before → before ≠ curNode ∧
      (∃ next, s.forward (i + k) before = some next ∧ (next = some curNode ↔ i + k ≤ level)) ∧
      (i + k ≤ level → (s.forward (i + k) curNode).isSome)) :
    ∃ s', unlink curNode i update s = some s' ∧ Unlinked s s' curNode i level update := by
  induction update generalizing i s with
  | nil => exact ⟨s,rfl,.refl s,fun _ _ _ => rfl,by simp⟩
  | cons before update ih =>
    obtain ⟨apart,⟨next,found,points⟩,rest⟩ : before ≠ curNode ∧
        (∃ next, s.forward i before = some next ∧ (next = some curNode ↔ i ≤ level)) ∧
        (i ≤ level → (s.forward i curNode).isSome) := ready 0 before rfl
    by_cases reach : i ≤ level
    · obtain ⟨after,there⟩ := Option.isSome_iff_exists.mp (rest reach)
      have set := setForward_forward s i before after (by rw [found]; rfl)
      let middle := s.setForward i before after
      have elsewhere : ∀ j a, j ≠ i → middle.forward j a = s.forward j a :=
        fun j a differs => (set j a).trans (if_neg fun eq => differs eq.1)
      obtain ⟨s',done,unlinked⟩ := ih (i + 1) middle fun k node at' => by
        have := ready (k + 1) node (by simpa using at')
        rw [show i + (k + 1) = i + 1 + k by omega] at this
        rwa [elsewhere _ _ (by omega),elsewhere _ _ (by omega)]
      refine ⟨s',by simpa [unlink,found,points.mpr reach,there] using done,?_,fun j a out => ?_,
        fun k node at' within => ?_⟩
      · exact (relinked_setForward ..).trans unlinked.relinked
      · rw [unlinked.outside j a (by omega),elsewhere j a (by omega)]
      · cases k with
        | zero =>
          obtain rfl : before = node := by simpa using at'
          simp only [Nat.add_zero]
          refine ⟨?_,fun a other => ?_⟩
          · rw [unlinked.outside i before (by omega)]
            exact ((set i before).trans (if_pos ⟨rfl,rfl⟩)).trans there.symm
          · rw [unlinked.outside i a (by omega)]
            exact (set i a).trans (if_neg fun eq => other eq.2)
        | succ k =>
          obtain ⟨here,others⟩ := unlinked.unlinked k node (by simpa using at') (by omega)
          rw [elsewhere _ _ (by omega)] at here
          rw [show i + 1 + k = i + (k + 1) by omega] at here others
          refine ⟨here,fun a other => ?_⟩
          rw [others a other,elsewhere _ _ (by omega)]
    · have stop : next ≠ some curNode := fun eq => reach (points.mp eq)
      exact ⟨s,by simp [unlink,found,stop],.refl s,fun _ _ _ => rfl,fun k node at' within => by omega⟩

omit [LinearOrder Key] in
theorem topLevel_spec (level : Nat) (there : ∀ j ≤ level, (s.forward j s.header).isSome) :
    ∃ top ≤ level, s.topLevel level = some top ∧
      (top = 0 ∨ ∃ a, s.forward top s.header = some (some a)) ∧
      ∀ j, top < j → j ≤ level → s.forward j s.header = some none := by
  induction level with
  | zero => exact ⟨0,le_rfl,rfl,.inl rfl,fun j above below => by omega⟩
  | succ level ih =>
    obtain ⟨next,found⟩ := Option.isSome_iff_exists.mp (there (level + 1) le_rfl)
    cases next with
    | none =>
      obtain ⟨top,low,done,held,empty⟩ := ih fun j below => there j (by omega)
      refine ⟨top,by omega,by simpa [topLevel,found] using done,held,fun j above below => ?_⟩
      rcases Nat.lt_or_eq_of_le below with below | rfl
      · exact empty j above (by omega)
      · exact found
    | some a =>
      exact ⟨level + 1,le_rfl,by simp [topLevel,found],.inr ⟨a,found⟩,fun j above below => by omega⟩

theorem Shape.apart (shape : s.Shape ts) (cut : Cut key ts below (t :: above)) :
    (∀ a ∈ s.header :: below.map Tower.address, a ≠ t.address) ∧ t.address ∉ above.map Tower.address := by
  have distinct := shape.distinct
  rw [cut.split,List.map_append,List.map_cons,← List.cons_append] at distinct
  obtain ⟨_,upper,cross⟩ := List.nodup_append.mp distinct
  exact ⟨fun a inside => cross a inside _ List.mem_cons_self,(List.nodup_cons.mp upper).1⟩

theorem Shape.lastOf_apart (shape : s.Shape ts) (cut : Cut key ts below (t :: above)) (i : Nat) :
    lastOf s.header (tall i below) ≠ t.address :=
  (shape.apart cut).1 _ (((tall_sublist i below).cons_cons s.header).subset (lastOf_mem ..))

theorem Shape.forward_at (shape : s.Shape ts) (cut : Cut key ts below (t :: above)) (on : i ≤ t.level) :
    s.forward i t.address = some (tall i above).head? := by
  have low : i ≤ s.maxLevel :=
    on.trans ((shape.levels t (by simp [cut.split])).trans shape.bounded)
  have chain := shape.chains i low
  rw [cut.split,tall_append,tall_cons_of_le on] at chain
  exact chain.drop.2.head

/-- The path ends at the node to delete on exactly the levels that the node is on. -/
theorem Shape.unlink (shape : s.Shape ts) (cut : Cut key ts below (t :: above)) : ∃ s',
    SkipList.unlink t.address 0 (s.pathTo below (s.curLevel + 1)) s = some s' ∧
    Unlinked s s' t.address 0 t.level (s.pathTo below (s.curLevel + 1)) := by
  refine unlink_spec _ _ _ _ _ fun k before at' => ?_
  rw [pathTo_getElem?] at at'
  split at at'
  case isFalse => cases at'
  next reach =>
  obtain rfl := Option.some.inj at'
  have bounded := shape.bounded
  rw [Nat.zero_add]
  refine ⟨shape.lastOf_apart cut k,⟨_,shape.forward_lastOf cut (by omega),?_⟩,
    fun on => by rw [shape.forward_at cut on]; rfl⟩
  by_cases on : k ≤ t.level
  · simp [tall_cons_of_le on,on]
  · rw [tall_cons_of_lt (Nat.lt_of_not_le on)]
    refine ⟨fun points => ?_,fun on' => absurd on' on⟩
    have inside := (tall_sublist k above).subset (List.mem_of_head? points)
    exact absurd inside (shape.apart cut).2

theorem Shape.unlinked_chains (shape : s.Shape ts) (cut : Cut key ts below (t :: above))
    (unlinked : Unlinked s s' t.address 0 t.level (s.pathTo below (s.curLevel + 1))) (low : i ≤ s.maxLevel) :
    Chain (s'.forward i) s.header (tall i (below ++ above)) := by
  have chain := shape.chains i low
  have distinct := shape.level_distinct i
  by_cases on : i ≤ t.level
  · have reach := shape.levels t (by simp [cut.split])
    rw [cut.split,tall_append,tall_cons_of_le on] at chain distinct
    obtain ⟨handed,others⟩ := unlinked.unlinked i (lastOf s.header (tall i below))
      (by rw [pathTo_getElem?,if_pos (by omega)]) (by omega)
    rw [Nat.zero_add] at handed others
    rw [tall_append]
    exact Chain.remove _ distinct chain handed others
  · rw [cut.split,tall_append,tall_cons_of_lt (Nat.lt_of_not_le on),← tall_append] at chain
    exact chain.congr fun node _ => unlinked.outside i node (.inr (by omega))

/-- The list after the loops of `deleteElement`. -/
def removed (s : SkipList Key Value) (curNode : Addr) (curLevel : Nat) : SkipList Key Value :=
  { s with curLevel, memory := Function.update s.memory curNode none, elementCount := s.elementCount - 1 }

theorem Shape.removed (shape : s.Shape ts) (cut : Cut key ts below (t :: above)) {highest : Nat}
    (unlinked : Unlinked s s' t.address 0 t.level (s.pathTo below (s.curLevel + 1)))
    (low : highest ≤ s.curLevel)
    (held : highest = 0 ∨ ∃ a, s'.forward highest s'.header = some (some a))
    (empty : ∀ j, highest < j → j ≤ s.curLevel → s'.forward j s'.header = some none) :
    (s'.removed t.address highest).Shape (below ++ above) := by
  obtain ⟨memory,rfl⟩ : ∃ memory, s' = { s with memory } := ⟨_,unlinked.relinked.rest⟩
  obtain ⟨before,after⟩ := shape.apart cut
  have chains := fun i low => shape.unlinked_chains cut unlinked low (i := i)
  have stays : ∀ u ∈ below ++ above, u ∈ ts ∧ u.address ≠ t.address := by
    intro u here
    rcases List.mem_append.mp here with here | here
    · exact ⟨by simp [cut.split,here],before _ (List.mem_cons_of_mem _ (List.mem_map_of_mem here))⟩
    · exact ⟨by simp [cut.split,here],fun eq => after (eq ▸ List.mem_map_of_mem here)⟩
  have kept : (s.header :: (below ++ above).map Tower.address).Sublist (s.header :: ts.map Tower.address) := by
    rw [cut.split]
    exact (((List.sublist_cons_self t above).append_left below).map _).cons_cons _
  have header : s.header ≠ t.address := before _ List.mem_cons_self
  have bounded := shape.bounded
  have lower : ∀ u ∈ below ++ above, u.level ≤ highest := by
    intro u here
    by_contra beyond
    have within := shape.levels u (stays u here).1
    have none := (chains u.level (by omega)).head.symm.trans (empty u.level (by omega) within)
    have inside : u.address ∈ tall u.level (below ++ above) := mem_tall.mpr ⟨u,here,le_rfl,rfl⟩
    rw [List.head?_eq_none_iff.mp (Option.some.inj none)] at inside
    exact absurd inside List.not_mem_nil
  constructor
  · have sorted := shape.sorted
    rw [cut.split] at sorted
    exact sorted.sublist ((List.sublist_cons_self t above).append_left below)
  · intro u here
    obtain ⟨old,other⟩ := stays u here
    obtain ⟨forward,found,length⟩ := unlinked.relinked.stands (shape.stands u old)
    exact ⟨forward,by simpa [SkipList.removed,other] using found,length⟩
  · obtain ⟨node,found,length⟩ := shape.header
    obtain ⟨forward,found',same⟩ := unlinked.relinked.nodes s.header node.key node.value node.forward found
    exact ⟨_,(Function.update_of_ne header ..).trans found',same.trans length⟩
  · intro i reach
    refine (chains i reach).congr fun node inside => ?_
    have other : node ≠ t.address := by
      rcases List.mem_cons.mp inside with rfl | inside
      · exact header
      · obtain ⟨u,here,_,rfl⟩ := mem_tall.mp inside
        exact (stays u here).2
    simp [forward,SkipList.removed,other]
  · exact shape.distinct.sublist kept
  · exact fun a inside => shape.used a (kept.subset inside)
  · exact lower
  · exact low.trans bounded
  · rcases held with zero | ⟨a,found⟩
    · exact .inl zero
    · have first := Option.some.inj ((chains highest (by omega)).head.symm.trans found)
      obtain ⟨u,here,reach,_⟩ := mem_tall.mp (List.mem_of_head? first)
      exact .inr ⟨u,here,le_antisymm (lower u here) reach⟩
  · have count := shape.count
    rw [cut.split] at count
    simp only [List.length_append,List.length_cons] at count ⊢
    exact (congrArg (· - 1) count).trans (by omega)

theorem Shape.delete (shape : s.Shape ts) (cut : Cut key ts below (t :: above)) (present : t.key = key) :
    ∃ s', s.deleteElement key = some s' ∧ s'.Shape (below ++ above) := by
  obtain ⟨relinked,done,unlinked⟩ := shape.unlink cut
  have same : relinked.header = s.header ∧ relinked.curLevel = s.curLevel := by
    rw [unlinked.relinked.rest]; exact ⟨rfl,rfl⟩
  obtain ⟨highest,low,found,held,empty⟩ := topLevel_spec (s := relinked) s.curLevel fun j below => by
    rw [same.1,(shape.unlinked_chains cut unlinked (below.trans shape.bounded)).head]
    rfl
  obtain ⟨node,matched,value⟩ := shape.matching cut
  obtain ⟨node,rfl⟩ : ∃ found, node = some found := by
    cases node with
    | none => simp [Option.filter,present] at value
    | some found => exact ⟨found,rfl⟩
  refine ⟨relinked.removed t.address highest,?_,shape.removed cut unlinked low held empty⟩
  simp only [List.head?_cons,Option.map_some] at matched
  simp only [deleteElement,shape.locate cut,Option.bind_eq_bind,Option.bind_some,List.head?_cons,
    Option.map_some,matched,done,same.2,found]
  rfl

theorem Shape.delete_absent (shape : s.Shape ts) (cut : Cut key ts below above)
    (absent : ∀ t ∈ above, t.key ≠ key) : s.deleteElement key = some s := by
  obtain ⟨found,matched,value⟩ := shape.matching cut
  obtain rfl : found = none := by
    cases above with
    | nil => simpa using value
    | cons t above => simpa [Option.filter,absent t List.mem_cons_self] using value
  simp only [deleteElement,shape.locate cut,Option.bind_eq_bind,Option.bind_some,matched]
  cases above.head? <;> rfl

end KvStorage.SkipList
