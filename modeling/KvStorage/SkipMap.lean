import KvStorage.SkipListUpdate

/-! A skip list is a finite map whatever the random levels: the operations are total on
lists that were built by them, and each is the map operation it stands for. -/
namespace KvStorage

variable {Key Value : Type} [LinearOrder Key]

/-! ### Towers as a map -/

def lookup (ts : List (Tower Key Value)) (key : Key) : Option Value :=
  (ts.find? fun t => t.key = key).map Tower.value

namespace SkipList

variable {s s' : SkipList Key Value} {ts below above : List (Tower Key Value)} {key : Key}

theorem lookup_append (key : Key) (below above : List (Tower Key Value)) :
    lookup (below ++ above) key = (lookup below key).or (lookup above key) := by
  unfold lookup
  rw [List.find?_append]
  cases below.find? fun t => t.key = key <;> rfl

theorem lookup_eq_none : lookup ts key = none ↔ ∀ t ∈ ts, t.key ≠ key := by
  simp [lookup]

theorem Cut.lookup_below (cut : Cut key ts below above) : lookup below key = none :=
  lookup_eq_none.mpr fun t here => (cut.small t here).ne

/-- Either the tower of the key comes first after the cut, or no tower has the key. -/
theorem Shape.cases (shape : s.Shape ts) (key : Key) :
    (∃ below t above, Cut key ts below (t :: above) ∧ t.key = key) ∨
    ∃ below above, Cut key ts below above ∧ ∀ t ∈ above, t.key ≠ key := by
  obtain ⟨below,above,cut⟩ := exists_cut shape.sorted key
  cases above with
  | nil => exact .inr ⟨below,[],cut,by simp⟩
  | cons t above =>
    by_cases same : t.key = key
    · exact .inl ⟨below,t,above,cut,same⟩
    · refine .inr ⟨below,t :: above,cut,fun u here => ?_⟩
      have smaller : key < t.key := lt_of_le_of_ne (cut.large t List.mem_cons_self) (Ne.symm same)
      have sorted := shape.sorted
      rw [cut.split] at sorted
      have first := (List.pairwise_cons.mp (List.pairwise_append.mp sorted).2.1).1
      rcases List.mem_cons.mp here with rfl | here
      · exact same
      · exact (smaller.trans (first u here)).ne'

theorem lookup_cut_present (cut : Cut key ts below (t :: above)) (present : t.key = key) :
    lookup ts key = some t.value := by
  rw [cut.split,lookup_append,cut.lookup_below]
  simp [lookup,present]

theorem lookup_cut_absent (cut : Cut key ts below above) (absent : ∀ t ∈ above, t.key ≠ key) :
    lookup ts key = none := by
  rw [cut.split,lookup_append,cut.lookup_below,lookup_eq_none.mpr absent]
  rfl

theorem lookup_cons (t : Tower Key Value) (key : Key) (ts : List (Tower Key Value)) :
    lookup (t :: ts) key = if t.key = key then some t.value else lookup ts key := by
  by_cases same : t.key = key <;> simp [lookup,same]

/-- One more tower for a key that has none is an update. -/
theorem lookup_insert (t : Tower Key Value) (absent : lookup below t.key = none) :
    lookup (below ++ t :: above) = Function.update (lookup (below ++ above)) t.key (some t.value) := by
  funext key
  by_cases same : key = t.key
  · subst same
    simp [lookup_append,lookup_cons,absent]
  · simp [lookup_append,lookup_cons,same,Ne.symm same]

theorem lookup_remove (t : Tower Key Value) (distinct : lookup (below ++ above) t.key = none) :
    lookup (below ++ above) = Function.update (lookup (below ++ t :: above)) t.key none := by
  funext key
  by_cases same : key = t.key
  · subst same
    simpa using distinct
  · simp [lookup_append,lookup_cons,same,Ne.symm same]

/-! ### The operations on the map -/

theorem Shape.search (shape : s.Shape ts) (key : Key) : s.searchElement key = some (lookup ts key) := by
  rcases shape.cases key with ⟨below,t,above,cut,present⟩ | ⟨below,above,cut,absent⟩
  · obtain ⟨found,matched,value⟩ := shape.matching cut
    simp only [searchElement,shape.locate cut,Option.bind_eq_bind,Option.bind_some,matched,value,
      lookup_cut_present cut present]
    simp [Option.filter,present]
  · obtain ⟨found,matched,value⟩ := shape.matching cut
    simp only [searchElement,shape.locate cut,Option.bind_eq_bind,Option.bind_some,matched,value,
      lookup_cut_absent cut absent]
    cases above with
    | nil => rfl
    | cons t above => simp [Option.filter,absent t List.mem_cons_self]

/-- An existing value is kept. -/
theorem Shape.insertElementNoBlock (shape : s.Shape ts) (key : Key) (val : Value) : ∃ s' code ts',
    s.insertElementNoBlock key val = some (s',code) ∧ s'.Shape ts' ∧
    lookup ts' = Function.update (lookup ts) key (some ((lookup ts key).getD val)) := by
  rcases shape.cases key with ⟨below,t,above,cut,present⟩ | ⟨below,above,cut,absent⟩
  · refine ⟨s,1,ts,shape.insert_present cut present val,shape,?_⟩
    have held := lookup_cut_present cut present
    rw [held]
    exact (Function.update_eq_self_iff.mpr held.symm).symm
  · obtain ⟨s',t,rfl,rfl,done,shape'⟩ := shape.insert cut absent val
    refine ⟨s',0,_,done,shape',?_⟩
    rw [lookup_insert t cut.lookup_below,← cut.split,lookup_cut_absent cut absent]
    rfl

theorem Shape.deleteElement (shape : s.Shape ts) (key : Key) : ∃ s' ts',
    s.deleteElement key = some s' ∧ s'.Shape ts' ∧ lookup ts' = Function.update (lookup ts) key none := by
  rcases shape.cases key with ⟨below,t,above,cut,rfl⟩ | ⟨below,above,cut,absent⟩
  · obtain ⟨s',done,shape'⟩ := shape.delete cut rfl
    refine ⟨s',_,done,shape',?_⟩
    have sorted := shape.sorted
    rw [cut.split] at sorted
    have first := (List.pairwise_cons.mp (List.pairwise_append.mp sorted).2.1).1
    rw [cut.split]
    refine lookup_remove t ?_
    rw [lookup_append,cut.lookup_below,lookup_eq_none.mpr fun u here => (first u here).ne']
    rfl
  · refine ⟨s,ts,shape.delete_absent cut absent,shape,?_⟩
    exact (Function.update_eq_self_iff.mpr (lookup_cut_absent cut absent).symm).symm

theorem Shape.insertSetElement (shape : s.Shape ts) (key : Key) (val : Value) : ∃ s' ts',
    s.insertSetElement key val = some s' ∧ s'.Shape ts' ∧
    lookup ts' = Function.update (lookup ts) key (some val) := by
  cases held : lookup ts key with
  | none =>
    obtain ⟨s',code,ts',done,shape',same⟩ := shape.insertElementNoBlock key val
    refine ⟨s',ts',?_,shape',by rw [same,held]; rfl⟩
    simp [SkipList.insertSetElement,shape.search key,held,insertElement,done]
  | some old =>
    obtain ⟨middle,ts₁,deleted,shape₁,same₁⟩ := shape.deleteElement key
    obtain ⟨s',code,ts',done,shape',same⟩ := shape₁.insertElementNoBlock key val
    refine ⟨s',ts',?_,shape',by rw [same,same₁]; simp⟩
    simp [SkipList.insertSetElement,shape.search key,held,insertElement,deleted,done]

/-! ### Dump and load -/

omit [LinearOrder Key] in
theorem walk_spec (fuel : Nat) (stands : ∀ t ∈ ts, s.Stands t)
    (chain : Chain (s.forward 0) first (ts.map Tower.address)) (enough : ts.length ≤ fuel) :
    s.walk fuel (ts.head?.map Tower.address) = some (ts.map fun t => (t.key,t.value)) := by
  induction ts generalizing first fuel with
  | nil => cases fuel <;> rfl
  | cons t ts ih =>
    obtain ⟨fuel,rfl⟩ : ∃ k, fuel = k + 1 := ⟨fuel - 1,by simp at enough; omega⟩
    obtain ⟨forward,found,_⟩ := stands t List.mem_cons_self
    have later := ih fuel (fun u here => stands u (List.mem_cons_of_mem _ here)) chain.2
      (by simpa using enough)
    simp [walk,found,chain.2.head,later]

omit [LinearOrder Key] in
/-- The dump of the towers. -/
def dumpOf (ts : List (Tower Key Value)) : SkipListDump Key Value :=
  ⟨ts.map Tower.key,ts.map Tower.value,by simp⟩

theorem Shape.dumpFile (shape : s.Shape ts) : s.dumpFile = some (dumpOf ts) := by
  have chain := shape.chains 0 (Nat.zero_le _)
  rw [tall_zero] at chain
  have walked := walk_spec s.elementCount shape.stands chain (le_of_eq shape.count.symm)
  simp [SkipList.dumpFile,dumpOf,chain.head,walked]

end SkipList

/-- The first value dumped for the key. -/
def SkipListDump.lookup (dump : SkipListDump Key Value) (key : Key) : Option Value :=
  ((dump.keyDumpVt.zip dump.valDumpVt).find? fun item => item.1 = key).map Prod.snd

namespace SkipList

variable {s s' : SkipList Key Value} {ts : List (Tower Key Value)}

theorem dumpOf_lookup (ts : List (Tower Key Value)) : (dumpOf ts).lookup = lookup ts := by
  funext key
  simp only [dumpOf,SkipListDump.lookup,lookup,List.zip_map']
  rw [List.find?_map,Option.map_map]
  rfl

theorem Shape.loadItems (shape : s.Shape ts) (keys : List Key) (vals : List Value)
    (paired : keys.length = vals.length) : ∃ s' ts', loadItems keys vals s = some s' ∧ s'.Shape ts' ∧
    ∀ key, lookup ts' key = (lookup ts key).or (SkipListDump.lookup ⟨keys,vals,paired⟩ key) := by
  induction keys generalizing vals s ts with
  | nil => exact ⟨s,ts,rfl,shape,fun key => by simp [SkipListDump.lookup]⟩
  | cons key keys ih =>
    cases vals with
    | nil => cases paired
    | cons val vals =>
      obtain ⟨middle,code,ts₁,first,shape₁,same₁⟩ := shape.insertElementNoBlock key val
      obtain ⟨s',ts',rest,shape',same⟩ := ih shape₁ vals (by simpa using paired)
      refine ⟨s',ts',by simp [SkipList.loadItems,first,rest],shape',fun other => ?_⟩
      rw [same,same₁]
      by_cases eq : other = key
      · subst eq
        cases lookup ts other <;> simp [SkipListDump.lookup]
      · simp [SkipListDump.lookup,eq,Ne.symm eq]

end SkipList

/-! ### Lists that the operations build -/

/-- A skip list with the proof that its memory has the shape of one. -/
structure SkipMap (Key Value : Type) [LinearOrder Key] where
  list : SkipList Key Value
  wellformed : ∃ ts, list.Shape ts

namespace SkipMap

variable (m : SkipMap Key Value)

def new [Inhabited Key] [Inhabited Value] (maxLevel : Nat) (rand : Nat → Nat) : SkipMap Key Value :=
  ⟨.new maxLevel rand,[],SkipList.new_shape maxLevel rand⟩

theorem search_isSome (key : Key) : (m.list.searchElement key).isSome := by
  obtain ⟨ts,shape⟩ := m.wellformed
  rw [shape.search key]; rfl

def searchElement (key : Key) : Option Value := (m.list.searchElement key).get (m.search_isSome key)

theorem insertSet_isSome (key : Key) (val : Value) : (m.list.insertSetElement key val).isSome := by
  obtain ⟨ts,shape⟩ := m.wellformed
  obtain ⟨s',ts',done,_⟩ := shape.insertSetElement key val
  rw [done]; rfl

def insertSetElement (key : Key) (val : Value) : SkipMap Key Value where
  list := (m.list.insertSetElement key val).get (m.insertSet_isSome key val)
  wellformed := by
    obtain ⟨ts,shape⟩ := m.wellformed
    obtain ⟨s',ts',done,shape',_⟩ := shape.insertSetElement key val
    exact ⟨ts',by simpa [done] using shape'⟩

theorem dump_isSome : m.list.dumpFile.isSome := by
  obtain ⟨ts,shape⟩ := m.wellformed
  rw [shape.dumpFile]; rfl

def dumpFile : SkipListDump Key Value := m.list.dumpFile.get m.dump_isSome

theorem load_isSome (dump : SkipListDump Key Value) : (m.list.loadFile dump).isSome := by
  obtain ⟨ts,shape⟩ := m.wellformed
  obtain ⟨s',ts',done,_⟩ := shape.loadItems dump.keyDumpVt dump.valDumpVt dump.paired
  rw [SkipList.loadFile,done]; rfl

def loadFile (dump : SkipListDump Key Value) : SkipMap Key Value where
  list := (m.list.loadFile dump).get (m.load_isSome dump)
  wellformed := by
    obtain ⟨ts,shape⟩ := m.wellformed
    obtain ⟨s',ts',done,shape',_⟩ := shape.loadItems dump.keyDumpVt dump.valDumpVt dump.paired
    exact ⟨ts',by simpa [SkipList.loadFile,done] using shape'⟩

/-- The map that the list represents: what its own search answers. -/
def contents : Key → Option Value := m.searchElement

theorem contents_eq (shape : m.list.Shape ts) : m.contents = lookup ts := by
  funext key
  simp [contents,searchElement,shape.search key]

@[simp] theorem contents_new [Inhabited Key] [Inhabited Value] (maxLevel : Nat) (rand : Nat → Nat) :
    (new maxLevel rand : SkipMap Key Value).contents = fun _ => none :=
  contents_eq (new maxLevel rand) (SkipList.new_shape maxLevel rand)

@[simp] theorem contents_insertSetElement (key : Key) (val : Value) :
    (m.insertSetElement key val).contents = Function.update m.contents key (some val) := by
  obtain ⟨ts,shape⟩ := m.wellformed
  obtain ⟨s',ts',done,shape',same⟩ := shape.insertSetElement key val
  rw [contents_eq m shape,← same]
  exact contents_eq _ (by simpa [insertSetElement,done] using shape')

@[simp] theorem lookup_dumpFile : m.dumpFile.lookup = m.contents := by
  obtain ⟨ts,shape⟩ := m.wellformed
  rw [contents_eq m shape,← SkipList.dumpOf_lookup]
  simp only [dumpFile,shape.dumpFile,Option.get_some]

/-- Keys already there keep their values. -/
@[simp] theorem contents_loadFile (dump : SkipListDump Key Value) (key : Key) :
    (m.loadFile dump).contents key = (m.contents key).or (dump.lookup key) := by
  obtain ⟨ts,shape⟩ := m.wellformed
  obtain ⟨s',ts',done,shape',same⟩ := shape.loadItems dump.keyDumpVt dump.valDumpVt dump.paired
  rw [contents_eq m shape,← same]
  exact congrFun (contents_eq _ (by simpa [loadFile,SkipList.loadFile,done] using shape')) key

end SkipMap
end KvStorage
