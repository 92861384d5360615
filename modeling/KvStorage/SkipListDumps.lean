import KvStorage.SkipListRuns

/-! Dumps of skip lists. The walk along level 0 shows the keys in order and nothing of the heights,
so lists of the same contents have one dump, and a dump loaded into a new list is dumped again. -/
namespace KvStorage

variable {Key Value : Type} [LinearOrder Key]

omit [LinearOrder Key] in
/-- A text archive of the two vectors; it begins with a header, so it is never empty. -/
structure TextArchive (Key Value : Type) where
  save : SkipListDump Key Value → String
  load : String → Option (SkipListDump Key Value)
  load_save : ∀ dump, load (save dump) = some dump
  save_nonempty : ∀ dump, save dump ≠ ""

omit [LinearOrder Key] in
theorem TextArchive.save_injective (archive : TextArchive Key Value) : Function.Injective archive.save := by
  intro dump dump' same
  have loaded := congrArg archive.load same
  rw [archive.load_save,archive.load_save] at loaded
  exact Option.some.inj loaded

omit [LinearOrder Key] in
/-- There are archives: a dump's number in unary. -/
example [Encodable (SkipListDump Key Value)] : TextArchive Key Value where
  save dump := String.ofList (List.replicate (Encodable.encode dump + 1) '1')
  load str := Encodable.decode (str.length - 1)
  load_save dump := by simp
  save_nonempty dump := by simp

/-! ### Items -/

/-- Keys and values in the order of the towers. -/
def items (ts : List (Tower Key Value)) : List (Key × Value) := ts.map fun t => (t.key,t.value)

theorem mem_items (sorted : ts.Pairwise fun t u : Tower Key Value => t.key < u.key) :
    (key,value) ∈ items ts ↔ lookup ts key = some value := by
  induction ts with
  | nil => simp [items,lookup]
  | cons t ts ih =>
    obtain ⟨above,rest⟩ := List.pairwise_cons.mp sorted
    have later := ih rest
    simp only [items] at later
    rw [SkipList.lookup_cons,items,List.map_cons,List.mem_cons,later]
    split
    · next same =>
      -- the later towers have larger keys
      have absent : lookup ts key = none :=
        SkipList.lookup_eq_none.mpr fun u here => same ▸ (above u here).ne'
      rw [absent]
      constructor
      · rintro (equal | wrong)
        · exact congrArg some (Prod.mk.inj equal).2.symm
        · cases wrong
      · intro equal
        exact .inl (Prod.ext same.symm (Option.some.inj equal).symm)
    · next other =>
      constructor
      · rintro (equal | found)
        · exact absurd (Prod.mk.inj equal).1.symm other
        · exact found
      · exact .inr

def ItemBelow (a b : Key × Value) : Prop := a.1 < b.1

instance : Std.Antisymm (ItemBelow : Key × Value → Key × Value → Prop) :=
  ⟨fun _ _ less more => absurd more less.not_gt⟩

instance : Std.Irrefl (ItemBelow : Key × Value → Key × Value → Prop) := ⟨fun _ => lt_irrefl _⟩

theorem items_sorted (sorted : ts.Pairwise fun t u : Tower Key Value => t.key < u.key) :
    (items ts).Pairwise ItemBelow := List.pairwise_map.mpr sorted

/-- Sorted towers of the same map show the same items. -/
theorem items_eq_iff {ts ts' : List (Tower Key Value)}
    (sorted : ts.Pairwise fun t u => t.key < u.key) (sorted' : ts'.Pairwise fun t u => t.key < u.key) :
    items ts = items ts' ↔ lookup ts = lookup ts' := by
  constructor
  · intro same
    funext key
    apply Option.ext
    intro value
    exact (mem_items sorted).symm.trans (same ▸ mem_items sorted')
  · intro same
    refine List.Pairwise.eq_of_mem_iff (items_sorted sorted) (items_sorted sorted') ?_
    rintro ⟨key,value⟩
    exact (mem_items sorted).trans (same ▸ (mem_items sorted').symm)

namespace SkipList

variable {s s' : SkipList Key Value} {ts ts' : List (Tower Key Value)}

omit [LinearOrder Key] in
def size (s : SkipList Key Value) : Nat := s.elementCount

/-- The string that `dumpFile` returns. -/
def dumpString (archive : TextArchive Key Value) (s : SkipList Key Value) : Option String :=
  s.dumpFile.map archive.save

/-- `loadFile` of a string; nothing is done with an empty one. -/
def loadString (archive : TextArchive Key Value) (s : SkipList Key Value) (dumpStr : String) :
    Option (SkipList Key Value) :=
  if dumpStr = "" then some s else (archive.load dumpStr).bind s.loadFile

omit [LinearOrder Key] in
theorem dumpOf_eq_iff : dumpOf ts = dumpOf ts' ↔ items ts = items ts' := by
  have fst : ∀ us : List (Tower Key Value), (items us).map Prod.fst = us.map Tower.key := by simp [items]
  have snd : ∀ us : List (Tower Key Value), (items us).map Prod.snd = us.map Tower.value := by simp [items]
  have zip : ∀ us : List (Tower Key Value), items us = (us.map Tower.key).zip (us.map Tower.value) := by
    simp [items,List.zip_map']
  constructor
  · intro same
    obtain ⟨keys,values⟩ := SkipListDump.mk.inj same
    rw [zip,zip,keys,values]
  · intro same
    simp only [dumpOf,← fst,← snd,same]

theorem Shape.dumpString (shape : s.Shape ts) (archive : TextArchive Key Value) :
    s.dumpString archive = some (archive.save (dumpOf ts)) := by
  rw [SkipList.dumpString,shape.dumpFile]
  rfl

/-! ### Operations that build a list -/

/-- The operations that change a list; a loaded string is the dump of some list. -/
inductive BuildOp (Key Value : Type) where
  | update (op : MapOp Key Value)
  | loadFile (dump : SkipListDump Key Value)

def build (archive : TextArchive Key Value) (s : SkipList Key Value) : BuildOp Key Value → Option (SkipList Key Value)
  | .update op => s.perform op
  | .loadFile dump => s.loadString archive (archive.save dump)

theorem loadString_save (archive : TextArchive Key Value) (s : SkipList Key Value)
    (dump : SkipListDump Key Value) : s.loadString archive (archive.save dump) = s.loadFile dump := by
  rw [loadString,if_neg (archive.save_nonempty dump),archive.load_save]
  rfl

theorem Shape.loadFile (shape : s.Shape ts) (dump : SkipListDump Key Value) : ∃ s' ts',
    s.loadFile dump = some s' ∧ s'.Shape ts' ∧ ∀ key, lookup ts' key = (lookup ts key).or (dump.lookup key) :=
  shape.loadItems dump.keyDumpVt dump.valDumpVt dump.paired

theorem Shape.build (shape : s.Shape ts) (archive : TextArchive Key Value) (op : BuildOp Key Value) :
    ∃ s' ts', s.build archive op = some s' ∧ s'.Shape ts' := by
  cases op with
  | update op =>
    obtain ⟨s',ts',done,shape',_⟩ := shape.perform op
    exact ⟨s',ts',done,shape'⟩
  | loadFile dump =>
    obtain ⟨s',ts',done,shape',_⟩ := shape.loadFile dump
    exact ⟨s',ts',(loadString_save archive s dump).trans done,shape'⟩

theorem Shape.builds (shape : s.Shape ts) (archive : TextArchive Key Value) (ops : List (BuildOp Key Value)) :
    ∃ s' ts', Run.run (SkipList.build archive) s ops = some s' ∧ s'.Shape ts' := by
  induction ops generalizing s ts with
  | nil => exact ⟨s,ts,rfl,shape⟩
  | cons op ops ih =>
    obtain ⟨middle,ts₁,first,shape₁⟩ := shape.build archive op
    obtain ⟨s',ts',rest,shape'⟩ := ih shape₁
    exact ⟨s',ts',by rw [Run.run,first]; exact rest,shape'⟩

/-- The list holds this pair: its search finds the key with this value. -/
def Holds (s : SkipList Key Value) (key : Key) (value : Value) : Prop := s.searchElement key = some (some value)

theorem Shape.holds (shape : s.Shape ts) : s.Holds key value ↔ lookup ts key = some value := by
  rw [Holds,shape.search,Option.some.injEq]

theorem Shape.dumpString_eq_iff (shape : s.Shape ts) (shape' : s'.Shape ts') (archive : TextArchive Key Value) :
    s.dumpString archive = s'.dumpString archive ↔ ∀ key value, s.Holds key value ↔ s'.Holds key value := by
  rw [shape.dumpString,shape'.dumpString,Option.some.injEq,archive.save_injective.eq_iff,dumpOf_eq_iff,
    items_eq_iff shape.sorted shape'.sorted]
  simp only [shape.holds,shape'.holds]
  constructor
  · intro same key value
    rw [same]
  · intro same
    funext key
    exact Option.ext (same key)

/-- Loaded into an empty list, a dump gives back its own towers up to address and height. -/
theorem Shape.reloads (shape : s.Shape ts) (empty : s'.Shape []) : ∃ loaded ts',
    s'.loadFile (dumpOf ts) = some loaded ∧ loaded.Shape ts' ∧ lookup ts' = lookup ts ∧
      ts'.length = ts.length := by
  obtain ⟨loaded,ts',done,shape',same⟩ := empty.loadFile (dumpOf ts)
  have maps : lookup ts' = lookup ts := by
    funext key
    rw [same key,dumpOf_lookup]
    rfl
  refine ⟨loaded,ts',done,shape',maps,?_⟩
  have lists := (items_eq_iff shape'.sorted shape.sorted).mpr maps
  simpa only [items,List.length_map] using congrArg List.length lists

/-- Dumps show the contents and nothing else, and load back whatever the heights. -/
theorem dumps_canonical [Inhabited Key] [Inhabited Value] (archive : TextArchive Key Value)
    (maxLevel maxLevel' : Nat) (rand rand' : Nat → Nat) (ops ops' : List (BuildOp Key Value)) : ∃ s s',
    Run.run (build archive) (new maxLevel rand) ops = some s ∧
    Run.run (build archive) (new maxLevel' rand') ops' = some s' ∧
    (s.dumpString archive = s'.dumpString archive ↔ ∀ key value, s.Holds key value ↔ s'.Holds key value) ∧
    ∃ dumpStr, s.dumpString archive = some dumpStr ∧ ∀ newLevel newRand, ∃ loaded chain,
      (new newLevel newRand).loadString archive dumpStr = some loaded ∧ loaded.Layered chain ∧
      (∀ key, loaded.searchElement key = s.searchElement key) ∧ loaded.size = s.size ∧
      loaded.dumpString archive = some dumpStr := by
  obtain ⟨s,ts,ran,shape⟩ := (new_shape maxLevel rand).builds archive ops
  obtain ⟨s',ts',ran',shape'⟩ := (new_shape maxLevel' rand').builds archive ops'
  refine ⟨s,s',ran,ran',shape.dumpString_eq_iff shape' archive,_,shape.dumpString archive,?_⟩
  intro newLevel newRand
  obtain ⟨loaded,us,done,shape'',maps,length⟩ := shape.reloads (new_shape newLevel newRand)
  have dumps : dumpOf us = dumpOf ts := dumpOf_eq_iff.mpr ((items_eq_iff shape''.sorted shape.sorted).mpr maps)
  refine ⟨loaded,_,(loadString_save ..).trans done,shape''.layered,fun key => ?_,?_,?_⟩
  · rw [shape''.search,shape.search,maps]
  · rw [size,size,shape''.count,shape.count,length]
  · rw [shape''.dumpString,dumps]

end SkipList
end KvStorage
