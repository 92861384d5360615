import Mathlib

/-! The skip list as the code builds it: nodes in memory, each with an array of forward
pointers. `none` is a null or dangling pointer followed or an array left, or a search that
does not end within the nodes there are. -/
namespace KvStorage

/-- The address of a node; `new` never hands out one twice. -/
abbrev Addr := Nat

/-- `level_` is one less than the number of forward pointers. -/
structure Node (Key Value : Type) where
  key : Key
  value : Value
  forward : List (Option Addr)

/-- Filled by `insert` only, which pushes a key and its value together. -/
structure SkipListDump (Key Value : Type) where
  keyDumpVt : List Key
  valDumpVt : List Value
  paired : keyDumpVt.length = valDumpVt.length := by rfl
  deriving DecidableEq, Repr

/-- `rand` answers how many odd numbers the n-th call of `getRandomLevel` draws. -/
structure SkipList (Key Value : Type) where
  maxLevel : Nat
  curLevel : Nat
  elementCount : Nat
  header : Addr
  memory : Addr → Option (Node Key Value)
  unused : Addr
  rand : Nat → Nat
  drawn : Nat

namespace SkipList

variable {Key Value : Type}

/-! ### Memory -/

section Memory
variable (s : SkipList Key Value)

def forward (i : Nat) (node : Addr) : Option (Option Addr) :=
  (s.memory node).bind fun n => n.forward[i]?

def setForward (i : Nat) (node : Addr) (target : Option Addr) : SkipList Key Value :=
  { s with
    memory := Function.update s.memory node
      ((s.memory node).map fun n => { n with forward := n.forward.set i target }) }

def createNode (key : Key) (value : Value) (level : Nat) : SkipList Key Value × Addr :=
  ({ s with
      memory := Function.update s.memory s.unused (some ⟨key,value,List.replicate (level + 1) none⟩)
      unused := s.unused + 1 },s.unused)

def getRandomLevel : SkipList Key Value × Nat :=
  let k := s.rand s.drawn + 1
  ({ s with drawn := s.drawn + 1 },if k < s.maxLevel then k else s.maxLevel)

end Memory

/-- The constructor: a header with a pointer for every level. -/
def new [Inhabited Key] [Inhabited Value] (maxLevel : Nat) (rand : Nat → Nat) : SkipList Key Value where
  maxLevel
  curLevel := 0
  elementCount := 0
  header := 0
  memory := Function.update (fun _ => none) 0 (some ⟨default,default,List.replicate (maxLevel + 1) none⟩)
  unused := 1
  rand
  drawn := 0

/-! ### Search -/

variable [LinearOrder Key] (s : SkipList Key Value)

/-- `while(curNode->forward_[i] && curNode->forward_[i]->getKey() < key)`. -/
def advance (key : Key) (i : Nat) : Nat → Addr → Option Addr
  | 0, _ => none
  | fuel + 1, curNode => do
    match ← s.forward i curNode with
    | none => return curNode
    | some next =>
      let node ← s.memory next
      if node.key < key then advance key i fuel next else return curNode

/-- The loop over the levels from `i` down to 0; entry `j` of the result is `update[j]`. -/
def findUpdate (key : Key) : Nat → Addr → Option (List Addr)
  | 0, curNode => do
    let curNode ← s.advance key 0 (s.elementCount + 1) curNode
    return [curNode]
  | i + 1, curNode => do
    let curNode ← s.advance key (i + 1) (s.elementCount + 1) curNode
    let lower ← findUpdate key i curNode
    return lower ++ [curNode]

/-- The walk that all operations begin with: the update array and the node after `update[0]`. -/
def locate (key : Key) : Option (List Addr × Option Addr) := do
  let update ← s.findUpdate key s.curLevel s.header
  let last ← update.head?
  let curNode ← s.forward 0 last
  return (update,curNode)

/-- `curNode && curNode->getKey() == key`, with the node. -/
def matching (key : Key) : Option Addr → Option (Option (Node Key Value))
  | none => return none
  | some address => do
    let node ← s.memory address
    return if node.key = key then some node else none

/-- `none` inside when the key is not found. -/
def searchElement (key : Key) : Option (Option Value) := do
  let (_,curNode) ← s.locate key
  let found ← s.matching key curNode
  return found.map Node.value

/-! ### Insertion -/

omit [LinearOrder Key] in
/-- The loop that puts `newNode` behind `update[i]` on every level from `i` on. -/
def link (newNode : Addr) : Nat → List Addr → SkipList Key Value → Option (SkipList Key Value)
  | _, [], s => some s
  | i, before :: update, s => do
    let next ← s.forward i before
    link newNode (i + 1) update ((s.setForward i newNode next).setForward i before (some newNode))

/-- 1 when the key was there, which keeps its value; else 0. -/
def insertElementNoBlock (key : Key) (val : Value) : Option (SkipList Key Value × Nat) := do
  let (update,curNode) ← s.locate key
  match ← s.matching key curNode with
  | some _ => return (s,1)
  | none =>
    let (s,radomLevel) := s.getRandomLevel
    let update := update ++ List.replicate (radomLevel - s.curLevel) s.header
    let s := { s with curLevel := max s.curLevel radomLevel }
    let (s,newNode) := s.createNode key val radomLevel
    let s ← link newNode 0 (update.take (radomLevel + 1)) s
    return ({ s with elementCount := s.elementCount + 1 },0)

def insertElement (key : Key) (val : Value) : Option (SkipList Key Value × Nat) :=
  s.insertElementNoBlock key val

/-! ### Deletion -/

omit [LinearOrder Key] in
/-- The loop that takes `curNode` out of its levels, up to the first it is not on. -/
def unlink (curNode : Addr) : Nat → List Addr → SkipList Key Value → Option (SkipList Key Value)
  | _, [], s => some s
  | i, before :: update, s => do
    let next ← s.forward i before
    if next ≠ some curNode then return s
    else
      let after ← s.forward i curNode
      unlink curNode (i + 1) update (s.setForward i before after)

omit [LinearOrder Key] in
/-- `while(curLevel_ > 0 && !header_->forward_[curLevel_]) curLevel_--`. -/
def topLevel (s : SkipList Key Value) : Nat → Option Nat
  | 0 => some 0
  | level + 1 => do
    match ← s.forward (level + 1) s.header with
    | none => topLevel s level
    | some _ => return level + 1

def deleteElement (key : Key) : Option (SkipList Key Value) := do
  let (update,curNode) ← s.locate key
  match curNode,← s.matching key curNode with
  | some curNode,some _ =>
    let s ← unlink curNode 0 update s
    let curLevel ← s.topLevel s.curLevel
    return { s with
      curLevel, memory := Function.update s.memory curNode none, elementCount := s.elementCount - 1 }
  | _,_ => return s

/-- Delete the key if it is there, then insert it. -/
def insertSetElement (key : Key) (val : Value) : Option (SkipList Key Value) := do
  let s ← match ← s.searchElement key with
    | some _ => s.deleteElement key
    | none => some s
  let (s,_) ← s.insertElement key val
  return s

/-! ### Dump and load -/

omit [LinearOrder Key] in
/-- The keys and values along level 0 from `curNode` on. -/
def walk (s : SkipList Key Value) : Nat → Option Addr → Option (List (Key × Value))
  | _, none => some []
  | 0, some _ => none
  | fuel + 1, some curNode => do
    let node ← s.memory curNode
    let next ← s.forward 0 curNode
    let later ← walk s fuel next
    return (node.key,node.value) :: later

omit [LinearOrder Key] in
def dumpFile (s : SkipList Key Value) : Option (SkipListDump Key Value) := do
  let first ← s.forward 0 s.header
  let items ← s.walk s.elementCount first
  return ⟨items.map Prod.fst,items.map Prod.snd,by simp⟩

/-- One insertion for each key; a key without a value leaves the vector. -/
def loadItems : List Key → List Value → SkipList Key Value → Option (SkipList Key Value)
  | [], _, s => some s
  | _ :: _, [], _ => none
  | key :: keys, val :: vals, s => do
    let (s,_) ← s.insertElementNoBlock key val
    loadItems keys vals s

def loadFile (dump : SkipListDump Key Value) : Option (SkipList Key Value) :=
  loadItems dump.keyDumpVt dump.valDumpVt s

end SkipList
end KvStorage
