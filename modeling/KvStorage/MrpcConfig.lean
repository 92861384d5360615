import Mathlib

/-! The configuration file by which the processes find each other. Every process appends the lines of
its own node; whoever reads the file takes the nodes in the order of their indexes. -/
namespace KvStorage

/-- A `std::string`; its bytes are characters below 256. -/
abbrev Text := List Char

structure MrpcConfig where
  configMap : Text → Option Text

namespace MrpcConfig

def empty : MrpcConfig := ⟨fun _ => none⟩

/-- A string of blanks only is left as it is. -/
def Trim (str : Text) : Text :=
  let str := if str.all (· = ' ') then str else str.dropWhile (· = ' ')
  if str.all (· = ' ') then str else str.rdropWhile (· = ' ')

/-- `fgets` into a buffer of 512 bytes: what it reads, and the file after it. -/
def fgets (fp : Text) : Text × Text :=
  let buf := fp.take 511
  let line := buf.takeWhile (· ≠ '\n')
  if line.length < buf.length then (line ++ ['\n'],fp.drop (line.length + 1)) else (buf,fp.drop 511)

/-- The key and value of a line; a value ends at the newline, if there is one. -/
def entry (buf : Text) : Option (Text × Text) :=
  let str := Trim (buf.takeWhile (· ≠ '\x00'))
  if str = [] ∨ str.head? = some '#' then none
  else if '=' ∉ str then none
  else
    let idx := str.idxOf '='
    let endidx : Int := if '\n' ∈ str then str.idxOf '\n' else -1
    let count := endidx - idx - 1
    let value := str.drop (idx + 1)
    some (Trim (str.take idx),Trim (if count < 0 then value else value.take count.toNat))

/-- `insert` leaves a key that is there. -/
def insert (conf : MrpcConfig) (line : Option (Text × Text)) : MrpcConfig where
  configMap key := match conf.configMap key with
    | some value => some value
    | none => line.bind fun (own,value) => if own = key then some value else none

def readLines : Nat → Text → MrpcConfig → MrpcConfig
  | 0, _, conf => conf
  | fuel + 1, fp, conf =>
    if fp = [] then conf else readLines fuel (fgets fp).2 (conf.insert (entry (fgets fp).1))

/-- A file that does not open changes nothing. -/
def LoadConfigFile (conf : MrpcConfig) (configFile : Option Text) : MrpcConfig :=
  match configFile with
  | none => conf
  | some fp => readLines fp.length fp conf

def Load (conf : MrpcConfig) (key : Text) : Text := (conf.configMap key).getD []

end MrpcConfig

/-- `std::to_string`. -/
def to_string (value : Int) : Text :=
  if value < 0 then '-' :: Nat.toDigits 10 value.natAbs else Nat.toDigits 10 value.natAbs

def isspace (c : Char) : Bool := c = ' ' ∨ 9 ≤ c.toNat ∧ c.toNat ≤ 13

/-- `std::stoi`; `none` is an exception, which nobody catches. -/
def stoi (str : Text) : Option Int :=
  let str := str.dropWhile isspace
  let negative : Bool := str.head? = some '-'
  let digits := (if negative ∨ str.head? = some '+' then str.tail else str).takeWhile Char.isDigit
  let value : Int := if negative then -Nat.ofDigitChars 10 digits 0 else Nat.ofDigitChars 10 digits 0
  if digits = [] then none else if -2 ^ 31 ≤ value ∧ value < 2 ^ 31 then some value else none

namespace Discovery
open MrpcConfig

def node (nodeIndex : Nat) : Text := ['n','o','d','e'] ++ Nat.toDigits 10 nodeIndex

def ipKey (nodeIndex : Nat) : Text := node nodeIndex ++ ['i','p']

def portKey (nodeIndex : Nat) : Text := node nodeIndex ++ ['p','o','r','t']

/-- A line that `RpcProvider::Run` appends. -/
inductive Line where
  | ip (nodeIndex : Nat) (ip : Text)
  | port (nodeIndex : Nat) (port : Int)
  deriving DecidableEq, Repr

namespace Line

def key : Line → Text
  | .ip nodeIndex _ => ipKey nodeIndex
  | .port nodeIndex _ => portKey nodeIndex

def value : Line → Text
  | .ip _ value => value
  | .port _ value => to_string value

def text (line : Line) : Text := line.key ++ '=' :: line.value ++ ['\n']

end Line

/-- The lines of one process, in the order in which it writes them. -/
def Run (nodeIndex : Nat) (ip : Text) (port : Int) : List Line := [.ip nodeIndex ip,.port nodeIndex port]

/-- The file after lines of several processes. -/
def file (lines : List Line) : Text := lines.flatMap Line.text

/-- The loop over node indexes of `Clerk::init` and of `KvServer`'s constructor, from `i` on. -/
def nodeAddrs (conf : MrpcConfig) : Nat → Nat → Option (List (Text × Int))
  | 0, _ => some []
  | fuel + 1, i =>
    let nodeIp := conf.Load (ipKey i)
    let nodePortStr := conf.Load (portKey i)
    if nodeIp = [] then some []
    else do
      let port ← stoi nodePortStr
      let rest ← nodeAddrs conf fuel (i + 1)
      some ((nodeIp,Int.bmod port (2 ^ 16)) :: rest)

/-- The addresses that a process reads, `i < INT_MAX - 1`. -/
def addresses (configFile : Option Text) : Option (List (Text × Int)) :=
  nodeAddrs (empty.LoadConfigFile configFile) 2147483646 0

/-! ### Lines that are read as they were written -/

/-- Neither a blank nor a character that means something in the file. -/
def Plain (str : Text) : Prop := ∀ c ∈ str, c ≠ ' ' ∧ c ≠ '\n' ∧ c ≠ '\x00' ∧ c ≠ '=' ∧ c ≠ '#'

theorem trim_plain {str : Text} (first : str.head? ≠ some ' ') (last : str.getLast? ≠ some ' ') : Trim str = str := by
  have left : str.dropWhile (· = ' ') = str := by
    cases str with
    | nil => rfl
    | cons c rest =>
      apply List.dropWhile_cons_of_neg
      simpa using first
  have right : str.rdropWhile (· = ' ') = str := by
    rcases List.eq_nil_or_concat str with rfl | ⟨rest,c,rfl⟩
    · rfl
    · rw [List.concat_eq_append] at last ⊢
      apply List.rdropWhile_concat_neg
      simpa using last
  simp only [Trim,left,right,ite_self]

theorem fgets_line {body : Text} (single : '\n' ∉ body) (short : body.length + 1 ≤ 511) (rest : Text) :
    fgets (body ++ '\n' :: rest) = (body ++ ['\n'],rest) := by
  obtain ⟨room,length⟩ : ∃ room, 511 = body.length + (room + 1) := ⟨510 - body.length,by omega⟩
  have buf : (body ++ '\n' :: rest).take 511 = body ++ '\n' :: rest.take room := by
    rw [length,List.take_length_add_append,List.take_succ_cons]
  have line : (body ++ '\n' :: rest.take room).takeWhile (· ≠ '\n') = body := by
    rw [List.takeWhile_append_of_pos]
    · simp
    · intro c inside
      simp only [decide_eq_true_eq]
      rintro rfl
      exact single inside
  simp only [fgets,buf,line]
  rw [if_pos (by simp)]
  simp

theorem Plain.trim {str : Text} (plain : Plain str) : Trim str = str := by
  apply trim_plain
  · intro first
    exact (plain _ (List.mem_of_mem_head? first)).1 rfl
  · intro last
    exact (plain _ (List.mem_of_getLast? last)).1 rfl

theorem entry_line {key value : Text} (key_plain : Plain key) (value_plain : Plain value) (named : key ≠ []) :
    entry (key ++ '=' :: value ++ ['\n']) = some (key,value) := by
  generalize line : key ++ '=' :: value ++ ['\n'] = str
  have parts : ∀ c ∈ str, c ∈ key ∨ c = '=' ∨ c ∈ value ∨ c = '\n' := by
    intro c inside
    rw [← line] at inside
    simpa using inside
  have whole : str.takeWhile (· ≠ '\x00') = str := by
    apply List.takeWhile_eq_self_iff.mpr
    intro c inside
    rcases parts c inside with own | rfl | own | rfl
    · simpa using (key_plain c own).2.2.1
    · rfl
    · simpa using (value_plain c own).2.2.1
    · rfl
  obtain ⟨c,rest,start⟩ := List.exists_cons_of_ne_nil named
  have first : str.head? = some c := by
    rw [← line,start]
    rfl
  have plain := key_plain c (by rw [start]; exact List.mem_cons_self)
  have trimmed : Trim str = str := by
    apply trim_plain
    · rw [first]
      simpa using plain.1
    · rw [← line,List.getLast?_concat]
      decide
  have content : ¬ (str = [] ∨ str.head? = some '#') := by
    rintro (empty | comment)
    · rw [empty] at first
      cases first
    · rw [first] at comment
      exact plain.2.2.2.2 (Option.some.inj comment)
  have equals : '=' ∉ key := fun inside => (key_plain _ inside).2.2.2.1 rfl
  have single : '\n' ∉ key ++ '=' :: value := by
    intro inside
    simp only [List.mem_append,List.mem_cons] at inside
    rcases inside with own | same | own
    · exact (key_plain _ own).2.1 rfl
    · exact absurd same (by decide)
    · exact (value_plain _ own).2.1 rfl
  have idx : str.idxOf '=' = key.length := by
    rw [← line,List.append_assoc,List.idxOf_append_of_notMem equals]
    simp
  have endidx : str.idxOf '\n' = key.length + 1 + value.length := by
    rw [← line,List.idxOf_append_of_notMem single]
    simp
    omega
  have front : str.take key.length = key := by
    rw [← line,List.append_assoc,List.take_left]
  have back : str.drop (key.length + 1) = value ++ ['\n'] := by
    rw [← line,List.append_assoc,List.drop_append]
    simp
  have assigned : ¬ '=' ∉ str := by
    rw [← line]
    simp
  have ended : '\n' ∈ str := by
    rw [← line]
    simp
  have count : ((key.length + 1 + value.length : Nat) : Int) - key.length - 1 = value.length := by omega
  simp only [entry,whole,trimmed,if_neg content,if_neg assigned,if_pos ended,idx,endidx,front,back,count,
    key_plain.trim]
  rw [if_neg (by omega),Int.toNat_natCast,List.take_left,value_plain.trim]

/-- What `Run` writes: a node's address in dotted decimal form, or its port. -/
def Line.Written : Line → Prop
  | .ip nodeIndex value => nodeIndex < 2147483646 ∧ value ≠ [] ∧ value.length ≤ 15 ∧ ∀ c ∈ value, c.isDigit ∨ c = '.'
  | .port nodeIndex value => nodeIndex < 2147483646 ∧ -2 ^ 15 ≤ value ∧ value < 2 ^ 15

/-- The two lines of a process whose host has an address and whose port is a `short`. -/
theorem written_Run {nodeIndex : Nat} {ip : Text} {port : Int} (index : nodeIndex < 2147483646)
    (host : ip ≠ [] ∧ ip.length ≤ 15 ∧ ∀ c ∈ ip, c.isDigit ∨ c = '.') (short : -2 ^ 15 ≤ port ∧ port < 2 ^ 15) :
    ∀ line ∈ Run nodeIndex ip port, line.Written := by
  intro line inside
  rcases List.mem_pair.mp inside with rfl | rfl
  · exact ⟨index,host⟩
  · exact ⟨index,short⟩

theorem plain_of_isDigit {c : Char} (digit : c.isDigit) : c ≠ ' ' ∧ c ≠ '\n' ∧ c ≠ '\x00' ∧ c ≠ '=' ∧ c ≠ '#' := by
  refine ⟨?_,?_,?_,?_,?_⟩ <;> rintro rfl <;> exact absurd digit (by decide)

theorem plain_toDigits (n : Nat) : Plain (Nat.toDigits 10 n) := by
  intro c inside
  apply plain_of_isDigit
  exact Nat.isDigit_of_mem_toDigits (by omega) (by omega) inside

theorem plain_append {front back : Text} (first : Plain front) (last : Plain back) : Plain (front ++ back) := by
  intro c inside
  rcases List.mem_append.mp inside with own | own
  · exact first c own
  · exact last c own

theorem plain_to_string (value : Int) : Plain (to_string value) := by
  rw [to_string]
  split
  · intro c inside
    rcases List.mem_cons.mp inside with rfl | own
    · decide
    · exact plain_toDigits _ c own
  · exact plain_toDigits _

theorem plain_key (line : Line) : Plain line.key := by
  have letters : Plain ['n','o','d','e'] ∧ Plain ['i','p'] ∧ Plain ['p','o','r','t'] := by
    refine ⟨?_,?_,?_⟩ <;> simp [Plain]
  obtain ⟨node,ip,port⟩ := letters
  cases line with
  | ip i => exact plain_append (plain_append node (plain_toDigits i)) ip
  | port i => exact plain_append (plain_append node (plain_toDigits i)) port

theorem Line.Written.plain {line : Line} (written : line.Written) : Plain line.value := by
  cases line with
  | ip i ip =>
    intro c inside
    rcases written.2.2.2 c inside with digit | rfl
    · exact plain_of_isDigit digit
    · decide
  | port i port => exact plain_to_string port

theorem length_toDigits {n : Nat} (small : n < 2147483646) : (Nat.toDigits 10 n).length ≤ 10 := by
  rw [Nat.length_toDigits_le_iff (by omega) (by omega)]
  have power : 10 ^ 10 = 10000000000 := by norm_num
  omega

theorem Line.Written.short {line : Line} (written : line.Written) : line.text.length ≤ 511 := by
  have key : line.key.length ≤ 18 := by
    cases line with
    | ip i =>
      have digits := length_toDigits written.1
      simp only [Line.key,ipKey,node,List.length_append,List.length_cons,List.length_nil]
      omega
    | port i =>
      have digits := length_toDigits written.1
      simp only [Line.key,portKey,node,List.length_append,List.length_cons,List.length_nil]
      omega
  have value : line.value.length ≤ 15 := by
    cases line with
    | ip i ip => exact written.2.2.1
    | port i port =>
      obtain ⟨_,low,high⟩ := written
      have digits : (Nat.toDigits 10 port.natAbs).length ≤ 10 := length_toDigits (by omega)
      simp only [Line.value,to_string]
      split
      · rw [List.length_cons]
        omega
      · omega
  simp only [Line.text,List.length_append,List.length_cons,List.length_nil]
  omega

theorem Line.key_ne_nil (line : Line) : line.key ≠ [] := by
  cases line <;> exact List.cons_ne_nil _ _

theorem Line.text_eq (line : Line) (rest : Text) : line.text ++ rest = (line.key ++ '=' :: line.value) ++ '\n' :: rest := by
  simp [Line.text]

/-- The first of a line's key and value to be inserted. -/
def first (lines : List Line) (key : Text) : Option Text := (lines.find? fun line => line.key = key).map Line.value

theorem readLines_file {lines : List Line} (written : ∀ line ∈ lines, line.Written) {fuel : Nat}
    (enough : (file lines).length ≤ fuel) (conf : MrpcConfig) (key : Text) :
    (readLines fuel (file lines) conf).configMap key = (conf.configMap key).or (first lines key) := by
  induction lines generalizing fuel conf with
  | nil =>
    have nothing : readLines fuel (file []) conf = conf := by
      cases fuel <;> rfl
    rw [nothing]
    cases conf.configMap key <;> rfl
  | cons line lines ih =>
    have own := written line List.mem_cons_self
    have text : file (line :: lines) = line.text ++ file lines := List.flatMap_cons
    rw [text] at enough ⊢
    have some_ : 0 < line.text.length := by simp [Line.text]
    rw [List.length_append] at enough
    cases fuel with
    | zero => omega
    | succ fuel =>
      have content : line.text ++ file lines ≠ [] := by
        intro empty
        rw [(List.append_eq_nil_iff.mp empty).1] at some_
        exact absurd some_ (by decide)
      have single : '\n' ∉ line.key ++ '=' :: line.value := by
        intro inside
        simp only [List.mem_append,List.mem_cons] at inside
        rcases inside with inside | same | inside
        · exact (plain_key line _ inside).2.1 rfl
        · exact absurd same (by decide)
        · exact (own.plain _ inside).2.1 rfl
      have length := own.short
      have read : fgets (line.text ++ file lines) = (line.text,file lines) := by
        rw [Line.text_eq,fgets_line single]
        · rfl
        · simp only [Line.text,List.length_append,List.length_cons,List.length_nil] at length ⊢
          omega
      have parsed : entry line.text = some (line.key,line.value) :=
        entry_line (plain_key line) own.plain line.key_ne_nil
      rw [readLines,if_neg content,read,parsed,ih (fun l inside => written l (List.mem_cons_of_mem _ inside)) (by omega)]
      simp only [MrpcConfig.insert,first,List.find?_cons]
      cases held : conf.configMap key with
      | some value => rfl
      | none =>
        by_cases same : line.key = key
        · simp [same]
        · simp [same]

/-! ### The nodes of a file -/

/-- The address registered first for a node. -/
def ipOf (lines : List Line) (nodeIndex : Nat) : Option Text := lines.findSome? fun line => match line with
  | .ip own value => if own = nodeIndex then some value else none
  | .port _ _ => none

/-- The port registered first for a node. -/
def portOf (lines : List Line) (nodeIndex : Nat) : Option Int := lines.findSome? fun line => match line with
  | .ip _ _ => none
  | .port own value => if own = nodeIndex then some value else none

def address (lines : List Line) (nodeIndex : Nat) : Option (Text × Int) := do
  let ip ← ipOf lines nodeIndex
  let port ← portOf lines nodeIndex
  some (ip,port)

theorem node_injective {i j : Nat} (same : node i = node j) : i = j := by
  have digits := List.append_cancel_left same
  calc
    i = Nat.ofDigitChars 10 (Nat.toDigits 10 i) 0 := Nat.ofDigitChars_ten_toDigits.symm
    _ = Nat.ofDigitChars 10 (Nat.toDigits 10 j) 0 := by rw [digits]
    _ = j := Nat.ofDigitChars_ten_toDigits

theorem ipKey_inj {i j : Nat} : ipKey i = ipKey j ↔ i = j :=
  ⟨fun same => node_injective (List.append_cancel_right same),congrArg ipKey⟩

theorem portKey_inj {i j : Nat} : portKey i = portKey j ↔ i = j :=
  ⟨fun same => node_injective (List.append_cancel_right same),congrArg portKey⟩

theorem ipKey_ne_portKey (i j : Nat) : ipKey i ≠ portKey j := by
  intro same
  have last := congrArg List.getLast? same
  simp [ipKey,portKey] at last

theorem first_ip (lines : List Line) (i : Nat) : first lines (ipKey i) = ipOf lines i := by
  induction lines with
  | nil => rfl
  | cons line lines ih =>
    cases line with
    | ip j value =>
      by_cases same : j = i
      · simp [first,ipOf,Line.key,Line.value,same]
      · have other : ipKey j ≠ ipKey i := mt ipKey_inj.mp same
        simpa [first,ipOf,Line.key,other,same] using ih
    | port j value =>
      have other := (ipKey_ne_portKey i j).symm
      simpa [first,ipOf,Line.key,other] using ih

theorem first_port (lines : List Line) (i : Nat) : first lines (portKey i) = (portOf lines i).map to_string := by
  induction lines with
  | nil => rfl
  | cons line lines ih =>
    cases line with
    | ip j value =>
      have other := ipKey_ne_portKey j i
      simpa [first,portOf,Line.key,other] using ih
    | port j value =>
      by_cases same : j = i
      · simp [first,portOf,Line.key,Line.value,same]
      · have other : portKey j ≠ portKey i := mt portKey_inj.mp same
        simpa [first,portOf,Line.key,other,same] using ih

theorem isspace_of_isDigit {c : Char} (digit : c.isDigit) : isspace c = false := by
  have code : 48 ≤ c.toNat := by
    simp only [Char.isDigit,Bool.and_eq_true,decide_eq_true_eq] at digit
    exact digit.1
  have blank : c ≠ ' ' := (plain_of_isDigit digit).1
  have control : ¬ (9 ≤ c.toNat ∧ c.toNat ≤ 13) := by omega
  simp [isspace,blank,control]

theorem stoi_to_string {value : Int} (low : -2 ^ 31 ≤ value) (high : value < 2 ^ 31) : stoi (to_string value) = some value := by
  have digit : ∀ c ∈ Nat.toDigits 10 value.natAbs, c.isDigit = true :=
    fun c inside => Nat.isDigit_of_mem_toDigits (by omega) (by omega) inside
  have all := List.takeWhile_eq_self_iff.mpr digit
  have some_ : Nat.toDigits 10 value.natAbs ≠ [] := Nat.toDigits_ne_nil
  have number : Nat.ofDigitChars 10 (Nat.toDigits 10 value.natAbs) 0 = value.natAbs := Nat.ofDigitChars_ten_toDigits
  by_cases negative : value < 0
  · have text : to_string value = '-' :: Nat.toDigits 10 value.natAbs := if_pos negative
    have start : (to_string value).dropWhile isspace = to_string value := by
      rw [text]
      rfl
    have sign : (to_string value).head? = some '-' := by
      rw [text]
      rfl
    have rest : (to_string value).tail = Nat.toDigits 10 value.natAbs := by
      rw [text]
      rfl
    simp only [stoi,start,sign,rest]
    simp [all,some_,number,abs_of_neg negative]
    omega
  · have text : to_string value = Nat.toDigits 10 value.natAbs := if_neg negative
    obtain ⟨c,rest,start⟩ := List.exists_cons_of_ne_nil some_
    have first : c.isDigit = true := digit c (by rw [start]; exact List.mem_cons_self)
    have kept : (Nat.toDigits 10 value.natAbs).dropWhile isspace = Nat.toDigits 10 value.natAbs := by
      rw [start]
      apply List.dropWhile_cons_of_neg
      rw [isspace_of_isDigit first]
      exact Bool.false_ne_true
    have unsigned : c ≠ '-' ∧ c ≠ '+' := by
      constructor <;> rintro rfl <;> exact absurd first (by decide)
    have sign : (Nat.toDigits 10 value.natAbs).head? = some c := by
      rw [start]
      rfl
    simp only [stoi,text,kept,sign]
    simp [unsigned.1,unsigned.2,all,some_,number,abs_of_nonneg (not_lt.mp negative)]
    omega

theorem mem_of_ipOf {lines : List Line} {i : Nat} {value : Text} (held : ipOf lines i = some value) : .ip i value ∈ lines := by
  obtain ⟨line,inside,own⟩ := List.exists_of_findSome?_eq_some held
  cases line with
  | ip j v =>
    simp only [Option.ite_none_right_eq_some,Option.some.injEq] at own
    obtain ⟨rfl,rfl⟩ := own
    exact inside
  | port j v => cases own

theorem mem_of_portOf {lines : List Line} {i : Nat} {value : Int} (held : portOf lines i = some value) :
    .port i value ∈ lines := by
  obtain ⟨line,inside,own⟩ := List.exists_of_findSome?_eq_some held
  cases line with
  | ip j v => cases own
  | port j v =>
    simp only [Option.ite_none_right_eq_some,Option.some.injEq] at own
    obtain ⟨rfl,rfl⟩ := own
    exact inside

section Read

variable {lines : List Line} (written : ∀ line ∈ lines, line.Written)

include written

theorem Load_file (key : Text) : (empty.LoadConfigFile (some (file lines))).Load key = (first lines key).getD [] := by
  rw [Load,LoadConfigFile,readLines_file written le_rfl]
  rfl

theorem nodeAddrs_eq {k i : Nat} (nodes : ∀ j, i ≤ j → j < i + k → ipOf lines j ≠ none)
    (last : ipOf lines (i + k) = none) {fuel : Nat} (enough : k ≤ fuel) :
    nodeAddrs (empty.LoadConfigFile (some (file lines))) fuel i = (List.range' i k).mapM (address lines) := by
  induction k generalizing fuel i with
  | zero =>
    cases fuel with
    | zero => rfl
    | succ fuel =>
      rw [Nat.add_zero] at last
      rw [nodeAddrs,Load_file written,first_ip,last]
      rfl
  | succ k ih =>
    obtain ⟨fuel,rfl⟩ : ∃ f, fuel = f + 1 := ⟨fuel - 1,by omega⟩
    have rest : nodeAddrs (empty.LoadConfigFile (some (file lines))) fuel (i + 1) =
        (List.range' (i + 1) k).mapM (address lines) := by
      apply ih
      · intro j after before
        exact nodes j (by omega) (by omega)
      · rw [show i + 1 + k = i + (k + 1) by omega]
        exact last
      · omega
    obtain ⟨value,held⟩ := Option.ne_none_iff_exists'.mp (nodes i le_rfl (by omega))
    have some_ : value ≠ [] := (written _ (mem_of_ipOf held)).2.1
    rw [nodeAddrs,Load_file written,Load_file written,first_ip,first_port,held,Option.getD_some]
    simp only [if_neg some_,rest,List.range'_succ,List.mapM_cons,address,held]
    cases port : portOf lines i with
    | none => rfl
    | some value =>
      obtain ⟨_,low,high⟩ := written _ (mem_of_portOf port)
      have parsed : stoi (to_string value) = some value := stoi_to_string (by omega) (by omega)
      have short : Int.bmod value 65536 = value := Int.bmod_eq_of_le (by omega) (by omega)
      simp [parsed,short]

/-- A process takes the addresses of the nodes in the order of their indexes, up to the first that is
not registered; if one of them has no port yet, the process ends. -/
theorem addresses_eq {n : Nat} (nodes : ∀ i < n, ipOf lines i ≠ none) (last : ipOf lines n = none) :
    addresses (some (file lines)) = (List.range n).mapM (address lines) := by
  have small : n ≤ 2147483646 := by
    rcases Nat.eq_zero_or_pos n with rfl | positive
    · omega
    · obtain ⟨value,held⟩ := Option.ne_none_iff_exists'.mp (nodes (n - 1) (by omega))
      have index := (written _ (mem_of_ipOf held)).1
      omega
  rw [addresses,List.range_eq_range']
  apply nodeAddrs_eq written
  · intro j _ before
    exact nodes j (by omega)
  · rw [Nat.zero_add]
    exact last
  · exact small

end Read

/-! ### Which lines count -/

theorem exists_unregistered (lines : List Line) : ∃ n, (∀ i < n, ipOf lines i ≠ none) ∧ ipOf lines n = none := by
  have some_ : ∃ n, ipOf lines n = none := by
    by_contra all
    push Not at all
    -- more nodes than lines
    have held : ∀ i, ∃ value, Line.ip i value ∈ lines := by
      intro i
      obtain ⟨value,held⟩ := Option.ne_none_iff_exists'.mp (all i)
      exact ⟨value,mem_of_ipOf held⟩
    choose value inside using held
    have injective : Function.Injective fun i => Line.ip i (value i) := by
      intro i j same
      injection same
    have finite := Set.Finite.subset lines.toFinset.finite_toSet
      (show Set.range (fun i => Line.ip i (value i)) ⊆ lines.toFinset by
        rintro _ ⟨i,rfl⟩
        simpa using inside i)
    exact Set.infinite_range_of_injective injective finite
  classical
  refine ⟨Nat.find some_,fun i before => Nat.find_min some_ before,Nat.find_spec some_⟩

theorem getElem?_of_mapM {f : α → Option β} {l : List α} {r : List β} (done : l.mapM f = some r) {i : Nat} {a : α}
    (found : l[i]? = some a) : r[i]? = f a := by
  induction l generalizing r i with
  | nil => cases found
  | cons b l ih =>
    rw [List.mapM_cons] at done
    obtain ⟨first,own,done⟩ := Option.bind_eq_some_iff.mp done
    obtain ⟨rest,later,same⟩ := Option.bind_eq_some_iff.mp done
    obtain rfl := Option.some.inj same
    cases i with
    | zero =>
      obtain rfl := Option.some.inj found
      exact own.symm
    | succ i => exact ih later found

theorem address_append {lines : List Line} {i : Nat} (held : (address lines i).isSome) (more : List Line) :
    ipOf (lines ++ more) i ≠ none ∧ address (lines ++ more) i = address lines i := by
  have ips : ipOf (lines ++ more) i = (ipOf lines i).or (ipOf more i) := List.findSome?_append
  have ports : portOf (lines ++ more) i = (portOf lines i).or (portOf more i) := List.findSome?_append
  simp only [address] at held ⊢
  cases ip : ipOf lines i with
  | none => simp [ip] at held
  | some value =>
    cases port : portOf lines i with
    | none => simp [ip,port] at held
    | some value => simp [ips,ports,ip,port]

/-- Once a node's two lines are written, every process that reads the file, however many lines have been
appended, finds the node at its index, with the address that was written first. -/
theorem registrations_stay {lines more : List Line} (written : ∀ line ∈ lines ++ more, line.Written) {n : Nat}
    (complete : ∀ i < n, (address lines i).isSome) {addrs : List (Text × Int)}
    (read : addresses (some (file (lines ++ more))) = some addrs) : ∀ i < n, addrs[i]? = address lines i := by
  intro i before
  obtain ⟨N,nodes,last⟩ := exists_unregistered (lines ++ more)
  rw [addresses_eq written nodes last] at read
  have inside : i < N := by
    by_contra beyond
    have held := (address_append (complete N (by omega)) more).1
    exact held last
  rw [← (address_append (complete i before) more).2]
  exact getElem?_of_mapM read (List.getElem?_range inside)

theorem ipOf_eq_iff {lines : List Line} (once : (lines.map Line.key).Nodup) (i : Nat) (value : Text) :
    ipOf lines i = some value ↔ .ip i value ∈ lines := by
  refine ⟨mem_of_ipOf,fun inside => ?_⟩
  cases held : ipOf lines i with
  | none =>
    have missing := List.findSome?_eq_none_iff.mp held _ inside
    simp at missing
  | some other =>
    have same := List.inj_on_of_nodup_map once (mem_of_ipOf held) inside rfl
    injection same with _ same
    rw [same]

theorem portOf_eq_iff {lines : List Line} (once : (lines.map Line.key).Nodup) (i : Nat) (value : Int) :
    portOf lines i = some value ↔ .port i value ∈ lines := by
  refine ⟨mem_of_portOf,fun inside => ?_⟩
  cases held : portOf lines i with
  | none =>
    have missing := List.findSome?_eq_none_iff.mp held _ inside
    simp at missing
  | some other =>
    have same := List.inj_on_of_nodup_map once (mem_of_portOf held) inside rfl
    injection same with _ same
    rw [same]

/-- Where no node writes twice, the order in which the processes write does not matter. -/
theorem addresses_perm {lines lines' : List Line} (written : ∀ line ∈ lines, line.Written)
    (once : (lines.map Line.key).Nodup) (perm : lines.Perm lines') :
    addresses (some (file lines)) = addresses (some (file lines')) := by
  have once' : (lines'.map Line.key).Nodup := (perm.map _).nodup_iff.mp once
  have ips : ∀ i, ipOf lines' i = ipOf lines i := by
    intro i
    apply Option.ext
    intro value
    rw [ipOf_eq_iff once',ipOf_eq_iff once]
    exact perm.mem_iff.symm
  have ports : ∀ i, portOf lines' i = portOf lines i := by
    intro i
    apply Option.ext
    intro value
    rw [portOf_eq_iff once',portOf_eq_iff once]
    exact perm.mem_iff.symm
  have same : address lines' = address lines := by
    funext i
    simp only [address,ips,ports]
  obtain ⟨n,nodes,last⟩ := exists_unregistered lines
  rw [addresses_eq written nodes last,addresses_eq (fun line inside => written line (perm.mem_iff.mpr inside))
    (fun i before => by rw [ips]; exact nodes i before) (by rw [ips]; exact last),same]

/-- A process that is the only one to write for its node is found with its own address. -/
theorem address_Run {lines : List Line} (once : (lines.map Line.key).Nodup) {nodeIndex : Nat} {ip : Text} {port : Int}
    (inside : Run nodeIndex ip port ⊆ lines) : address lines nodeIndex = some (ip,port) := by
  have own : ipOf lines nodeIndex = some ip := (ipOf_eq_iff once nodeIndex ip).mpr (inside List.mem_cons_self)
  have opened : portOf lines nodeIndex = some port :=
    (portOf_eq_iff once nodeIndex port).mpr (inside (List.mem_cons_of_mem _ List.mem_cons_self))
  rw [address,own,opened]
  rfl

/-- Two nodes, one after the other. -/
def inTurn : List Line := Run 0 ['1'] 20000 ++ Run 1 ['2'] 20001

/-- The same two, writing at the same time. -/
def twoNodes : List Line := [.port 1 20001,.ip 0 ['1'],.ip 1 ['2'],.port 0 20000]

/-- The first of them restarts elsewhere. -/
def restarted : List Line := Run 0 ['3'] 20002

theorem perm_twoNodes : inTurn.Perm twoNodes := by decide

theorem written_inTurn : ∀ line ∈ inTurn ++ restarted, line.Written := by
  intro line inside
  rcases List.mem_append.mp inside with first | again
  · rcases List.mem_append.mp first with zero | one
    · exact written_Run (by decide) (by simp) ⟨by omega,by omega⟩ line zero
    · exact written_Run (by decide) (by simp) ⟨by omega,by omega⟩ line one
  · exact written_Run (by decide) (by simp) ⟨by omega,by omega⟩ line again

theorem written_twoNodes : ∀ line ∈ twoNodes ++ restarted, line.Written :=
  fun line inside => written_inTurn line ((perm_twoNodes.append_right restarted).mem_iff.mpr inside)

theorem registrations_stay_restarted : ([(['1'],20000),(['2'],20001)] : List (Text × Int))[0]? = address twoNodes 0 :=
  @registrations_stay twoNodes restarted written_twoNodes 2 (by decide +kernel) _
    (addresses_eq (n := 2) written_twoNodes (by decide +kernel) (by decide +kernel)) 0 (by decide)

theorem addresses_perm_twoNodes : addresses (some (file inTurn)) = addresses (some (file twoNodes)) :=
  addresses_perm (fun line inside => written_inTurn line (List.mem_append_left _ inside)) (by decide +kernel) perm_twoNodes

/-- The node of the second process. -/
example : address twoNodes 1 = some (['2'],20001) := address_Run (by decide +kernel) (by decide)

end Discovery
end KvStorage
