import Mathlib

/-! Messages on the wire: base-128 integers, and messages as lists of tagged fields. A
reader accepts more than a writer produces, but nothing shorter than it. -/
namespace KvStorage.Wire

abbrev Octets := List UInt8

/-! ### Integers -/

/-- Seven bits a byte, low bits first, at most `width` bytes. -/
def writeVarint : Nat → Nat → Octets
  | 0, _ => []
  | width + 1, n =>
    if n < 128 then [n.toUInt8] else (n % 128 + 128).toUInt8 :: writeVarint width (n / 128)

def readVarint : Nat → Octets → Option (Nat × Octets)
  | 0, _ => none
  | _ + 1, [] => none
  | width + 1, byte :: rest =>
    if byte.toNat < 128 then some (byte.toNat,rest)
    else do
      let (n,rest) ← readVarint width rest
      some (byte.toNat - 128 + 128 * n,rest)

theorem read_write {width limit n : Nat} (rest : Octets) (positive : 0 < width) (fits : n < 128 ^ width)
    (wide : width ≤ limit) : readVarint limit (writeVarint width n ++ rest) = some (n,rest) := by
  induction width generalizing n limit with
  | zero => omega
  | succ width ih =>
    obtain ⟨limit,rfl⟩ : ∃ k, limit = k + 1 := ⟨limit - 1,by omega⟩
    by_cases small : n < 128
    · have byte : n.toUInt8.toNat = n := by
        rw [UInt8.toNat_ofNat']
        exact Nat.mod_eq_of_lt (by omega)
      simp [writeVarint,readVarint,small,byte]
    · have later : n / 128 < 128 ^ width := by
        rw [Nat.div_lt_iff_lt_mul (by omega),← Nat.pow_succ]
        exact fits
      have some_left : 0 < width := by
        by_contra none_left
        obtain rfl : width = 0 := by omega
        omega
      have byte : (n % 128 + 128).toUInt8.toNat = n % 128 + 128 := by
        rw [UInt8.toNat_ofNat']
        exact Nat.mod_eq_of_lt (by omega)
      simp only [writeVarint,if_neg small,List.cons_append,readVarint,byte]
      rw [if_neg (by omega),ih some_left later (by omega)]
      have whole : n % 128 + 128 * (n / 128) = n := Nat.mod_add_div n 128
      simp [whole]

theorem writeVarint_length_pos {width : Nat} (positive : 0 < width) (n : Nat) :
    0 < (writeVarint width n).length := by
  obtain ⟨width,rfl⟩ : ∃ k, width = k + 1 := ⟨width - 1,by omega⟩
  unfold writeVarint
  split <;> simp

theorem writeVarint_length_mono {m n : Nat} (width : Nat) (le : m ≤ n) :
    (writeVarint width m).length ≤ (writeVarint width n).length := by
  induction width generalizing m n with
  | zero => simp [writeVarint]
  | succ width ih =>
    have := ih (show m / 128 ≤ n / 128 by omega)
    by_cases small : n < 128
    · simp [writeVarint,small,show m < 128 by omega]
    · simp only [writeVarint,if_neg small]
      split
      · simp
      · simpa using this

/-- No integer is read from fewer bytes than a smaller one is written to. -/
theorem readVarint_length {limit n m : Nat} (width : Nat) (le : m ≤ n)
    (read : readVarint limit bytes = some (n,rest)) :
    (writeVarint width m).length + rest.length ≤ bytes.length := by
  induction limit generalizing bytes n m width with
  | zero => cases read
  | succ limit ih =>
    cases bytes with
    | nil => cases read
    | cons byte bytes =>
      cases width with
      | zero =>
        simp only [readVarint] at read
        split at read
        · obtain ⟨rfl,rfl⟩ := Prod.mk.inj (Option.some.inj read)
          simp [writeVarint]
        · obtain ⟨⟨n',rest'⟩,first,whole⟩ := Option.bind_eq_some_iff.mp read
          obtain ⟨rfl,rfl⟩ := Prod.mk.inj (Option.some.inj whole)
          have := ih 0 (Nat.zero_le n') first
          simp [writeVarint] at this ⊢
          omega
      | succ width =>
        simp only [readVarint] at read
        split at read
        · next small =>
          obtain ⟨rfl,rfl⟩ := Prod.mk.inj (Option.some.inj read)
          have : m < 128 := by omega
          simp [writeVarint,this]
          omega
        · obtain ⟨⟨n',rest'⟩,first,whole⟩ := Option.bind_eq_some_iff.mp read
          simp only [Option.some.injEq,Prod.mk.injEq] at whole
          obtain ⟨rfl,rfl⟩ := whole
          have top := byte.toNat_lt
          have := ih width (show m / 128 ≤ n' by omega) first
          simp only [writeVarint]
          split
          · simp only [List.length_cons,List.length_nil]
            omega
          · simp only [List.length_cons]
            omega

theorem readVarint_shorter {limit : Nat} (read : readVarint limit bytes = some (n,rest)) :
    rest.length < bytes.length := by
  have := readVarint_length 1 (Nat.zero_le n) read
  have positive := writeVarint_length_pos Nat.one_pos 0
  omega

/-! ### Fields -/

/-- A field with what a message can use of it; `other` has a wire type that no message uses here. -/
inductive Field where
  | varint (number value : Nat)
  | bytes (number : Nat) (value : Octets)
  | other
  deriving DecidableEq, Repr

/-- The largest length of a delimited field: `INT_MAX` less the parser's slop bytes. -/
def maxSize : Nat := 2147483647 - 16

def writeTag (number wireType : Nat) : Octets := writeVarint 5 (8 * number + wireType)

def Field.write : Field → Octets
  | .varint number value => writeTag number 0 ++ writeVarint 10 value
  | .bytes number value => writeTag number 2 ++ writeVarint 5 value.length ++ value
  | .other => []

def readTag (bytes : Octets) : Option (Nat × Octets) :=
  (readVarint 5 bytes).map fun (n,rest) => (n % 2 ^ 32,rest)

def takeBytes (size : Nat) (bytes : Octets) : Option (Octets × Octets) :=
  if size ≤ bytes.length then some (bytes.take size,bytes.drop size) else none

def readDelimited (bytes : Octets) : Option (Octets × Octets) := do
  let (size,rest) ← readVarint 5 bytes
  if size ≤ maxSize then takeBytes size rest else none

/-- The value of a field of a scalar wire type, passed over. -/
def skipScalar (wireType : Nat) (bytes : Octets) : Option Octets :=
  if wireType = 0 then (readVarint 10 bytes).map Prod.snd
  else if wireType = 1 then (takeBytes 8 bytes).map Prod.snd
  else if wireType = 2 then (readDelimited bytes).map Prod.snd
  else if wireType = 5 then (takeBytes 4 bytes).map Prod.snd
  else none

/-- The rest of the open groups, innermost first; at most 100 are open at once. -/
def skipGroups : Nat → List Nat → Octets → Option Octets
  | _, [], bytes => some bytes
  | 0, _ :: _, _ => none
  | fuel + 1, number :: outer, bytes => do
    let (tag,rest) ← readTag bytes
    if tag = 8 * number + 4 then skipGroups fuel outer rest
    else if tag / 8 = 0 then none
    else if tag % 8 = 3 then
      if outer.length + 1 < 100 then skipGroups fuel (tag / 8 :: number :: outer) rest else none
    else do
      let rest ← skipScalar (tag % 8) rest
      skipGroups fuel (number :: outer) rest

def readField (bytes : Octets) : Option (Field × Octets) := do
  let (tag,rest) ← readTag bytes
  let number := tag / 8
  if number = 0 then none
  else if tag % 8 = 0 then (readVarint 10 rest).map fun (value,rest) => (.varint number value,rest)
  else if tag % 8 = 2 then (readDelimited rest).map fun (value,rest) => (.bytes number value,rest)
  else if tag % 8 = 3 then (skipGroups rest.length [number] rest).map fun rest => (.other,rest)
  else (skipScalar (tag % 8) rest).map fun rest => (.other,rest)

def readFields : Nat → Octets → Option (List Field)
  | _, [] => some []
  | 0, _ :: _ => none
  | fuel + 1, bytes => do
    let (field,rest) ← readField bytes
    let fields ← readFields fuel rest
    some (field :: fields)

/-- The fields of a whole message. -/
def parse (bytes : Octets) : Option (List Field) := readFields bytes.length bytes

/-! ### No two messages are written to the same bytes -/

/-- Fields whose numbers fit their integers; a reader may still refuse them for their size. -/
def Field.Writable : Field → Prop
  | .varint number value => 0 < number ∧ number < 2 ^ 29 ∧ value < 2 ^ 64
  | .bytes number value => 0 < number ∧ number < 2 ^ 29 ∧ value.length < 2 ^ 32
  | .other => False

theorem writeVarint_append_injective {width n m : Nat} (positive : 0 < width) (mine : n < 128 ^ width)
    (theirs : m < 128 ^ width) (same : writeVarint width n ++ rest = writeVarint width m ++ rest') :
    n = m ∧ rest = rest' := by
  have read := congrArg (readVarint width) same
  rw [read_write rest positive mine le_rfl,read_write rest' positive theirs le_rfl] at read
  exact Prod.mk.inj (Option.some.inj read)

/-- The tag of a field: its number and its wire type. -/
theorem Field.Writable.tag {field : Field} (writable : field.Writable) : ∃ number wireType body,
    number < 2 ^ 29 ∧ wireType < 8 ∧ field.write = writeTag number wireType ++ body ∧
    ((wireType = 0 ∧ ∃ value, field = .varint number value ∧ value < 2 ^ 64 ∧ body = writeVarint 10 value) ∨
      (wireType = 2 ∧ ∃ value, field = .bytes number value ∧ value.length < 2 ^ 32 ∧
        body = writeVarint 5 value.length ++ value)) := by
  cases field with
  | varint number value =>
    obtain ⟨_,low,small⟩ := writable
    exact ⟨number,0,_,low,by omega,rfl,.inl ⟨rfl,value,rfl,small,rfl⟩⟩
  | bytes number value =>
    obtain ⟨_,low,small⟩ := writable
    exact ⟨number,2,_,low,by omega,List.append_assoc ..,.inr ⟨rfl,value,rfl,small,rfl⟩⟩
  | other => exact writable.elim

theorem write_append_injective {f g : Field} (mine : f.Writable) (theirs : g.Writable)
    (same : f.write ++ rest = g.write ++ rest') : f = g ∧ rest = rest' := by
  obtain ⟨number,wireType,body,low,wire,written,mine⟩ := mine.tag
  obtain ⟨number',wireType',body',low',wire',written',theirs⟩ := theirs.tag
  rw [written,written',List.append_assoc,List.append_assoc] at same
  have tag : 8 * number + wireType < 128 ^ 5 := lt_trans (by omega : _ < 2 ^ 32) (by decide)
  have tag' : 8 * number' + wireType' < 128 ^ 5 := lt_trans (by omega : _ < 2 ^ 32) (by decide)
  obtain ⟨tags,bodies⟩ := writeVarint_append_injective (by omega) tag tag' same
  obtain rfl : number = number' := by omega
  rcases mine with ⟨scalar,value,rfl,small,rfl⟩ | ⟨delimited,value,rfl,small,rfl⟩
  · rcases theirs with ⟨_,value',rfl,small',rfl⟩ | ⟨delimited,_⟩
    · obtain ⟨rfl,rest⟩ := writeVarint_append_injective (by omega) (lt_trans small (by decide))
        (lt_trans small' (by decide)) bodies
      exact ⟨rfl,rest⟩
    · omega
  · rcases theirs with ⟨scalar,_⟩ | ⟨_,value',rfl,small',rfl⟩
    · omega
    · rw [List.append_assoc,List.append_assoc] at bodies
      obtain ⟨length,values⟩ := writeVarint_append_injective (by omega) (lt_trans small (by decide))
        (lt_trans small' (by decide)) bodies
      obtain ⟨rfl,rest⟩ := List.append_inj values length
      exact ⟨rfl,rest⟩

theorem Field.Writable.ne_nil {field : Field} (writable : field.Writable) : field.write ≠ [] := by
  obtain ⟨number,wireType,body,_,_,written,_⟩ := writable.tag
  have tag := writeVarint_length_pos (show 0 < 5 by omega) (8 * number + wireType)
  intro none
  rw [written,writeTag] at none
  have := congrArg List.length none
  simp only [List.length_append,List.length_nil] at this
  omega

theorem writes_injective {fields fields' : List Field} (mine : ∀ f ∈ fields, f.Writable)
    (theirs : ∀ f ∈ fields', f.Writable) (same : fields.flatMap Field.write = fields'.flatMap Field.write) :
    fields = fields' := by
  induction fields generalizing fields' with
  | nil =>
    cases fields' with
    | nil => rfl
    | cons g rest =>
      have nothing := (theirs g List.mem_cons_self).ne_nil
      rw [List.flatMap_nil,List.flatMap_cons] at same
      exact absurd (List.append_eq_nil_iff.mp same.symm).1 nothing
  | cons f rest ih =>
    cases fields' with
    | nil =>
      have nothing := (mine f List.mem_cons_self).ne_nil
      rw [List.flatMap_nil,List.flatMap_cons] at same
      exact absurd (List.append_eq_nil_iff.mp same).1 nothing
    | cons g rest' =>
      obtain ⟨rfl,later⟩ := write_append_injective (mine f List.mem_cons_self)
        (theirs g List.mem_cons_self) same
      rw [ih (fun f inside => mine f (List.mem_cons_of_mem _ inside))
        (fun f inside => theirs f (List.mem_cons_of_mem _ inside)) later]

/-! ### A written message is read back -/

/-- Fields that a writer produces. -/
def Field.Fits : Field → Prop
  | .varint number value => 0 < number ∧ number < 2 ^ 29 ∧ value < 2 ^ 64
  | .bytes number value => 0 < number ∧ number < 2 ^ 29 ∧ value.length ≤ maxSize
  | .other => False

theorem Field.Fits.writable {field : Field} (fits : field.Fits) : field.Writable := by
  cases field with
  | varint number value => exact fits
  | bytes number value => exact ⟨fits.1,fits.2.1,lt_of_le_of_lt fits.2.2 (by decide)⟩
  | other => exact fits

theorem readTag_write {number wireType : Nat} (low : number < 2 ^ 29) (wire : wireType < 8) (rest : Octets) :
    readTag (writeTag number wireType ++ rest) = some (8 * number + wireType,rest) := by
  have tag : 8 * number + wireType < 2 ^ 32 := by omega
  have read : readVarint 5 (writeTag number wireType ++ rest) = some (8 * number + wireType,rest) :=
    read_write rest (by omega) (lt_trans tag (by decide)) le_rfl
  simp only [readTag,read,Option.map_some,Nat.mod_eq_of_lt tag]

theorem readDelimited_write {value : Octets} (fits : value.length ≤ maxSize) (rest : Octets) :
    readDelimited (writeVarint 5 value.length ++ value ++ rest) = some (value,rest) := by
  have size : value.length < 128 ^ 5 := lt_of_le_of_lt fits (by decide)
  have read : readVarint 5 (writeVarint 5 value.length ++ (value ++ rest)) =
      some (value.length,value ++ rest) := read_write _ (by omega) size le_rfl
  simp [readDelimited,read,fits,takeBytes]

theorem readField_write {field : Field} (fits : field.Fits) (rest : Octets) :
    readField (field.write ++ rest) = some (field,rest) := by
  cases field with
  | varint number value =>
    obtain ⟨positive,low,small⟩ := fits
    have tag := readTag_write low (show 0 < 8 by omega) (writeVarint 10 value ++ rest)
    have read : readVarint 10 (writeVarint 10 value ++ rest) = some (value,rest) :=
      read_write rest (by omega) (lt_trans small (by decide)) le_rfl
    have nonzero : number ≠ 0 := by omega
    simp [readField,Field.write,tag,read,nonzero]
  | bytes number value =>
    obtain ⟨positive,low,small⟩ := fits
    have tag := readTag_write low (show 2 < 8 by omega) (writeVarint 5 value.length ++ value ++ rest)
    have read := readDelimited_write small rest
    have number' : (8 * number + 2) / 8 = number := by omega
    have wire : (8 * number + 2) % 8 = 2 := by omega
    simp only [List.append_assoc] at tag read
    simp [readField,Field.write,tag,read,number',wire]
    omega
  | other => exact fits.elim

theorem readFields_write {fields : List Field} (fits : ∀ f ∈ fields, f.Fits) {fuel : Nat}
    (enough : fields.length ≤ fuel) : readFields fuel (fields.flatMap Field.write) = some fields := by
  induction fields generalizing fuel with
  | nil => cases fuel <;> rfl
  | cons field fields ih =>
    obtain ⟨fuel,rfl⟩ : ∃ k, fuel = k + 1 := ⟨fuel - 1,by simp at enough; omega⟩
    have first := fits field List.mem_cons_self
    have rest := ih (fun f inside => fits f (List.mem_cons_of_mem _ inside)) (by simpa using enough)
    have read := readField_write first (fields.flatMap Field.write)
    obtain ⟨byte,bytes,eq⟩ := List.exists_cons_of_ne_nil (first.writable.ne_nil)
    rw [List.flatMap_cons]
    rw [eq] at read ⊢
    simp only [List.cons_append] at read ⊢
    simp [readFields,read,rest]

theorem parse_write {fields : List Field} (fits : ∀ f ∈ fields, f.Fits) :
    parse (fields.flatMap Field.write) = some fields := by
  apply readFields_write fits
  induction fields with
  | nil => simp
  | cons field fields ih =>
    have first := List.length_pos_iff.mpr (fits field List.mem_cons_self).writable.ne_nil
    have rest := ih fun f inside => fits f (List.mem_cons_of_mem _ inside)
    simp only [List.flatMap_cons,List.length_append,List.length_cons]
    omega

/-! ### What is read is no shorter than what would be written -/

theorem takeBytes_length (taken : takeBytes size bytes = some (value,rest)) :
    value.length = size ∧ value.length + rest.length = bytes.length := by
  unfold takeBytes at taken
  split at taken
  · obtain ⟨rfl,rfl⟩ := Prod.mk.inj (Option.some.inj taken)
    simp
    omega
  · cases taken

theorem readTag_length (read : readTag bytes = some (tag,rest)) :
    (writeVarint 5 tag).length + rest.length ≤ bytes.length := by
  obtain ⟨⟨n,rest'⟩,first,eq⟩ := Option.map_eq_some_iff.mp read
  obtain ⟨rfl,rfl⟩ := Prod.mk.inj eq
  exact readVarint_length 5 (Nat.mod_le ..) first

theorem readDelimited_length (read : readDelimited bytes = some (value,rest)) :
    (writeVarint 5 value.length).length + value.length + rest.length ≤ bytes.length := by
  obtain ⟨⟨size,rest'⟩,first,taken⟩ := Option.bind_eq_some_iff.mp read
  simp only at taken
  split at taken
  · obtain ⟨length,whole⟩ := takeBytes_length taken
    have := readVarint_length 5 length.le first
    omega
  · cases taken

theorem skipScalar_length (skipped : skipScalar wireType bytes = some rest) : rest.length ≤ bytes.length := by
  unfold skipScalar at skipped
  split at skipped
  · obtain ⟨⟨n,_⟩,read,rfl⟩ := Option.map_eq_some_iff.mp skipped
    exact (readVarint_shorter read).le
  split at skipped
  · obtain ⟨⟨_,_⟩,taken,rfl⟩ := Option.map_eq_some_iff.mp skipped
    have := takeBytes_length taken
    simp only
    omega
  split at skipped
  · obtain ⟨⟨_,_⟩,taken,rfl⟩ := Option.map_eq_some_iff.mp skipped
    have := readDelimited_length taken
    simp only
    omega
  split at skipped
  · obtain ⟨⟨_,_⟩,taken,rfl⟩ := Option.map_eq_some_iff.mp skipped
    have := takeBytes_length taken
    simp only
    omega
  · cases skipped

theorem skipGroups_length {fuel : Nat} {groups : List Nat}
    (skipped : skipGroups fuel groups bytes = some rest) : rest.length ≤ bytes.length := by
  induction fuel generalizing groups bytes with
  | zero =>
    cases groups with
    | nil => exact (Option.some.inj skipped) ▸ le_rfl
    | cons _ _ => cases skipped
  | succ fuel ih =>
    cases groups with
    | nil => exact (Option.some.inj skipped) ▸ le_rfl
    | cons number outer =>
      obtain ⟨⟨tag,after⟩,first,skipped⟩ := Option.bind_eq_some_iff.mp skipped
      have shorter := readTag_length first
      simp only at skipped
      split at skipped
      · have := ih skipped
        omega
      split at skipped
      · cases skipped
      split at skipped
      · split at skipped
        · have := ih skipped
          omega
        · cases skipped
      · obtain ⟨later,scalar,skipped⟩ := Option.bind_eq_some_iff.mp skipped
        have := ih skipped
        have := skipScalar_length scalar
        omega

theorem readField_length (read : readField bytes = some (field,rest)) :
    field.write.length + rest.length ≤ bytes.length := by
  obtain ⟨⟨tag,after⟩,first,read⟩ := Option.bind_eq_some_iff.mp read
  have tagged := readTag_length first
  simp only at read
  split at read
  · cases read
  split at read
  · next wire =>
    obtain ⟨⟨value,_⟩,held,eq⟩ := Option.map_eq_some_iff.mp read
    obtain ⟨rfl,rfl⟩ := Prod.mk.inj eq
    have := readVarint_length 10 le_rfl held
    have same : 8 * (tag / 8) + 0 = tag := by omega
    simp only [Field.write,writeTag,same,List.length_append]
    omega
  split at read
  · next wire =>
    obtain ⟨⟨value,_⟩,held,eq⟩ := Option.map_eq_some_iff.mp read
    obtain ⟨rfl,rfl⟩ := Prod.mk.inj eq
    have := readDelimited_length held
    have same : 8 * (tag / 8) + 2 = tag := by omega
    simp only [Field.write,writeTag,same,List.length_append]
    omega
  split at read
  · obtain ⟨_,held,eq⟩ := Option.map_eq_some_iff.mp read
    obtain ⟨rfl,rfl⟩ := Prod.mk.inj eq
    have := skipGroups_length held
    simp only [Field.write,List.length_nil]
    omega
  · obtain ⟨_,held,eq⟩ := Option.map_eq_some_iff.mp read
    obtain ⟨rfl,rfl⟩ := Prod.mk.inj eq
    have := skipScalar_length held
    simp only [Field.write,List.length_nil]
    omega

theorem readFields_length {fuel : Nat} (read : readFields fuel bytes = some fields) :
    (fields.flatMap Field.write).length ≤ bytes.length := by
  induction fuel generalizing bytes fields with
  | zero =>
    cases bytes with
    | nil => obtain rfl := Option.some.inj read; simp
    | cons _ _ => cases read
  | succ fuel ih =>
    cases bytes with
    | nil => obtain rfl := Option.some.inj read; simp
    | cons byte bytes =>
      obtain ⟨⟨field,rest⟩,first,read⟩ := Option.bind_eq_some_iff.mp read
      obtain ⟨later,held,eq⟩ := Option.bind_eq_some_iff.mp read
      obtain rfl := Option.some.inj eq
      have := readField_length first
      have := ih held
      simp only [List.flatMap_cons,List.length_append]
      omega

theorem parse_length (read : parse bytes = some fields) :
    (fields.flatMap Field.write).length ≤ bytes.length := readFields_length read

theorem readDelimited_size (read : readDelimited bytes = some (value,rest)) : value.length ≤ maxSize := by
  obtain ⟨⟨size,_⟩,_,taken⟩ := Option.bind_eq_some_iff.mp read
  simp only at taken
  split at taken
  · next small => exact (takeBytes_length taken).1.trans_le small
  · cases taken

theorem readField_size {number : Nat} (read : readField bytes = some (.bytes number value,rest)) :
    value.length ≤ maxSize := by
  obtain ⟨⟨tag,after⟩,_,read⟩ := Option.bind_eq_some_iff.mp read
  simp only at read
  split at read
  · cases read
  split at read
  · obtain ⟨_,_,eq⟩ := Option.map_eq_some_iff.mp read
    cases (Prod.mk.inj eq).1
  split at read
  · obtain ⟨⟨value',_⟩,held,eq⟩ := Option.map_eq_some_iff.mp read
    obtain ⟨_,rfl⟩ := Field.bytes.inj (Prod.mk.inj eq).1
    exact readDelimited_size held
  split at read
  all_goals
    obtain ⟨_,_,eq⟩ := Option.map_eq_some_iff.mp read
    cases (Prod.mk.inj eq).1

/-- A parsed message has no field above the size limit. -/
theorem readFields_size {fuel number : Nat} (read : readFields fuel bytes = some fields)
    (member : Field.bytes number value ∈ fields) : value.length ≤ maxSize := by
  induction fuel generalizing bytes fields with
  | zero =>
    cases bytes with
    | nil => obtain rfl := Option.some.inj read; cases member
    | cons _ _ => cases read
  | succ fuel ih =>
    cases bytes with
    | nil => obtain rfl := Option.some.inj read; cases member
    | cons byte bytes =>
      obtain ⟨⟨field,rest⟩,first,read⟩ := Option.bind_eq_some_iff.mp read
      obtain ⟨later,held,eq⟩ := Option.bind_eq_some_iff.mp read
      obtain rfl := Option.some.inj eq
      rcases List.mem_cons.mp member with rfl | member
      · exact readField_size first
      · exact ih held member

/-! ### Frames in a stream -/

section Frames
variable {decode : Octets → Option A} {frame : A → Octets} {chunks : List Octets}

theorem filterMap_length (short : ∀ c a, c ≠ [] → decode c = some a → (frame a).length ≤ c.length)
    (nonempty : ∀ c ∈ chunks, c ≠ []) :
    ((chunks.filterMap decode).map frame).flatten.length ≤ chunks.flatten.length := by
  induction chunks with
  | nil => simp
  | cons c rest ih =>
    have later := ih fun c inside => nonempty c (List.mem_cons_of_mem _ inside)
    cases found : decode c with
    | none =>
      simp only [List.filterMap_cons,found,List.flatten_cons,List.length_append]
      omega
    | some a =>
      have := short c a (nonempty c List.mem_cons_self) found
      simp only [List.filterMap_cons,found,List.map_cons,List.flatten_cons,List.length_append]
      omega

/-- Where no chunk decodes to something with a longer frame, a stream that decodes to its own
frames was cut between them. -/
theorem own_frame (short : ∀ c a, c ≠ [] → decode c = some a → (frame a).length ≤ c.length)
    (nonempty : ∀ c ∈ chunks, c ≠ []) (whole : chunks.flatten = ((chunks.filterMap decode).map frame).flatten) :
    ∀ c ∈ chunks, ∃ a, decode c = some a ∧ frame a = c := by
  induction chunks with
  | nil => simp
  | cons c rest ih =>
    have later := fun c inside => nonempty c (List.mem_cons_of_mem _ inside)
    have rest_short := filterMap_length short later
    have here := nonempty c List.mem_cons_self
    cases found : decode c with
    | none =>
      simp only [List.filterMap_cons,found,List.flatten_cons] at whole
      have lengths := congrArg List.length whole
      have := List.length_pos_iff.mpr here
      rw [List.length_append] at lengths
      omega
    | some a =>
      simp only [List.filterMap_cons,found,List.map_cons,List.flatten_cons] at whole
      have lengths := congrArg List.length whole
      have := short c a here found
      rw [List.length_append,List.length_append] at lengths
      obtain ⟨same,tail⟩ := List.append_inj whole (by omega)
      intro c' inside
      rcases List.mem_cons.mp inside with rfl | inside
      · exact ⟨a,found,same.symm⟩
      · exact ih later tail c' inside

theorem frames_of_own (own : ∀ c ∈ chunks, ∃ a, decode c = some a ∧ frame a = c) :
    (chunks.filterMap decode).map frame = chunks := by
  induction chunks with
  | nil => rfl
  | cons c rest ih =>
    obtain ⟨a,found,same⟩ := own c List.mem_cons_self
    have later := ih fun c inside => own c (List.mem_cons_of_mem _ inside)
    simp only [List.filterMap_cons,found,List.map_cons,same,later]

end Frames

end KvStorage.Wire
