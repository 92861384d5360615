import KvStorage.Lib.Wire

/-! Messages by the numbers of their fields. A field of default value is not written, a later copy of
a field replaces an earlier one, and copies of a repeated field add up. What is cut off behind a field
reads as the message without the rest, and what is cut off within one does not read. -/
namespace KvStorage.Wire

/-- The value of a field; an element of a repeated one is a message as it is written. -/
inductive Value where
  | int32 (value : BitVec 32)
  | bool (value : Bool)
  | bytes (value : Octets)
  | repeated (values : List Octets)
  deriving DecidableEq, Repr

namespace Value

/-- The value of a field that was not received. -/
def blank : Value → Value
  | .int32 _ => .int32 0
  | .bool _ => .bool false
  | .bytes _ => .bytes []
  | .repeated _ => .repeated []

/-- An `int32` is written with its sign extended to 64 bits. -/
def write (number : Nat) : Value → List Field
  | .int32 value => if value = 0 then [] else [.varint number (value.signExtend 64).toNat]
  | .bool value => if value then [.varint number 1] else []
  | .bytes value => if value.length > 0 then [.bytes number value] else []
  | .repeated values => values.map (.bytes number)

/-- What the next field makes of the value, if it is one with this number. -/
def read (number : Nat) : Value → Field → Option Value
  | .int32 _, .varint n value => if n = number then some (.int32 (.ofNat 32 value)) else none
  | .bool _, .varint n value => if n = number then some (.bool (value % 2 ^ 64 ≠ 0)) else none
  | .bytes _, .bytes n value => if n = number then some (.bytes value) else none
  | .repeated values, .bytes n value => if n = number then some (.repeated (values ++ [value])) else none
  | _, _ => none

/-- The parser admits no delimited field above its limit. -/
def Fits : Value → Prop
  | .int32 _ => True
  | .bool _ => True
  | .bytes value => value.length ≤ maxSize
  | .repeated values => ∀ value ∈ values, value.length ≤ maxSize

end Value

/-- The fields in the order in which they are written. -/
abbrev Message := List (Nat × Value)

namespace Message

def blank (m : Message) : Message := m.map fun field => (field.1,field.2.blank)

def fields (m : Message) : List Field := m.flatMap fun field => field.2.write field.1

def set : Message → Field → Message
  | [], _ => []
  | (number,value) :: rest, field => match value.read number field with
    | some value => (number,value) :: rest
    | none => (number,value) :: set rest field

def serialize (m : Message) : Octets := m.fields.flatMap Field.write

/-- The message that the bytes make of a blank one. -/
def parse (m : Message) (bytes : Octets) : Option Message := (Wire.parse bytes).map fun fields => fields.foldl set m

/-- Fields that can be told apart and written. -/
structure Fits (m : Message) : Prop where
  distinct : (m.map Prod.fst).Nodup
  range : ∀ field ∈ m, 0 < field.1 ∧ field.1 < 2 ^ 29
  values : ∀ field ∈ m, field.2.Fits

end Message

/-! ### Round trip -/

def Field.number : Field → Option Nat
  | .varint number _ => some number
  | .bytes number _ => some number
  | .other => none

variable {number : Nat} {value : Value} {field : Field} {m : Message}

theorem setWidth_signExtend (value : BitVec 32) : (value.signExtend 64).setWidth 32 = value := by
  apply BitVec.eq_of_getLsbD_eq
  intro i low
  rw [BitVec.getLsbD_setWidth,BitVec.getLsbD_signExtend]
  simp [low,show i < 64 by omega]

/-- What is written of a value: nothing if it is the default. -/
theorem write_cases (number : Nat) (value : Value) :
    (value = value.blank ∧ value.write number = []) ∨
    (∃ field, value.write number = [field] ∧ field.number = some number ∧ value.blank.read number field = some value) ∨
    ∃ values, value = .repeated values ∧ value.write number = values.map (.bytes number) := by
  cases value with
  | int32 value =>
    by_cases zero : value = 0
    · exact .inl ⟨by rw [zero]; rfl,if_pos zero⟩
    · refine .inr (.inl ⟨_,if_neg zero,rfl,?_⟩)
      simp [Value.blank,Value.read,setWidth_signExtend]
  | bool value =>
    cases value with
    | false => exact .inl ⟨rfl,rfl⟩
    | true => exact .inr (.inl ⟨_,rfl,rfl,by simp [Value.blank,Value.read]⟩)
  | bytes value =>
    by_cases some_ : value.length > 0
    · exact .inr (.inl ⟨_,if_pos some_,rfl,by simp [Value.blank,Value.read]⟩)
    · have empty := List.length_eq_zero_iff.mp (Nat.eq_zero_of_not_pos some_)
      exact .inl ⟨by rw [empty]; rfl,if_neg some_⟩
  | repeated values => exact .inr (.inr ⟨values,rfl,rfl⟩)

theorem number_of_write (inside : field ∈ value.write number) : field.number = some number := by
  rcases write_cases number value with ⟨_,nothing⟩ | ⟨f,one,same,_⟩ | ⟨values,_,many⟩
  · rw [nothing] at inside
    cases inside
  · rw [one] at inside
    rw [List.mem_singleton.mp inside]
    exact same
  · rw [many] at inside
    obtain ⟨_,_,rfl⟩ := List.mem_map.mp inside
    rfl

theorem read_of_number (other : field.number ≠ some number) : value.read number field = none := by
  have differs {n : Nat} (same : field.number = some n) : n ≠ number := by
    rintro rfl
    exact other same
  cases field with
  | varint n v => cases value <;> simp [Value.read,differs rfl]
  | bytes n v => cases value <;> simp [Value.read,differs rfl]
  | other => cases value <;> rfl

namespace Message

theorem mem_fields (inside : field ∈ m.fields) : ∃ number ∈ m.map Prod.fst, field.number = some number := by
  obtain ⟨own,held,written⟩ := List.mem_flatMap.mp inside
  exact ⟨own.1,List.mem_map_of_mem held,number_of_write written⟩

/-- The fields of one value give it back, where the message was blank. -/
theorem foldl_write (number : Nat) (value : Value) (rest : Message) :
    (value.write number).foldl set ((number,value.blank) :: rest) = (number,value) :: rest := by
  rcases write_cases number value with ⟨default,nothing⟩ | ⟨field,one,_,read⟩ | ⟨values,rfl,many⟩
  · rw [nothing,← default]
    rfl
  · rw [one]
    simp [set,read]
  · have fold : ∀ before : List Octets, (values.map (Field.bytes number)).foldl set
        ((number,.repeated before) :: rest) = (number,.repeated (before ++ values)) :: rest := by
      clear many
      induction values with
      | nil => simp
      | cons v values ih =>
        intro before
        have next : set ((number,.repeated before) :: rest) (.bytes number v) =
            (number,.repeated (before ++ [v])) :: rest := by simp [set,Value.read]
        rw [List.map_cons,List.foldl_cons,next,ih,List.append_assoc,List.singleton_append]
    rw [many]
    exact fold []

/-- Fields of other numbers pass a value by. -/
theorem foldl_pass {fields : List Field} (other : ∀ field ∈ fields, field.number ≠ some number) (rest : Message) :
    fields.foldl set ((number,value) :: rest) = (number,value) :: fields.foldl set rest := by
  induction fields generalizing rest with
  | nil => rfl
  | cons field fields ih =>
    have pass : set ((number,value) :: rest) field = (number,value) :: set rest field := by
      rw [set,read_of_number (other field List.mem_cons_self)]
    rw [List.foldl_cons,pass,ih (fun f inside => other f (List.mem_cons_of_mem _ inside)),List.foldl_cons]

theorem foldl_fields (distinct : (m.map Prod.fst).Nodup) : m.fields.foldl set m.blank = m := by
  induction m with
  | nil => rfl
  | cons first rest ih =>
    obtain ⟨number,value⟩ := first
    obtain ⟨fresh,later⟩ := List.nodup_cons.mp distinct
    have other : ∀ field ∈ fields rest, field.number ≠ some number := by
      intro field inside same
      obtain ⟨n,held,same'⟩ := mem_fields inside
      obtain rfl := Option.some.inj (same.symm.trans same')
      exact fresh held
    have blank : blank ((number,value) :: rest) = (number,value.blank) :: blank rest := rfl
    have split : fields ((number,value) :: rest) = value.write number ++ fields rest := List.flatMap_cons
    rw [split,List.foldl_append,blank,foldl_write,foldl_pass other,ih later]

theorem fields_fits (fits : m.Fits) : ∀ field ∈ m.fields, field.Fits := by
  intro field inside
  obtain ⟨⟨number,value⟩,held,written⟩ := List.mem_flatMap.mp inside
  obtain ⟨positive,low⟩ := fits.range _ held
  have value_fits := fits.values _ held
  cases value with
  | int32 value =>
    simp only [Value.write] at written
    split at written
    · cases written
    · rw [List.mem_singleton.mp written]
      exact ⟨positive,low,BitVec.isLt _⟩
  | bool value =>
    simp only [Value.write] at written
    split at written
    · rw [List.mem_singleton.mp written]
      exact ⟨positive,low,by omega⟩
    · cases written
  | bytes value =>
    simp only [Value.write] at written
    split at written
    · rw [List.mem_singleton.mp written]
      exact ⟨positive,low,value_fits⟩
    · cases written
  | repeated values =>
    obtain ⟨v,own,rfl⟩ := List.mem_map.mp written
    exact ⟨positive,low,value_fits v own⟩

theorem parse_serialize (fits : m.Fits) : parse m.blank m.serialize = some m := by
  rw [parse,serialize,parse_write (fields_fits fits),Option.map_some,foldl_fields fits.distinct]

end Message

/-! ### Messages that are cut off -/

theorem readVarint_short {width limit n k : Nat} (short : k < (writeVarint width n).length) :
    readVarint limit ((writeVarint width n).take k) = none := by
  induction width generalizing limit n k with
  | zero => simp [writeVarint] at short
  | succ width ih =>
    have nothing : readVarint limit [] = none := by cases limit <;> rfl
    cases k with
    | zero => exact nothing
    | succ k =>
      by_cases small : n < 128
      · simp [writeVarint,small] at short
      · simp only [writeVarint,if_neg small,List.length_cons] at short
        have byte : (n % 128 + 128).toUInt8.toNat = n % 128 + 128 := by
          rw [UInt8.toNat_ofNat']
          exact Nat.mod_eq_of_lt (by omega)
        cases limit with
        | zero => rfl
        | succ limit =>
          have rest : readVarint limit ((writeVarint width (n / 128)).take k) = none := by
            apply ih
            omega
          have large : ¬ n % 128 + 128 < 128 := by omega
          simp only [writeVarint,if_neg small,List.take_succ_cons,readVarint,byte,if_neg large,rest]
          rfl

theorem readDelimited_short {value : Octets} {k : Nat} (fits : value.length ≤ maxSize)
    (short : k < (writeVarint 5 value.length ++ value).length) :
    readDelimited ((writeVarint 5 value.length ++ value).take k) = none := by
  rw [List.length_append] at short
  rcases Nat.lt_or_ge k (writeVarint 5 value.length).length with within | behind
  · rw [List.take_append_of_le_length within.le,readDelimited,readVarint_short within]
    rfl
  · have size : value.length < 128 ^ 5 := lt_of_le_of_lt fits (by decide)
    have read : readVarint 5 (writeVarint 5 value.length ++ value.take (k - (writeVarint 5 value.length).length)) =
        some (value.length,value.take (k - (writeVarint 5 value.length).length)) :=
      read_write _ (by omega) size le_rfl
    have missing : ¬ value.length ≤ (value.take (k - (writeVarint 5 value.length).length)).length := by
      rw [List.length_take]
      omega
    rw [List.take_append,List.take_of_length_le behind,readDelimited,read]
    simp only [Option.bind_eq_bind,Option.bind_some,if_pos fits,takeBytes,if_neg missing]

/-- A field that is cut off within does not read. -/
theorem readField_short {k : Nat} (fits : field.Fits) (short : k < field.write.length) :
    readField (field.write.take k) = none := by
  obtain ⟨number,wireType,body,low,wire,written,kind⟩ := fits.writable.tag
  rw [written] at short ⊢
  rw [List.length_append] at short
  rcases Nat.lt_or_ge k (writeTag number wireType).length with within | behind
  · have tag : readTag ((writeTag number wireType).take k) = none := by
      rw [readTag,writeTag,readVarint_short within]
      rfl
    rw [List.take_append_of_le_length within.le,readField,tag]
    rfl
  · have tag := readTag_write low wire (body.take (k - (writeTag number wireType).length))
    rw [List.take_append,List.take_of_length_le behind,readField,tag]
    have divides : (8 * number + wireType) / 8 = number := by omega
    have rest : (8 * number + wireType) % 8 = wireType := by omega
    simp only [Option.bind_eq_bind,Option.bind_some,divides,rest]
    rcases kind with ⟨rfl,value,rfl,small,rfl⟩ | ⟨rfl,value,rfl,small,rfl⟩
    · rw [readVarint_short (by omega)]
      simp
    · rw [readDelimited_short fits.2.2 (by omega)]
      simp

theorem readFields_of_ne_nil {bytes : Octets} (some_ : bytes ≠ []) (fuel : Nat) : readFields (fuel + 1) bytes =
    (readField bytes).bind fun first => (readFields fuel first.2).map fun fields => first.1 :: fields := by
  cases bytes with
  | nil => exact absurd rfl some_
  | cons byte bytes =>
    rw [readFields]
    cases readField (byte :: bytes) with
    | none => rfl
    | some first =>
      simp only [Option.bind_eq_bind,Option.bind_some]
      cases readFields fuel first.2 <;> rfl
    exact fun same => absurd same (List.cons_ne_nil _ _)

/-- Of a message that is cut off, the fields before the cut are read, if it is between fields. -/
theorem readFields_short {fields read : List Field} (fits : ∀ field ∈ fields, field.Fits) {fuel k : Nat}
    (parsed : readFields fuel ((fields.flatMap Field.write).take k) = some read) :
    read <+: fields ∧ read.flatMap Field.write = (fields.flatMap Field.write).take k := by
  induction fields generalizing fuel k read with
  | nil =>
    rw [List.flatMap_nil,List.take_nil] at parsed ⊢
    cases fuel <;> cases parsed <;> exact ⟨List.nil_prefix,rfl⟩
  | cons field fields ih =>
    have own := fits field List.mem_cons_self
    have some_ := List.length_pos_iff.mpr own.writable.ne_nil
    rw [List.flatMap_cons] at parsed ⊢
    rcases Nat.eq_zero_or_pos k with rfl | positive
    · rw [List.take_zero] at parsed ⊢
      cases fuel <;> cases parsed <;> exact ⟨List.nil_prefix,rfl⟩
    rcases Nat.lt_or_ge k field.write.length with within | behind
    · rw [List.take_append_of_le_length within.le] at parsed
      have started : field.write.take k ≠ [] := by
        rw [Ne,List.take_eq_nil_iff]
        rintro (zero | empty)
        · omega
        · exact own.writable.ne_nil empty
      cases fuel with
      | zero =>
        obtain ⟨byte,bytes,eq⟩ := List.exists_cons_of_ne_nil started
        rw [eq] at parsed
        cases parsed
      | succ fuel =>
        rw [readFields_of_ne_nil started,readField_short own within] at parsed
        cases parsed
    · rw [List.take_append,List.take_of_length_le behind] at parsed ⊢
      have started : field.write ++ (fields.flatMap Field.write).take (k - field.write.length) ≠ [] :=
        fun empty => own.writable.ne_nil (List.append_eq_nil_iff.mp empty).1
      cases fuel with
      | zero =>
        obtain ⟨byte,bytes,eq⟩ := List.exists_cons_of_ne_nil started
        rw [eq] at parsed
        cases parsed
      | succ fuel =>
        rw [readFields_of_ne_nil started,readField_write own,Option.bind_some] at parsed
        obtain ⟨later,held,rfl⟩ := Option.map_eq_some_iff.mp parsed
        obtain ⟨front,bytes⟩ := ih (fun f inside => fits f (List.mem_cons_of_mem _ inside)) held
        refine ⟨(List.prefix_cons_inj field).mpr front,?_⟩
        rw [List.flatMap_cons,bytes]

@[simp] theorem write_blank (number : Nat) (value : Value) : value.blank.write number = [] := by
  cases value <;> rfl

@[simp] theorem blank_blank (value : Value) : value.blank.blank = value.blank := by
  cases value <;> rfl

theorem prefix_write {read : List Field} (front : read <+: value.write number) :
    ∃ part : Value, read = part.write number ∧ part.blank = value.blank := by
  rcases write_cases number value with ⟨_,nothing⟩ | ⟨field,one,_⟩ | ⟨values,rfl,many⟩
  · rw [nothing] at front
    exact ⟨value,by rw [List.prefix_nil.mp front,nothing],rfl⟩
  · rw [one] at front
    rcases List.prefix_cons_iff.mp front with rfl | ⟨rest,rfl,nothing⟩
    · exact ⟨value.blank,(write_blank ..).symm,blank_blank value⟩
    · exact ⟨value,by rw [List.prefix_nil.mp nothing,one],rfl⟩
  · rw [many,List.prefix_iff_eq_take] at front
    exact ⟨.repeated (values.take read.length),by rw [front,← List.map_take]; simp [Value.write],rfl⟩

namespace Message

theorem fields_blank (m : Message) : m.blank.fields = [] := by
  simp [blank,fields,List.flatMap_map]

theorem blank_blank (m : Message) : m.blank.blank = m.blank := by
  simp [blank]

/-- The fields of a message up to some point are those of a message with less in it. -/
theorem prefix_fields {read : List Field} (front : read <+: m.fields) :
    ∃ part : Message, read = part.fields ∧ part.blank = m.blank := by
  induction m generalizing read with
  | nil => exact ⟨[],List.prefix_nil.mp front,rfl⟩
  | cons first rest ih =>
    obtain ⟨number,value⟩ := first
    have split : fields ((number,value) :: rest) = value.write number ++ fields rest := List.flatMap_cons
    obtain ⟨back,whole⟩ := front
    rw [split] at whole
    rcases List.append_eq_append_iff.mp whole with ⟨more,own,_⟩ | ⟨later,rfl,tail⟩
    · obtain ⟨part,own,kind⟩ := prefix_write ⟨more,own.symm⟩
      refine ⟨(number,part) :: blank rest,?_,?_⟩
      · have cut : fields ((number,part) :: blank rest) = part.write number ++ fields (blank rest) := List.flatMap_cons
        rw [cut,fields_blank,List.append_nil,own]
      · show (number,part.blank) :: blank (blank rest) = (number,value.blank) :: blank rest
        rw [kind,blank_blank]
    · obtain ⟨part,own,kind⟩ := ih ⟨back,tail.symm⟩
      refine ⟨(number,value) :: part,?_,?_⟩
      · have cut : fields ((number,value) :: part) = value.write number ++ fields part := List.flatMap_cons
        rw [cut,← own]
      · show (number,value.blank) :: blank part = (number,value.blank) :: blank rest
        rw [kind]

theorem blank_fst (m : Message) : m.blank.map Prod.fst = m.map Prod.fst := by
  simp [blank,Function.comp_def]

/-- What reads of a message that is cut off: the message of the fields before the cut. -/
theorem parse_take (fits : m.Fits) {k : Nat} {m' : Message} (parsed : parse m.blank (m.serialize.take k) = some m') :
    m'.fields <+: m.fields ∧ m'.serialize = m.serialize.take k ∧ m'.blank = m.blank := by
  obtain ⟨read,held,same⟩ := Option.map_eq_some_iff.mp parsed
  obtain ⟨front,bytes⟩ := readFields_short (fields_fits fits) held
  obtain ⟨part,rfl,blank⟩ := prefix_fields front
  have numbers : part.map Prod.fst = m.map Prod.fst := by
    rw [← blank_fst part,blank,blank_fst]
  rw [← blank,foldl_fields (numbers ▸ fits.distinct)] at same
  subst same
  exact ⟨front,bytes,blank⟩

/-- A message whose fields are numbered from 1 and whose bytes are no more than the parser admits. -/
theorem fits_of_length (numbers : m.map Prod.fst = List.range' 1 m.length) (few : m.length < 2 ^ 28)
    (short : m.serialize.length ≤ maxSize) : m.Fits where
  distinct := by
    rw [numbers]
    exact List.nodup_range'
  range := by
    intro field inside
    have number := List.mem_map_of_mem (f := Prod.fst) inside
    rw [numbers,List.mem_range'_1] at number
    omega
  values := by
    rintro ⟨number,value⟩ inside
    have part {f : Field} (written : f ∈ value.write number) : f.write.length ≤ maxSize := by
      have held : f ∈ m.fields := List.mem_flatMap.mpr ⟨_,inside,written⟩
      have inside := ((List.singleton_sublist.mpr held).flatMap Field.write).length_le
      rw [List.flatMap_singleton] at inside
      exact inside.trans short
    cases value with
    | int32 value => trivial
    | bool value => trivial
    | bytes value =>
      by_cases some_ : value.length > 0
      · have own : (Field.bytes number value) ∈ (Value.bytes value).write number := by simp [Value.write,some_]
        have bound := part own
        simp only [Field.write,List.length_append] at bound
        show value.length ≤ maxSize
        omega
      · show value.length ≤ maxSize
        omega
    | repeated values =>
      intro v held
      have bound := part (List.mem_map_of_mem (f := Field.bytes number) held)
      simp only [Field.write,List.length_append] at bound
      omega

end Message

/-! ### Sizes -/

theorem writeVarint_length_le (width n : Nat) : (writeVarint width n).length ≤ width := by
  induction width generalizing n with
  | zero => rfl
  | succ width ih =>
    rw [writeVarint]
    split
    · simp
    · simpa using ih (n / 128)

/-- The length of a delimited field takes one byte up to 127, and two up to 16383. -/
theorem writeVarint_length_two {width n : Nat} (large : 128 ≤ n) (small : n < 16384) (wide : 2 ≤ width) :
    (writeVarint width n).length = 2 := by
  obtain ⟨width,rfl⟩ : ∃ k, width = k + 2 := ⟨width - 2,by omega⟩
  simp [writeVarint,show ¬ n < 128 by omega,show n / 128 < 128 by omega]

theorem writeTag_length {number wireType : Nat} (low : 8 * number + wireType < 128) :
    (writeTag number wireType).length = 1 := by
  simp [writeTag,writeVarint,low]

/-- The bytes that a value takes in its message. -/
def Value.size (number : Nat) (value : Value) : Nat := ((value.write number).flatMap Field.write).length

theorem Message.serialize_length (m : Message) : m.serialize.length = (m.map fun field => field.2.size field.1).sum := by
  induction m with
  | nil => rfl
  | cons field rest ih =>
    rw [List.map_cons,List.sum_cons,← ih]
    simp [serialize,fields,Value.size]

theorem size_int32 {number : Nat} (low : number < 16) (value : BitVec 32) : (Value.int32 value).size number ≤ 11 := by
  have varint := writeVarint_length_le 10 (value.signExtend 64).toNat
  have tag := writeTag_length (show 8 * number + 0 < 128 by omega)
  simp only [Value.size,Value.write]
  split
  · simp
  · simp only [List.flatMap_singleton,Field.write,List.length_append]
    omega

theorem size_bool {number : Nat} (low : number < 16) (value : Bool) : (Value.bool value).size number ≤ 2 := by
  have tag := writeTag_length (show 8 * number + 0 < 128 by omega)
  cases value with
  | false => exact Nat.zero_le _
  | true => simp [Value.size,Value.write,Field.write,tag,writeVarint]

theorem size_bytes {number : Nat} (low : number < 15) {value : Octets} (some_ : value.length > 0) :
    (Value.bytes value).size number = 1 + (writeVarint 5 value.length).length + value.length := by
  have tag := writeTag_length (show 8 * number + 2 < 128 by omega)
  simp only [Value.size,Value.write,if_pos some_,List.flatMap_singleton,Field.write,List.length_append,tag]

end KvStorage.Wire
