import KvStorage.Lib.Wire

/-! Request frames on a connection. `CallMethod` writes the header's size, the header and the
arguments; `OnMessage` takes everything that is buffered and parses one frame from it. -/
namespace KvStorage
open Wire

/-! ### The header message -/

structure RpcHeader where
  service_name : Octets := []
  method_name : Octets := []
  args_size : Nat := 0
  deriving DecidableEq, Repr

namespace RpcHeader

/-- Fields with default values are left out. -/
def fields (h : RpcHeader) : List Field :=
  (if h.service_name.length > 0 then [.bytes 1 h.service_name] else []) ++
  (if h.method_name.length > 0 then [.bytes 2 h.method_name] else []) ++
  (if h.args_size ≠ 0 then [.varint 3 h.args_size] else [])

def SerializeToString (h : RpcHeader) : Octets := h.fields.flatMap Field.write

/-- A later field replaces an earlier one; unknown fields change nothing. -/
def set (h : RpcHeader) : Field → RpcHeader
  | .bytes number value =>
    if number = 1 then { h with service_name := value }
    else if number = 2 then { h with method_name := value }
    else h
  | .varint number value => if number = 3 then { h with args_size := value % 2 ^ 32 } else h
  | .other => h

def ParseFromString (bytes : Octets) : Option RpcHeader :=
  (parse bytes).map fun fields => fields.foldl set {}

/-- Names that the parser's size limit admits. -/
structure Fits (h : RpcHeader) : Prop where
  service : h.service_name.length ≤ maxSize
  method : h.method_name.length ≤ maxSize
  size : h.args_size < 2 ^ 32

theorem fields_fold {h : RpcHeader} (small : h.args_size < 2 ^ 32) : h.fields.foldl set {} = h := by
  obtain ⟨service,method,size⟩ := h
  have small : size < 4294967296 := small
  cases service <;> cases method <;> by_cases zero : size = 0
  all_goals simp [fields,set,zero]
  all_goals exact small

theorem parse_serialize {h : RpcHeader} (fits : h.Fits) : ParseFromString h.SerializeToString = some h := by
  have each : ∀ f ∈ h.fields, f.Fits := by
    have := fits.size
    intro f inside
    simp only [fields,List.mem_append] at inside
    rcases inside with (inside | inside) | inside
    all_goals
      split at inside
      · obtain rfl := List.mem_singleton.mp inside
        first
        | exact ⟨by omega,by omega,fits.service⟩
        | exact ⟨by omega,by omega,fits.method⟩
        | exact ⟨by omega,by omega,by omega⟩
      · cases inside
  simp [ParseFromString,SerializeToString,parse_write each,fields_fold fits.size]

theorem serialize_length (h : RpcHeader) : h.SerializeToString.length =
    (if h.service_name.length > 0 then (Field.bytes 1 h.service_name).write.length else 0) +
    (if h.method_name.length > 0 then (Field.bytes 2 h.method_name).write.length else 0) +
    (if h.args_size ≠ 0 then (Field.varint 3 h.args_size).write.length else 0) := by
  simp only [SerializeToString,fields,List.flatMap_append,List.length_append]
  congr 1
  · congr 1 <;> split <;> simp
  · split <;> simp

theorem set_length (h : RpcHeader) (f : Field) :
    (h.set f).SerializeToString.length ≤ h.SerializeToString.length + f.write.length := by
  simp only [serialize_length]
  cases f with
  | bytes number value =>
    simp only [set]
    split
    · next one => subst one; simp only; split_ifs <;> omega
    split
    · next two => subst two; simp only; split_ifs <;> omega
    · omega
  | varint number value =>
    simp only [set]
    split
    · next three =>
      subst three
      have shorter := writeVarint_length_mono 10 (Nat.mod_le value (2 ^ 32))
      have : (Field.varint 3 (value % 2 ^ 32)).write.length ≤ (Field.varint 3 value).write.length := by
        simp only [Field.write,List.length_append]
        omega
      simp only
      split_ifs <;> omega
    · omega
  | other => exact Nat.le_add_right ..

/-- No header is parsed from fewer bytes than it is serialized to. -/
theorem parse_length {bytes : Octets} {h : RpcHeader} (parsed : ParseFromString bytes = some h) :
    h.SerializeToString.length ≤ bytes.length := by
  obtain ⟨fs,read,rfl⟩ := Option.map_eq_some_iff.mp parsed
  have total := Wire.parse_length read
  have fold : ∀ (fs : List Field) (h : RpcHeader), (fs.foldl set h).SerializeToString.length ≤
      h.SerializeToString.length + (fs.flatMap Field.write).length := by
    intro fs
    induction fs with
    | nil => simp
    | cons f fs ih =>
      intro h
      have := ih (h.set f)
      have := set_length h f
      simp only [List.foldl_cons,List.flatMap_cons,List.length_append]
      omega
  exact (fold fs {}).trans (by simpa [SerializeToString,fields] using total)

end RpcHeader

/-- `send_rpc_str`: the bytes that `CallMethod` sends for serialized arguments. -/
def sendRpcStr (service_name method_name args_str : Octets) : Octets :=
  let rpc_header_str := RpcHeader.SerializeToString ⟨service_name,method_name,args_str.length % 2 ^ 32⟩
  writeVarint 5 (rpc_header_str.length % 2 ^ 32) ++ rpc_header_str ++ args_str

/-! ### The provider -/

/-- A call handed to `service->CallMethod`: what was looked up, and the request parsed from `args`. -/
structure Dispatch (Req : Type) where
  service_name : Octets
  method_name : Octets
  args : Octets
  req : Req
  deriving DecidableEq, Repr

/-- The frame of the call that asks for this. -/
def Dispatch.frame (d : Dispatch Req) : Octets := sendRpcStr d.service_name d.method_name d.args

/-- The registered services: for each method the parser of its request prototype. -/
structure RpcProvider (Req : Type) where
  serviceMap : Octets → Option (Octets → Option (Octets → Option Req))

/-- What a read of a `CodedInputStream` answers: success, the value and the stream after it. -/
structure ReadResult (A : Type) where
  success : Bool
  value : A
  rest : Octets

namespace RpcProvider

/-- `ArrayInputStream`: the size of the data is an `int`. -/
def arrayInput (data : Octets) : Octets := data.take (Int.bmod data.length (2 ^ 32)).toNat

/-- `CodedInputStream::ReadString`; a size is an `int`, and a short stream is read to its end. -/
def ReadString (size : Nat) (input : Octets) : ReadResult Octets :=
  if size > 2147483647 then ⟨false,[],input⟩
  else if size ≤ input.length then ⟨true,input.take size,input.drop size⟩
  else ⟨false,input,[]⟩

/-- `CodedInputStream::ReadVarint32`; a failed read yields the unsigned -1. -/
def ReadVarint32 (input : Octets) : ReadResult Nat :=
  match readVarint 10 input with
  | some (value,rest) => ⟨true,value % 2 ^ 32,rest⟩
  | none => ⟨false,4294967295,input⟩

/-- What `OnMessage` reads from a buffer before it looks anything up, and what it leaves unread. -/
structure Decoded where
  service_name : Octets
  method_name : Octets
  args_size : Nat
  args : Octets
  unread : Octets
  deriving DecidableEq, Repr

def decode (recvBuf : Octets) : Option Decoded := do
  let headerSize := ReadVarint32 (arrayInput recvBuf)
  let headerStr := ReadString headerSize.value headerSize.rest
  let rpcHeader ← RpcHeader.ParseFromString headerStr.value
  let argsStr := ReadString rpcHeader.args_size headerStr.rest
  if ¬ argsStr.success then none
  else some ⟨rpcHeader.service_name,rpcHeader.method_name,rpcHeader.args_size,argsStr.value,
    argsStr.rest ++ recvBuf.drop (arrayInput recvBuf).length⟩

variable (p : RpcProvider Req)

/-- The services and methods are looked up by name, then the arguments are parsed. -/
def find (service_name method_name args : Octets) : Option (Dispatch Req) := do
  let methodMap ← p.serviceMap service_name
  let parseRequest ← methodMap method_name
  let req ← parseRequest args
  some ⟨service_name,method_name,args,req⟩

/-- `OnMessage` on everything buffered. -/
def OnMessage (recvBuf : Octets) : Option (Dispatch Req) := do
  let headerSize := ReadVarint32 (arrayInput recvBuf)
  let headerStr := ReadString headerSize.value headerSize.rest
  let rpcHeader ← RpcHeader.ParseFromString headerStr.value
  let argsStr := ReadString rpcHeader.args_size headerStr.rest
  if ¬ argsStr.success then none
  else p.find rpcHeader.service_name rpcHeader.method_name argsStr.value

/-- The calls dispatched when the connection's buffer receives the chunks one by one:
`retrieveAllAsString` leaves it empty each time. -/
def receive : Octets → List Octets → List (Dispatch Req)
  | _, [] => []
  | buffer, chunk :: rest => (p.OnMessage (buffer ++ chunk)).toList ++ receive [] rest

/-- A request of a method that the provider has; its names are of parsable size. -/
structure Request where
  dispatch : Dispatch Req
  found : p.find dispatch.service_name dispatch.method_name dispatch.args = some dispatch
  service : dispatch.service_name.length ≤ maxSize
  method : dispatch.method_name.length ≤ maxSize

def Request.frame {p : RpcProvider Req} (request : p.Request) : Octets := request.dispatch.frame

/-- One way of cutting the frames' concatenation into chunks. -/
structure Cutting (frames : List Octets) where
  chunks : List Octets
  whole : chunks.flatten = frames.flatten
  nonempty : ∀ chunk ∈ chunks, chunk ≠ []

variable {p}

theorem find_eq {service method args : Octets} {d : Dispatch Req}
    (found : p.find service method args = some d) :
    d.service_name = service ∧ d.method_name = method ∧ d.args = args := by
  obtain ⟨methodMap,_,found⟩ := Option.bind_eq_some_iff.mp found
  obtain ⟨parseRequest,_,found⟩ := Option.bind_eq_some_iff.mp found
  obtain ⟨req,_,eq⟩ := Option.bind_eq_some_iff.mp found
  obtain rfl := Option.some.inj eq
  exact ⟨rfl,rfl,rfl⟩

theorem receive_eq (buffer : Octets) (chunks : List Octets) : p.receive buffer chunks =
    match chunks with
    | [] => []
    | chunk :: rest => (p.OnMessage (buffer ++ chunk)).toList ++ rest.filterMap p.OnMessage := by
  induction chunks generalizing buffer with
  | nil => rfl
  | cons chunk rest ih =>
    rw [receive,ih]
    cases rest with
    | nil => rfl
    | cons next rest =>
      simp only [List.nil_append]
      cases found : p.OnMessage next <;> simp [found]

theorem receive_nil (chunks : List Octets) : p.receive [] chunks = chunks.filterMap p.OnMessage := by
  rw [receive_eq]
  cases chunks with
  | nil => rfl
  | cons chunk rest => cases found : p.OnMessage chunk <;> simp [found]

/-! ### One frame for each chunk -/

theorem arrayInput_of_lt {data : Octets} (fits : data.length < 2 ^ 31) : arrayInput data = data := by
  rw [arrayInput,Int.bmod_eq_of_le (by omega) (by omega),Int.toNat_natCast,List.take_length]

theorem arrayInput_le (data : Octets) : (arrayInput data).length ≤ data.length := List.length_take_le' ..

theorem arrayInput_lt (data : Octets) : (arrayInput data).length < 2 ^ 31 := by
  have short : (arrayInput data).length ≤ (Int.bmod data.length (2 ^ 32)).toNat := List.length_take_le ..
  have := Int.bmod_lt (x := data.length) (show 0 < 2 ^ 32 by omega)
  omega

theorem ReadString_length (size : Nat) (input : Octets) :
    (ReadString size input).value.length + (ReadString size input).rest.length ≤ input.length ∧
    (ReadString size input).value.length ≤ size ∧
    ((ReadString size input).success = true →
      (ReadString size input).value.length = size ∧ size ≤ 2147483647) := by
  unfold ReadString
  split
  · simp
  split
  · simp only [List.length_take,List.length_drop,true_implies]
    omega
  · exact ⟨by simp,by simp only; omega,by simp⟩

theorem ReadVarint32_cases (input : Octets) :
    (∃ n rest, readVarint 10 input = some (n,rest) ∧ ReadVarint32 input = ⟨true,n % 2 ^ 32,rest⟩) ∨
    ReadVarint32 input = ⟨false,4294967295,input⟩ := by
  unfold ReadVarint32
  cases first : readVarint 10 input with
  | none => exact .inr rfl
  | some pair => exact .inl ⟨pair.1,pair.2,rfl,rfl⟩

/-- A dispatched call has read a frame of its own, or the empty names from next to nothing. -/
theorem OnMessage_length {recvBuf : Octets} {d : Dispatch Req} (done : p.OnMessage recvBuf = some d) :
    d.frame.length ≤ 1 ∨ d.frame.length ≤ (arrayInput recvBuf).length := by
  simp only [OnMessage] at done
  generalize arrayInput recvBuf = arrInput at done ⊢
  generalize header : ReadVarint32 arrInput = headerSize at done
  obtain ⟨headerSplit,headerShort,_⟩ := ReadString_length headerSize.value headerSize.rest
  generalize headerRead : ReadString headerSize.value headerSize.rest = headerStr at done headerSplit headerShort
  obtain ⟨rpcHeader,parsed,done⟩ := Option.bind_eq_some_iff.mp done
  obtain ⟨argsSplit,_,argsWhole⟩ := ReadString_length rpcHeader.args_size headerStr.rest
  generalize ReadString rpcHeader.args_size headerStr.rest = argsStr at done argsSplit argsWhole
  split at done
  · cases done
  next succeeded =>
  obtain ⟨size,small⟩ := argsWhole (by simpa using succeeded)
  obtain ⟨service,method,args⟩ := find_eq done
  have minimal := RpcHeader.parse_length parsed
  have same : argsStr.value.length % 2 ^ 32 = rpcHeader.args_size := by omega
  have sent : d.frame =
      writeVarint 5 (rpcHeader.SerializeToString.length % 2 ^ 32) ++ rpcHeader.SerializeToString ++
        argsStr.value := by
    have whole : (⟨rpcHeader.service_name,rpcHeader.method_name,rpcHeader.args_size⟩ : RpcHeader) = rpcHeader := rfl
    rw [Dispatch.frame,service,method,args,sendRpcStr,same,whole]
  rw [sent,List.length_append,List.length_append]
  rcases ReadVarint32_cases arrInput with ⟨n,after,first,eq⟩ | eq
  · rw [eq] at header
    subst header
    have le : rpcHeader.SerializeToString.length % 2 ^ 32 ≤ n := by
      have := Nat.mod_le n (2 ^ 32)
      have := Nat.mod_le rpcHeader.SerializeToString.length (2 ^ 32)
      simp only at headerShort
      omega
    have := readVarint_length 5 le first
    simp only at headerSplit
    right
    omega
  · -- the failed read leaves -1, which reads an empty header
    rw [eq] at header
    subst header
    have nothing : headerStr.value = [] := by
      rw [← headerRead,ReadString,if_pos (by simp)]
    rw [nothing] at parsed
    obtain rfl : rpcHeader = {} := (Option.some.inj parsed).symm
    have empty : argsStr.value.length = 0 := size
    have header : RpcHeader.SerializeToString {} = [] := rfl
    simp [empty,header,writeVarint]

/-- A frame that fits the stream's `int` size is read back. -/
theorem decode_frame {service method args : Octets} (fits : (sendRpcStr service method args).length < 2 ^ 31)
    (service_fits : service.length ≤ maxSize) (method_fits : method.length ≤ maxSize) :
    decode (sendRpcStr service method args) = some ⟨service,method,args.length,args,[]⟩ := by
  have total := fits
  simp only [sendRpcStr,List.length_append] at total
  have argsSize : args.length % 2 ^ 32 = args.length := Nat.mod_eq_of_lt (by omega)
  generalize held : (⟨service,method,args.length % 2 ^ 32⟩ : RpcHeader) = h at total
  have headerSize : h.SerializeToString.length % 2 ^ 32 = h.SerializeToString.length :=
    Nat.mod_eq_of_lt (by omega)
  have frame : sendRpcStr service method args =
      writeVarint 5 h.SerializeToString.length ++ (h.SerializeToString ++ args) := by
    rw [sendRpcStr,held,headerSize,List.append_assoc]
  have parsed : RpcHeader.ParseFromString h.SerializeToString = some h := by
    apply RpcHeader.parse_serialize
    rw [← held]
    exact ⟨service_fits,method_fits,Nat.mod_lt _ (Nat.two_pow_pos 32)⟩
  have first : readVarint 10 (writeVarint 5 h.SerializeToString.length ++
      (h.SerializeToString ++ args)) = some (h.SerializeToString.length,h.SerializeToString ++ args) :=
    read_write _ (by omega) (lt_trans (by omega : _ < 2 ^ 31) (by decide)) (by omega)
  have read : ReadVarint32 (sendRpcStr service method args) =
      ⟨true,h.SerializeToString.length,h.SerializeToString ++ args⟩ := by
    simp only [ReadVarint32,frame,first,headerSize]
  have readHeader : ReadString h.SerializeToString.length (h.SerializeToString ++ args) =
      ⟨true,h.SerializeToString,args⟩ := by
    rw [ReadString,if_neg (by omega),if_pos (by simp)]
    simp
  have size : h.args_size = args.length := by rw [← held]; exact argsSize
  have readArgs : ReadString h.args_size args = ⟨true,args,[]⟩ := by
    rw [size,ReadString,if_neg (by omega),if_pos le_rfl]
    simp
  unfold decode
  rw [arrayInput_of_lt fits]
  simp only [read,readHeader,parsed,readArgs,Option.bind_eq_bind,Option.bind_some,List.drop_length]
  rw [size,← held]
  rfl

theorem OnMessage_eq (recvBuf : Octets) : p.OnMessage recvBuf =
    (decode recvBuf).bind fun d => p.find d.service_name d.method_name d.args := by
  simp only [OnMessage,decode,Option.bind_eq_bind,Option.bind_assoc]
  congr 1
  funext rpcHeader
  split <;> rfl

theorem OnMessage_frame (request : p.Request) (fits : request.frame.length < 2 ^ 31) :
    p.OnMessage request.frame = some request.dispatch := by
  have decoded := decode_frame fits request.service request.method
  rw [OnMessage_eq,Request.frame,Dispatch.frame,decoded,Option.bind_some]
  exact request.found

/-- Every request is dispatched once and in order exactly when each chunk is one frame. -/
theorem receive_eq_dispatches_iff (requests : List p.Request)
    (cut : Cutting (requests.map Request.frame)) :
    p.receive [] cut.chunks = requests.map Request.dispatch ↔
      cut.chunks = requests.map Request.frame ∧ ∀ request ∈ requests, request.frame.length < 2 ^ 31 := by
  rw [receive_nil]
  constructor
  · intro dispatched
    have short : ∀ c (d : Dispatch Req), c ≠ [] → p.OnMessage c = some d → d.frame.length ≤ c.length := by
      intro c d something done
      have taken := arrayInput_le c
      have positive := List.length_pos_iff.mpr something
      rcases OnMessage_length done with one | bound
      · omega
      · exact bound.trans taken
    have frames : requests.map Request.frame = (cut.chunks.filterMap p.OnMessage).map Dispatch.frame := by
      rw [dispatched,List.map_map]
      rfl
    have own := own_frame short cut.nonempty (by rw [← frames]; exact cut.whole)
    have cuts := frames_of_own own
    rw [← frames] at cuts
    refine ⟨cuts.symm,fun request inside => ?_⟩
    obtain ⟨d,done,same⟩ := own request.frame (cuts ▸ List.mem_map_of_mem inside)
    have bound := OnMessage_length done
    rw [same] at bound
    have := arrayInput_lt request.frame
    omega
  · rintro ⟨whole,fits⟩
    have each : ∀ request ∈ requests, (p.OnMessage ∘ Request.frame) request = some request.dispatch := by
      intro request inside
      rw [Function.comp_apply,OnMessage_frame request (fits request inside)]
    rw [whole,List.filterMap_map,List.filterMap_congr each,List.filterMap_eq_map']

/-! ### Two votes in one chunk -/

/-- `raftRpc` with `RequestVote` only, whose request is kept as its fields. -/
def voteProvider : RpcProvider (List Field) where
  serviceMap service :=
    if service = [114,97,102,116,82,112,99] then
      some fun method =>
        if method = [82,101,113,117,101,115,116,86,111,116,101] then some parse else none
    else none

/-- `RequestVote` with the given `Term`. -/
def voteRequest (term : Nat) (valid : parse [8,term.toUInt8] = some [.varint 1 term]) :
    voteProvider.Request where
  dispatch := ⟨[114,97,102,116,82,112,99],[82,101,113,117,101,115,116,86,111,116,101],
    [8,term.toUInt8],[.varint 1 term]⟩
  found := by simp [find,voteProvider,valid]
  service := show 7 ≤ maxSize by decide
  method := show 11 ≤ maxSize by decide

/-- Requests of terms 1 and 2 that arrive in one chunk. -/
def twoVotes : List voteProvider.Request := [voteRequest 1 (by decide +kernel),voteRequest 2 (by decide +kernel)]

theorem receive_fails : ¬ ∀ (requests : List voteProvider.Request) (cut : Cutting (requests.map Request.frame)),
    voteProvider.receive [] cut.chunks = requests.map Request.dispatch := by
  intro law
  have lost := law twoVotes ⟨[(twoVotes.map Request.frame).flatten],by simp,by decide +kernel⟩
  exact absurd lost (by decide +kernel)

/-- A header cut before its last field is dispatched as a request without arguments. -/
example : (twoVotes.map fun request => (voteProvider.OnMessage (request.frame.take 23)).map Dispatch.args) =
    [some [],some []] := by decide +kernel

end RpcProvider
end KvStorage
