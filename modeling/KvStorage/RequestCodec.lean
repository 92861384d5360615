import KvStorage.RpcProvider

/-! The frames of `CallMethod` and the reads of `OnMessage` as a codec: which frames are read back
as they were written, and that no two calls share one. -/
namespace KvStorage
open Wire

namespace RpcHeader

theorem fields_writable {h : RpcHeader} (service : h.service_name.length < 2 ^ 32)
    (method : h.method_name.length < 2 ^ 32) (size : h.args_size < 2 ^ 32) : ∀ f ∈ h.fields, f.Writable := by
  intro f inside
  simp only [fields,List.mem_append] at inside
  rcases inside with (inside | inside) | inside
  all_goals
    split at inside
    · obtain rfl := List.mem_singleton.mp inside
      first
      | exact ⟨by omega,by omega,service⟩
      | exact ⟨by omega,by omega,method⟩
      | exact ⟨by omega,by omega,lt_trans size (by decide)⟩
    · cases inside

theorem names_le_serialize (h : RpcHeader) : h.service_name.length ≤ h.SerializeToString.length ∧
    h.method_name.length ≤ h.SerializeToString.length := by
  have value : ∀ number (name : Octets),
      name.length ≤ if name.length > 0 then (Field.bytes number name).write.length else 0 := by
    intro number name
    split
    · simp only [Field.write,List.length_append]
      omega
    · omega
  have service := value 1 h.service_name
  have method := value 2 h.method_name
  rw [serialize_length]
  omega

/-- A header whose bytes and arguments have 32-bit sizes is determined by its bytes. -/
theorem serialize_injective {h h' : RpcHeader} (short : h.SerializeToString.length < 2 ^ 32)
    (small : h.args_size < 2 ^ 32) (small' : h'.args_size < 2 ^ 32)
    (same : h.SerializeToString = h'.SerializeToString) : h = h' := by
  have names := h.names_le_serialize
  have names' := h'.names_le_serialize
  rw [← same] at names'
  have mine := fields_writable (by omega) (by omega) small
  have theirs := fields_writable (by omega) (by omega) small'
  rw [← fields_fold small,← fields_fold small',writes_injective mine theirs same]

/-- No parsed name is above the parser's size limit. -/
theorem parse_names {bytes : Octets} {h : RpcHeader} (parsed : ParseFromString bytes = some h) :
    h.service_name.length ≤ maxSize ∧ h.method_name.length ≤ maxSize := by
  obtain ⟨fs,read,rfl⟩ := Option.map_eq_some_iff.mp parsed
  have fold : ∀ fs : List Field, (∀ number value, .bytes number value ∈ fs → value.length ≤ maxSize) →
      ∀ h : RpcHeader, h.service_name.length ≤ maxSize ∧ h.method_name.length ≤ maxSize →
      (fs.foldl set h).service_name.length ≤ maxSize ∧ (fs.foldl set h).method_name.length ≤ maxSize := by
    intro fs
    induction fs with
    | nil => exact fun _ _ kept => kept
    | cons f fs ih =>
      intro sized h kept
      refine ih (fun number value member => sized number value (List.mem_cons_of_mem _ member)) _ ?_
      cases f with
      | bytes number value =>
        have size := sized number value List.mem_cons_self
        simp only [set]
        split
        · exact ⟨size,kept.2⟩
        split
        · exact ⟨kept.1,size⟩
        · exact kept
      | varint number value =>
        simp only [set]
        split <;> exact kept
      | other => exact kept
  exact fold fs (fun _ _ member => readFields_size read member) {} ⟨Nat.zero_le _,Nat.zero_le _⟩

end RpcHeader

/-- `rpc_header_str` of a call. -/
def rpcHeaderStr (service_name method_name args_str : Octets) : Octets :=
  RpcHeader.SerializeToString ⟨service_name,method_name,args_str.length % 2 ^ 32⟩

namespace RpcProvider

theorem decode_ok {recvBuf : Octets} {d : Decoded} (decoded : decode recvBuf = some d) :
    ∃ header h, RpcHeader.ParseFromString header = some h ∧ d.service_name = h.service_name ∧
      d.method_name = h.method_name ∧ ∃ rest, d.unread = rest ++ recvBuf.drop (arrayInput recvBuf).length := by
  simp only [decode] at decoded
  obtain ⟨h,parsed,read⟩ := Option.bind_eq_some_iff.mp decoded
  split at read
  · cases read
  · obtain rfl := Option.some.inj read
    exact ⟨_,h,parsed,rfl,rfl,_,rfl⟩

/-- A frame is read back whole exactly when its size is an `int` and the parser admits its names. -/
theorem decode_frame_iff (service method args : Octets) :
    decode (sendRpcStr service method args) = some ⟨service,method,args.length,args,[]⟩ ↔
      (sendRpcStr service method args).length < 2 ^ 31 ∧ service.length ≤ maxSize ∧ method.length ≤ maxSize := by
  constructor
  · intro decoded
    obtain ⟨header,h,parsed,service_eq,method_eq,rest,unread⟩ := decode_ok decoded
    have names := RpcHeader.parse_names parsed
    rw [← service_eq,← method_eq] at names
    refine ⟨?_,names⟩
    -- nothing is left behind the stream, whose size is an `int`
    have covered := List.drop_eq_nil_iff.mp (List.append_eq_nil_iff.mp unread.symm).2
    exact covered.trans_lt (arrayInput_lt _)
  · rintro ⟨fits,service_fits,method_fits⟩
    exact decode_frame fits service_fits method_fits

theorem sendRpcStr_injective {service method args service' method' args' : Octets}
    (header : (rpcHeaderStr service method args).length < 2 ^ 31)
    (header' : (rpcHeaderStr service' method' args').length < 2 ^ 31)
    (same : sendRpcStr service method args = sendRpcStr service' method' args') :
    (service,method,args) = (service',method',args') := by
  simp only [sendRpcStr] at same
  change writeVarint 5 ((rpcHeaderStr service method args).length % 2 ^ 32) ++ rpcHeaderStr service method args ++ args =
    writeVarint 5 ((rpcHeaderStr service' method' args').length % 2 ^ 32) ++ rpcHeaderStr service' method' args' ++ args'
    at same
  rw [Nat.mod_eq_of_lt (by omega),Nat.mod_eq_of_lt (by omega),List.append_assoc,List.append_assoc] at same
  obtain ⟨lengths,rest⟩ := writeVarint_append_injective (by omega) (lt_trans header (by decide))
    (lt_trans header' (by decide)) same
  obtain ⟨headers,rfl⟩ := List.append_inj rest lengths
  have equal := RpcHeader.serialize_injective (lt_trans header (by omega)) (Nat.mod_lt _ (by omega))
    (Nat.mod_lt _ (by omega)) headers
  injection equal with service_eq method_eq
  rw [service_eq,method_eq]

/-- The codec of requests: which calls come back as they were made, and that their bytes tell any
two calls apart. -/
theorem request_codec :
    (∀ service method args : Octets,
      decode (sendRpcStr service method args) = some ⟨service,method,args.length,args,[]⟩ ↔
        (sendRpcStr service method args).length < 2 ^ 31 ∧ service.length ≤ maxSize ∧ method.length ≤ maxSize) ∧
    ∀ service method args service' method' args' : Octets,
      (rpcHeaderStr service method args).length < 2 ^ 31 → (rpcHeaderStr service' method' args').length < 2 ^ 31 →
      sendRpcStr service method args = sendRpcStr service' method' args' →
      (service,method,args) = (service',method',args') :=
  ⟨decode_frame_iff,fun _ _ _ _ _ _ header header' => sendRpcStr_injective header header'⟩

/-- `raftRpc`. -/
def raftRpc : Octets := [114,97,102,116,82,112,99]

/-- `AppendEntries`. -/
def appendEntries : Octets := [65,112,112,101,110,100,69,110,116,114,105,101,115]

/-- A heartbeat without arguments, and one whose term is 1. -/
theorem request_codec_heartbeats :
    decode (sendRpcStr raftRpc appendEntries []) = some ⟨raftRpc,appendEntries,0,[],[]⟩ ∧
    sendRpcStr raftRpc appendEntries [] ≠ sendRpcStr raftRpc appendEntries [8,1] := by
  constructor
  · exact (request_codec.1 raftRpc appendEntries []).mpr (by decide +kernel)
  · intro same
    have equal := request_codec.2 raftRpc appendEntries [] raftRpc appendEntries [8,1] (by decide +kernel)
      (by decide +kernel) same
    exact absurd equal (by decide)

/-- From 2^31 bytes on the stream's size is negative: it holds nothing, and an empty request is read. -/
theorem decode_oversized {recvBuf : Octets} (big : 2 ^ 31 ≤ recvBuf.length) (small : recvBuf.length < 2 ^ 32) :
    decode recvBuf = some ⟨[],[],0,[],recvBuf⟩ := by
  have negative : Int.bmod recvBuf.length (2 ^ 32) < 0 := by
    rw [Int.bmod_def]
    omega
  have nothing : arrayInput recvBuf = [] := by
    rw [arrayInput,Int.toNat_of_nonpos negative.le,List.take_zero]
  unfold decode
  rw [nothing]
  rfl

/-- Arguments of 2^31 - 1 bytes. -/
theorem request_codec_fails : ¬ ∀ service method args : Octets,
    (rpcHeaderStr service method args).length < 2 ^ 31 → args.length < 2 ^ 31 →
    decode (sendRpcStr service method args) = some ⟨service,method,args.length,args,[]⟩ := by
  intro law
  have size : (List.replicate (2 ^ 31 - 1) (0 : UInt8)).length = 2147483647 := List.length_replicate ..
  generalize List.replicate (2 ^ 31 - 1) (0 : UInt8) = args at size
  have header : (rpcHeaderStr raftRpc appendEntries args).length = 30 := by
    rw [rpcHeaderStr,size]
    decide +kernel
  have frame : (sendRpcStr raftRpc appendEntries args).length = 2147483678 := by
    change (writeVarint 5 ((rpcHeaderStr raftRpc appendEntries args).length % 2 ^ 32) ++
      rpcHeaderStr raftRpc appendEntries args ++ args).length = _
    rw [List.length_append,List.length_append,header,size]
    rfl
  have read := law raftRpc appendEntries args (by omega) (by omega)
  rw [decode_oversized (by omega) (by omega)] at read
  have service : ([] : Octets) = raftRpc := congrArg Decoded.service_name (Option.some.inj read)
  exact absurd service (by decide)

end RpcProvider
end KvStorage
