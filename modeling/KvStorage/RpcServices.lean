import KvStorage.RequestCodec
import KvStorage.RpcMessages

/-! The two services of a server process, as its provider registers them, and one call of a method of
theirs: the frame, its dispatch, and the reply as far as the caller's buffer takes it. -/
namespace KvStorage
open Wire

namespace RpcProvider

def empty : RpcProvider Req := ⟨fun _ => none⟩

/-- `NotifyService`; `insert` leaves a name that is already in a map, be it a service or a method. -/
def NotifyService (p : RpcProvider Req) (serviceName : Octets) (methods : List (Octets × (Octets → Option Req))) :
    RpcProvider Req where
  serviceMap name := match p.serviceMap name with
    | some methodMap => some methodMap
    | none => if name = serviceName then some (methods.lookup ·) else none

end RpcProvider

namespace Rpc
open RpcProvider raftKVRpcProctoc

inductive Method where
  | PutAppend | Get
  | AppendEntries | InstallSnapshot | RequestVote
  deriving DecidableEq, Repr

/-- `kvServerRpc`. -/
def kvServerRpc : Octets := [107,118,83,101,114,118,101,114,82,112,99]

namespace Method

def service : Method → Octets
  | PutAppend | Get => kvServerRpc
  | _ => raftRpc

def name : Method → Octets
  | PutAppend => [80,117,116,65,112,112,101,110,100]
  | Get => [71,101,116]
  | AppendEntries => appendEntries
  | InstallSnapshot => [73,110,115,116,97,108,108,83,110,97,112,115,104,111,116]
  | RequestVote => [82,101,113,117,101,115,116,86,111,116,101]

@[reducible] def Args : Method → Type
  | PutAppend => PutAppendArgs
  | Get => GetArgs
  | AppendEntries => raftRpcProctoc.AppendEntriesArgs
  | InstallSnapshot => raftRpcProctoc.InstallSnapshotRequest
  | RequestVote => raftRpcProctoc.RequestVoteArgs

@[reducible] def Reply : Method → Type
  | PutAppend => PutAppendReply
  | Get => GetReply
  | AppendEntries => raftRpcProctoc.AppendEntriesReply
  | InstallSnapshot => raftRpcProctoc.InstallSnapshotResponse
  | RequestVote => raftRpcProctoc.RequestVoteReply

/-- `GetRequestPrototype`. -/
def args : (m : Method) → MessageType m.Args
  | PutAppend => putAppendArgs
  | Get => getArgs
  | AppendEntries => raftRpcProctoc.appendEntriesArgs
  | InstallSnapshot => raftRpcProctoc.installSnapshotRequest
  | RequestVote => raftRpcProctoc.requestVoteArgs

/-- `GetResponsePrototype`. -/
def reply : (m : Method) → MessageType m.Reply
  | PutAppend => putAppendReply
  | Get => getReply
  | AppendEntries => raftRpcProctoc.appendEntriesReply
  | InstallSnapshot => raftRpcProctoc.installSnapshotResponse
  | RequestVote => raftRpcProctoc.requestVoteReply

end Method

/-- A method with its arguments, as `Service::CallMethod` takes them. -/
abbrev Request := Σ m : Method, m.Args

def Method.parse (m : Method) (bytes : Octets) : Option Request :=
  (m.args.ParseFromArray bytes).map fun args => ⟨m,args⟩

/-- The provider of a `KvServer`: the server itself, then its Raft node. -/
def provider : RpcProvider Request :=
  (empty.NotifyService kvServerRpc [(Method.PutAppend.name,Method.PutAppend.parse),(Method.Get.name,Method.Get.parse)])
    |>.NotifyService raftRpc [(Method.AppendEntries.name,Method.AppendEntries.parse),
      (Method.InstallSnapshot.name,Method.InstallSnapshot.parse),(Method.RequestVote.name,Method.RequestVote.parse)]

/-- What a stub's method sends. -/
def Method.frame (m : Method) (args : m.Args) : Octets := sendRpcStr m.service m.name (m.args.SerializeToString args)

/-- The call that the provider is to make of it. -/
def Method.dispatch (m : Method) (args : m.Args) : Dispatch Request :=
  ⟨m.service,m.name,m.args.SerializeToString args,⟨m,args⟩⟩

/-- What the services' methods answer. -/
abbrev Services := (m : Method) → m.Args → m.Reply

/-- A call on a new connection whose frame arrives as one chunk, and whose reply has arrived when `recv`
takes the first 1024 bytes of it; `none` is a call that fails or waits for an answer that never comes. -/
def call (services : Services) (m : Method) (args : m.Args) : Option m.Reply :=
  (provider.OnMessage (m.frame args)).bind fun d =>
    let respStr := d.req.1.reply.SerializeToString (services d.req.1 d.req.2)
    -- of an empty string no byte is sent, and `recv` waits on
    if respStr.isEmpty then none else m.reply.ParseFromArray (respStr.take 1024)

/-! ### Dispatch -/

variable {m : Method}

theorem find_provider (m : Method) (bytes : Octets) : provider.find m.service m.name bytes =
    (m.args.ParseFromArray bytes).map fun args => ⟨m.service,m.name,bytes,⟨m,args⟩⟩ := by
  have found : ((provider.serviceMap m.service).bind fun methodMap => methodMap m.name) = some m.parse := by
    cases m <;> rfl
  obtain ⟨methodMap,service,method⟩ := Option.bind_eq_some_iff.mp found
  rw [find,service,Option.bind_eq_bind,Option.bind_some,method]
  cases parsed : m.args.ParseFromArray bytes with
  | none => simp [Method.parse,parsed]
  | some args => simp [Method.parse,parsed]

theorem names_fit (m : Method) : m.service.length ≤ maxSize ∧ m.name.length ≤ maxSize := by
  cases m <;> exact ⟨by decide,by decide⟩

/-- A header's names alone are longer than what the parser's limit leaves of an `int`. -/
theorem args_lt_frame (m : Method) (args : m.Args) :
    (m.args.SerializeToString args).length + 16 ≤ (m.frame args).length := by
  have names : 16 ≤ (Field.bytes 1 m.service).write.length + (Field.bytes 2 m.name).write.length ∧
      0 < m.service.length ∧ 0 < m.name.length := by cases m <;> decide
  obtain ⟨long,service,name⟩ := names
  have header := RpcHeader.serialize_length ⟨m.service,m.name,(m.args.SerializeToString args).length % 2 ^ 32⟩
  rw [if_pos service,if_pos name] at header
  dsimp only at header
  simp only [Method.frame,sendRpcStr,List.length_append]
  omega

/-- Each request reaches its own method with its own arguments exactly when its frame has an `int` size. -/
theorem dispatched_iff (m : Method) (args : m.Args) :
    provider.OnMessage (m.frame args) = some (m.dispatch args) ↔ (m.frame args).length < 2 ^ 31 := by
  constructor
  · intro done
    have length := OnMessage_length done
    have same : (m.dispatch args).frame = m.frame args := rfl
    rw [same] at length
    have := arrayInput_lt (m.frame args)
    omega
  · intro small
    obtain ⟨service,name⟩ := names_fit m
    have short := args_lt_frame m args
    have parsed : m.args.ParseFromArray (m.args.SerializeToString args) = some args := by
      apply MessageType.parse_serialize
      rw [maxSize]
      omega
    rw [OnMessage_eq,Method.frame,decode_frame small service name,Option.bind_some,find_provider,parsed]
    rfl

/-! ### Replies -/

/-- A reply that is all defaults. -/
def Silent (m : Method) (reply : m.Reply) : Prop := (m.reply.SerializeToString reply).isEmpty = true

instance (m : Method) (reply : m.Reply) : Decidable (Silent m reply) := inferInstanceAs (Decidable (_ = true))

theorem call_silent {services : Services} {args : m.Args} (small : (m.frame args).length < 2 ^ 31)
    (silent : Silent m (services m args)) : call services m args = none := by
  rw [call,(dispatched_iff m args).mpr small]
  exact if_pos silent

theorem call_eq {services : Services} {args : m.Args} (small : (m.frame args).length < 2 ^ 31)
    (sent : ¬ Silent m (services m args)) :
    call services m args = m.reply.ParseFromArray ((m.reply.SerializeToString (services m args)).take 1024) := by
  rw [call,(dispatched_iff m args).mpr small]
  exact if_neg sent

/-- No method's reply holds messages of its own. -/
theorem flat_reply (m : Method) : m.reply.Flat := by
  intro fields r read
  cases m
  all_goals
    simp only [Method.reply,putAppendReply,getReply,raftRpcProctoc.appendEntriesReply,
      raftRpcProctoc.installSnapshotResponse,raftRpcProctoc.requestVoteReply] at read ⊢
    delta PutAppendReply.read GetReply.read raftRpcProctoc.AppendEntriesReply.read
      raftRpcProctoc.InstallSnapshotResponse.read raftRpcProctoc.RequestVoteReply.read at read
    split at read
    · obtain rfl := Option.some.inj read
      rfl
    · cases read

/-- `OK`, `ErrNoKey` and `ErrWrongLeader`. -/
def errors : List Octets := [[79,75],[69,114,114,78,111,75,101,121],
  [69,114,114,87,114,111,110,103,76,101,97,100,101,114]]

/-- Replies as the server's methods make them: an error's reply has no value. -/
structure Answers (services : Services) : Prop where
  putAppend : ∀ args, (services .PutAppend args).Err ∈ errors
  get : ∀ args, (services .Get args).Err = [79,75] ∨ (services .Get args).Err ∈ errors ∧ (services .Get args).Value = []
  size : ∀ args, (getReply.SerializeToString (services .Get args)).length ≤ maxSize

/-- A value that does not fit the caller's buffer with the rest of its reply. -/
def Overlong : (m : Method) → m.Reply → Prop
  | .Get, reply => 1017 < reply.Value.length
  | _, _ => False

instance (m : Method) (reply : m.Reply) : Decidable (Overlong m reply) := by
  cases m <;> unfold Overlong <;> infer_instance

theorem size_error {number : Nat} (low : number < 15) {error : Octets} (known : error ∈ errors) :
    (Value.bytes error).size number ≤ 16 := by
  have short : 0 < error.length ∧ error.length ≤ 14 := by
    simp only [errors,List.mem_cons,List.not_mem_nil,or_false] at known
    rcases known with rfl | rfl | rfl <;> decide
  have varint : (writeVarint 5 error.length).length = 1 := by
    simp [writeVarint,show error.length < 128 by omega]
  rw [size_bytes low short.1]
  omega

/-- The length of a reply is that of its fields. -/
theorem reply_length (m : Method) (r : m.Reply) :
    (m.reply.SerializeToString r).length = ((m.reply.write r).map fun field => field.2.size field.1).sum :=
  Message.serialize_length _

/-- A `GetReply` with a value of `OK`; the value's length takes a second byte from 128 on. -/
theorem getReply_length_iff {r : GetReply} (ok : r.Err = [79,75]) :
    (getReply.SerializeToString r).length ≤ 1024 ↔ r.Value.length ≤ 1017 := by
  have length : (getReply.SerializeToString r).length = 4 + (Value.bytes r.Value).size 2 := by
    have whole := reply_length .Get r
    simp only [Method.reply,getReply,GetReply.write,List.map_cons,List.map_nil,List.sum_cons,List.sum_nil,ok] at whole
    exact whole
  rcases Nat.eq_zero_or_pos r.Value.length with none_ | some_
  · have nothing : (Value.bytes r.Value).size 2 = 0 := by
      rw [List.length_eq_zero_iff.mp none_]
      rfl
    omega
  have own := size_bytes (show 2 < 15 by omega) some_
  have varint := writeVarint_length_le 5 r.Value.length
  by_cases short : r.Value.length < 128
  · omega
  by_cases medium : r.Value.length < 16384
  · have two : (writeVarint 5 r.Value.length).length = 2 := writeVarint_length_two (by omega) medium (by omega)
    omega
  · omega

theorem fits_iff {services : Services} (answers : Answers services) (m : Method) (args : m.Args) :
    (m.reply.SerializeToString (services m args)).length ≤ 1024 ↔ ¬ Overlong m (services m args) := by
  have length := reply_length m (services m args)
  cases m with
  | PutAppend =>
    have err := size_error (show 1 < 15 by omega) (answers.putAppend args)
    refine iff_of_true ?_ not_false
    simp only [Method.reply,putAppendReply,PutAppendReply.write,List.map_cons,List.map_nil,List.sum_cons,
      List.sum_nil] at length ⊢
    omega
  | Get =>
    rcases answers.get args with ok | ⟨known,none_⟩
    · exact (getReply_length_iff ok).trans (by simp [Overlong])
    · have err := size_error (show 1 < 15 by omega) known
      refine iff_of_true ?_ (by simp [Overlong,none_])
      have nothing : (Value.bytes (services .Get args).Value).size 2 = 0 := by
        rw [none_]
        rfl
      simp only [Method.reply,getReply,GetReply.write,List.map_cons,List.map_nil,List.sum_cons,List.sum_nil] at length ⊢
      omega
  | AppendEntries =>
    have term := size_int32 (show 1 < 16 by omega) (services .AppendEntries args).Term
    have success := size_bool (show 2 < 16 by omega) (services .AppendEntries args).Success
    have next := size_int32 (show 3 < 16 by omega) (services .AppendEntries args).UpdateNextIndex
    have state := size_int32 (show 4 < 16 by omega) (services .AppendEntries args).AppState
    refine iff_of_true ?_ not_false
    simp only [Method.reply,raftRpcProctoc.appendEntriesReply,raftRpcProctoc.AppendEntriesReply.write,List.map_cons,List.map_nil,List.sum_cons,
      List.sum_nil] at length ⊢
    omega
  | InstallSnapshot =>
    have term := size_int32 (show 1 < 16 by omega) (services .InstallSnapshot args).Term
    refine iff_of_true ?_ not_false
    simp only [Method.reply,raftRpcProctoc.installSnapshotResponse,raftRpcProctoc.InstallSnapshotResponse.write,List.map_cons,List.map_nil,
      List.sum_cons,List.sum_nil] at length ⊢
    omega
  | RequestVote =>
    have term := size_int32 (show 1 < 16 by omega) (services .RequestVote args).Term
    have granted := size_bool (show 2 < 16 by omega) (services .RequestVote args).VoteGranted
    have state := size_int32 (show 3 < 16 by omega) (services .RequestVote args).VoteState
    refine iff_of_true ?_ not_false
    simp only [Method.reply,raftRpcProctoc.requestVoteReply,raftRpcProctoc.RequestVoteReply.write,List.map_cons,List.map_nil,List.sum_cons,
      List.sum_nil] at length ⊢
    omega

/-- Of an overlong reply the buffer takes all of the error and a part of the value. -/
theorem parse_overlong {r : GetReply} (ok : r.Err = [79,75]) (long : 1017 < r.Value.length)
    (size : (getReply.SerializeToString r).length ≤ maxSize) :
    getReply.ParseFromArray ((getReply.SerializeToString r).take 1024) = none := by
  cases parsed : getReply.ParseFromArray ((getReply.SerializeToString r).take 1024) with
  | none => rfl
  | some r' =>
    have flat : getReply.Flat := flat_reply .Get
    obtain ⟨front,bytes⟩ := MessageType.parse_take flat size parsed
    have whole : (getReply.write r).fields = [.bytes 1 [79,75],.bytes 2 r.Value] := by
      have some_ : r.Value.length > 0 := by omega
      simp [getReply,GetReply.write,Message.fields,Value.write,ok,some_]
    have cut : ¬ (getReply.SerializeToString r).length ≤ 1024 :=
      mt (getReply_length_iff ok).mp (by omega)
    have length := congrArg List.length bytes
    rw [List.length_take,Nat.min_eq_left (by omega)] at length
    -- no number of whole fields has the buffer's size
    rw [whole] at front
    change ((getReply.write r').fields.flatMap Field.write).length = 1024 at length
    rcases List.prefix_cons_iff.mp front with nothing | ⟨rest,first,later⟩
    · rw [nothing] at length
      cases length
    rcases List.prefix_cons_iff.mp later with nothing | ⟨rest',second,later⟩
    · rw [first,nothing] at length
      cases length
    · rw [List.prefix_nil.mp later] at second
      have same : (getReply.write r').fields = (getReply.write r).fields := by rw [first,second,whole]
      rw [same] at length
      exact absurd length.le cut

/-- A call is the call of the same method of the server with the same arguments, but for a reply that is
all defaults and a `Get` whose value is longer than 1017 bytes: these get no reply. -/
theorem remote_call (services : Services) (answers : Answers services) (m : Method) (args : m.Args)
    (small : (m.frame args).length < 2 ^ 31) : call services m args =
      if Silent m (services m args) ∨ Overlong m (services m args) then none else some (services m args) := by
  by_cases silent : Silent m (services m args)
  · rw [if_pos (.inl silent)]
    exact call_silent small silent
  rw [call_eq small silent]
  by_cases long : Overlong m (services m args)
  · rw [if_pos (.inr long)]
    cases m with
    | Get =>
      have ok : (services .Get args).Err = [79,75] := by
        rcases answers.get args with ok | ⟨_,none_⟩
        · exact ok
        · simp [Overlong,none_] at long
      exact parse_overlong ok long (answers.size args)
    | _ => exact absurd long not_false
  · rw [if_neg (not_or.mpr ⟨silent,long⟩)]
    have fits := (fits_iff answers m args).mpr long
    exact (MessageType.parse_take_iff (flat_reply m) (fits.trans (by decide)) 1024).mpr fits

/-- A server whose every value is `v`. -/
def constant : Services
  | .PutAppend, _ => ⟨[79,75]⟩
  | .Get, _ => ⟨[79,75],[118]⟩
  | .AppendEntries, _ => {}
  | .InstallSnapshot, _ => {}
  | .RequestVote, _ => {}

theorem answers_constant : Answers constant where
  putAppend _ := show [79,75] ∈ errors by decide
  get _ := .inl rfl
  size _ := show (getReply.SerializeToString ⟨[79,75],[118]⟩).length ≤ maxSize by decide

/-- The value of `x`, asked for by the client `c` in its first request. -/
theorem remote_call_get : call constant .Get ⟨[120],[99],1⟩ = some ⟨[79,75],[118]⟩ := by
  rw [remote_call constant answers_constant .Get ⟨[120],[99],1⟩ (by decide +kernel)]
  exact if_neg (by decide)

end Rpc
end KvStorage
