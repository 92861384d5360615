import KvStorage.Lib.Run
import KvStorage.Lib.Wire

/-! Calls on a client channel, one after another. A response has no length and no call's name:
`CallMethod` takes what one `recv` into a buffer of 1024 bytes returns. -/
namespace KvStorage
open Wire

/-- The coding of a message type, with what protobuf documents of it. -/
structure MessageCodec (Msg : Type) where
  SerializeToString : Msg → Octets
  ParseFromArray : Octets → Option Msg
  default : Msg
  parse_serialize : ∀ m, ParseFromArray (SerializeToString m) = some m
  parse_nil : ParseFromArray [] = some default

/-- A connected socket: response bytes not received yet, and whether the peer has closed it. -/
structure Connection where
  unread : Octets
  closed : Bool
  deriving DecidableEq, Repr

/-- What the network and the server do with one call. -/
structure Exchange (Method Msg : Type) where
  method : Method
  /-- whether `newConnect` succeeds when there is no socket -/
  connects : Bool
  /-- whether the request and its header are serialized -/
  serializes : Bool
  /-- sends that fail and are tried again on a new connection -/
  resends : Nat
  /-- whether the last send succeeds; if not, the connection after it fails -/
  sends : Bool
  response : Msg
  /-- how many bytes of the response the server writes; it closes if these are not all -/
  written : Nat
  closes : Bool
  /-- what `recv` returns: `none` is an error, 0 the end of the stream -/
  recv : Option Nat
  deriving DecidableEq, Repr

structure MprpcChannel where
  sockfd : Option Connection
  deriving DecidableEq, Repr

namespace MprpcChannel

/-- The constructor, with or without a connection. -/
def new (connected : Bool) : MprpcChannel := ⟨if connected then some ⟨[],false⟩ else none⟩

variable {Method Msg : Type}

/-- The socket of the call, connected if there was none. -/
def socket (channel : MprpcChannel) (x : Exchange Method Msg) : Option Connection :=
  match channel.sockfd with
  | some c => some c
  | none => if x.connects then some ⟨[],false⟩ else none

/-- The loop around `send`: each failure closes the socket and connects again. -/
def send (c : Connection) (x : Exchange Method Msg) : Option Connection :=
  if x.sends then some (if x.resends = 0 then c else ⟨[],false⟩) else none

variable (codec : Method → MessageCodec Msg)

/-- The server's part; a closed connection gets no answer. -/
def serve (c : Connection) (x : Exchange Method Msg) : Connection :=
  if c.closed then c
  else ⟨c.unread ++ ((codec x.method).SerializeToString x.response).take x.written,x.closes⟩

/-- Receive once and parse: the channel afterwards and the response, `none` for a failed call. -/
def receive (c : Connection) (x : Exchange Method Msg) : MprpcChannel × Option Msg :=
  match x.recv with
  | none => (⟨none⟩,none)
  | some recv_size =>
    (⟨some { c with unread := c.unread.drop recv_size }⟩,
      (codec x.method).ParseFromArray (c.unread.take recv_size))

def CallMethod (channel : MprpcChannel) (x : Exchange Method Msg) : MprpcChannel × Option Msg :=
  match channel.socket x with
  | none => (⟨none⟩,none)
  | some c =>
    if ¬ x.serializes then (⟨some c⟩,none)
    else match send c x with
    | none => (⟨none⟩,none)
    | some c => receive codec (serve codec c x) x

/-- The connection that the request goes out on, if the call gets so far. -/
def sent (channel : MprpcChannel) (x : Exchange Method Msg) : Option Connection :=
  (channel.socket x).bind fun c => if x.serializes then send c x else none

/-- What a stream socket can do: at most 1024 bytes of what has arrived, and 0 only at its end. -/
def Received (c : Connection) (recv_size : Nat) : Prop :=
  recv_size ≤ 1024 ∧ recv_size ≤ c.unread.length ∧ (recv_size = 0 → c.unread = [] ∧ c.closed = true)

instance (c : Connection) (recv_size : Nat) : Decidable (Received c recv_size) :=
  inferInstanceAs (Decidable (_ ∧ _ ∧ (_ → _ ∧ _)))

def Possible (channel : MprpcChannel) (x : Exchange Method Msg) : Prop :=
  x.written ≤ ((codec x.method).SerializeToString x.response).length ∧
  (x.closes = false → x.written = ((codec x.method).SerializeToString x.response).length) ∧
  ∀ c ∈ channel.sent x, ∀ recv_size ∈ x.recv, Received (serve codec c x) recv_size

instance (channel : MprpcChannel) (x : Exchange Method Msg) : Decidable (Possible codec channel x) :=
  inferInstanceAs (Decidable (_ ∧ (_ → _) ∧ ∀ _ ∈ _, ∀ _ ∈ _, _))

def step (channel : MprpcChannel) (x : Exchange Method Msg) : Option MprpcChannel :=
  if Possible codec channel x then some (CallMethod codec channel x).1 else none

/-- The server wrote its whole response on a connection that was open. -/
def Answered (c : Connection) (x : Exchange Method Msg) : Prop :=
  c.closed = false ∧ x.written = ((codec x.method).SerializeToString x.response).length

/-- A call that does not fail has the response to its request, and none leaves bytes to a later one. -/
structure OwnResponse (channel : MprpcChannel) (x : Exchange Method Msg) : Prop where
  own : ∀ m ∈ (CallMethod codec channel x).2,
    (∃ c ∈ channel.sent x, Answered codec c x) ∧ m = x.response
  clean : ∀ c ∈ (CallMethod codec channel x).1.sockfd, c.unread = []

/-- `recv` fails, or takes all that the server wrote: a whole response, or a part that does not parse. -/
def WholeResponse (channel : MprpcChannel) (x : Exchange Method Msg) : Prop :=
  ∀ c ∈ channel.sent x, ∀ recv_size ∈ x.recv, recv_size = (serve codec c x).unread.length ∧
    (Answered codec c x ∨ (codec x.method).ParseFromArray (serve codec c x).unread = none)

/-- Nothing of an earlier call is left to receive. -/
def Clean (channel : MprpcChannel) : Prop := ∀ c ∈ channel.sockfd, c.unread = []

variable {codec}

theorem Clean.socket {channel : MprpcChannel} (clean : channel.Clean) {x : Exchange Method Msg} :
    ∀ c ∈ channel.socket x, c.unread = [] := by
  intro c held
  unfold MprpcChannel.socket at held
  split at held
  · next c' eq =>
    obtain rfl := Option.some.inj held
    exact clean c' eq
  · split at held
    · obtain rfl := Option.some.inj held
      rfl
    · cases held

theorem Clean.sent {channel : MprpcChannel} (clean : channel.Clean) {x : Exchange Method Msg} :
    ∀ c ∈ channel.sent x, c.unread = [] := by
  intro c held
  obtain ⟨c',socket,held⟩ := Option.bind_eq_some_iff.mp held
  split at held
  · unfold send at held
    split at held
    · obtain rfl := Option.some.inj held
      split
      · exact clean.socket c' socket
      · rfl
    · cases held
  · cases held

/-- A call either stops before `recv`, which leaves nothing to receive, or is decided by it. -/
theorem CallMethod_cases (codec : Method → MessageCodec Msg) (channel : MprpcChannel) (x : Exchange Method Msg) :
    (channel.sent x = none ∧ (CallMethod codec channel x).2 = none ∧
      (channel.Clean → (CallMethod codec channel x).1.Clean)) ∨
    ∃ c, channel.sent x = some c ∧ CallMethod codec channel x = receive codec (serve codec c x) x := by
  cases socket : channel.socket x with
  | none =>
    refine .inl ⟨by simp [sent,socket],by simp [CallMethod,socket],fun _ => ?_⟩
    simp [CallMethod,socket,Clean]
  | some c =>
    by_cases serializes : x.serializes = true
    · cases out : send c x with
      | none =>
        refine .inl ⟨by simp [sent,socket,serializes,out],by simp [CallMethod,socket,serializes,out],fun _ => ?_⟩
        simp [CallMethod,socket,serializes,out,Clean]
      | some c' =>
        exact .inr ⟨c',by simp [sent,socket,serializes,out],by simp [CallMethod,socket,serializes,out]⟩
    · refine .inl ⟨by simp [sent,socket,serializes],by simp [CallMethod,socket,serializes],fun clean => ?_⟩
      have empty := clean.socket c socket
      simpa [CallMethod,socket,serializes,Clean] using empty

/-- All of an answer on a clean connection is the response itself. -/
theorem serve_answered {c : Connection} {x : Exchange Method Msg} (empty : c.unread = [])
    (answered : Answered codec c x) :
    (serve codec c x).unread = (codec x.method).SerializeToString x.response := by
  obtain ⟨opened,whole⟩ := answered
  simp [serve,opened,empty,whole]

theorem own_response_iff {channel : MprpcChannel} {x : Exchange Method Msg} (clean : channel.Clean)
    (possible : Possible codec channel x) : OwnResponse codec channel x ↔ WholeResponse codec channel x := by
  rcases CallMethod_cases codec channel x with ⟨unsent,failed,kept⟩ | ⟨c,out,eq⟩
  · constructor
    · intro _ c held
      rw [unsent] at held
      cases held
    · intro _
      refine ⟨fun m held => ?_,kept clean⟩
      rw [failed] at held
      cases held
  have empty := clean.sent c out
  cases received : x.recv with
  | none =>
    constructor
    · intro _ _ _ n held
      rw [received] at held
      cases held
    · intro _
      constructor
      · intro m held
        simp [eq,receive,received] at held
      · intro c held
        simp [eq,receive,received] at held
  | some n =>
    obtain ⟨_,bound,_⟩ := possible.2.2 c out n received
    have result : CallMethod codec channel x =
        (⟨some { serve codec c x with unread := (serve codec c x).unread.drop n }⟩,
          (codec x.method).ParseFromArray ((serve codec c x).unread.take n)) := by
      rw [eq]
      simp [receive,received]
    constructor
    · rintro ⟨own,left⟩ c' held n' held'
      obtain rfl : c = c' := Option.some.inj (out.symm.trans held)
      obtain rfl : n = n' := Option.some.inj (received.symm.trans held')
      have all := left _ (by rw [result]; rfl)
      have length : n = (serve codec c x).unread.length :=
        le_antisymm bound (List.drop_eq_nil_iff.mp all)
      refine ⟨length,?_⟩
      cases parsed : (codec x.method).ParseFromArray (serve codec c x).unread with
      | none => exact .inr rfl
      | some m =>
        obtain ⟨⟨c',held,answered⟩,_⟩ := own m (by rw [result,length,List.take_length]; exact parsed)
        obtain rfl : c = c' := Option.some.inj (out.symm.trans held)
        exact .inl answered
    · intro whole
      obtain ⟨length,outcome⟩ := whole c out n received
      constructor
      · intro m held
        rw [result,length,List.take_length] at held
        rcases outcome with answered | unparsed
        · rw [serve_answered empty answered,(codec x.method).parse_serialize] at held
          exact ⟨⟨c,out,answered⟩,(Option.some.inj held).symm⟩
        · rw [unparsed] at held
          cases held
      · intro c' held
        rw [result,length,List.drop_length] at held
        obtain rfl := Option.some.inj held
        rfl

theorem step_eq {channel next : MprpcChannel} {x : Exchange Method Msg}
    (taken : step codec channel x = some next) :
    Possible codec channel x ∧ next = (CallMethod codec channel x).1 := by
  unfold step at taken
  split at taken
  · next possible => exact ⟨possible,(Option.some.inj taken).symm⟩
  · cases taken

variable (codec)

/-- Over any sequence of calls, each has its own response exactly when each takes a whole one. -/
theorem own_response_run_iff (connected : Bool) (calls : List (Exchange Method Msg)) :
    Run.Each (step codec) (OwnResponse codec) (new connected) calls ↔
      Run.Each (step codec) (WholeResponse codec) (new connected) calls := by
  refine Run.each_iff Clean (fun channel x next clean taken => ?_) (fun channel x next _ taken law => ?_) calls ?_
  · exact own_response_iff clean (step_eq taken).1
  · rw [(step_eq taken).2]
    exact law.clean
  · intro c held
    cases connected with
    | false => cases held
    | true => obtain rfl := Option.some.inj held; rfl

/-! ### A peer that closes -/

/-- `InstallSnapshotResponse`, whose one field is `int32 Term = 1`. -/
def installSnapshotResponse : MessageCodec (BitVec 32) where
  SerializeToString term := if term = 0 then [] else (Field.varint 1 (term.signExtend 64).toNat).write
  ParseFromArray bytes := (parse bytes).map fun fields => fields.foldl
    (fun term field => match field with
      | .varint 1 value => BitVec.ofNat 32 value
      | _ => term) 0
  default := 0
  parse_serialize term := by
    by_cases zero : term = 0
    · simp [zero,parse,readFields]
    · have fits : ∀ f ∈ [Field.varint 1 (term.signExtend 64).toNat], f.Fits := by
        intro f inside
        obtain rfl := List.mem_singleton.mp inside
        exact ⟨by omega,by omega,(term.signExtend 64).isLt⟩
      have read := parse_write fits
      simp only [List.flatMap_cons,List.flatMap_nil,List.append_nil] at read
      have back : BitVec.ofNat 32 (term.signExtend 64).toNat = term := by
        rw [BitVec.ofNat_toNat]
        apply BitVec.eq_of_getLsbD_eq
        intro i low
        rw [BitVec.getLsbD_setWidth,BitVec.getLsbD_signExtend]
        simp [low,show i < 64 by omega]
      rw [if_neg zero,read]
      exact congrArg some back
  parse_nil := rfl

/-- The server closes before it answers `InstallSnapshot` with term 3. -/
def closedFirst : Exchange Unit (BitVec 32) :=
  ⟨(),true,true,0,true,3,0,true,some 0⟩

theorem own_response_fails : ¬ ∀ (codec : Unit → MessageCodec (BitVec 32)) (calls : List (Exchange Unit (BitVec 32))),
    Run.Each (step codec) (OwnResponse codec) (new true) calls := by
  intro law
  have success := ((law (fun _ => installSnapshotResponse) [closedFirst]) ⟨some ⟨[],true⟩⟩
    (by decide +kernel)).1.own 0 (by decide +kernel)
  exact absurd success.2 (by decide)

end MprpcChannel
end KvStorage
