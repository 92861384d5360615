import KvStorage.RequestHandlers

/-! The client. A call takes the next request id and goes round the servers, from the one that last
answered, with the same arguments until one answers. -/
namespace KvStorage
open Requests

/-- `GetArgs` and `PutAppendArgs`. -/
inductive Args where
  | Get (key clientid : String) (requestid : Int)
  | PutAppend (key value op clientid : String) (requestid : Int)
  deriving DecidableEq, Repr

/-- The operation that `getImpl` or `putAppendImpl` makes of them. -/
def Args.op : Args → Op
  | .Get key clientid requestid => ⟨"Get",key,"",clientid,requestid⟩
  | .PutAppend key value op clientid requestid => ⟨op,key,value,clientid,requestid⟩

def Args.isGet : Args → Bool
  | .Get .. => true
  | .PutAppend .. => false

structure Clerk where
  /-- `servers_.size()` -/
  servers : Nat
  clientId : String
  requestId : Int
  recentLeaderId : Nat
  deriving DecidableEq, Repr

namespace Clerk

inductive Call where
  | Get (key : String)
  | Put (key value : String)
  | Append (key value : String)
  deriving DecidableEq, Repr

/-- What one round of the loop ends with: the server to ask next, or what the call returns. -/
inductive Round where
  | again (leaderId : Nat)
  | done (value : String)
  deriving DecidableEq, Repr

def new (servers : Nat) (clientId : String) : Clerk := ⟨servers,clientId,0,0⟩

variable (c : Clerk)

def Call.args (clientId : String) (requestId : Int) : Call → Args
  | .Get key => .Get key clientId requestId
  | .Put key value => .PutAppend key value "Put" clientId requestId
  | .Append key value => .PutAppend key value "Append" clientId requestId

/-- `Get` and `putAppend` up to their loops. -/
def begin (call : Call) : Clerk × Args :=
  let c := { c with requestId := c.requestId + 1 }
  (c,call.args c.clientId c.requestId)

/-- `leaderId = (leaderId + 1) % servers_.size()`. -/
def nextServer (leaderId : Nat) : Nat := (leaderId + 1) % c.servers

/-- The rest of a round; `none` is a call that failed. -/
def received (args : Args) (leaderId : Nat) : Option Reply → Clerk × Round
  | none => (c,.again (c.nextServer leaderId))
  | some reply =>
    if reply.Err = .ErrWrongLeader then (c,.again (c.nextServer leaderId))
    else if args.isGet ∧ reply.Err = .ErrNoKey then (c,.done "")
    else if reply.Err = .OK then
      ({ c with recentLeaderId := leaderId },.done (if args.isGet then reply.Value else ""))
    else (c,.again leaderId)

/-- The loop, for so many rounds: `rpc` is what a server answers to the call that is sent as number
`attempt`. The first result is the number of the next one. -/
def loop (args : Args) (rpc : Nat → Nat → Args → Option Reply) : Nat → Nat → Nat → Option (Nat × Clerk × String)
  | 0, _, _ => none
  | rounds + 1, attempt, leaderId => match c.received args leaderId (rpc attempt leaderId args) with
    | (c,.done value) => some (attempt + 1,c,value)
    | (_,.again leaderId) => loop args rpc rounds (attempt + 1) leaderId

/-- Calls one after another, each within so many rounds. -/
def session (rpc : Nat → Nat → Args → Option Reply) (rounds : Nat) :
    Nat → Clerk → List Call → Option (Nat × Clerk × List String)
  | attempt, c, [] => some (attempt,c,[])
  | attempt, c, call :: rest => do
    let (c,args) := c.begin call
    let (attempt,c,value) ← c.loop args rpc rounds attempt c.recentLeaderId
    let (attempt,c,values) ← session rpc rounds attempt c rest
    some (attempt,c,value :: values)

/-- How many servers are asked in vain before `leader`. -/
def distance (leaderId leader : Nat) : Nat := (leader + (c.servers - leaderId)) % c.servers

/-! ### What a call keeps -/

variable {c} {args : Args} {leaderId : Nat}

@[simp] theorem begin_requestId (call : Call) : (c.begin call).1.requestId = c.requestId + 1 := rfl

@[simp] theorem begin_clientId (call : Call) : (c.begin call).1.clientId = c.clientId := rfl

@[simp] theorem args_op_client (clientId : String) (requestId : Int) (call : Call) :
    (call.args clientId requestId).op.ClientId = clientId := by
  cases call <;> rfl

@[simp] theorem args_op_request (clientId : String) (requestId : Int) (call : Call) :
    (call.args clientId requestId).op.RequestId = requestId := by
  cases call <;> rfl

/-- The handler reads exactly the operations that are called a Get. -/
theorem args_isGet (clientId : String) (requestId : Int) (call : Call) :
    (call.args clientId requestId).isGet = true ↔ (call.args clientId requestId).op.Operation = "Get" := by
  cases call <;> simp [Call.args,Args.isGet,Args.op]

theorem args_mutates (clientId : String) (requestId : Int) (call : Call) :
    (call.args clientId requestId).isGet = false ↔ (call.args clientId requestId).op.Mutates := by
  cases call <;> simp [Call.args,Args.isGet,Args.op,Op.Mutates]

@[simp] theorem received_clientId (reply : Option Reply) :
    (c.received args leaderId reply).1.clientId = c.clientId := by
  unfold received
  split
  · rfl
  · split
    · rfl
    · split
      · rfl
      · split <;> rfl

@[simp] theorem received_requestId (reply : Option Reply) :
    (c.received args leaderId reply).1.requestId = c.requestId := by
  unfold received
  split
  · rfl
  · split
    · rfl
    · split
      · rfl
      · split <;> rfl

/-- A call returns only on an answer, with its value if it is a Get. -/
theorem received_done {reply : Option Reply} {value : String}
    (done : (c.received args leaderId reply).2 = .done value) : ∃ answer, reply = some answer ∧
      ((args.isGet = true ∧ answer.Err = .ErrNoKey ∧ value = "") ∨
        (answer.Err = .OK ∧ value = if args.isGet then answer.Value else "")) := by
  unfold received at done
  split at done
  · cases done
  · next answer =>
    split at done
    · cases done
    · split at done
      · next missing =>
        cases done
        exact ⟨answer,rfl,.inl ⟨missing.1,missing.2,rfl⟩⟩
      · split at done
        · next ok =>
          cases done
          exact ⟨answer,rfl,.inr ⟨ok,rfl⟩⟩
        · cases done

/-! ### One server that answers -/

/-- An answer on which the call returns. -/
def Final (args : Args) (reply : Reply) : Prop := reply.Err = .OK ∨ args.isGet = true ∧ reply.Err = .ErrNoKey

/-- The failures on which the loop goes on to the next server. -/
def Refuses (reply : Option Reply) : Prop := ∀ answer ∈ reply, answer.Err = .ErrWrongLeader

theorem received_refused {reply : Option Reply} (refuses : Refuses reply) :
    c.received args leaderId reply = (c,.again (c.nextServer leaderId)) := by
  cases reply with
  | none => rfl
  | some answer => rw [received,if_pos (refuses answer rfl)]

theorem received_final {reply : Reply} (final : Final args reply) : c.received args leaderId (some reply) =
    (if reply.Err = .OK then { c with recentLeaderId := leaderId } else c,
      .done (if args.isGet ∧ reply.Err = .OK then reply.Value else "")) := by
  rcases final with ok | ⟨get,missing⟩
  · simp [received,ok]
  · simp [received,get,missing]

theorem distance_next {leader : Nat} (inside : leaderId < c.servers) (other : leader < c.servers)
    (differs : leaderId ≠ leader) :
    c.distance leaderId leader = c.distance (c.nextServer leaderId) leader + 1 := by
  unfold distance nextServer
  rcases Nat.lt_or_ge (leaderId + 1) c.servers with within | last
  · rw [Nat.mod_eq_of_lt within]
    rcases Nat.lt_or_gt_of_ne differs with below | above
    · have far : leader + (c.servers - leaderId) = leader - leaderId + c.servers := by omega
      have near : leader + (c.servers - (leaderId + 1)) = leader - (leaderId + 1) + c.servers := by omega
      rw [far,near,Nat.add_mod_right,Nat.add_mod_right,Nat.mod_eq_of_lt (by omega),Nat.mod_eq_of_lt (by omega)]
      omega
    · rw [Nat.mod_eq_of_lt (by omega),Nat.mod_eq_of_lt (by omega)]
      omega
  · obtain rfl : leaderId = c.servers - 1 := by omega
    have wraps : (c.servers - 1 + 1) % c.servers = 0 := by
      rw [Nat.sub_add_cancel (by omega),Nat.mod_self]
    rw [wraps,Nat.sub_zero,Nat.add_mod_right,Nat.mod_eq_of_lt other,Nat.mod_eq_of_lt (by omega)]
    omega

theorem distance_self (inside : leaderId < c.servers) : c.distance leaderId leaderId = 0 := by
  have whole : leaderId + (c.servers - leaderId) = c.servers := by omega
  rw [distance,whole,Nat.mod_self]

variable {rpc : Nat → Nat → Args → Option Reply} {leader : Nat}

/-- One server answers whenever it is asked, and no other one does. -/
structure Stable (c : Clerk) (rpc : Nat → Nat → Args → Option Reply) (leader : Nat) : Prop where
  inside : leader < c.servers
  answers : ∀ attempt args, ∃ reply, rpc attempt leader args = some reply ∧ Final args reply
  refuse : ∀ attempt server args, server ≠ leader → Refuses (rpc attempt server args)

theorem loop_final {reply : Reply} {attempt : Nat} (answered : rpc attempt leaderId args = some reply)
    (final : Final args reply) (rounds : Nat) : c.loop args rpc (rounds + 1) attempt leaderId =
      some (attempt + 1,if reply.Err = .OK then { c with recentLeaderId := leaderId } else c,
        if args.isGet ∧ reply.Err = .OK then reply.Value else "") := by
  rw [loop,answered,received_final final]

theorem loop_refused {attempt : Nat} (refused : Refuses (rpc attempt leaderId args)) (rounds : Nat) :
    c.loop args rpc (rounds + 1) attempt leaderId =
      c.loop args rpc rounds (attempt + 1) (c.nextServer leaderId) := by
  rw [loop,received_refused refused]

/-- The loop asks each server on the way once and returns the first answer. -/
theorem loop_stable (stable : Stable c rpc leader) (args : Args) (attempt : Nat) (inside : leaderId < c.servers)
    {rounds : Nat} (enough : c.distance leaderId leader < rounds) :
    ∃ reply, rpc (attempt + c.distance leaderId leader) leader args = some reply ∧ Final args reply ∧
      c.loop args rpc rounds attempt leaderId = some (attempt + c.distance leaderId leader + 1,
        if reply.Err = .OK then { c with recentLeaderId := leader } else c,
        if args.isGet ∧ reply.Err = .OK then reply.Value else "") := by
  induction rounds generalizing attempt leaderId with
  | zero => omega
  | succ rounds ih =>
    by_cases here : leaderId = leader
    · subst here
      obtain ⟨reply,answered,final⟩ := stable.answers attempt args
      rw [distance_self inside]
      exact ⟨reply,answered,final,loop_final answered final rounds⟩
    · have refused := stable.refuse attempt leaderId args here
      have next : c.nextServer leaderId < c.servers := Nat.mod_lt _ (by omega)
      have further := distance_next inside stable.inside here
      obtain ⟨reply,answered,final,looped⟩ := ih (attempt + 1) next (by omega)
      have count : attempt + 1 + c.distance (c.nextServer leaderId) leader = attempt + c.distance leaderId leader := by
        omega
      rw [count] at answered looped
      exact ⟨reply,answered,final,(loop_refused refused rounds).trans looped⟩

/-- What a call returns on a final reply. -/
def returned (args : Args) (reply : Reply) : String :=
  if args.isGet ∧ reply.Err = .OK then reply.Value else ""

/-- The clerk after a call that `reply` ended: only `OK` makes it remember who answered. -/
def after (c : Clerk) (leader : Nat) (reply : Reply) : Clerk :=
  { c with requestId := c.requestId + 1, recentLeaderId := if reply.Err = .OK then leader else c.recentLeaderId }

/-- Calls that go from the remembered server round to `leader`, whose reply to the call that is sent as
number `attempt` is what `answer` holds: the number of the next one, the clerk and the results. -/
def walk (answer : Nat → Args → Reply) (leader : Nat) : Nat → Clerk → List Call → Nat × Clerk × List String
  | attempt, c, [] => (attempt,c,[])
  | attempt, c, call :: rest =>
    let args := (c.begin call).2
    let asked := attempt + c.distance c.recentLeaderId leader
    let reply := answer asked args
    let (attempt,last,values) := walk answer leader (asked + 1) (c.after leader reply) rest
    (attempt,last,returned args reply :: values)

variable {answer : Nat → Args → Reply} {call : Call}

theorem walk_requestId (attempt : Nat) (calls : List Call) :
    (walk answer leader attempt c calls).2.1.requestId = c.requestId + calls.length := by
  induction calls generalizing c attempt with
  | nil => simp [walk]
  | cons call rest ih =>
    have later := ih (attempt + c.distance c.recentLeaderId leader + 1)
      (c := c.after leader (answer (attempt + c.distance c.recentLeaderId leader) (c.begin call).2))
    refine later.trans ?_
    simp only [after,List.length_cons]
    push_cast
    omega

/-- Once the clerk remembers the leader, every call is sent once. -/
theorem walk_found (attempt : Nat) (calls : List Call) (inside : leader < c.servers) (found : c.recentLeaderId = leader) :
    (walk answer leader attempt c calls).1 = attempt + calls.length ∧
      (walk answer leader attempt c calls).2.1.recentLeaderId = leader := by
  induction calls generalizing c attempt with
  | nil => exact ⟨rfl,found⟩
  | cons call rest ih =>
    have here : c.distance c.recentLeaderId leader = 0 := by
      rw [found]
      exact distance_self inside
    have kept : (c.after leader (answer (attempt + 0) (c.begin call).2)).recentLeaderId = leader := by
      simp only [after,found,ite_self]
    obtain ⟨count,last⟩ := ih (attempt + 0 + 1) (c := c.after leader (answer (attempt + 0) (c.begin call).2)) inside kept
    simp only [walk,here]
    refine ⟨count.trans ?_,last⟩
    rw [List.length_cons]
    omega

/-- One call ends at the server that answers, on the reply to its number. -/
theorem call_stable (stable : Stable (c.begin call).1 rpc leader)
    (answered : ∀ attempt args, rpc attempt leader args = some (answer attempt args))
    (recent : c.recentLeaderId < c.servers) {rounds : Nat} (enough : c.servers ≤ rounds) {attempt asked : Nat}
    (number : attempt + c.distance c.recentLeaderId leader = asked) :
    (c.begin call).1.loop (c.begin call).2 rpc rounds attempt (c.begin call).1.recentLeaderId =
      some (asked + 1,c.after leader (answer asked (c.begin call).2),
        returned (c.begin call).2 (answer asked (c.begin call).2)) := by
  have near : c.distance c.recentLeaderId leader < c.servers := Nat.mod_lt _ (by omega)
  obtain ⟨reply,held,_,looped⟩ := loop_stable stable (c.begin call).2 attempt recent (near.trans_le enough)
  have number : attempt + (c.begin call).1.distance c.recentLeaderId leader = asked := number
  rw [number] at held looped
  obtain rfl := Option.some.inj ((answered asked _).symm.trans held)
  have ended : (if (answer asked (c.begin call).2).Err = .OK then { (c.begin call).1 with recentLeaderId := leader }
      else (c.begin call).1) = c.after leader (answer asked (c.begin call).2) := by
    unfold after
    split <;> rfl
  rw [← ended]
  exact looped

/-- Server 1 holds every key but `m`. -/
def knowing (args : Args) : Reply :=
  match args with
  | .Get key .. => if key = "m" then ⟨.ErrNoKey,""⟩ else ⟨.OK,"x"⟩
  | .PutAppend .. => ⟨.OK,""⟩

end Clerk
end KvStorage
