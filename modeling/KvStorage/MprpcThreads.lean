import Mathlib.Logic.Function.Basic
import KvStorage.Lib.Run

/-! Threads that call `CallMethod` on one channel. Each connection to the check, `send` and `recv`
is one step; nothing orders the steps of different calls, and a response does not name its call. -/
namespace KvStorage

/-- How far a call is; `returned` holds the call whose response it parsed. -/
inductive CallState (Call : Type) where
  | idle | connecting | sending | receiving | failed
  | returned (response : Call)
  deriving DecidableEq, Repr

def CallState.running : CallState Call → Bool
  | .failed | .returned _ => false
  | _ => true

/-- The server answers a connection's requests in the order of `sends`, so the responses that the
calls of `recvs` took are those to the same places of `sends`. -/
structure SharedChannel (Call : Type) where
  sockfd : Option Nat
  opened : Nat
  sends : Nat → List Call
  recvs : Nat → List Call
  state : Call → CallState Call

inductive ChannelStep (Call : Type) where
  | enter (call : Call)
  | connect (call : Call) (ok : Bool)
  | unserialized (call : Call)
  | send (call : Call) (ok : Bool)
  | recv (call : Call) (ok : Bool)

namespace SharedChannel

variable {Call : Type} [DecidableEq Call]

/-- The constructor connects, or leaves it to the first call. -/
def new (connected : Bool) : SharedChannel Call :=
  ⟨if connected then some 0 else none,1,fun _ => [],fun _ => [],fun _ => .idle⟩

def goto (c : SharedChannel Call) (call : Call) (state : CallState Call) : SharedChannel Call :=
  { c with state := Function.update c.state call state }

variable (accepts : Call → Call → Bool)

/-- `accepts t u` says that the response to `u` parses as the response type of `t`. -/
def step (c : SharedChannel Call) : ChannelStep Call → Option (SharedChannel Call)
  | .enter call =>
    if c.state call = .idle then
      some (c.goto call (if c.sockfd.isSome then .sending else .connecting))
    else none
  | .connect call ok =>
    if c.state call = .connecting then
      if ok then some { c.goto call .sending with sockfd := some c.opened, opened := c.opened + 1 }
      else some { c.goto call .failed with sockfd := none }
    else none
  | .unserialized call => if c.state call = .sending then some (c.goto call .failed) else none
  | .send call ok =>
    if c.state call = .sending then
      if ok then
        c.sockfd.map fun k =>
          { c.goto call .receiving with sends := Function.update c.sends k (c.sends k ++ [call]) }
      else some { c.goto call .connecting with sockfd := none }
    else none
  | .recv call ok =>
    if c.state call = .receiving then
      if ok then do
        let k ← c.sockfd
        let response ← (c.sends k)[(c.recvs k).length]?
        some { c.goto call (if accepts call response then .returned response else .failed) with
          recvs := Function.update c.recvs k (c.recvs k ++ [call]) }
      else some { c.goto call .failed with sockfd := none }
    else none

/-- Each call that succeeds has the response to its own request. -/
def Own (c : SharedChannel Call) : Prop := ∀ call response, c.state call = .returned response → response = call

/-- On every connection the calls receive in the order in which they sent, but for responses that
the receiver rejects. -/
def InOrder (c : SharedChannel Call) : Prop := ∀ (k i : Nat) (call sender : Call),
  (c.recvs k)[i]? = some call → (c.sends k)[i]? = some sender → accepts call sender = true → call = sender

/-- What a received call was given. -/
structure Served (c : SharedChannel Call) : Prop where
  given : ∀ (k i : Nat) (call : Call), (c.recvs k)[i]? = some call → ∃ sender, (c.sends k)[i]? = some sender ∧
    c.state call = if accepts call sender then .returned sender else .failed
  taken : ∀ (call response : Call), c.state call = .returned response → ∃ k i : Nat,
    (c.recvs k)[i]? = some call ∧ (c.sends k)[i]? = some response ∧ accepts call response = true

variable {accepts} {c c' : SharedChannel Call}

omit [DecidableEq Call] in
theorem getElem?_of_front {front whole : List Call} (le : front <+: whole) {i : Nat}
    (found : front[i]? = some call) : whole[i]? = some call := by
  obtain ⟨rest,rfl⟩ := le
  rwa [List.getElem?_append_left (List.getElem?_eq_some_iff.mp found).1]

/-- What the received calls were given stays when a call that still runs goes on without a response. -/
theorem Served.goto (served : Served accepts c) (call : Call) (running : (c.state call).running = true)
    (state : CallState Call) (unanswered : ∀ response, state ≠ .returned response)
    (states : c'.state = Function.update c.state call state) (recvs : c'.recvs = c.recvs)
    (sends : ∀ k, c.sends k <+: c'.sends k) : Served accepts c' where
  given k i other received := by
    rw [recvs] at received
    obtain ⟨sender,sent,result⟩ := served.given k i other received
    have apart : other ≠ call := by
      rintro rfl
      rw [result] at running
      split at running <;> cases running
    refine ⟨sender,getElem?_of_front (sends k) sent,?_⟩
    rw [states,Function.update_of_ne apart]
    exact result
  taken other response result := by
    rw [states] at result
    by_cases same : other = call
    · subst same
      rw [Function.update_self] at result
      exact absurd result (unanswered response)
    · rw [Function.update_of_ne same] at result
      obtain ⟨k,i,received,sent,accepted⟩ := served.taken other response result
      exact ⟨k,i,by rw [recvs]; exact received,getElem?_of_front (sends k) sent,accepted⟩

/-- The next response of a connection goes to the call that receives it. -/
theorem Served.recv (served : Served accepts c) (call : Call) (running : (c.state call).running = true)
    {k : Nat} {response : Call} (sent : (c.sends k)[(c.recvs k).length]? = some response) :
    Served accepts { c.goto call (if accepts call response then .returned response else .failed) with
      recvs := Function.update c.recvs k (c.recvs k ++ [call]) } where
  given k' i other received := by
    simp only [SharedChannel.goto] at received ⊢
    by_cases last : k' = k ∧ i = (c.recvs k).length
    · obtain ⟨rfl,rfl⟩ := last
      simp only [Function.update_self,List.getElem?_concat_length,Option.some.injEq] at received
      subst received
      exact ⟨response,sent,Function.update_self ..⟩
    · have earlier : (c.recvs k')[i]? = some other := by
        by_cases same : k' = k
        · subst same
          rw [Function.update_self] at received
          have inside := (List.getElem?_eq_some_iff.mp received).1
          rw [List.length_append,List.length_singleton] at inside
          have before : i < (c.recvs k').length := by
            have : i ≠ (c.recvs k').length := fun eq => last ⟨rfl,eq⟩
            omega
          rwa [List.getElem?_append_left before] at received
        · rwa [Function.update_of_ne same] at received
      obtain ⟨sender,sent',result⟩ := served.given k' i other earlier
      have apart : other ≠ call := by
        rintro rfl
        rw [result] at running
        split at running <;> cases running
      exact ⟨sender,sent',(Function.update_of_ne apart ..).trans result⟩
  taken other result owned := by
    simp only [SharedChannel.goto] at owned ⊢
    by_cases same : other = call
    · subst same
      rw [Function.update_self] at owned
      split at owned
      · next accepted =>
        obtain rfl := CallState.returned.inj owned
        exact ⟨k,(c.recvs k).length,by simp,sent,accepted⟩
      · cases owned
    · rw [Function.update_of_ne same] at owned
      obtain ⟨k',i,received,sent',accepted⟩ := served.taken other result owned
      refine ⟨k',i,?_,sent',accepted⟩
      by_cases here : k' = k
      · subst here
        rw [Function.update_self]
        exact getElem?_of_front (List.prefix_append ..) received
      · rwa [Function.update_of_ne here]

theorem Served.step (served : Served accepts c) {action : ChannelStep Call}
    (moved : c.step accepts action = some c') : Served accepts c' := by
  cases action with
  | enter call =>
    simp only [SharedChannel.step] at moved
    split at moved
    · next here =>
      obtain rfl := Option.some.inj moved
      exact served.goto call (by rw [here]; rfl) _ (by split <;> simp) rfl rfl fun _ => List.prefix_rfl
    · cases moved
  | connect call ok =>
    simp only [SharedChannel.step] at moved
    split at moved
    · next here =>
      split at moved
      · obtain rfl := Option.some.inj moved
        exact served.goto call (by rw [here]; rfl) _ (by simp) rfl rfl fun _ => List.prefix_rfl
      · obtain rfl := Option.some.inj moved
        exact served.goto call (by rw [here]; rfl) _ (by simp) rfl rfl fun _ => List.prefix_rfl
    · cases moved
  | unserialized call =>
    simp only [SharedChannel.step] at moved
    split at moved
    · next here =>
      obtain rfl := Option.some.inj moved
      exact served.goto call (by rw [here]; rfl) _ (by simp) rfl rfl fun _ => List.prefix_rfl
    · cases moved
  | send call ok =>
    simp only [SharedChannel.step] at moved
    split at moved
    · next here =>
      split at moved
      · obtain ⟨k,_,rfl⟩ := Option.map_eq_some_iff.mp moved
        refine served.goto call (by rw [here]; rfl) .receiving (by simp) rfl rfl fun k' => ?_
        by_cases same : k' = k
        · subst same
          simp
        · simp [same]
      · obtain rfl := Option.some.inj moved
        exact served.goto call (by rw [here]; rfl) _ (by simp) rfl rfl fun _ => List.prefix_rfl
    · cases moved
  | recv call ok =>
    simp only [SharedChannel.step] at moved
    split at moved
    · next here =>
      split at moved
      · obtain ⟨k,_,moved⟩ := Option.bind_eq_some_iff.mp moved
        obtain ⟨response,sent,eq⟩ := Option.bind_eq_some_iff.mp moved
        obtain rfl := Option.some.inj eq
        exact served.recv call (by rw [here]; rfl) sent
      · obtain rfl := Option.some.inj moved
        exact served.goto call (by rw [here]; rfl) _ (by simp) rfl rfl fun _ => List.prefix_rfl
    · cases moved

theorem served_of_reach {connected : Bool}
    (reach : Run.Reach (step accepts) Run.always (new connected) c) : Served accepts c := by
  refine reach.invariant (Served accepts) ⟨?_,?_⟩ fun _ _ _ _ served _ moved => served.step moved
  · intro k i call received
    simp [new] at received
  · intro call response result
    cases result

variable (accepts)

/-- In every state of every interleaving the calls have their own responses exactly when those
that accepted one received in the order in which they sent. -/
theorem own_iff_inOrder (connected : Bool) (c : SharedChannel Call)
    (reach : Run.Reach (step accepts) Run.always (new connected) c) : c.Own ↔ InOrder accepts c := by
  have served := served_of_reach reach
  constructor
  · intro own k i call sender received sent accepted
    obtain ⟨sender',sent',result⟩ := served.given k i call received
    obtain rfl : sender = sender' := Option.some.inj (sent.symm.trans sent')
    rw [if_pos accepted] at result
    exact (own call sender result).symm
  · intro order call response result
    obtain ⟨k,i,received,sent,accepted⟩ := served.taken call response result
    exact (order k i call response received sent accepted).symm

/-- Two calls send before the second one receives first. -/
def overtaken : List (ChannelStep Nat) := [.enter 0,.enter 1,.send 0 true,.send 1 true,.recv 1 true]

theorem overtaken_state : (Run.run (step fun _ _ => true) (new true) overtaken).map (fun c => c.state 1) =
    some (.returned 0) := by decide +kernel

theorem own_fails : ¬ ∀ c : SharedChannel Nat,
    Run.Reach (step fun _ _ => true) Run.always (new true) c → c.Own := by
  intro law
  obtain ⟨c,ran,result⟩ := Option.map_eq_some_iff.mp overtaken_state
  exact absurd (law c (Run.reach_of_run overtaken ran) 1 0 result) (by decide)

/-- Calls that do not overlap. -/
theorem own_iff_inOrder_sequential : ∃ c : SharedChannel Nat,
    c.state 0 = .returned 0 ∧ c.state 1 = .returned 1 ∧ (c.Own ↔ InOrder (fun _ _ => true) c) := by
  have ran : (Run.run (step fun _ _ => true) (new true)
      [.enter 0,.send 0 true,.recv 0 true,.enter 1,.send 1 true,.recv 1 true]).map
      (fun c => (c.state 0,c.state 1)) = some (.returned 0,.returned 1) := by decide +kernel
  obtain ⟨c,ran,states⟩ := Option.map_eq_some_iff.mp ran
  obtain ⟨zero,one⟩ := Prod.mk.inj states
  exact ⟨c,zero,one,own_iff_inOrder _ true c (Run.reach_of_run _ ran)⟩

end SharedChannel
end KvStorage
