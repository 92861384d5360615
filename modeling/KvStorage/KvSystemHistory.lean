import KvStorage.KvSystemOrder

/-! When calls and returns happen, measured in committed entries. The entry of a call is committed
after the call and before its return, whatever is lost or sent again. -/
namespace KvStorage.KvSystem
open Requests Linearizability

def returnOf : CallEvent Op String → Option Op
  | .ret op _ => some op
  | .call _ => none

/-- The calls that returned, in this order. -/
def returned (s : KvSystem) : List Op := s.history.filterMap fun e => returnOf e.2

structure Stamped (s : KvSystem) : Prop where
  below : ∀ e ∈ s.history, e.1 ≤ s.entries.length
  sorted : s.history.Pairwise fun e f => e.1 ≤ f.1
  early : ∀ before op, (before,CallEvent.call op) ∈ s.history → op ∉ s.entries.take before
  late : ∀ before op value, (before,CallEvent.ret op value) ∈ s.history → op ∈ s.entries.take before
  past : ∀ op ∈ s.returned, op.RequestId < (s.clerks op.ClientId).clerk.requestId ∨
    (s.clerks op.ClientId).calling = none
  once : s.returned.Nodup
  shape : ∀ op, s.Called op → op.Operation = "Get" ∨ op.Mutates
  kind : ∀ client calling, (s.clerks client).calling = some calling →
    (calling.args.isGet = true ↔ calling.args.op.Operation = "Get")

variable {s s' : KvSystem} {op : Op} {client : String} {before : Nat}

theorem mem_returned : op ∈ s.returned ↔ ∃ before value, (before,CallEvent.ret op value) ∈ s.history := by
  simp only [returned,List.mem_filterMap]
  constructor
  · rintro ⟨⟨before,e⟩,inside,eq⟩
    cases e with
    | call _ => cases eq
    | ret op' value =>
      cases eq
      exact ⟨before,value,inside⟩
  · rintro ⟨before,value,inside⟩
    exact ⟨_,inside,rfl⟩

theorem stamped_new (peers : Nat) (maxRaftStateSize : Int) (rand : Nat → Nat → Nat) :
    Stamped (.new peers maxRaftStateSize rand) where
  below _ inside := by cases inside
  sorted := .nil
  early _ _ inside := by cases inside
  late _ _ _ inside := by cases inside
  past _ inside := by cases inside
  once := .nil
  shape _ := by rintro ⟨_,⟨⟩⟩
  kind _ _ held := by cases held

/-- Steps that change neither the entries, the clerks nor the history. -/
theorem Stamped.frame (stamped : Stamped s) (entries : s'.entries = s.entries) (clerks : s'.clerks = s.clerks)
    (history : s'.history = s.history) : Stamped s' := by
  have same : s'.returned = s.returned := by rw [returned,returned,history]
  refine ⟨?_,?_,?_,?_,?_,?_,?_,?_⟩
  · rw [entries,history]
    exact stamped.below
  · rw [history]
    exact stamped.sorted
  · rw [entries,history]
    exact stamped.early
  · rw [entries,history]
    exact stamped.late
  · rw [same,clerks]
    exact stamped.past
  · rw [same]
    exact stamped.once
  · rw [show s'.Called = s.Called by funext op; rw [Called,Called,history]]
    exact stamped.shape
  · rw [clerks]
    exact stamped.kind

theorem Stamped.commit (stamped : Stamped s) : Stamped { s with entries := s.entries ++ [op] } := by
  have same {before : Nat} {e : CallEvent Op String} (inside : (before,e) ∈ s.history) :
      (s.entries ++ [op]).take before = s.entries.take before :=
    List.take_append_of_le_length (stamped.below _ inside)
  refine ⟨fun e inside => ?_,stamped.sorted,fun before other inside => ?_,fun before other value inside => ?_,
    stamped.past,stamped.once,stamped.shape,stamped.kind⟩
  · exact (stamped.below e inside).trans (by simp)
  · rw [same inside]
    exact stamped.early before other inside
  · rw [same inside]
    exact stamped.late before other value inside

/-- A clerk in its loop. -/
theorem Stamped.again (stamped : Stamped s) {calling : Calling} {clerk : Clerk} {leaderId : Nat}
    (here : (s.clerks client).calling = some calling) (number : clerk.requestId = (s.clerks client).clerk.requestId) :
    Stamped (s.setClerk client ⟨clerk,some ⟨calling.args,leaderId⟩⟩) := by
  refine { stamped with past := fun op inside => ?_, kind := fun client' calling' held => ?_ }
  · have past := stamped.past op inside
    rw [clerks_setClerk]
    split
    · next own =>
      rw [own,here] at past
      rcases past with below | free
      · exact .inl (number ▸ below)
      · cases free
    · exact past
  · rw [clerks_setClerk] at held
    split at held
    · cases held
      exact stamped.kind client calling here
    · exact stamped.kind client' calling' held

theorem Stamped.record (stamped : Stamped s) {e : CallEvent Op String} :
    (∀ f ∈ (s.record e).history, f.1 ≤ s.entries.length) ∧
      (s.record e).history.Pairwise fun e f => e.1 ≤ f.1 := by
  constructor
  · intro f inside
    rcases List.mem_append.mp inside with old | new
    · exact stamped.below f old
    · obtain rfl := List.mem_singleton.mp new
      exact le_rfl
  · refine List.pairwise_append.mpr ⟨stamped.sorted,List.pairwise_singleton _ _,fun f inside g new => ?_⟩
    obtain rfl := List.mem_singleton.mp new
    exact stamped.below f inside

theorem Stamped.call (stamped : Stamped s) (numbered : Numbered s) {call : Clerk.Call} {clerk : Clerk} {args : Args}
    (free : (s.clerks client).calling = none) (begun : (s.clerks client).clerk.begin call = (clerk,args))
    (leaderId : Nat) : Stamped ((s.setClerk client ⟨clerk,some ⟨args,leaderId⟩⟩).record (.call args.op)) := by
  have begins := numbered.begins free begun
  have made : args = call.args (s.clerks client).clerk.clientId ((s.clerks client).clerk.requestId + 1) :=
    (Prod.mk.inj begun).2.symm
  have get : args.isGet = true ↔ args.op.Operation = "Get" := by
    rw [made]
    exact Clerk.args_isGet _ _ call
  have mutates : args.isGet = false ↔ args.op.Mutates := by
    rw [made]
    exact Clerk.args_mutates _ _ call
  have clerks (client' : String) : ((s.setClerk client ⟨clerk,some ⟨args,leaderId⟩⟩).record (.call args.op)).clerks client' =
      if client' = client then ⟨clerk,some ⟨args,leaderId⟩⟩ else s.clerks client' := clerks_setClerk ..
  have returns : ((s.setClerk client ⟨clerk,some ⟨args,leaderId⟩⟩).record (.call args.op)).returned = s.returned := by
    simp [returned,KvSystem.record,setClerk,returnOf]
  obtain ⟨below,sorted⟩ := stamped.record (e := .call args.op)
  refine ⟨below,sorted,?_,?_,?_,?_,?_,?_⟩
  · intro before op inside
    rcases List.mem_append.mp inside with old | new
    · exact stamped.early before op old
    · cases List.mem_singleton.mp new
      intro covered
      exact begins.fresh numbered (numbered.entries _ (List.mem_of_mem_take covered)) ⟨rfl,rfl⟩
  · intro before op value inside
    rcases List.mem_append.mp inside with old | new
    · exact stamped.late before op value old
    · cases List.mem_singleton.mp new
  · intro op inside
    rw [returns] at inside
    rw [clerks]
    split
    · next own =>
      obtain ⟨before,value,held⟩ := mem_returned.mp inside
      have known := numbered.called op (numbered.entries op (List.mem_of_mem_take (stamped.late before op value held)))
      rw [own] at known
      left
      simp only [begins.requestId]
      omega
    · exact stamped.past op inside
  · rw [returns]
    exact stamped.once
  · intro op called
    rcases called_record_call.mp called with old | rfl
    · exact stamped.shape op old
    · cases kind : args.isGet with
      | true => exact .inl (get.mp kind)
      | false => exact .inr (mutates.mp kind)
  · intro client' calling held
    rw [clerks] at held
    split at held
    · cases held
      exact get
    · exact stamped.kind client' calling held

theorem Stamped.done (stamped : Stamped s) (ordered : Ordered s) {calling : Calling} {clerk : Clerk} {value : String}
    (here : (s.clerks client).calling = some calling) (covered : calling.args.op ∈ s.entries) :
    Stamped ((s.setClerk client ⟨clerk,none⟩).record (.ret calling.args.op value)) := by
  obtain ⟨called,owner,id⟩ := ordered.numbered.calling client calling here
  have clerks (client' : String) : ((s.setClerk client ⟨clerk,none⟩).record (.ret calling.args.op value)).clerks client' =
      if client' = client then ⟨clerk,none⟩ else s.clerks client' := clerks_setClerk ..
  have returns : ((s.setClerk client ⟨clerk,none⟩).record (.ret calling.args.op value)).returned =
      s.returned ++ [calling.args.op] := by
    simp [returned,KvSystem.record,setClerk,returnOf]
  obtain ⟨below,sorted⟩ := stamped.record (e := .ret calling.args.op value)
  refine ⟨below,sorted,?_,?_,?_,?_,?_,?_⟩
  · intro before op inside
    rcases List.mem_append.mp inside with old | new
    · exact stamped.early before op old
    · cases List.mem_singleton.mp new
  · intro before op value' inside
    rcases List.mem_append.mp inside with old | new
    · exact stamped.late before op value' old
    · cases List.mem_singleton.mp new
      change calling.args.op ∈ s.entries.take s.entries.length
      rw [List.take_length]
      exact covered
  · intro op inside
    rw [returns] at inside
    rw [clerks]
    split
    · exact .inr rfl
    · next other =>
      rcases List.mem_append.mp inside with old | new
      · exact stamped.past op old
      · obtain rfl := List.mem_singleton.mp new
        exact absurd owner other
  · rw [returns]
    refine List.nodup_append.mpr ⟨stamped.once,List.nodup_singleton _,fun op old other new same => ?_⟩
    obtain rfl := List.mem_singleton.mp new
    subst same
    have past := stamped.past calling.args.op old
    rw [owner,here,id] at past
    rcases past with below | free
    · exact absurd below (lt_irrefl _)
    · cases free
  · exact fun op called' => stamped.shape op (called_record_ret.mp called')
  · intro client' calling' held
    rw [clerks] at held
    split at held
    · cases held
    · exact stamped.kind client' calling' held

theorem Stamped.step (stamped : Stamped s) (ordered : Ordered s) {a : Action} (taken : s.step a = some s') :
    Stamped s' := by
  cases moves taken with
  | call free begun => exact stamped.call ordered.numbered free begun _
  | send => exact stamped.frame rfl rfl rfl
  | deliver => exact stamped.frame rfl rfl rfl
  | again here received => exact stamped.again here (received_kept received).2
  | done here inside own received =>
    have covered := List.mem_of_mem_take (ordered.replied inside own (done_final received))
    exact stamped.done ordered here covered
  | commit => exact stamped.commit
  | serve => exact stamped.frame rfl rfl rfl
  | ifNeedToSendSnapshotCommand => exact stamped.frame rfl rfl rfl
  | getSnapshotFromRaft => exact stamped.frame rfl rfl rfl
  | restart => exact stamped.frame rfl rfl rfl

theorem stamped_of_reach {ok : KvSystem → Action → Prop} {peers : Nat} {maxRaftStateSize : Int}
    {rand : Nat → Nat → Nat} (reach : Run.Reach step ok (.new peers maxRaftStateSize rand) s) : Stamped s :=
  reach.invariant Stamped (stamped_new peers maxRaftStateSize rand)
    fun _ _ _ before stamped _ taken => stamped.step (ordered_of_reach before) taken

/-- The history as the clerks see it. -/
def events (s : KvSystem) : List (CallEvent Op String) := s.history.map Prod.snd

theorem mem_events {e : CallEvent Op String} : e ∈ s.events ↔ ∃ before, (before,e) ∈ s.history := by
  simp [events]

/-- Between a return and a later call, the one is committed and the other is not. -/
theorem Stamped.precedes (stamped : Stamped s) {c d : Op} (precedes : Precedes s.events c d) :
    ∃ value before after_, (before,.ret c value) ∈ s.history ∧ (after_,.call d) ∈ s.history ∧ before ≤ after_ := by
  obtain ⟨front,value,back,split,inside⟩ := precedes
  obtain ⟨one,two,whole,_,rest⟩ := List.map_eq_append_iff.mp split
  obtain ⟨⟨before,e⟩,later,rfl,same,rfl⟩ := List.map_eq_cons_iff.mp rest
  obtain rfl : e = .ret c value := same
  obtain ⟨⟨after_,f⟩,held,same⟩ := List.mem_map.mp inside
  obtain rfl : f = .call d := same
  have sorted := stamped.sorted
  rw [whole] at sorted
  have ordered := (List.pairwise_cons.mp (List.pairwise_append.mp sorted).2.1).1 _ held
  refine ⟨value,before,after_,?_,?_,ordered⟩
  · rw [whole]
    exact List.mem_append_right _ List.mem_cons_self
  · rw [whole]
    exact List.mem_append_right _ (List.mem_cons_of_mem _ held)

/-- In every run, a call that returned is committed, and a call that is made after another's return is
committed after it. -/
theorem returned_committed (peers : Nat) (maxRaftStateSize : Int) (rand : Nat → Nat → Nat) (actions : List Action)
    (s : KvSystem) (ran : Run.run step (.new peers maxRaftStateSize rand) actions = some s) :
    (∀ op value, .ret op value ∈ s.events → op ∈ s.entries) ∧
      ∀ c d, Precedes s.events c d → ∃ k ≤ s.entries.length, c ∈ s.entries.take k ∧ d ∉ s.entries.take k := by
  have stamped := stamped_of_reach (Run.reach_of_run actions ran)
  constructor
  · intro op value inside
    obtain ⟨before,held⟩ := mem_events.mp inside
    exact List.mem_of_mem_take (stamped.late before op value held)
  · intro c d precedes
    obtain ⟨value,before,after_,first,second,le⟩ := stamped.precedes precedes
    refine ⟨before,stamped.below _ first,stamped.late before c value first,fun inside => ?_⟩
    exact stamped.early after_ d second (List.take_subset_take_left _ le inside)

theorem returned_committed_putTwice : ∃ s, Run.run step twoServers putTwice = some s ∧
    s.returned = [⟨"Put","k","x","c",1⟩] ∧ ∀ op ∈ s.returned, op ∈ s.entries := by
  have runs : (Run.run step twoServers putTwice).any (fun s => s.returned = [⟨"Put","k","x","c",1⟩]) = true := by
    decide +kernel
  obtain ⟨s,ran,answered⟩ := (Option.any_eq_true ..).mp runs
  refine ⟨s,ran,of_decide_eq_true answered,fun op inside => ?_⟩
  obtain ⟨before,value,held⟩ := mem_returned.mp inside
  exact (returned_committed 2 10 (fun _ _ => 0) putTwice s ran).1 op value (mem_events.mpr ⟨before,held⟩)

end KvStorage.KvSystem
