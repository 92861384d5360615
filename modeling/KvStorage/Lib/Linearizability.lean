import Mathlib

/-! Histories of concurrent calls against a sequential object. Calls are told apart by their
values. Where the calls take effect in rounds, writes first and then the reads of what they left,
the rounds one after another are an order that explains the history. -/
namespace KvStorage.Linearizability

inductive CallEvent (Call Ret : Type) where
  | call (c : Call)
  | ret (c : Call) (value : Ret)
  deriving DecidableEq, Repr

/-- What a call does to the state and what it returns when calls come one by one. -/
structure Object (State Call Ret : Type) where
  init : State
  next : State → Call → State
  answer : State → Call → Ret

variable {State Call Ret : Type} {object : Object State Call Ret} {history : List (CallEvent Call Ret)}

def Object.after (object : Object State Call Ret) (calls : List Call) : State :=
  calls.foldl object.next object.init

/-- The return of `c` comes before the call of `d`. -/
def Precedes (history : List (CallEvent Call Ret)) (c d : Call) : Prop :=
  ∃ front value back, history = front ++ .ret c value :: back ∧ .call d ∈ back

/-- All calls that returned are in the order, and only calls that were made, in real time's order;
each has returned what it returns there. -/
structure Linearizes (object : Object State Call Ret) (history : List (CallEvent Call Ret)) (order : List Call) :
    Prop where
  called : ∀ c ∈ order, .call c ∈ history
  returned : ∀ c value, .ret c value ∈ history → c ∈ order
  once : order.Nodup
  realTime : ∀ c d, d ∈ order → Precedes history c d → [c,d].Sublist order
  legal : ∀ front c back value, order = front ++ c :: back → .ret c value ∈ history →
    object.answer (object.after front) c = value

def Linearizable (object : Object State Call Ret) (history : List (CallEvent Call Ret)) : Prop :=
  ∃ order, Linearizes object history order

/-! ### Rounds -/

def round (writes reads : Nat → List Call) (k : Nat) : List Call := writes k ++ reads k

/-- The rounds before `n`. -/
def rounds (writes reads : Nat → List Call) (n : Nat) : List Call :=
  (List.range n).flatMap (round writes reads)

variable {writes reads : Nat → List Call} {n : Nat}

theorem rounds_succ (writes reads : Nat → List Call) (n : Nat) :
    rounds writes reads (n + 1) = rounds writes reads n ++ round writes reads n := by
  simp [rounds,List.range_succ]

theorem mem_rounds {c : Call} : c ∈ rounds writes reads n ↔ ∃ k < n, c ∈ round writes reads k := by
  simp [rounds]

theorem foldl_quiet {calls : List Call} (quiet : ∀ c ∈ calls, ∀ s, object.next s c = s) (s : State) :
    calls.foldl object.next s = s := by
  induction calls with
  | nil => rfl
  | cons c rest ih =>
    rw [List.foldl_cons,quiet c List.mem_cons_self]
    exact ih fun c inside => quiet c (List.mem_cons_of_mem _ inside)

/-- Reads that change nothing may be left out. -/
theorem after_rounds (quiet : ∀ k, ∀ c ∈ reads k, ∀ s, object.next s c = s) (n : Nat) :
    object.after (rounds writes reads n) = object.after ((List.range n).flatMap writes) := by
  simp only [Object.after]
  induction n with
  | zero => rfl
  | succ n ih =>
    rw [rounds_succ,round,List.foldl_append,List.foldl_append,foldl_quiet (quiet n),ih,List.range_succ,
      List.flatMap_append,List.foldl_append]
    simp

theorem split_append {one two front back : List Call} {c : Call} (split : one ++ two = front ++ c :: back) :
    (∃ later, one = front ++ c :: later) ∨ ∃ before, front = one ++ before ∧ two = before ++ c :: back := by
  rcases List.append_eq_append_iff.mp split with ⟨before,rfl,rest⟩ | ⟨later,rfl,rest⟩
  · exact .inr ⟨before,rfl,rest⟩
  · cases later with
    | nil => exact .inr ⟨[],by simp,by simpa using rest.symm⟩
    | cons d later =>
      obtain ⟨rfl,_⟩ := List.cons.inj rest
      exact .inl ⟨later,rfl⟩

/-- A place in the order is a place in a round. -/
theorem rounds_split {front back : List Call} {c : Call} (split : rounds writes reads n = front ++ c :: back) :
    ∃ k < n, ∃ before later, front = rounds writes reads k ++ before ∧
      round writes reads k = before ++ c :: later := by
  induction n generalizing back with
  | zero => simp [rounds] at split
  | succ n ih =>
    rw [rounds_succ] at split
    rcases split_append split with ⟨later,inside⟩ | ⟨before,eq,inside⟩
    · obtain ⟨k,below,rest⟩ := ih inside
      exact ⟨k,below.trans (Nat.lt_succ_self n),rest⟩
    · exact ⟨n,Nat.lt_succ_self n,before,back,eq,inside⟩

theorem sublist_rounds {i j : Nat} {c d : Call} (ahead : i < j) (below : j < n)
    (first : c ∈ round writes reads i) (second : d ∈ round writes reads j) : [c,d].Sublist (rounds writes reads n) := by
  induction n with
  | zero => omega
  | succ n ih =>
    rw [rounds_succ]
    rcases Nat.lt_succ_iff_lt_or_eq.mp below with before | rfl
    · exact (ih before).trans (List.sublist_append_left _ _)
    · have left : [c].Sublist (rounds writes reads j) := List.singleton_sublist.mpr (mem_rounds.mpr ⟨i,ahead,first⟩)
      exact left.append (List.singleton_sublist.mpr second)

/-- Writes return the same wherever they are taken, reads what the writes up to their round left,
and a call made after another's return is of a later round. -/
theorem linearizes_rounds
    (called : ∀ c ∈ rounds writes reads n, .call c ∈ history)
    (returned : ∀ c value, .ret c value ∈ history → c ∈ rounds writes reads n)
    (once : (rounds writes reads n).Nodup)
    (quiet : ∀ k, ∀ c ∈ reads k, ∀ s, object.next s c = s)
    (blind : ∀ k, ∀ c ∈ writes k, ∀ value, .ret c value ∈ history → ∀ s, object.answer s c = value)
    (current : ∀ k, ∀ c ∈ reads k, ∀ value, .ret c value ∈ history →
      object.answer (object.after ((List.range (k + 1)).flatMap writes)) c = value)
    (ahead : ∀ c d i j, Precedes history c d → c ∈ round writes reads i → d ∈ round writes reads j → i < j) :
    Linearizes object history (rounds writes reads n) where
  called := called
  returned := returned
  once := once
  realTime c d inside precedes := by
    obtain ⟨front,value,back,eq,_⟩ := id precedes
    have answered : .ret c value ∈ history := by
      rw [eq]
      exact List.mem_append_right _ List.mem_cons_self
    obtain ⟨i,_,first⟩ := mem_rounds.mp (returned c value answered)
    obtain ⟨j,below,second⟩ := mem_rounds.mp inside
    exact sublist_rounds (ahead c d i j precedes first second) below first second
  legal front c back value split answered := by
    obtain ⟨k,below,before,later,rfl,inside⟩ := rounds_split split
    rcases split_append inside with ⟨later,writing⟩ | ⟨before,rfl,reading⟩
    · have member : c ∈ writes k := by
        rw [writing]
        exact List.mem_append_right _ List.mem_cons_self
      exact blind k c member value answered _
    · have member : c ∈ reads k := by
        rw [reading]
        exact List.mem_append_right _ List.mem_cons_self
      -- the reads before it in its round change nothing either
      have still : ∀ c ∈ before, ∀ s, object.next s c = s := fun c held =>
        quiet k c (by rw [reading]; exact List.mem_append_left _ held)
      have earlier : object.after (rounds writes reads k) = _ := after_rounds quiet k
      have state : object.after (rounds writes reads k ++ (writes k ++ before)) =
          object.after ((List.range (k + 1)).flatMap writes) := by
        simp only [Object.after] at earlier ⊢
        rw [List.foldl_append,List.foldl_append,foldl_quiet still,earlier,List.range_succ,List.flatMap_append,
          List.foldl_append]
        simp
      rw [state]
      exact current k c member value answered

end KvStorage.Linearizability
