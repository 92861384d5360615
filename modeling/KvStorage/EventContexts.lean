import KvStorage.IOManagerEvents

/-! The vector of descriptor contexts while threads resize it: the size that a thread asks for is
worked out from its descriptor alone, so a late resize can cut off what an earlier one made. -/
namespace KvStorage.IoSystem

variable {s s' : IoSystem}

/-- The vector has not shrunk, and a descriptor that had a context has the same one. -/
structure Keeps (s s' : IoSystem) : Prop where
  size : s.manager.fdContexts.length ≤ s'.manager.fdContexts.length
  context : ∀ (fd c : Nat), s.manager.fdContexts[fd]? = some c → s'.manager.fdContexts[fd]? = some c

theorem Keeps.refl (s : IoSystem) : Keeps s s := ⟨Nat.le_refl _,fun _ _ => id⟩

theorem Keeps.trans {s'' : IoSystem} (first : Keeps s s') (second : Keeps s' s'') : Keeps s s'' :=
  ⟨first.size.trans second.size,fun fd c found => second.context fd c (first.context fd c found)⟩

/-- The index that a thread reads after its resize lies inside the vector. -/
def InRange (s : IoSystem) : IoAction → Prop
  | .resize thread => ∀ call, s.threads thread = .resizing call →
      call.fd < (s.manager.contextResize (call.fd * 3 / 2)).fdContexts.length
  | _ => True

/-- A resize does not ask for less than the vector already has. -/
def Grows (s : IoSystem) : IoAction → Prop
  | .resize thread => ∀ call, s.threads thread = .resizing call → s.manager.fdContexts.length ≤ call.fd * 3 / 2
  | _ => True

theorem contextResize_length (m : IOManager) (size : Nat) : (m.contextResize size).fdContexts.length = size := by
  simp only [IOManager.contextResize,List.length_append,List.length_map,List.length_range,List.length_take]
  omega

theorem contextResize_getElem? (m : IOManager) {size fd c : Nat} (grows : m.fdContexts.length ≤ size)
    (found : m.fdContexts[fd]? = some c) : (m.contextResize size).fdContexts[fd]? = some c := by
  simp only [IOManager.contextResize,List.take_of_length_le grows]
  rw [List.getElem?_append_left (List.getElem?_eq_some_iff.mp found).1]
  exact found

theorem perform_fdContexts {c : Nat} {call : IoCall} {manager : IOManager} (done : s.perform c call = some manager) :
    manager.fdContexts = s.manager.fdContexts := by
  cases call with
  | addEvent fd event cb fiber =>
    obtain ⟨_,rfl⟩ := IOManager.addEvent_ok done
    rfl
  | delEvent fd event =>
    cases done
    unfold IOManager.delEvent
    split <;> rfl
  | cancelEvent fd event =>
    cases done
    unfold IOManager.cancelEvent
    split <;> rfl
  | cancelAll fd =>
    cases done
    unfold IOManager.cancelAll IOManager.triggerIf
    split
    · rfl
    · simp only
      split <;> split <;> rfl

theorem idleEvent_fdContexts (m : IOManager) (c : Nat) (flags : EpollFlags) :
    (m.idleEvent c flags).fdContexts = m.fdContexts := by
  unfold IOManager.idleEvent IOManager.triggerIf
  simp only
  split
  · split <;> split <;> rfl
  · rfl

/-- A thread that is to resize has found its descriptor outside the vector. -/
theorem lookup_resizing {call call' : IoCall} (resizes : s.lookup call = .resizing call') :
    call = call' ∧ s.manager.fdContexts.length ≤ call.fd := by
  unfold lookup at resizes
  split at resizes
  · cases resizes
  · next outside =>
    cases resizes
    exact ⟨rfl,List.getElem?_eq_none_iff.mp outside⟩
  · cases resizes

/-- Every size that is ever asked for covers what the constructor made. -/
structure Sized (s : IoSystem) : Prop where
  size : 32 ≤ s.manager.fdContexts.length
  resizing : ∀ thread call, s.threads thread = .resizing call → 32 ≤ call.fd

theorem start_sized : Sized start where
  size := (contextResize_length _ 32).ge
  resizing := by
    intro thread call resizes
    cases resizes

/-- A thread that goes elsewhere than to a resize. -/
theorem Sized.goto {manager : IOManager} {thread : Nat} {place : IoThread} (sized : Sized s)
    (size : 32 ≤ manager.fdContexts.length) (elsewhere : ∀ call, place = .resizing call → 32 ≤ call.fd) :
    Sized ({ s with manager }.goto thread place) where
  size := size
  resizing := by
    intro other call resizes
    by_cases same : other = thread
    · subst same
      rw [goto_same] at resizes
      exact elsewhere call resizes
    · rw [goto_other _ same] at resizes
      exact sized.resizing other call resizes

/-- Only a resize touches the vector: it keeps it exactly when it asks for at least its size. -/
theorem step_sized {a : IoAction} (sized : Sized s) (taken : step s a = some s') :
    Sized s' ∧ (Keeps s s' ↔ Grows s a) := by
  have kept : s'.manager.fdContexts = s.manager.fdContexts → Keeps s s' := by
    intro same
    constructor
    · rw [same]
    · rw [same]
      exact fun _ _ => id
  cases a with
  | call thread call =>
    simp only [step] at taken
    split at taken
    · obtain rfl := Option.some.inj taken
      refine ⟨sized.goto sized.size fun call' resizes => ?_,iff_of_true (kept rfl) trivial⟩
      obtain ⟨rfl,outside⟩ := lookup_resizing resizes
      exact sized.size.trans outside
    · cases taken
  | resize thread =>
    simp only [step] at taken
    split at taken
    · next call resizes =>
      obtain ⟨c,found,rfl⟩ := Option.map_eq_some_iff.mp taken
      have fd := sized.resizing thread call resizes
      have length := contextResize_length s.manager (call.fd * 3 / 2)
      constructor
      · apply sized.goto
        · omega
        · intro call' elsewhere
          cases elsewhere
      · constructor
        · intro keeps call' resizes'
          obtain rfl := IoThread.resizing.inj (resizes.symm.trans resizes')
          exact keeps.size.trans length.le
        · intro grows
          have larger := grows call resizes
          exact ⟨larger.trans length.ge,fun _ _ found => contextResize_getElem? s.manager larger found⟩
    · cases taken
  | locked thread =>
    simp only [step] at taken
    split at taken
    · next call c at_context =>
      obtain ⟨manager,done,rfl⟩ := Option.map_eq_some_iff.mp taken
      have same := perform_fdContexts done
      constructor
      · apply sized.goto
        · rw [same]
          exact sized.size
        · intro call' elsewhere
          cases elsewhere
      · exact iff_of_true (kept same) trivial
    · cases taken
  | epoll_wait thread events =>
    simp only [step] at taken
    split at taken
    · split at taken
      · obtain rfl := Option.some.inj taken
        refine ⟨sized.goto sized.size fun call' elsewhere => ?_,iff_of_true (kept rfl) trivial⟩
        cases elsewhere
      · cases taken
    · cases taken
  | deliver thread =>
    simp only [step] at taken
    split at taken
    · obtain rfl := Option.some.inj taken
      refine ⟨sized.goto sized.size fun call' elsewhere => ?_,iff_of_true (kept rfl) trivial⟩
      cases elsewhere
    · next c flags rest idling =>
      obtain rfl := Option.some.inj taken
      have same := idleEvent_fdContexts s.manager c flags
      constructor
      · apply sized.goto
        · rw [same]
          exact sized.size
        · intro call' elsewhere
          cases elsewhere
      · exact iff_of_true (kept same) trivial
    · cases taken

theorem Sized.inRange (sized : Sized s) (a : IoAction) : InRange s a := by
  cases a with
  | resize thread =>
    intro call resizes
    have fd := sized.resizing thread call resizes
    rw [contextResize_length]
    omega
  | _ => trivial

/-- Over any run: the vector never shrinks and keeps every context exactly when every resize asks for
at least the size that the vector has by then; no index leaves it in any case. -/
theorem contexts_stable_iff (actions : List IoAction) :
    ((∀ one two rest s s', actions = one ++ (two ++ rest) → Run.run step start one = some s →
        Run.run step s two = some s' → Keeps s s') ↔ Run.Each step Grows start actions) ∧
    Run.Each step InRange start actions := by
  constructor
  · rw [← Run.each_related_iff Keeps Keeps.refl fun _ _ _ => Keeps.trans]
    apply Run.each_iff Sized
    · intro s a next sized taken
      have exactly := (step_sized sized taken).2
      constructor
      · exact fun keeps => exactly.mp (keeps next taken)
      · intro grows next' taken'
        obtain rfl := Option.some.inj (taken.symm.trans taken')
        exact exactly.mpr grows
    · intro s a next sized taken _
      exact (step_sized sized taken).1
    · exact start_sized
  · have always : Run.Each step (fun _ _ => True) start actions := Run.each_true actions
    refine (Run.each_iff Sized ?_ ?_ actions start_sized).mp always
    · intro s a next sized _
      exact iff_of_true trivial (sized.inRange a)
    · intro s a next sized taken _
      exact (step_sized sized taken).1

/-- Two threads find the vector too short; the one with the smaller descriptor resizes last. -/
def lateResize : List IoAction :=
  [.call 0 (.addEvent 100 .READ none 1),.call 1 (.addEvent 40 .READ none 2),.resize 0,.locked 0]

theorem contexts_stable_fails : ¬ ∀ actions, ∀ one two rest s s', actions = one ++ (two ++ rest) →
    Run.run step start one = some s → Run.run step s two = some s' → Keeps s s' := by
  intro law
  have sizes : (Run.run step start lateResize).bind (fun s => (Run.run step s [.resize 1]).map fun s' =>
      (s.manager.fdContexts.length,s'.manager.fdContexts.length)) = some (150,60) := by decide +kernel
  obtain ⟨s,first,rest⟩ := Option.bind_eq_some_iff.mp sizes
  obtain ⟨s',second,lengths⟩ := Option.map_eq_some_iff.mp rest
  obtain ⟨before,after⟩ := Prod.mk.inj lengths
  have shrunk := (law (lateResize ++ ([.resize 1] ++ [])) lateResize [.resize 1] [] s s' rfl first second).size
  omega

end KvStorage.IoSystem
