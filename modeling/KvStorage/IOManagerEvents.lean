import KvStorage.IOManager
import KvStorage.Lib.Tally

/-! The counter of pending events against the events that are registered, and what is scheduled
for a registration. The one step that can break the count is `idle` delivering an old report. -/
namespace KvStorage

namespace FdContext

variable {fdCtx : FdContext} {event other : IoEvent}

theorem register_registered (ctx : EventContext) (free : fdCtx.events event = false) :
    (fdCtx.register event ctx).registered = fdCtx.registered + 1 := by
  cases event with
  | READ =>
    simp only [register,registered,Function.update]
    simp [free]
    omega
  | WRITE =>
    simp only [register,registered,Function.update]
    simp [free]

theorem unregister_registered (held : fdCtx.events event = true) :
    (fdCtx.unregister event).registered + 1 = fdCtx.registered := by
  cases event with
  | READ =>
    simp only [unregister,registered,Function.update]
    simp [held]
    omega
  | WRITE =>
    simp only [unregister,registered,Function.update]
    simp [held]

theorem unregister_events (fdCtx : FdContext) (event other : IoEvent) :
    (fdCtx.unregister event).events other = true ↔ fdCtx.events other = true ∧ other ≠ event := by
  by_cases same : other = event
  · subst same
    simp [unregister]
  · simp [unregister,same]

theorem triggerEvent_free (free : fdCtx.events event = false) : fdCtx.triggerEvent event = (fdCtx,[]) := by
  simp [triggerEvent,free]

theorem triggerEvent_held (held : fdCtx.events event = true) :
    fdCtx.triggerEvent event = (fdCtx.unregister event,
      (fdCtx.context event).task.toList.map fun task => ((fdCtx.context event).registration,task)) := by
  simp [triggerEvent,held]

theorem triggerEvent_context (fdCtx : FdContext) (event : IoEvent) : (fdCtx.triggerEvent event).1 =
    if fdCtx.events event then fdCtx.unregister event else fdCtx := by
  cases held : fdCtx.events event with
  | false => rw [triggerEvent_free held]; rfl
  | true => rw [triggerEvent_held held]; rfl

end FdContext

namespace IOManager

variable {m : IOManager} {c : Nat} {event : IoEvent}

@[simp] theorem setContext_same (fdCtx : FdContext) : (m.setContext c fdCtx).contexts c = fdCtx :=
  Function.update_self ..

theorem setContext_other {d : Nat} (fdCtx : FdContext) (other : d ≠ c) :
    (m.setContext c fdCtx).contexts d = m.contexts d := Function.update_of_ne other ..

@[simp] theorem setContext_allocated (fdCtx : FdContext) : (m.setContext c fdCtx).allocated = m.allocated := rfl

/-- The pairs of a descriptor's context and an event that are registered. -/
def registered (m : IOManager) : Nat := ∑ c ∈ Finset.range m.allocated, (m.contexts c).registered

/-- What the counter has too much. -/
def surplus (m : IOManager) : Int := m.pendingEventCnt - m.registered

theorem setContext_registered (fdCtx : FdContext) (known : c < m.allocated) :
    (m.setContext c fdCtx).registered + (m.contexts c).registered = m.registered + fdCtx.registered :=
  Tally.total_update (Finset.mem_range.mpr known) fdCtx

/-- New contexts add nothing to what is counted over the old ones. -/
theorem contextResize_total {measure : FdContext → Nat} (blank : ∀ fd, measure (.new fd) = 0) (size : Nat) :
    Tally.total measure (Finset.range (m.contextResize size).allocated) (m.contextResize size).contexts =
      Tally.total measure (Finset.range m.allocated) m.contexts := by
  unfold Tally.total contextResize
  simp only [Finset.sum_range_add]
  have old : ∀ d ∈ Finset.range m.allocated, measure (if m.allocated ≤ d ∧
      d < m.allocated + (List.range (size - (m.fdContexts.take size).length)).length
      then FdContext.new ((m.fdContexts.take size).length + (d - m.allocated)) else m.contexts d) =
      measure (m.contexts d) := by
    intro d inside
    have below := Finset.mem_range.mp inside
    rw [if_neg fun beyond => absurd beyond.1 (not_le.mpr below)]
  rw [Finset.sum_congr rfl old]
  apply Nat.add_eq_left.mpr
  apply Finset.sum_eq_zero
  intro d inside
  have below := Finset.mem_range.mp inside
  rw [if_pos ⟨Nat.le_add_right ..,Nat.add_lt_add_left below _⟩]
  exact blank _

theorem contextResize_registered (size : Nat) : (m.contextResize size).registered = m.registered :=
  contextResize_total (fun _ => rfl) size

theorem contextResize_surplus (size : Nat) : (m.contextResize size).surplus = m.surplus := by
  rw [surplus,contextResize_registered]
  rfl

/-! ### The count -/

theorem trigger_context (c : Nat) (event : IoEvent) : (m.trigger c event).contexts c =
    if (m.contexts c).events event then (m.contexts c).unregister event else m.contexts c :=
  (setContext_same _).trans (FdContext.triggerEvent_context _ _)

/-- A decrement for an event that is not registered is one too many. -/
theorem trigger_surplus (known : c < m.allocated) (event : IoEvent) :
    (m.trigger c event).surplus = m.surplus - if (m.contexts c).events event then 0 else 1 := by
  have counted : (m.trigger c event).registered + (m.contexts c).registered = _ :=
    setContext_registered (((m.contexts c).triggerEvent event).1) known
  rw [FdContext.triggerEvent_context] at counted
  have pending : (m.trigger c event).pendingEventCnt = m.pendingEventCnt - 1 := rfl
  unfold surplus
  rw [pending]
  split at counted
  · next held =>
    have gone := FdContext.unregister_registered held
    rw [if_pos held]
    omega
  · next free =>
    rw [if_neg free]
    omega

theorem trigger_events {other : IoEvent} (apart : other ≠ event) :
    ((m.trigger c event).contexts c).events other = (m.contexts c).events other := by
  rw [trigger_context]
  split
  · simp [FdContext.unregister,apart]
  · rfl

theorem triggerIf_surplus (known : c < m.allocated) (condition : Bool) (event : IoEvent) :
    (m.triggerIf condition c event).surplus =
      m.surplus - if condition && !(m.contexts c).events event then 1 else 0 := by
  cases condition with
  | false => simp [triggerIf]
  | true =>
    simp only [triggerIf,if_true,trigger_surplus known]
    cases (m.contexts c).events event <;> rfl

theorem triggerIf_allocated (condition : Bool) (c : Nat) (event : IoEvent) :
    (m.triggerIf condition c event).allocated = m.allocated := by
  cases condition <;> rfl

theorem triggerIf_events {other : IoEvent} (condition : Bool) (apart : other ≠ event) :
    ((m.triggerIf condition c event).contexts c).events other = (m.contexts c).events other := by
  cases condition with
  | false => rfl
  | true => exact trigger_events apart

/-- The second event of a context is not touched by the first one's trigger. -/
theorem triggers_surplus (known : c < m.allocated) (read write : Bool) :
    ((m.triggerIf read c .READ).triggerIf write c .WRITE).surplus = m.surplus -
      (if read && !(m.contexts c).events .READ then 1 else 0) -
      if write && !(m.contexts c).events .WRITE then 1 else 0 := by
  have known' : c < (m.triggerIf read c .READ).allocated := by
    rw [triggerIf_allocated]
    exact known
  rw [triggerIf_surplus known',triggerIf_surplus known,triggerIf_events read (by decide)]

theorem addEvent_ok {m' : IOManager} {cb : Option Nat} {fiber : Nat} (done : m.addEvent c event cb fiber = some m') :
    (m.contexts c).events event = false ∧
    m' = { m.setContext c ((m.contexts c).register event
        (((m.contexts c).context event).fill cb fiber m.registrations.length)) with
      pendingEventCnt := m.pendingEventCnt + 1
      registrations := m.registrations ++ [.given cb fiber] } := by
  unfold addEvent at done
  split at done
  · cases done
  · next free => exact ⟨Bool.not_eq_true _ ▸ free,(Option.some.inj done).symm⟩

theorem addEvent_surplus {m' : IOManager} (known : c < m.allocated) {cb : Option Nat} {fiber : Nat}
    (done : m.addEvent c event cb fiber = some m') : m'.surplus = m.surplus := by
  obtain ⟨free,rfl⟩ := addEvent_ok done
  have counted := setContext_registered ((m.contexts c).register event
    (((m.contexts c).context event).fill cb fiber m.registrations.length)) known
  rw [FdContext.register_registered _ free] at counted
  change m.pendingEventCnt + 1 - ((m.setContext c _).registered : Int) = m.pendingEventCnt - m.registered
  omega

theorem delEvent_surplus (known : c < m.allocated) (event : IoEvent) :
    (m.delEvent c event).1.surplus = m.surplus := by
  unfold delEvent
  split
  · rfl
  · next held =>
    have counted := setContext_registered ((m.contexts c).unregister event) known
    have gone := FdContext.unregister_registered (not_not.mp held)
    change m.pendingEventCnt - 1 - ((m.setContext c _).registered : Int) = m.pendingEventCnt - m.registered
    omega

theorem cancelEvent_surplus (known : c < m.allocated) (event : IoEvent) :
    (m.cancelEvent c event).1.surplus = m.surplus := by
  unfold cancelEvent
  split
  · rfl
  · next held => rw [trigger_surplus known,if_pos (not_not.mp held),sub_zero]

theorem cancelAll_surplus (known : c < m.allocated) : (m.cancelAll c).1.surplus = m.surplus := by
  unfold cancelAll
  split
  · rfl
  · change ((m.triggerIf ((m.contexts c).events .READ) c .READ).triggerIf
      (((m.triggerIf ((m.contexts c).events .READ) c .READ).contexts c).events .WRITE) c .WRITE).surplus = _
    rw [triggerIf_events _ (show IoEvent.WRITE ≠ .READ by decide),triggers_surplus known]
    simp

/-- The real events of a report are all registered, or none of them is. -/
def Covered (fdCtx : FdContext) (flags : EpollFlags) : Prop :=
  (∀ event, fdCtx.realEvents flags event = true → fdCtx.events event = true) ∨
  ∀ event, fdCtx.realEvents flags event = true → fdCtx.events event = false

theorem covered_iff (fdCtx : FdContext) (flags : EpollFlags) : Covered fdCtx flags ↔
    ((fdCtx.realEvents flags .READ → fdCtx.events .READ) ∧ (fdCtx.realEvents flags .WRITE → fdCtx.events .WRITE)) ∨
    ((fdCtx.realEvents flags .READ → fdCtx.events .READ = false) ∧
      (fdCtx.realEvents flags .WRITE → fdCtx.events .WRITE = false)) := by
  have both : ∀ holds : IoEvent → Prop, (∀ event, holds event) ↔ holds .READ ∧ holds .WRITE := fun holds =>
    ⟨fun all => ⟨all .READ,all .WRITE⟩,fun two event => by cases event <;> [exact two.1; exact two.2]⟩
  rw [Covered,both,both]

instance (fdCtx : FdContext) (flags : EpollFlags) : Decidable (Covered fdCtx flags) :=
  decidable_of_iff _ (covered_iff fdCtx flags).symm

/-- Delivering a report keeps the count exactly when the report is covered. -/
theorem idleEvent_surplus_iff (known : c < m.allocated) (flags : EpollFlags) :
    (m.idleEvent c flags).surplus = m.surplus ↔ Covered (m.contexts c) flags := by
  rw [covered_iff]
  simp only [idleEvent]
  split
  · next meets =>
    rw [triggers_surplus known]
    revert meets
    cases (m.contexts c).realEvents flags .READ <;> cases (m.contexts c).realEvents flags .WRITE <;>
      cases (m.contexts c).events .READ <;> cases (m.contexts c).events .WRITE <;> simp
  · next apart =>
    revert apart
    cases (m.contexts c).realEvents flags .READ <;> cases (m.contexts c).realEvents flags .WRITE <;>
      cases (m.contexts c).events .READ <;> cases (m.contexts c).events .WRITE <;> simp

/-! ### What is scheduled -/

/-- Registered events have registrations of their own, none of them scheduled yet. -/
structure Sound (m : IOManager) : Prop where
  known : ∀ c event, (m.contexts c).events event = true → c < m.allocated
  issued : ∀ c event, (m.contexts c).events event = true →
    ((m.contexts c).context event).registration < m.registrations.length
  own : ∀ c event, (m.contexts c).events event = true →
    m.registrations[((m.contexts c).context event).registration]? = ((m.contexts c).context event).task
  waits : ∀ c event, (m.contexts c).events event = true →
    ((m.contexts c).context event).registration ∉ m.scheduled.map Prod.fst
  apart : ∀ c event d other, (m.contexts c).events event = true → (m.contexts d).events other = true →
    ((m.contexts c).context event).registration = ((m.contexts d).context other).registration → c = d ∧ event = other
  blank : ∀ c event, (m.contexts c).events event = false →
    ((m.contexts c).context event).fiber = none ∧ ((m.contexts c).context event).cb = none
  once : (m.scheduled.map Prod.fst).Nodup
  task : ∀ e ∈ m.scheduled, m.registrations[e.1]? = some e.2
  vector : ∀ c ∈ m.fdContexts, c < m.allocated

theorem Sound.count (sound : Sound m) (pendingEventCnt : Int) : Sound { m with pendingEventCnt } :=
  ⟨sound.known,sound.issued,sound.own,sound.waits,sound.apart,sound.blank,sound.once,sound.task,sound.vector⟩

/-- Contexts after one event of one of them has been cleared. -/
theorem unregister_held {d : Nat} {other : IoEvent}
    (held : ((m.setContext c ((m.contexts c).unregister event)).contexts d).events other = true) :
    (m.contexts d).events other = true ∧ (d ≠ c ∨ other ≠ event) ∧
    ((m.setContext c ((m.contexts c).unregister event)).contexts d).context other = (m.contexts d).context other := by
  by_cases same : d = c
  · subst same
    rw [setContext_same] at held ⊢
    obtain ⟨before,other⟩ := (FdContext.unregister_events ..).mp held
    refine ⟨before,.inr other,?_⟩
    exact Function.update_of_ne other ..
  · rw [setContext_other _ same] at held ⊢
    exact ⟨held,.inl same,rfl⟩

theorem Sound.unregister (sound : Sound m) (c : Nat) (event : IoEvent) :
    Sound (m.setContext c ((m.contexts c).unregister event)) where
  known := by
    intro d other held
    exact sound.known d other (unregister_held held).1
  issued := by
    intro d other held
    obtain ⟨before,_,same⟩ := unregister_held held
    rw [same]
    exact sound.issued d other before
  own := by
    intro d other held
    obtain ⟨before,_,same⟩ := unregister_held held
    rw [same]
    exact sound.own d other before
  waits := by
    intro d other held
    obtain ⟨before,_,same⟩ := unregister_held held
    rw [same]
    exact sound.waits d other before
  apart := by
    intro d one e two first second equal
    obtain ⟨first,_,same⟩ := unregister_held first
    obtain ⟨second,_,same'⟩ := unregister_held second
    rw [same,same'] at equal
    exact sound.apart d one e two first second equal
  blank := by
    intro d other free
    by_cases same : d = c
    · subst same
      rw [setContext_same] at free ⊢
      by_cases equal : other = event
      · subst equal
        simp [FdContext.unregister,EventContext.resetContext]
      · simp only [FdContext.unregister,Function.update_of_ne equal] at free ⊢
        exact sound.blank d other free
    · rw [setContext_other _ same] at free ⊢
      exact sound.blank d other free
  once := sound.once
  task := sound.task
  vector := sound.vector

/-- The cleared event's registration is no longer among the registered ones. -/
theorem Sound.cleared (sound : Sound m) (held : (m.contexts c).events event = true) {d : Nat} {other : IoEvent}
    (still : ((m.setContext c ((m.contexts c).unregister event)).contexts d).events other = true) :
    (((m.setContext c ((m.contexts c).unregister event)).contexts d).context other).registration ≠
      ((m.contexts c).context event).registration := by
  obtain ⟨before,different,same⟩ := unregister_held still
  rw [same]
  intro equal
  obtain ⟨rfl,rfl⟩ := sound.apart _ _ _ _ before held equal
  rcases different with other | other
  · exact other rfl
  · exact other rfl

theorem Sound.schedule (sound : Sound m) (entry : Nat × IoTask)
    (gone : ∀ c event, (m.contexts c).events event = true → ((m.contexts c).context event).registration ≠ entry.1)
    (unused : entry.1 ∉ m.scheduled.map Prod.fst) (task : m.registrations[entry.1]? = some entry.2) :
    Sound { m with scheduled := m.scheduled ++ [entry] } where
  known := sound.known
  issued := sound.issued
  own := sound.own
  waits := by
    intro c event held
    simp only [List.map_append,List.mem_append,not_or]
    refine ⟨sound.waits c event held,?_⟩
    simpa using gone c event held
  apart := sound.apart
  blank := sound.blank
  once := by
    simp only [List.map_append]
    apply sound.once.append (by simp)
    simpa using unused
  task := by
    intro e there
    rcases List.mem_append.mp there with before | last
    · exact sound.task e before
    · obtain rfl := List.mem_singleton.mp last
      exact task
  vector := sound.vector

theorem trigger_free (free : (m.contexts c).events event = false) :
    m.trigger c event = { m with pendingEventCnt := m.pendingEventCnt - 1 } := by
  have same : m.setContext c (m.contexts c) = m := by
    simp [setContext]
  unfold trigger
  rw [FdContext.triggerEvent_free free,same,List.append_nil]

theorem trigger_held (held : (m.contexts c).events event = true) :
    m.trigger c event = { m.setContext c ((m.contexts c).unregister event) with
      pendingEventCnt := m.pendingEventCnt - 1
      scheduled := m.scheduled ++ ((m.contexts c).context event).task.toList.map fun task =>
        (((m.contexts c).context event).registration,task) } := by
  unfold trigger
  rw [FdContext.triggerEvent_held held]

theorem Sound.trigger (sound : Sound m) (c : Nat) (event : IoEvent) : Sound (m.trigger c event) := by
  cases held : (m.contexts c).events event with
  | false =>
    rw [trigger_free held]
    exact sound.count _
  | true =>
    have cleared := sound.unregister c event
    have own := sound.own c event held
    rw [trigger_held held]
    cases task : ((m.contexts c).context event).task with
    | none =>
      simp only [Option.toList_none,List.map_nil,List.append_nil]
      exact cleared.count _
    | some registered =>
      rw [task] at own
      have scheduled := cleared.schedule (((m.contexts c).context event).registration,registered)
        (fun _ _ still => sound.cleared held still) (sound.waits c event held) own
      exact scheduled.count _

theorem Sound.triggerIf (sound : Sound m) (condition : Bool) (c : Nat) (event : IoEvent) :
    Sound (m.triggerIf condition c event) := by
  cases condition with
  | false => exact sound
  | true => exact sound.trigger c event

theorem task_fill {ctx : EventContext} (blank : ctx.fiber = none ∧ ctx.cb = none) (cb : Option Nat)
    (fiber registration : Nat) :
    (ctx.fill cb fiber registration).task = some (.given cb fiber) ∧
    (ctx.fill cb fiber registration).registration = registration := by
  cases cb with
  | none => simp [EventContext.fill,EventContext.task,IoTask.given,blank.2]
  | some cb => simp [EventContext.fill,EventContext.task,IoTask.given]

/-- An event after a registration is the new one, or was registered before. -/
theorem register_held {ctx : EventContext} {d : Nat} {other : IoEvent}
    (held : ((m.setContext c ((m.contexts c).register event ctx)).contexts d).events other = true) :
    (d = c ∧ other = event ∧ ((m.setContext c ((m.contexts c).register event ctx)).contexts d).context other = ctx) ∨
    (m.contexts d).events other = true ∧
    ((m.setContext c ((m.contexts c).register event ctx)).contexts d).context other = (m.contexts d).context other := by
  by_cases same : d = c
  · subst same
    rw [setContext_same] at held ⊢
    by_cases equal : other = event
    · subst equal
      exact .inl ⟨rfl,rfl,Function.update_self ..⟩
    · simp only [FdContext.register,Function.update_of_ne equal] at held ⊢
      exact .inr ⟨held,trivial⟩
  · rw [setContext_other _ same] at held ⊢
    exact .inr ⟨held,rfl⟩

theorem Sound.issue (sound : Sound m) (task : IoTask) :
    Sound { m with registrations := m.registrations ++ [task] } where
  known := sound.known
  issued := by
    intro c event held
    have := sound.issued c event held
    rw [List.length_append,List.length_singleton]
    exact Nat.lt_succ_of_lt this
  own := by
    intro c event held
    rw [List.getElem?_append_left (sound.issued c event held)]
    exact sound.own c event held
  waits := sound.waits
  apart := sound.apart
  blank := sound.blank
  once := sound.once
  task := by
    intro e there
    have taken := sound.task e there
    rw [List.getElem?_append_left (List.getElem?_eq_some_iff.mp taken).1]
    exact taken
  vector := sound.vector

/-- An event registered under a number that was issued and is not used yet. -/
theorem Sound.register (sound : Sound m) (known : c < m.allocated) (event : IoEvent) (ctx : EventContext)
    (issued : ctx.registration < m.registrations.length) (own : m.registrations[ctx.registration]? = ctx.task)
    (waits : ctx.registration ∉ m.scheduled.map Prod.fst)
    (fresh : ∀ d other, (m.contexts d).events other = true →
      ((m.contexts d).context other).registration ≠ ctx.registration) :
    Sound (m.setContext c ((m.contexts c).register event ctx)) where
  known := by
    intro d other held
    rcases register_held held with ⟨rfl,_⟩ | ⟨before,_⟩
    · exact known
    · exact sound.known d other before
  issued := by
    intro d other held
    rcases register_held held with ⟨_,_,same⟩ | ⟨before,same⟩
    · rw [same]
      exact issued
    · rw [same]
      exact sound.issued d other before
  own := by
    intro d other held
    rcases register_held held with ⟨_,_,same⟩ | ⟨before,same⟩
    · rw [same]
      exact own
    · rw [same]
      exact sound.own d other before
  waits := by
    intro d other held
    rcases register_held held with ⟨_,_,same⟩ | ⟨before,same⟩
    · rw [same]
      exact waits
    · rw [same]
      exact sound.waits d other before
  apart := by
    intro d one e two first second equal
    rcases register_held first with ⟨rfl,rfl,same⟩ | ⟨before,same⟩
    all_goals
      rw [same] at equal
      rcases register_held second with ⟨rfl,rfl,same'⟩ | ⟨earlier,same'⟩
      all_goals rw [same'] at equal
    · exact ⟨rfl,rfl⟩
    · exact absurd equal.symm (fresh _ _ earlier)
    · exact absurd equal (fresh _ _ before)
    · exact sound.apart d one e two before earlier equal
  blank := by
    intro d other free
    by_cases same : d = c
    · subst same
      rw [setContext_same] at free ⊢
      by_cases equal : other = event
      · subst equal
        simp [FdContext.register] at free
      · simp only [FdContext.register,Function.update_of_ne equal] at free ⊢
        exact sound.blank d other free
    · rw [setContext_other _ same] at free ⊢
      exact sound.blank d other free
  once := sound.once
  task := sound.task
  vector := sound.vector

theorem Sound.addEvent {m' : IOManager} (sound : Sound m) (known : c < m.allocated) {cb : Option Nat} {fiber : Nat}
    (done : m.addEvent c event cb fiber = some m') : Sound m' := by
  obtain ⟨free,rfl⟩ := addEvent_ok done
  obtain ⟨task,registration⟩ := task_fill (sound.blank c event free) cb fiber m.registrations.length
  have issued := sound.issue (.given cb fiber)
  have registered := issued.register known event (((m.contexts c).context event).fill cb fiber m.registrations.length)
  simp only [task,registration] at registered
  have added := registered (by simp) (by simp) ?_ ?_
  · exact added.count _
  · intro there
    obtain ⟨e,inside,equal⟩ := List.mem_map.mp there
    have taken := sound.task e inside
    rw [equal,List.getElem?_eq_none (Nat.le_refl _)] at taken
    cases taken
  · intro d other held
    exact (sound.issued d other held).ne

theorem Sound.delEvent (sound : Sound m) (c : Nat) (event : IoEvent) : Sound (m.delEvent c event).1 := by
  unfold IOManager.delEvent
  split
  · exact sound
  · exact (sound.unregister c event).count _

theorem Sound.cancelEvent (sound : Sound m) (c : Nat) (event : IoEvent) : Sound (m.cancelEvent c event).1 := by
  unfold IOManager.cancelEvent
  split
  · exact sound
  · exact sound.trigger c event

theorem Sound.cancelAll (sound : Sound m) (c : Nat) : Sound (m.cancelAll c).1 := by
  unfold IOManager.cancelAll
  split
  · exact sound
  · exact (sound.triggerIf _ c .READ).triggerIf _ c .WRITE

theorem Sound.idleEvent (sound : Sound m) (c : Nat) (flags : EpollFlags) : Sound (m.idleEvent c flags) := by
  simp only [IOManager.idleEvent]
  split
  · exact (sound.triggerIf _ c .READ).triggerIf _ c .WRITE
  · exact sound

theorem contextResize_context (size c : Nat) : (m.contextResize size).contexts c = m.contexts c ∨
    ∃ fd, (m.contextResize size).contexts c = .new fd := by
  simp only [contextResize]
  split
  · exact .inr ⟨_,rfl⟩
  · exact .inl rfl

theorem contextResize_held {size c : Nat} {event : IoEvent}
    (held : ((m.contextResize size).contexts c).events event = true) :
    (m.contextResize size).contexts c = m.contexts c := by
  rcases contextResize_context size c with same | ⟨fd,fresh⟩
  · exact same
  · rw [fresh] at held
    cases held

theorem Sound.contextResize (sound : Sound m) (size : Nat) : Sound (m.contextResize size) where
  known := by
    intro c event held
    rw [contextResize_held held] at held
    exact Nat.lt_add_right _ (sound.known c event held)
  issued := by
    intro c event held
    have same := contextResize_held held
    rw [same] at held ⊢
    exact sound.issued c event held
  own := by
    intro c event held
    have same := contextResize_held held
    rw [same] at held ⊢
    exact sound.own c event held
  waits := by
    intro c event held
    have same := contextResize_held held
    rw [same] at held ⊢
    exact sound.waits c event held
  apart := by
    intro c event d other first second
    have one := contextResize_held first
    have two := contextResize_held second
    rw [one] at first ⊢
    rw [two] at second ⊢
    exact sound.apart c event d other first second
  blank := by
    intro c event free
    rcases contextResize_context size c with same | ⟨fd,fresh⟩
    · rw [same] at free ⊢
      exact sound.blank c event free
    · rw [fresh]
      exact ⟨rfl,rfl⟩
  once := sound.once
  task := sound.task
  vector := by
    intro c there
    rcases List.mem_append.mp there with kept | made
    · exact Nat.lt_add_right _ (sound.vector c (List.mem_of_mem_take kept))
    · obtain ⟨i,inside,rfl⟩ := List.mem_map.mp made
      exact Nat.add_lt_add_left (List.mem_range.mp inside |>.trans_eq List.length_range.symm) _

theorem new_sound : Sound .new := by
  apply Sound.contextResize
  constructor <;> simp [FdContext.new]

/-- The counter is the number of registered events, so it never wraps; each registration is
scheduled at most once, with its own callback or fiber. -/
structure Accounted (m : IOManager) : Prop where
  count : m.pendingEventCnt = m.registered
  nonneg : 0 ≤ m.pendingEventCnt
  once : (m.scheduled.map Prod.fst).Nodup
  own : ∀ e ∈ m.scheduled, m.registrations[e.1]? = some e.2

theorem Sound.accounted_iff (sound : Sound m) : Accounted m ↔ m.surplus = 0 := by
  unfold surplus
  constructor
  · intro accounted
    have := accounted.count
    omega
  · intro zero
    exact ⟨by omega,by omega,sound.once,sound.task⟩

end IOManager

/-! ### Threads -/

/-- The contexts that a thread points to. -/
def IoThread.pointers : IoThread → List Nat
  | .resolved _ c => [c]
  | .idling events => events.map Prod.fst
  | _ => []

namespace IoSystem

open IOManager

variable {s s' : IoSystem} {thread : Nat}

structure Placed (s : IoSystem) : Prop where
  sound : s.manager.Sound
  pointers : ∀ thread, ∀ c ∈ (s.threads thread).pointers, c < s.manager.allocated

theorem start_placed : Placed start := ⟨new_sound,by simp [start,IoThread.pointers]⟩

@[simp] theorem goto_same (place : IoThread) : (s.goto thread place).threads thread = place :=
  Function.update_self ..

theorem goto_other {other : Nat} (place : IoThread) (apart : other ≠ thread) :
    (s.goto thread place).threads other = s.threads other := Function.update_of_ne apart ..

/-- One thread goes on, with a manager that keeps the contexts it had. -/
theorem Placed.goto {manager : IOManager} {place : IoThread} (placed : Placed s) (sound : manager.Sound)
    (grown : s.manager.allocated ≤ manager.allocated) (new : ∀ c ∈ place.pointers, c < manager.allocated) :
    Placed ({ s with manager }.goto thread place) := by
  refine ⟨sound,fun other c there => ?_⟩
  by_cases same : other = thread
  · subst same
    rw [goto_same] at there
    exact new c there
  · rw [goto_other _ same] at there
    exact Nat.lt_of_lt_of_le (placed.pointers other c there) grown

theorem lookup_pointers (placed : Placed s) (call : IoCall) : ∀ c ∈ (s.lookup call).pointers, c < s.manager.allocated := by
  intro c there
  unfold lookup at there
  split at there
  · next found =>
    obtain rfl := List.mem_singleton.mp there
    exact placed.sound.vector c (List.mem_of_getElem? found)
  all_goals cases there

/-- The part of a call under the mutex keeps the manager sound and the surplus as it was. -/
theorem perform_ok {c : Nat} {call : IoCall} {manager : IOManager} (sound : s.manager.Sound)
    (known : c < s.manager.allocated) (done : s.perform c call = some manager) :
    manager.Sound ∧ manager.surplus = s.manager.surplus ∧ manager.allocated = s.manager.allocated := by
  cases call with
  | addEvent fd event cb fiber =>
    obtain ⟨_,same⟩ := addEvent_ok done
    exact ⟨sound.addEvent known done,addEvent_surplus known done,by rw [same]; rfl⟩
  | delEvent fd event =>
    cases done
    refine ⟨sound.delEvent c event,delEvent_surplus known event,?_⟩
    unfold IOManager.delEvent
    split <;> rfl
  | cancelEvent fd event =>
    cases done
    refine ⟨sound.cancelEvent c event,cancelEvent_surplus known event,?_⟩
    unfold IOManager.cancelEvent
    split <;> rfl
  | cancelAll fd =>
    cases done
    refine ⟨sound.cancelAll c,cancelAll_surplus known,?_⟩
    unfold IOManager.cancelAll
    split
    · rfl
    · exact (triggerIf_allocated ..).trans (triggerIf_allocated ..)

/-- A report being delivered is covered by what is registered now. -/
def CoveredReport (s : IoSystem) : IoAction → Prop
  | .deliver thread => ∀ c flags rest, s.threads thread = .idling ((c,flags) :: rest) → Covered (s.manager.contexts c) flags
  | _ => True

/-- A report is covered as long as nobody changed the context since `epoll_wait`. -/
theorem Reported.covered {events : List (Nat × EpollFlags)} (reported : s.Reported events) {c : Nat}
    {flags : EpollFlags} (there : (c,flags) ∈ events) : Covered (s.manager.contexts c) flags := by
  obtain ⟨_,read,write⟩ := reported _ there
  left
  intro event real
  cases event with
  | READ =>
    simp only [FdContext.realEvents] at real
    split at real
    · exact real
    · exact read real
  | WRITE =>
    simp only [FdContext.realEvents] at real
    split at real
    · exact real
    · exact write real

/-- A step keeps the surplus, except where it delivers a report that is not covered. -/
theorem step_ok {a : IoAction} (placed : Placed s) (taken : step s a = some s') :
    Placed s' ∧ (s'.manager.surplus = s.manager.surplus ↔ CoveredReport s a) := by
  cases a with
  | call thread call =>
    simp only [step] at taken
    split at taken
    · obtain rfl := Option.some.inj taken
      exact ⟨placed.goto placed.sound (Nat.le_refl _) (lookup_pointers placed call),iff_of_true rfl trivial⟩
    · cases taken
  | resize thread =>
    simp only [step] at taken
    split at taken
    · next call at_resize =>
      obtain ⟨c,found,rfl⟩ := Option.map_eq_some_iff.mp taken
      have sound := placed.sound.contextResize (call.fd * 3 / 2)
      refine ⟨placed.goto sound (Nat.le_add_right ..) fun d there => ?_,iff_of_true (contextResize_surplus _) trivial⟩
      obtain rfl := List.mem_singleton.mp there
      exact sound.vector d (List.mem_of_getElem? found)
    · cases taken
  | locked thread =>
    simp only [step] at taken
    split at taken
    · next call c at_context =>
      obtain ⟨manager,done,rfl⟩ := Option.map_eq_some_iff.mp taken
      have known : c < s.manager.allocated :=
        placed.pointers thread c (at_context ▸ List.mem_singleton_self c)
      obtain ⟨sound,surplus,allocated⟩ := perform_ok placed.sound known done
      refine ⟨placed.goto sound allocated.ge fun d there => ?_,iff_of_true surplus trivial⟩
      cases there
    · cases taken
  | epoll_wait thread events =>
    simp only [step] at taken
    split at taken
    · split at taken
      · next reported =>
        obtain rfl := Option.some.inj taken
        refine ⟨placed.goto placed.sound (Nat.le_refl _) fun d there => ?_,iff_of_true rfl trivial⟩
        obtain ⟨e,inside,rfl⟩ := List.mem_map.mp there
        exact (reported e inside).1
      · cases taken
    · cases taken
  | deliver thread =>
    simp only [step] at taken
    split at taken
    · next done =>
      obtain rfl := Option.some.inj taken
      refine ⟨placed.goto placed.sound (Nat.le_refl _) fun d there => ?_,iff_of_true rfl ?_⟩
      · cases there
      · intro c flags rest more
        rw [done] at more
        cases more
    · next c flags rest idling =>
      obtain rfl := Option.some.inj taken
      have inside : ∀ d ∈ ((c,flags) :: rest).map Prod.fst, d < s.manager.allocated := by
        intro d there
        apply placed.pointers thread
        rw [idling]
        exact there
      have known := inside c List.mem_cons_self
      have allocated : (s.manager.idleEvent c flags).allocated = s.manager.allocated := by
        simp only [IOManager.idleEvent]
        split
        · exact (triggerIf_allocated ..).trans (triggerIf_allocated ..)
        · rfl
      constructor
      · apply placed.goto (placed.sound.idleEvent c flags) allocated.ge
        intro d there
        rw [allocated]
        exact inside d (List.mem_cons_of_mem _ there)
      · apply (idleEvent_surplus_iff known flags).trans
        constructor
        · intro covered d flags' rest' here
          rw [idling] at here
          cases here
          exact covered
        · intro covered
          exact covered c flags rest idling
    · cases taken

theorem reach_placed (reach : Run.Reach step Run.always start s) : Placed s :=
  reach.invariant Placed start_placed fun _ _ _ _ placed _ taken => (step_ok placed taken).1

/-- Over any run the counter is the number of registered events exactly when every report delivered
is covered when it is; each registration is scheduled at most once in any case. -/
theorem pending_events (actions : List IoAction) :
    (Run.Each step (fun s a => ∀ next, step s a = some next → Accounted next.manager) start actions ↔
      Run.Each step CoveredReport start actions) ∧
    ∀ s, Run.run step start actions = some s → (s.manager.scheduled.map Prod.fst).Nodup ∧
      ∀ e ∈ s.manager.scheduled, s.manager.registrations[e.1]? = some e.2 := by
  constructor
  · apply Run.each_iff fun s => Placed s ∧ s.manager.surplus = 0
    · rintro s a next ⟨placed,zero⟩ taken
      obtain ⟨placed',kept⟩ := step_ok placed taken
      constructor
      · intro accounted
        apply kept.mp
        rw [zero]
        exact placed'.sound.accounted_iff.mp (accounted next taken)
      · intro covered next' taken'
        obtain rfl := Option.some.inj (taken.symm.trans taken')
        exact placed'.sound.accounted_iff.mpr ((kept.mpr covered).trans zero)
    · rintro s a next ⟨placed,_⟩ taken accounted
      have placed' := (step_ok placed taken).1
      exact ⟨placed',placed'.sound.accounted_iff.mp (accounted next taken)⟩
    · exact ⟨start_placed,(contextResize_surplus 32).trans rfl⟩
  · intro s ran
    have placed := reach_placed (Run.reach_of_run actions ran)
    exact ⟨placed.sound.once,placed.sound.task⟩

/-- Both directions of descriptor 5 are ready, and the write is cancelled before the report is delivered. -/
def cancelledBetween : List IoAction :=
  [.call 0 (.addEvent 5 .READ none 1),.locked 0,.call 0 (.addEvent 5 .WRITE none 2),.locked 0,
    .epoll_wait 1 [(5,{ epollin := true, epollout := true })],.call 0 (.cancelEvent 5 .WRITE),.locked 0,.deliver 1]

theorem cancelledBetween_count : (Run.run step start cancelledBetween).map
    (fun s => (s.manager.pendingEventCnt,s.manager.registered)) = some (-1,0) := by
  decide +kernel

theorem pending_events_fails : ¬ ∀ s, Run.Reach step Run.always start s → Accounted s.manager := by
  intro law
  obtain ⟨s,ran,final⟩ := Option.map_eq_some_iff.mp cancelledBetween_count
  have accounted := law s (Run.reach_of_run cancelledBetween ran)
  have nonneg := accounted.nonneg
  rw [(Prod.mk.inj final).1] at nonneg
  omega

end IoSystem
end KvStorage
