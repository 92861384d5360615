import KvStorage.AcknowledgedRequests

/-! The table of the last request ids under all its writers. The apply loop checks before it
writes; the tail of `getImpl` and the load of a snapshot do not, and may find a newer id there. -/
namespace KvStorage.Requests

/-- No recorded id is above what the step writes in its place. -/
def InTime (s : Server) : Action → Prop
  | .execGetOpOnKVDB i => ∀ h ∈ s.handlers[i]?, ∀ last ∈ s.kv.lastRequestIdMap h.op.ClientId, last ≤ h.op.RequestId
  | .getSnapshotFromRaft other => ∀ client, ∀ last ∈ s.kv.lastRequestIdMap client,
      ∃ theirs ∈ other.kv.lastRequestIdMap client, last ≤ theirs
  | _ => True

/-- No id of `s` is lost or lowered in `s'`. -/
def TableLe (s s' : Server) : Prop :=
  ∀ client, ∀ last ∈ s.kv.lastRequestIdMap client, ∃ next ∈ s'.kv.lastRequestIdMap client, last ≤ next

/-- No two of the executed Puts and Appends are copies of one request. -/
def ExecutedOnce (s : Server) : Prop := s.executed.Pairwise fun op later => ¬ op.SameRequest later

variable {entries : List Op} {s s' t : Server} {op : Op}

theorem TableLe.refl (s : Server) : TableLe s s := fun _ last held => ⟨last,held,le_rfl⟩

theorem TableLe.trans (one : TableLe s t) (two : TableLe t s') : TableLe s s' := by
  intro client last held
  obtain ⟨middle,there,le⟩ := one client last held
  obtain ⟨next,held',le'⟩ := two client middle there
  exact ⟨next,held',le.trans le'⟩

theorem TableLe.of_eq (same : s'.kv.lastRequestIdMap = s.kv.lastRequestIdMap) : TableLe s s' :=
  fun _ last held => ⟨last,same ▸ held,le_rfl⟩

/-- A write of one client's id keeps the order if it does not lower it. -/
theorem TableLe.of_update {client : String} {id : Int}
    (writes : s'.kv.lastRequestIdMap = Function.update s.kv.lastRequestIdMap client (some id))
    (above : ∀ last ∈ s.kv.lastRequestIdMap client, last ≤ id) : TableLe s s' := by
  intro other last held
  rw [writes]
  by_cases own : other = client
  · subst own
    exact ⟨id,by simp,above last held⟩
  · exact ⟨last,by simpa [own] using held,le_rfl⟩

theorem TableLe.duplicate (le : TableLe s s') (duplicate : s.kv.machine.Duplicate op) :
    s'.kv.machine.Duplicate op := by
  obtain ⟨last,held,covers⟩ := duplicate
  obtain ⟨next,there,above⟩ := le op.ClientId last held
  exact ⟨next,there,covers.trans above⟩

/-- While the table never goes back, every covered Put or Append is a duplicate. -/
structure Timely (entries : List Op) (s : Server) : Prop where
  inv : Inv entries s
  duplicate : ∀ op ∈ entries.take s.covered, op.Mutates → s.kv.machine.Duplicate op
  checked : ∀ op, s.applying = .checked op false → op.Mutates → op ∉ entries.take s.covered
  executed : ∀ op ∈ s.executed, op ∈ entries.take s.covered
  once : ExecutedOnce s

theorem timely_new (maxRaftStateSize : Int) (rand : Nat → Nat) : Timely entries (.new maxRaftStateSize rand) where
  inv := inv_new maxRaftStateSize rand
  duplicate _ inside := by simp [Server.new] at inside
  checked _ here := by cases here
  executed _ inside := by cases inside
  once := .nil

/-- The check and the write of the apply loop: no newer id comes in between, since it would need an
entry after this one. -/
theorem Timely.above (timely : Timely entries s) (here : s.applying = .checked op false) (mutates : op.Mutates)
    (issued : Issued entries op) : ∀ last ∈ s.kv.lastRequestIdMap op.ClientId, last ≤ op.RequestId := by
  intro last held
  by_contra newer
  obtain ⟨later,inside,client,id⟩ := timely.inv.table _ _ held
  exact timely.checked op here mutates (issued.below inside client (by omega))

/-- A step that changes neither what is covered nor what is executed, and not the apply loop. -/
theorem Timely.aside (timely : Timely entries s) (inv : Inv entries s') (le : TableLe s s')
    (covered : s'.covered = s.covered) (applying : s'.applying = s.applying) (executed : s'.executed = s.executed) :
    Timely entries s' where
  inv := inv
  duplicate op inside mutates := le.duplicate (timely.duplicate op (covered ▸ inside) mutates)
  checked op here mutates := by
    rw [covered]
    exact timely.checked op (applying ▸ here) mutates
  executed op inside := by
    rw [covered]
    exact timely.executed op (executed ▸ inside)
  once := by
    rw [ExecutedOnce,executed]
    exact timely.once

theorem tableLe_execute {duplicate : Bool} {op : Op} {executed : List Op} (timely : Timely entries s)
    (clerks : ∀ op ∈ entries, Issued entries op) (here : s.applying = .checked op duplicate) :
    TableLe s { s with
      kv := s.kv.execUnless op duplicate
      covered := s.covered + 1
      applying := .executed op
      executed := executed } := by
  have applying := timely.inv.applying
  rw [here] at applying
  have issued := clerks op (List.mem_of_getElem? applying.1)
  have writes := s.kv.lastRequestIdMap_execUnless op duplicate
  split at writes
  · next fresh =>
    obtain ⟨rfl,mutates⟩ := fresh
    exact .of_update writes (timely.above here mutates issued)
  · exact .of_eq writes

theorem Timely.execute {duplicate : Bool} {op : Op} (timely : Timely entries s)
    (clerks : ∀ op ∈ entries, Issued entries op) (here : s.applying = .checked op duplicate) :
    Timely entries { s with
      kv := s.kv.execUnless op duplicate
      covered := s.covered + 1
      applying := .executed op
      executed := if duplicate = false ∧ op.Mutates then s.executed ++ [op] else s.executed } := by
  have applying := timely.inv.applying
  rw [here] at applying
  obtain ⟨at_,known⟩ := applying
  have grows := List.take_subset_take_left entries (Nat.le_succ s.covered)
  refine ⟨timely.inv.execute here,?_,?_,?_,?_⟩
  · intro other inside mutates
    rcases mem_take_succ_cases at_ inside with before | rfl
    · exact (tableLe_execute timely clerks here).duplicate (timely.duplicate other before mutates)
    · cases duplicate with
      | true => exact (tableLe_execute timely clerks here).duplicate (timely.duplicate other (known rfl) mutates)
      | false =>
        refine ⟨other.RequestId,?_,le_rfl⟩
        simp [KvServer.machine,KvServer.lastRequestIdMap_execUnless,mutates]
  · intro other next
    cases next
  · intro other inside
    split at inside
    · rcases List.mem_append.mp inside with before | own
      · exact grows (timely.executed other before)
      · obtain rfl := List.mem_singleton.mp own
        exact mem_take_succ at_
    · exact grows (timely.executed other inside)
  · unfold ExecutedOnce
    split
    · next fresh =>
      obtain ⟨rfl,mutates⟩ := fresh
      refine List.pairwise_append.mpr ⟨timely.once,List.pairwise_singleton _ _,fun other before later own => ?_⟩
      obtain rfl := List.mem_singleton.mp own
      intro same
      have inside := timely.executed other before
      have issued := clerks later (List.mem_of_getElem? at_)
      have copy := issued.retried other (List.mem_of_mem_take inside) ⟨same.1.symm,same.2.symm⟩
      exact timely.checked later here mutates (copy ▸ inside)
    · exact timely.once

theorem tableLe_section {i : Nat} {h : Handler} {a : Action} {kv : KvServer} {stage : Stage}
    (there : s.handlers[i]? = some h) (ran : Section s.kv i h a kv stage) (met : InTime s a) :
    TableLe s (s.goOn kv i h stage) := by
  rcases ran.table with same | ⟨rfl,_,writes⟩
  · exact .of_eq same
  · exact .of_update writes (met h there)

theorem Timely.step (timely : Timely entries s) (clerks : ∀ op ∈ entries, Issued entries op) {a : Action}
    (issues : a.Issues entries) (others : ∀ other, a = .getSnapshotFromRaft other → Timely entries other)
    (met : InTime s a) (taken : s.step entries a = some s') : TableLe s s' ∧ Timely entries s' := by
  have inv := timely.inv.step clerks issues (fun other same => (others other same).inv) taken
  cases Server.moves taken with
  | getImpl => exact ⟨.refl s,timely.aside inv (.refl s) rfl rfl rfl⟩
  | putAppendImpl => exact ⟨.refl s,timely.aside inv (.refl s) rfl rfl rfl⟩
  | handler there ran =>
    have le := tableLe_section there ran met
    exact ⟨le,timely.aside inv le rfl rfl rfl⟩
  | skip _ behind =>
    have skips := timely.inv.skips
    omega
  | @check op here =>
    refine ⟨.refl s,inv,timely.duplicate,?_,timely.executed,timely.once⟩
    rintro other asked mutates inside
    obtain ⟨rfl,fresh⟩ := Applying.checked.inj asked
    have duplicate := (s.kv.isRequestDuplicate_iff op).mpr (timely.duplicate op inside mutates)
    rw [duplicate] at fresh
    cases fresh
  | execute here => exact ⟨tableLe_execute timely clerks here,timely.execute clerks here⟩
  | @sendMsgToWaitChan op here =>
    have le : TableLe s { s with kv := s.kv.sendMsgToWaitChan op s.covered, applying := .idle } :=
      .of_eq (KvServer.lastRequestIdMap_sendMsgToWaitChan ..)
    refine ⟨le,inv,?_,?_,timely.executed,timely.once⟩
    · exact fun other inside mutates => le.duplicate (timely.duplicate other inside mutates)
    · intro other next
      cases next
  | @getSnapshotFromRaft other idle ahead =>
    have theirs := others other rfl
    have grows := List.take_subset_take_left entries ahead.le
    refine ⟨met,inv,theirs.duplicate,?_,?_,timely.once⟩
    · intro op next
      rw [idle] at next
      cases next
    · exact fun op inside => grows (timely.executed op inside)

theorem Reached.timely (clerks : ∀ op ∈ entries, Issued entries op) (reached : Reached InTime entries s) :
    Timely entries s := by
  induction reached with
  | new maxRaftStateSize rand => exact timely_new maxRaftStateSize rand
  | step _ issues _ met taken ih others => exact (ih.step clerks issues others met taken).2

/-- Where no tail of `getImpl` and no snapshot comes late, no recorded id goes back between any two
points of the run, and nothing is executed twice. -/
theorem table_never_back (entries : List Op) (clerks : ∀ op ∈ entries, Issued entries op) (s : Server)
    (reached : Reached InTime entries s) (actions : List Action) (issues : ∀ a ∈ actions, a.Issues entries)
    (others : ∀ a ∈ actions, ∀ other, a = .getSnapshotFromRaft other → Reached InTime entries other)
    (met : Run.Each (Server.step entries) InTime s actions) (s' : Server)
    (ran : Run.run (Server.step entries) s actions = some s') : TableLe s s' ∧ ExecutedOnce s' := by
  induction actions generalizing s with
  | nil =>
    cases ran
    exact ⟨.refl _,(reached.timely clerks).once⟩
  | cons a rest ih =>
    obtain ⟨next,taken,later⟩ := Option.bind_eq_some_iff.mp ran
    obtain ⟨here,there⟩ := met next taken
    have first := issues a List.mem_cons_self
    have sources := others a List.mem_cons_self
    have step := ((reached.timely clerks).step clerks first (fun other same => (sources other same).timely clerks)
      here taken).1
    obtain ⟨le,once⟩ := ih next (.step reached first sources here taken)
      (fun b inside => issues b (List.mem_cons_of_mem _ inside))
      (fun b inside => others b (List.mem_cons_of_mem _ inside)) there later
    exact ⟨step.trans le,once⟩

/-- A Get that is sent again, and an Append whose second copy is committed. -/
def retriedAppend : List Op :=
  [⟨"Get","k","","c",1⟩,⟨"Get","k","","c",1⟩,⟨"Append","k","y","c",2⟩,⟨"Append","k","y","c",2⟩]

/-- The handler of the Get has popped its operation and is about to read. -/
def popped : List Action := [.getImpl "k" "c" 1 1 true,.create 0,.check,.execute,.sendMsgToWaitChan,.pop 0]

def applies : List Action := [.check,.execute,.sendMsgToWaitChan]

theorem each_applies (s : Server) (rounds : Nat) :
    Run.Each (Server.step entries) InTime s (List.replicate rounds applies).flatten := by
  apply Run.each_of_forall
  intro a inside s
  obtain ⟨round,copy,inside⟩ := List.mem_flatten.mp inside
  rw [List.eq_of_mem_replicate copy] at inside
  simp only [applies,List.mem_cons,List.not_mem_nil,or_false] at inside
  rcases inside with rfl | rfl | rfl <;> trivial

/-- The read is in time: the table has no id of the client yet. -/
theorem each_popped : Run.Each (Server.step retriedAppend) InTime (.new (-1) fun _ => 0)
    (popped ++ [.execGetOpOnKVDB 0]) := by
  apply Run.each_append_of
  · apply Run.each_of_forall
    intro a inside s
    simp only [popped,List.mem_cons,List.not_mem_nil,or_false] at inside
    rcases inside with rfl | rfl | rfl | rfl | rfl | rfl <;> trivial
  · intro s ran next _
    have early : (Run.run (Server.step retriedAppend) (.new (-1) fun _ => 0) popped).any (fun s =>
        s.kv.lastRequestIdMap "c" = none ∧ s.handlers.map (fun h => h.op.ClientId) = ["c"]) = true := by
      decide +kernel
    simp only [ran,Option.any_some,decide_eq_true_eq] at early
    refine ⟨fun h there last held => ?_,trivial⟩
    have client : h.op.ClientId = "c" := by
      have inside := List.mem_map_of_mem (f := fun h : Handler => h.op.ClientId) (List.mem_of_getElem? there)
      rw [early.2] at inside
      exact List.mem_singleton.mp inside
    rw [client,early.1] at held
    cases held

/-- The handler reads before the Append is applied. -/
theorem table_never_back_prompt : ∃ s s',
    Run.run (Server.step retriedAppend) (.new (-1) fun _ => 0) (popped ++ [.execGetOpOnKVDB 0]) = some s ∧
    Run.run (Server.step retriedAppend) s (List.replicate 3 applies).flatten = some s' ∧
    s'.executed = [⟨"Append","k","y","c",2⟩] ∧ TableLe s s' ∧ ExecutedOnce s' := by
  have runs : ((Run.run (Server.step retriedAppend) (.new (-1) fun _ => 0) (popped ++ [.execGetOpOnKVDB 0])).bind
      fun s => Run.run (Server.step retriedAppend) s (List.replicate 3 applies).flatten).any
        (fun s' => s'.executed = [⟨"Append","k","y","c",2⟩]) = true := by decide +kernel
  obtain ⟨s',ran,executed⟩ := (Option.any_eq_true ..).mp runs
  obtain ⟨s,first,second⟩ := Option.bind_eq_some_iff.mp ran
  have clerks : ∀ op ∈ retriedAppend, Issued retriedAppend op := by decide +kernel
  have unloaded : ∀ a ∈ popped ++ [.execGetOpOnKVDB 0] ++ (List.replicate 3 applies).flatten,
      a.Issues retriedAppend ∧ ∀ other, a = .getSnapshotFromRaft other → Reached InTime retriedAppend other := by
    have issues : ∀ a ∈ popped ++ [.execGetOpOnKVDB 0] ++ (List.replicate 3 applies).flatten,
        a.Issues retriedAppend := by decide +kernel
    refine fun a inside => ⟨issues a inside,fun other same => ?_⟩
    subst same
    simp [popped,applies,List.replicate] at inside
  have reached : Reached InTime retriedAppend s :=
    Reached.run (.new (-1) fun _ => 0) _ (fun a inside => (unloaded a (List.mem_append_left _ inside)).1)
      (fun a inside => (unloaded a (List.mem_append_left _ inside)).2) each_popped first
  have kept := table_never_back retriedAppend clerks s reached _
    (fun a inside => (unloaded a (List.mem_append_right _ inside)).1)
    (fun a inside => (unloaded a (List.mem_append_right _ inside)).2) (each_applies s 3) s' second
  exact ⟨s,s',first,second,of_decide_eq_true executed,kept⟩

/-- The read comes between the two copies of the Append. -/
def lateRead : List Action := popped ++ applies ++ applies ++ [.execGetOpOnKVDB 0] ++ applies

/-- Read after the Append, the Get takes its id out of the table, and the second copy is executed. -/
theorem late_read_executes_twice : ∃ entries s s' final, (∀ op ∈ entries, Issued entries op) ∧
    Reached (fun _ _ => True) entries s ∧ s.step entries (.execGetOpOnKVDB 0) = some s' ∧ ¬ TableLe s s' ∧
    Reached (fun _ _ => True) entries final ∧ ¬ ExecutedOnce final := by
  have clerks : ∀ op ∈ retriedAppend, Issued retriedAppend op := by decide +kernel
  have issues : ∀ a ∈ lateRead, a.Issues retriedAppend := by decide +kernel
  have unloaded : ∀ a ∈ lateRead, ∀ other, a = .getSnapshotFromRaft other →
      Reached (fun _ _ => True) retriedAppend other := by
    intro a inside other same
    subst same
    simp [lateRead,popped,applies] at inside
  have reached {s : Server} (actions : List Action) (part : actions ⊆ lateRead)
      (ran : Run.run (Server.step retriedAppend) (.new (-1) fun _ => 0) actions = some s) :
      Reached (fun _ _ => True) retriedAppend s :=
    Reached.run (.new (-1) fun _ => 0) actions (fun a inside => issues a (part inside))
      (fun a inside => unloaded a (part inside)) (Run.each_true _) ran
  have back : (Run.run (Server.step retriedAppend) (.new (-1) fun _ => 0) (popped ++ applies ++ applies)).any (fun s =>
      s.kv.lastRequestIdMap "c" = some 2 ∧ (s.step retriedAppend (.execGetOpOnKVDB 0)).any fun s' =>
        s'.kv.lastRequestIdMap "c" = some 1) = true := by decide +kernel
  have twice : (Run.run (Server.step retriedAppend) (.new (-1) fun _ => 0) lateRead).any
      (fun s => s.executed = [⟨"Append","k","y","c",2⟩,⟨"Append","k","y","c",2⟩]) = true := by decide +kernel
  obtain ⟨s,ran,recorded⟩ := (Option.any_eq_true ..).mp back
  obtain ⟨two,after⟩ := of_decide_eq_true recorded
  obtain ⟨s',read,one⟩ := (Option.any_eq_true ..).mp after
  obtain ⟨final,ran',executed⟩ := (Option.any_eq_true ..).mp twice
  refine ⟨retriedAppend,s,s',final,clerks,reached _ ?_ ran,read,?_,reached _ (List.Subset.refl _) ran',?_⟩
  · exact fun a inside => List.mem_append_left _ (List.mem_append_left _ inside)
  · intro le
    obtain ⟨next,held,above⟩ := le "c" 2 two
    rw [of_decide_eq_true one] at held
    cases held
    omega
  · rw [ExecutedOnce,of_decide_eq_true executed]
    decide

end KvStorage.Requests
