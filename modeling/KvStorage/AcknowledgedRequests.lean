import KvStorage.RequestHandlers

/-! Clients number their requests and wait for each answer before the next one, so whatever request
id the table holds, all smaller ones of the client are among the covered entries. -/
namespace KvStorage.Requests

/-- What the entries hold when a request is issued after the answers to all before it. -/
structure Issued (entries : List Op) (op : Op) : Prop where
  retried : ∀ copy ∈ entries, op.SameRequest copy → copy = op
  answered : ∀ (i : Nat) (later : Op), entries[i]? = some later → later.ClientId = op.ClientId →
    op.RequestId < later.RequestId → op ∈ entries.take i

instance (entries : List Op) (op : Op) : Decidable (Issued entries op) :=
  decidable_of_iff ((∀ copy ∈ entries, op.SameRequest copy → copy = op) ∧
      ∀ i < entries.length, ∀ later ∈ entries[i]?, later.ClientId = op.ClientId →
        op.RequestId < later.RequestId → op ∈ entries.take i) <| by
    constructor
    · rintro ⟨retried,answered⟩
      refine ⟨retried,fun i later here => answered i ?_ later here⟩
      exact (List.getElem?_eq_some_iff.mp here).1
    · rintro ⟨retried,answered⟩
      exact ⟨retried,fun i _ later here => answered i later here⟩

/-- The request that the action starts. -/
def Action.Issues (entries : List Op) : Action → Prop
  | .getImpl Key ClientId RequestId _ _ => Issued entries ⟨"Get",Key,"",ClientId,RequestId⟩
  | .putAppendImpl op _ _ => Issued entries op
  | _ => True

/-- States of the runs in which clients keep to their discipline, each step meets `ok`, and
snapshots come from servers that such runs reach. -/
inductive Reached (ok : Server → Action → Prop) (entries : List Op) : Server → Prop where
  | new (maxRaftStateSize : Int) (rand : Nat → Nat) : Reached ok entries (.new maxRaftStateSize rand)
  | step : Reached ok entries s → a.Issues entries →
      (∀ other, a = .getSnapshotFromRaft other → Reached ok entries other) →
      ok s a → s.step entries a = some s' → Reached ok entries s'

/-- Somewhere in the run `getCommandFromRaft` finds no copy of `op` recorded and executes it, and the
list then holds what the operation makes of it. -/
def Executes (entries : List Op) (first : Server) (actions : List Action) (op : Op) : Prop :=
  ∃ front back s s', actions = front ++ .execute :: back ∧
    Run.run (Server.step entries) first front = some s ∧ s.step entries .execute = some s' ∧
    s.applying = .checked op false ∧ s'.kv.skipList.contents = op.effect s.kv.skipList.contents

/-- The run of this server executes `op`, or loads the snapshot of a server that performed it. -/
inductive Performed (entries : List Op) (op : Op) : Server → Prop where
  | executed : Run.run (Server.step entries) (.new maxRaftStateSize rand) actions = some s →
      Executes entries (.new maxRaftStateSize rand) actions op → Performed entries op s
  | loaded : Run.run (Server.step entries) (.new maxRaftStateSize rand) actions = some s →
      .getSnapshotFromRaft other ∈ actions → Performed entries op other → Performed entries op s

/-- Stages of a handler whose request is known to be covered. -/
def Stage.Confirmed : Stage → Prop
  | .read => True
  | .remove reply => reply.Err = .OK
  | .finished reply => reply.Err = .OK
  | _ => False

def Applying.Sound (entries : List Op) (covered : Nat) : Applying → Prop
  | .idle => True
  | .checked op duplicate => entries[covered]? = some op ∧ (duplicate = true → op ∈ entries.take covered)
  | .executed op => op ∈ entries.take covered

def Handler.Sound (entries : List Op) (covered : Nat) (h : Handler) : Prop :=
  Issued entries h.op ∧ (h.stage.Confirmed → h.op ∈ entries.take covered)

structure Inv (entries : List Op) (s : Server) : Prop where
  skips : s.kv.lastSnapShotRaftLogIndex ≤ s.covered
  table : ∀ client id, s.kv.lastRequestIdMap client = some id →
    ∃ op ∈ entries.take s.covered, op.ClientId = client ∧ op.RequestId = id
  queued : ∀ op, s.kv.Queued op → op ∈ entries.take s.covered
  handlers : ∀ h ∈ s.handlers, h.Sound entries s.covered
  applying : s.applying.Sound entries s.covered
  performed : ∀ op ∈ entries.take s.covered, op.Mutates → op ∈ s.performed

variable {entries : List Op} {s s' : Server} {op : Op} {covered k : Nat}

/-- A request at or below one that is covered is covered as well. -/
theorem Issued.below (issued : Issued entries op) {later : Op} (inside : later ∈ entries.take k)
    (client : later.ClientId = op.ClientId) (id : op.RequestId ≤ later.RequestId) : op ∈ entries.take k := by
  obtain ⟨i,here⟩ := List.mem_iff_getElem?.mp inside
  rw [List.getElem?_take] at here
  split at here
  · next before =>
    rcases lt_or_eq_of_le id with less | same
    · exact List.take_subset_take_left _ before.le (issued.answered i later here client less)
    · have copy := issued.retried later (List.mem_of_getElem? here) ⟨client.symm,same⟩
      exact copy ▸ inside
  · cases here

theorem Inv.covered_of_duplicate (inv : Inv entries s) (issued : Issued entries op)
    (duplicate : s.kv.isRequestDuplicate op.ClientId op.RequestId = true) : op ∈ entries.take s.covered := by
  unfold KvServer.isRequestDuplicate at duplicate
  split at duplicate
  · cases duplicate
  · next last held =>
    obtain ⟨later,inside,client,id⟩ := inv.table _ _ held
    exact issued.below inside client (by simpa [id] using duplicate)

theorem Handler.Sound.mono {h : Handler} (sound : h.Sound entries covered) (grows : covered ≤ k) :
    h.Sound entries k :=
  ⟨sound.1,fun confirmed => List.take_subset_take_left _ grows (sound.2 confirmed)⟩

theorem inv_new (maxRaftStateSize : Int) (rand : Nat → Nat) : Inv entries (.new maxRaftStateSize rand) where
  skips := le_rfl
  table _ _ held := by cases held
  queued _ queued := by
    obtain ⟨_,_,held,_⟩ := queued
    cases held
  handlers _ inside := by cases inside
  applying := trivial
  performed _ inside := by simp [Server.new] at inside

/-! ### Steps -/

/-- A section of a handler changes neither what is covered nor what is skipped. -/
theorem Section.skips {i : Nat} {h : Handler} {a : Action} {kv kv' : KvServer} {stage : Stage}
    (ran : Section kv i h a kv' stage) : kv'.lastSnapShotRaftLogIndex = kv.lastSnapShotRaftLogIndex := by
  cases ran with
  | create => exact KvServer.createWaitChan_only.skips
  | pop _ popped => exact (KvServer.popWaitChan_only popped).1.skips
  | timeOut => rfl
  | isRequestDuplicate => rfl
  | execGetOpOnKVDB => exact KvServer.lastSnapShot_execGetOpOnKVDB ..
  | remove => rfl

theorem Section.queued {i : Nat} {h : Handler} {a : Action} {kv kv' : KvServer} {stage : Stage}
    (ran : Section kv i h a kv' stage) (queued : kv'.Queued op) : kv.Queued op := by
  cases ran with
  | create => exact KvServer.queued_createWaitChan queued
  | pop _ popped => exact (KvServer.popWaitChan_only popped).2.2 op queued
  | timeOut => exact queued
  | isRequestDuplicate => exact queued
  | execGetOpOnKVDB => simpa [KvServer.Queued] using queued
  | remove => exact KvServer.queued_eraseWaitChan queued

/-- Only the tail of `getImpl` writes the table. -/
theorem Section.table {i : Nat} {h : Handler} {a : Action} {kv kv' : KvServer} {stage : Stage}
    (ran : Section kv i h a kv' stage) : kv'.lastRequestIdMap = kv.lastRequestIdMap ∨
      a = .execGetOpOnKVDB i ∧ h.stage = .read ∧
        kv'.lastRequestIdMap = Function.update kv.lastRequestIdMap h.op.ClientId (some h.op.RequestId) := by
  cases ran with
  | create => exact .inl KvServer.createWaitChan_only.table
  | pop _ popped => exact .inl (KvServer.popWaitChan_only popped).1.table
  | timeOut => exact .inl rfl
  | isRequestDuplicate => exact .inl rfl
  | execGetOpOnKVDB here => exact .inr ⟨rfl,here,KvServer.lastRequestIdMap_execGetOpOnKVDB ..⟩
  | remove => exact .inl rfl

/-- A handler is confirmed by the operation it pops or by the duplicate check. -/
theorem Section.confirmed {i : Nat} {h : Handler} {a : Action} {kv' : KvServer} {stage : Stage}
    (inv : Inv entries s) (sound : h.Sound entries s.covered) (ran : Section s.kv i h a kv' stage)
    (confirmed : stage.Confirmed) : h.op ∈ entries.take s.covered := by
  cases ran with
  | create => exact confirmed.elim
  | @pop kv' popped here taken =>
    have inside := inv.queued popped (KvServer.popWaitChan_only taken).2.1
    unfold Server.afterPop at confirmed
    split at confirmed
    · next same =>
      have copy := sound.1.retried popped (List.mem_of_mem_take inside) ⟨same.1.symm,same.2.symm⟩
      exact copy ▸ inside
    · cases confirmed
  | timeOut => exact confirmed.elim
  | @isRequestDuplicate isLeader here =>
    cases duplicate : s.kv.isRequestDuplicate h.op.ClientId h.op.RequestId with
    | true => exact inv.covered_of_duplicate sound.1 duplicate
    | false =>
      rw [duplicate] at confirmed
      simp [Server.afterTimeOut,Stage.Confirmed] at confirmed
  | execGetOpOnKVDB here => exact sound.2 (by rw [here]; trivial)
  | @remove reply here => exact sound.2 (by rw [here]; exact confirmed)

theorem mem_take_succ (here : entries[k]? = some op) : op ∈ entries.take (k + 1) :=
  List.mem_of_getElem? ((List.getElem?_take_of_lt (Nat.lt_succ_self k)).trans here)

theorem mem_take_succ_cases (here : entries[k]? = some op) {other : Op} (inside : other ∈ entries.take (k + 1)) :
    other ∈ entries.take k ∨ other = op := by
  rw [List.take_add_one,here] at inside
  simpa using inside

theorem Inv.begin (inv : Inv entries s) (issued : Issued entries op) (isGet : Bool) (raftLogIndex : Int)
    (isLeader : Bool) : Inv entries (s.begin isGet op raftLogIndex isLeader) := by
  refine { inv with handlers := fun h inside => ?_ }
  rcases List.mem_append.mp inside with before | here
  · exact inv.handlers h before
  · obtain rfl := List.mem_singleton.mp here
    refine ⟨issued,fun confirmed => ?_⟩
    cases isLeader with
    | true => exact confirmed.elim
    | false => cases confirmed

theorem Inv.section (inv : Inv entries s) {i : Nat} {h : Handler} {a : Action} {kv : KvServer} {stage : Stage}
    (there : s.handlers[i]? = some h) (ran : Section s.kv i h a kv stage) : Inv entries (s.goOn kv i h stage) := by
  have sound := inv.handlers h (List.mem_of_getElem? there)
  refine { inv with skips := ?_, table := ?_, queued := ?_, handlers := ?_ }
  · exact ran.skips.le.trans inv.skips
  · intro client id held
    have held : kv.lastRequestIdMap client = some id := held
    rcases ran.table with same | ⟨_,reading,writes⟩
    · exact inv.table client id (same ▸ held)
    · rw [writes] at held
      by_cases own : client = h.op.ClientId
      · subst own
        simp only [Function.update_self,Option.some.injEq] at held
        exact ⟨h.op,sound.2 (by rw [reading]; trivial),rfl,held⟩
      · exact inv.table client id (by simpa [own] using held)
  · exact fun op queued => inv.queued op (ran.queued queued)
  · intro other inside
    rcases List.mem_or_eq_of_mem_set inside with before | rfl
    · exact inv.handlers other before
    · refine ⟨sound.1,fun confirmed => ?_⟩
      have here := ran.confirmed inv sound confirmed
      exact here

/-- The entry of the next index is executed, or its request is covered and was executed before. -/
theorem Inv.execute (inv : Inv entries s) {duplicate : Bool} (here : s.applying = .checked op duplicate) :
    Inv entries { s with
      kv := s.kv.execUnless op duplicate
      covered := s.covered + 1
      applying := .executed op
      executed := if duplicate = false ∧ op.Mutates then s.executed ++ [op] else s.executed } := by
  have applying := inv.applying
  rw [here] at applying
  obtain ⟨at_,known⟩ := applying
  have grows := List.take_subset_take_left entries (Nat.le_succ s.covered)
  refine ⟨?_,?_,?_,?_,mem_take_succ at_,?_⟩
  · have skips := inv.skips
    simp only [KvServer.lastSnapShot_execUnless]
    omega
  · intro client id held
    rw [KvServer.lastRequestIdMap_execUnless] at held
    have old (held : s.kv.lastRequestIdMap client = some id) :
        ∃ op ∈ entries.take (s.covered + 1), op.ClientId = client ∧ op.RequestId = id := by
      obtain ⟨op,inside,rest⟩ := inv.table client id held
      exact ⟨op,grows inside,rest⟩
    split at held
    · by_cases own : client = op.ClientId
      · subst own
        simp only [Function.update_self,Option.some.injEq] at held
        exact ⟨op,mem_take_succ at_,rfl,held⟩
      · exact old (by simpa [own] using held)
    · exact old held
  · intro other queued
    exact grows (inv.queued other (by simpa [KvServer.Queued] using queued))
  · exact fun h inside => (inv.handlers h inside).mono (Nat.le_succ _)
  · intro other inside mutates
    have old (before : other ∈ entries.take s.covered) : other ∈ (if duplicate = false ∧ op.Mutates then
        s.executed ++ [op] else s.executed) ++ s.recorded := by
      rcases List.mem_append.mp (inv.performed other before mutates) with executed | recorded
      · split
        · exact List.mem_append_left _ (List.mem_append_left _ executed)
        · exact List.mem_append_left _ executed
      · exact List.mem_append_right _ recorded
    rcases mem_take_succ_cases at_ inside with before | rfl
    · exact old before
    · cases duplicate with
      | true => exact old (known rfl)
      | false =>
        rw [Server.performed,if_pos ⟨rfl,mutates⟩]
        exact List.mem_append_left _ (List.mem_append_right _ (List.mem_singleton.mpr rfl))

theorem Inv.getSnapshotFromRaft (inv : Inv entries s) {other : Server} (theirs : Inv entries other)
    (idle : s.applying = .idle) (ahead : s.covered < other.covered) : Inv entries { s with
      kv := s.kv.getSnapshotFromRaft (some other.kv.makeSnapshot) other.covered
      covered := other.covered
      recorded := s.recorded ++ other.performed } := by
  have grows := List.take_subset_take_left entries ahead.le
  refine ⟨le_rfl,theirs.table,?_,?_,?_,?_⟩
  · exact fun op queued => grows (inv.queued op queued)
  · exact fun h inside => (inv.handlers h inside).mono ahead.le
  · rw [idle]
    trivial
  · intro op inside mutates
    exact List.mem_append_right _ (List.mem_append_right _ (theirs.performed op inside mutates))

theorem Inv.step (inv : Inv entries s) (clerks : ∀ op ∈ entries, Issued entries op) {a : Action}
    (issues : a.Issues entries) (others : ∀ other, a = .getSnapshotFromRaft other → Inv entries other)
    (taken : s.step entries a = some s') : Inv entries s' := by
  cases Server.moves taken with
  | getImpl => exact inv.begin issues _ _ _
  | putAppendImpl => exact inv.begin issues _ _ _
  | handler there ran => exact inv.section there ran
  | skip _ behind =>
    have skips := inv.skips
    omega
  | @check op here =>
    have issued := clerks op (List.mem_of_getElem? here)
    exact { inv with applying := ⟨here,inv.covered_of_duplicate issued⟩ }
  | execute here => exact inv.execute here
  | @sendMsgToWaitChan op here =>
    have applying := inv.applying
    rw [here] at applying
    refine { inv with skips := ?_, table := ?_, queued := ?_, applying := trivial }
    · simpa using inv.skips
    · simpa using inv.table
    · intro other queued
      rcases KvServer.queued_sendMsgToWaitChan queued with before | rfl
      · exact inv.queued other before
      · exact applying
  | getSnapshotFromRaft idle ahead => exact inv.getSnapshotFromRaft (others _ rfl) idle ahead

theorem Reached.inv {ok : Server → Action → Prop} (clerks : ∀ op ∈ entries, Issued entries op)
    (reached : Reached ok entries s) : Inv entries s := by
  induction reached with
  | new maxRaftStateSize rand => exact inv_new maxRaftStateSize rand
  | step _ issues _ _ taken ih others => exact ih.step clerks issues others taken

/-! ### What was performed -/

theorem Reached.run {ok : Server → Action → Prop} (reached : Reached ok entries s) (actions : List Action)
    (issues : ∀ a ∈ actions, a.Issues entries)
    (others : ∀ a ∈ actions, ∀ other, a = .getSnapshotFromRaft other → Reached ok entries other)
    (met : Run.Each (Server.step entries) ok s actions)
    (ran : Run.run (Server.step entries) s actions = some s') : Reached ok entries s' := by
  induction actions generalizing s with
  | nil =>
    cases ran
    exact reached
  | cons a rest ih =>
    obtain ⟨next,taken,later⟩ := Option.bind_eq_some_iff.mp ran
    obtain ⟨here,there⟩ := met next taken
    apply ih (.step reached (issues a List.mem_cons_self) (others a List.mem_cons_self) here taken)
    · exact fun b inside => issues b (List.mem_cons_of_mem _ inside)
    · exact fun b inside => others b (List.mem_cons_of_mem _ inside)
    · exact there
    · exact later

theorem Executes.cons {next : Server} {a : Action} {actions : List Action} (taken : s.step entries a = some next)
    (later : Executes entries next actions op) : Executes entries s (a :: actions) op := by
  obtain ⟨front,back,t,t',rfl,ran,rest⟩ := later
  refine ⟨a :: front,back,t,t',rfl,?_,rest⟩
  rw [Run.run,taken]
  exact ran

/-- An operation that is new among the executed ones was executed by this step. -/
theorem executed_step {a : Action} (taken : s.step entries a = some s') (inside : op ∈ s'.executed) :
    op ∈ s.executed ∨ a = .execute ∧ s.applying = .checked op false ∧
      s'.kv.skipList.contents = op.effect s.kv.skipList.contents := by
  cases Server.moves taken with
  | @execute op' duplicate here =>
    change op ∈ (if duplicate = false ∧ op'.Mutates then s.executed ++ [op'] else s.executed) at inside
    split at inside
    · next fresh =>
      obtain ⟨rfl,mutates⟩ := fresh
      rcases List.mem_append.mp inside with before | new
      · exact .inl before
      · obtain rfl := List.mem_singleton.mp new
        exact .inr ⟨rfl,here,s.kv.contents_execUnless_fresh op mutates⟩
    · exact .inl inside
  | _ => exact .inl inside

theorem recorded_step {a : Action} (taken : s.step entries a = some s') (inside : op ∈ s'.recorded) :
    op ∈ s.recorded ∨ ∃ other, a = .getSnapshotFromRaft other ∧ op ∈ other.performed := by
  cases Server.moves taken with
  | @getSnapshotFromRaft other =>
    rcases List.mem_append.mp inside with before | new
    · exact .inl before
    · exact .inr ⟨other,rfl,new⟩
  | _ => exact .inl inside

/-- What a run adds to the performed operations it executes or loads. -/
theorem performed_run (actions : List Action) (ran : Run.run (Server.step entries) s actions = some s')
    (inside : op ∈ s'.performed) : op ∈ s.performed ∨ Executes entries s actions op ∨
      ∃ other, .getSnapshotFromRaft other ∈ actions ∧ op ∈ other.performed := by
  induction actions generalizing s with
  | nil =>
    cases ran
    exact .inl inside
  | cons a rest ih =>
    obtain ⟨next,taken,later⟩ := Option.bind_eq_some_iff.mp ran
    rcases ih later with before | executes | ⟨other,loads,there⟩
    · rcases List.mem_append.mp before with executed | recorded
      · rcases executed_step taken executed with before | ⟨rfl,checked,effect⟩
        · exact .inl (List.mem_append_left _ before)
        · exact .inr (.inl ⟨[],rest,s,next,rfl,rfl,taken,checked,effect⟩)
      · rcases recorded_step taken recorded with before | ⟨other,rfl,there⟩
        · exact .inl (List.mem_append_right _ before)
        · exact .inr (.inr ⟨other,List.mem_cons_self,there⟩)
    · exact .inr (.inl (executes.cons taken))
    · exact .inr (.inr ⟨other,List.mem_cons_of_mem _ loads,there⟩)

/-- A new server starts with nothing performed. -/
theorem performed_of_run {actions : List Action} {maxRaftStateSize : Int} {rand : Nat → Nat}
    (ran : Run.run (Server.step entries) (.new maxRaftStateSize rand) actions = some s)
    (others : ∀ other, .getSnapshotFromRaft other ∈ actions → op ∈ other.performed → Performed entries op other)
    (inside : op ∈ s.performed) : Executes entries (.new maxRaftStateSize rand) actions op ∨
      ∃ other, .getSnapshotFromRaft other ∈ actions ∧ Performed entries op other := by
  rcases performed_run actions ran inside with start | executes | ⟨other,loads,there⟩
  · cases start
  · exact .inl executes
  · exact .inr ⟨other,loads,others other loads there⟩

/-- What a reachable server is said to have performed, it or the servers it loaded from performed. -/
theorem Reached.performed {ok : Server → Action → Prop} (reached : Reached ok entries s)
    (inside : op ∈ s.performed) : Performed entries op s := by
  have runs : ∃ maxRaftStateSize rand actions,
      Run.run (Server.step entries) (.new maxRaftStateSize rand) actions = some s ∧
      ∀ other, .getSnapshotFromRaft other ∈ actions → op ∈ other.performed → Performed entries op other := by
    clear inside
    induction reached with
    | new maxRaftStateSize rand => exact ⟨maxRaftStateSize,rand,[],rfl,fun _ loads => absurd loads List.not_mem_nil⟩
    | @step s a s' _ _ _ _ taken ih theirs =>
      obtain ⟨maxRaftStateSize,rand,actions,ran,others⟩ := ih
      refine ⟨maxRaftStateSize,rand,actions ++ [a],Run.run_snoc.mpr ⟨s,ran,taken⟩,fun other loads there => ?_⟩
      rcases List.mem_append.mp loads with before | last
      · exact others other before there
      · obtain ⟨size,seed,front,led,loaded⟩ := theirs other (List.mem_singleton.mp last).symm
        rcases performed_of_run led loaded there with executes | ⟨third,loads,performed⟩
        · exact .executed led executes
        · exact .loaded led loads performed
  obtain ⟨maxRaftStateSize,rand,actions,ran,others⟩ := runs
  rcases performed_of_run ran others inside with executes | ⟨other,loads,performed⟩
  · exact .executed ran executes
  · exact .loaded ran loads performed

/-- A Put or Append that `putAppendImpl` answered with `OK` was executed on this server's list, or
on that of a server whose snapshot was loaded, at first or second hand. -/
theorem acknowledged_performed (entries : List Op) (clerks : ∀ op ∈ entries, Issued entries op)
    (maxRaftStateSize : Int) (rand : Nat → Nat) (actions : List Action)
    (issues : ∀ a ∈ actions, a.Issues entries)
    (others : ∀ other, .getSnapshotFromRaft other ∈ actions → Reached (fun _ _ => True) entries other)
    (s : Server) (ran : Run.run (Server.step entries) (.new maxRaftStateSize rand) actions = some s)
    (h : Handler) (inside : h ∈ s.handlers) (mutates : h.op.Mutates) (reply : Reply) (ok : reply.Err = .OK)
    (answered : h.stage = .remove reply ∨ h.stage = .finished reply) :
    Executes entries (.new maxRaftStateSize rand) actions h.op ∨
      ∃ other, .getSnapshotFromRaft other ∈ actions ∧ Performed entries h.op other := by
  have reached : Reached (fun _ _ => True) entries s := by
    apply Reached.run (.new maxRaftStateSize rand) actions issues _ (Run.each_true _) ran
    rintro a inside other rfl
    exact others other inside
  have inv := reached.inv clerks
  have confirmed : h.stage.Confirmed := by
    rcases answered with here | here
    · rw [here]
      exact ok
    · rw [here]
      exact ok
  have covered := (inv.handlers h inside).2 confirmed
  exact performed_of_run ran (fun other loads there => (others other loads).performed there)
    (inv.performed h.op covered mutates)

instance (entries : List Op) : DecidablePred (Action.Issues entries)
  | .getImpl .. => inferInstanceAs (Decidable (Issued _ _))
  | .putAppendImpl .. => inferInstanceAs (Decidable (Issued _ _))
  | .create _ | .pop _ | .timeOut _ | .isRequestDuplicate _ _ | .execGetOpOnKVDB _ | .remove _ | .check | .execute
  | .sendMsgToWaitChan | .getSnapshotFromRaft _ => inferInstanceAs (Decidable True)

def twoClients : List Op := [⟨"Put","k","x","c",1⟩,⟨"Append","k","y","d",1⟩]

/-- Index 1 was promised to `d` but holds the entry of `c`; `d` tries again and pops its own. -/
def retryRun : List Action :=
  [.putAppendImpl ⟨"Append","k","y","d",1⟩ 1 true,.create 0,.check,.execute,.sendMsgToWaitChan,.pop 0,.remove 0,
    .putAppendImpl ⟨"Append","k","y","d",1⟩ 2 true,.create 1,.check,.execute,.sendMsgToWaitChan,.pop 1]

theorem acknowledged_performed_retryRun :
    (Run.run (Server.step twoClients) (.new (-1) fun _ => 0) retryRun).any (fun s =>
      s.handlers.map Handler.stage == [.finished ⟨.ErrWrongLeader,""⟩,.remove ⟨.OK,""⟩]) = true ∧
    ∀ s, Run.run (Server.step twoClients) (.new (-1) fun _ => 0) retryRun = some s →
      ∀ h ∈ s.handlers, h.op.Mutates → h.stage = .remove ⟨.OK,""⟩ →
        Executes twoClients (.new (-1) fun _ => 0) retryRun h.op := by
  refine ⟨by decide +kernel,fun s ran h inside mutates answered => ?_⟩
  have unloaded : ∀ other, .getSnapshotFromRaft other ∉ retryRun := by
    intro other loads
    simp [retryRun] at loads
  have done := acknowledged_performed twoClients (by decide +kernel) (-1) (fun _ => 0) retryRun (by decide +kernel)
    (fun other loads => absurd loads (unloaded other)) s ran h inside mutates ⟨.OK,""⟩ rfl (.inl answered)
  rcases done with executes | ⟨other,loads,_⟩
  · exact executes
  · exact absurd loads (unloaded other)

end KvStorage.Requests
