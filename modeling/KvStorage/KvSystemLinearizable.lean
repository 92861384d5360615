import KvStorage.KvSystemReads

/-! The calls of all clerks, explained one by one. An entry's first copy is a write taken in the round
of its index, and a Get is taken in the round up to which its server had covered the entries. -/
namespace KvStorage
open Requests Linearizability

/-- The service as clerks know it: a Get of a missing key returns the empty string. -/
def kvObject : Object Contents Op String where
  init _ := none
  next := Op.effect
  answer contents op := if op.Operation = "Get" then (contents op.Key).getD "" else ""

namespace KvSystem

def writesAt (entries : List Op) (k : Nat) : List Op :=
  (entries[k]?).toList.filter fun op => op.Mutates ∧ op ∉ entries.take k

/-- The calls that returned with what the first `k + 1` entries make. -/
def readsAt (s : KvSystem) (point : Op → Nat) (k : Nat) : List Op :=
  s.returned.filter fun op => op.Operation = "Get" ∧ point op = k + 1

variable {s : KvSystem} {entries : List Op} {op : Op} {point : Op → Nat} {k n : Nat}

theorem mem_writesAt : op ∈ writesAt entries k ↔ entries[k]? = some op ∧ op.Mutates ∧ op ∉ entries.take k := by
  simp [writesAt]

theorem mem_readsAt : op ∈ s.readsAt point k ↔ op ∈ s.returned ∧ op.Operation = "Get" ∧ point op = k + 1 := by
  simp [readsAt]

theorem not_mutates (get : op.Operation = "Get") : ¬ op.Mutates := by
  rintro (put | append)
  · exact absurd (get.symm.trans put) (by decide)
  · exact absurd (get.symm.trans append) (by decide)

theorem firstWrites_take (clerks : ∀ op ∈ entries, Issued entries op) (n : Nat) (inside : n ≤ entries.length) :
    firstWrites (entries.take n) = (List.range n).flatMap (writesAt entries) := by
  induction n with
  | zero => rfl
  | succ n ih =>
    have at_ : entries[n]? = some entries[n] := List.getElem?_eq_getElem inside
    have same : (∃ other ∈ entries.take n, entries[n].SameRequest other) ↔ entries[n] ∈ entries.take n := by
      constructor
      · rintro ⟨other,held,same⟩
        have issued := clerks entries[n] (List.getElem_mem inside)
        exact issued.retried other (List.mem_of_mem_take held) same ▸ held
      · exact fun held => ⟨_,held,rfl,rfl⟩
    rw [List.take_add_one,at_,List.range_succ,List.flatMap_append,← ih (by omega),firstWrites,firstWrites]
    simp only [Option.toList_some,firstCopies_append,same]
    by_cases copied : entries[n] ∈ entries.take n
    · simp [copied,writesAt,at_]
    · by_cases mutates : entries[n].Mutates
      · simp [copied,mutates,writesAt,at_]
      · simp [copied,mutates,writesAt,at_]

/-- What the writes of the first rounds make is what the machine has after these entries. -/
theorem after_writes (clerks : ∀ op ∈ entries, Issued entries op) (inside : n ≤ entries.length) :
    kvObject.after ((List.range n).flatMap (writesAt entries)) = (Machine.replay (entries.take n)).contents := by
  rw [← firstWrites_take clerks n inside]
  exact (Machine.replay_contents (clerkOrder_take clerks n)).symm

/-- A call returns once. -/
theorem Stamped.once_returned (stamped : Stamped s) {before before' : Nat} {value value' : String}
    (one : (before,CallEvent.ret op value) ∈ s.history) (two : (before',CallEvent.ret op value') ∈ s.history) :
    before = before' ∧ value = value' := by
  have once := stamped.once
  rw [returned,List.Nodup,List.pairwise_filterMap] at once
  by_contra differs
  have apart : (before,CallEvent.ret op value) ≠ (before',CallEvent.ret op value') := by
    intro same
    cases same
    exact differs ⟨rfl,rfl⟩
  have symmetric : Std.Symm fun e f : Nat × CallEvent Op String =>
      ∀ b, returnOf e.2 = some b → ∀ b', returnOf f.2 = some b' → b ≠ b' :=
    ⟨fun e f different b there b' here same => different b' here b there same.symm⟩
  exact once.forall one two apart op rfl op rfl rfl

/-- Each Get that returned has one point at which it read. -/
theorem points (stamped : Stamped s) (consistent : Consistent s) : ∃ point : Op → Nat,
    ∀ before op value, (before,CallEvent.ret op value) ∈ s.history → op.Operation = "Get" → point op ≤ before ∧
      op ∈ s.entries.take (point op) ∧
      value = ((Machine.replay (s.entries.take (point op))).contents op.Key).getD "" := by
  have each : ∀ op, ∃ n, ∀ before value, (before,CallEvent.ret op value) ∈ s.history → op.Operation = "Get" → n ≤ before ∧
      op ∈ s.entries.take n ∧ value = ((Machine.replay (s.entries.take n)).contents op.Key).getD "" := by
    intro op
    by_cases get : op ∈ s.returned ∧ op.Operation = "Get"
    · obtain ⟨before,value,held⟩ := mem_returned.mp get.1
      obtain ⟨n,le,covered,eq⟩ := consistent.reads before op value held get.2
      refine ⟨n,fun before' value' held' _ => ?_⟩
      obtain ⟨rfl,rfl⟩ := stamped.once_returned held held'
      exact ⟨le,covered,eq⟩
    · exact ⟨0,fun before value held kind => absurd ⟨mem_returned.mpr ⟨before,value,held⟩,kind⟩ get⟩
  choose point spec using each
  exact ⟨point,fun before op value => spec op before value⟩

/-- Where a call stands in the order: above what was committed when it was made, not above what was
committed when it returned. -/
theorem after_call (stamped : Stamped s) {before : Nat} (made : (before,CallEvent.call op) ∈ s.history)
    (spec : ∀ before op value, (before,CallEvent.ret op value) ∈ s.history → op.Operation = "Get" →
      point op ≤ before ∧ op ∈ s.entries.take (point op))
    (inside : op ∈ round (writesAt s.entries) (s.readsAt point) k) : before ≤ k := by
  have absent := stamped.early before op made
  by_contra above
  rcases List.mem_append.mp inside with write | read
  · have at_ := (mem_writesAt.mp write).1
    refine absent (List.mem_of_getElem? (i := k) ?_)
    rw [List.getElem?_take_of_lt (by omega)]
    exact at_
  · obtain ⟨returned,get,eq⟩ := mem_readsAt.mp read
    obtain ⟨before',value,held⟩ := mem_returned.mp returned
    have covered := (spec before' op value held get).2
    exact absent (List.take_subset_take_left _ (by omega) covered)

theorem before_return {before : Nat} {value : String} (stamped : Stamped s)
    (returned : (before,CallEvent.ret op value) ∈ s.history)
    (spec : ∀ before op value, (before,CallEvent.ret op value) ∈ s.history → op.Operation = "Get" →
      point op ≤ before ∧ op ∈ s.entries.take (point op))
    (inside : op ∈ round (writesAt s.entries) (s.readsAt point) k) : k < before := by
  rcases List.mem_append.mp inside with write | read
  · have absent := (mem_writesAt.mp write).2.2
    by_contra above
    exact absent (List.take_subset_take_left _ (by omega) (stamped.late before op value returned))
  · obtain ⟨_,get,eq⟩ := mem_readsAt.mp read
    have le := (spec before op value returned get).1
    omega

theorem nodup_round (stamped : Stamped s) (k : Nat) : (round (writesAt s.entries) (s.readsAt point) k).Nodup := by
  refine List.nodup_append.mpr ⟨?_,stamped.once.filter _,?_⟩
  · refine List.Nodup.filter _ ?_
    cases s.entries[k]? <;> simp
  · intro op write other read same
    subst same
    exact not_mutates (mem_readsAt.mp read).2.1 (mem_writesAt.mp write).2.1

/-- No call is taken in two rounds. -/
theorem round_unique {i j : Nat} (ahead : i < j) (first : op ∈ round (writesAt s.entries) (s.readsAt point) i)
    (second : op ∈ round (writesAt s.entries) (s.readsAt point) j) : False := by
  rcases List.mem_append.mp first with write | read
  · obtain ⟨at_,mutates,_⟩ := mem_writesAt.mp write
    rcases List.mem_append.mp second with write' | read'
    · refine (mem_writesAt.mp write').2.2 (List.mem_of_getElem? (i := i) ?_)
      rw [List.getElem?_take_of_lt ahead]
      exact at_
    · exact not_mutates (mem_readsAt.mp read').2.1 mutates
  · obtain ⟨_,get,eq⟩ := mem_readsAt.mp read
    rcases List.mem_append.mp second with write' | read'
    · exact not_mutates get (mem_writesAt.mp write').2.1
    · have eq' := (mem_readsAt.mp read').2.2
      omega

theorem nodup_rounds (stamped : Stamped s) (n : Nat) :
    (rounds (writesAt s.entries) (s.readsAt point) n).Nodup := by
  refine List.nodup_flatMap.mpr ⟨fun k _ => nodup_round stamped k,?_⟩
  exact List.pairwise_lt_range.imp fun ahead op first second => round_unique ahead first second

/-- An entry has its first copy in one of the rounds. -/
theorem write_in_rounds (mutates : op.Mutates) (inside : op ∈ s.entries) :
    op ∈ rounds (writesAt s.entries) (s.readsAt point) s.entries.length := by
  have at_ : s.entries[s.entries.idxOf op]? = some op := List.getElem?_idxOf inside
  refine mem_rounds.mpr ⟨s.entries.idxOf op,List.idxOf_lt_length_of_mem inside,List.mem_append_left _ ?_⟩
  refine mem_writesAt.mpr ⟨at_,mutates,fun earlier => ?_⟩
  exact lt_irrefl _ ((List.mem_take_iff_idxOf_lt inside).mp earlier)

/-- The rounds explain the history. -/
theorem linearizes (ordered : Ordered s) (stamped : Stamped s)
    (spec : ∀ before op value, (before,CallEvent.ret op value) ∈ s.history → op.Operation = "Get" → point op ≤ before ∧
      op ∈ s.entries.take (point op) ∧
      value = ((Machine.replay (s.entries.take (point op))).contents op.Key).getD "")
    (writes : ∀ before op value, (before,CallEvent.ret op value) ∈ s.history → op.Mutates → value = "") :
    Linearizes kvObject s.events (rounds (writesAt s.entries) (s.readsAt point) s.entries.length) := by
  have placed : ∀ before op value, (before,CallEvent.ret op value) ∈ s.history → op.Operation = "Get" →
      point op ≤ before ∧ op ∈ s.entries.take (point op) := fun before op value held get =>
    ⟨(spec before op value held get).1,(spec before op value held get).2.1⟩
  apply linearizes_rounds
  · intro op inside
    obtain ⟨k,_,inside⟩ := mem_rounds.mp inside
    rcases List.mem_append.mp inside with write | read
    · exact mem_events.mpr (ordered.numbered.entries op (List.mem_of_getElem? (mem_writesAt.mp write).1))
    · obtain ⟨before,value,held⟩ := mem_returned.mp (mem_readsAt.mp read).1
      exact mem_events.mpr (ordered.numbered.entries op (List.mem_of_mem_take (stamped.late before op value held)))
  · intro op value answered
    obtain ⟨before,held⟩ := mem_events.mp answered
    have inside := List.mem_of_mem_take (stamped.late before op value held)
    rcases stamped.shape op (ordered.numbered.entries op inside) with get | mutates
    · obtain ⟨le,covered⟩ := placed before op value held get
      have below := stamped.below _ held
      have positive : 0 < point op := by
        by_contra zero
        rw [Nat.eq_zero_of_not_pos zero] at covered
        cases covered
      refine mem_rounds.mpr ⟨point op - 1,by simp only at below; omega,List.mem_append_right _ ?_⟩
      exact mem_readsAt.mpr ⟨mem_returned.mpr ⟨before,value,held⟩,get,by omega⟩
    · exact write_in_rounds mutates inside
  · exact nodup_rounds stamped _
  · intro k op read contents
    have get := (mem_readsAt.mp read).2.1
    have other : op.Operation ≠ "Put" ∧ op.Operation ≠ "Append" := by
      rw [get]
      decide
    simp [kvObject,Op.effect,other]
  · intro k op write value answered contents
    obtain ⟨before,held⟩ := mem_events.mp answered
    have mutates := (mem_writesAt.mp write).2.1
    have different : op.Operation ≠ "Get" := fun get => not_mutates get mutates
    rw [writes before op value held mutates]
    simp [kvObject,different]
  · intro k op read value answered
    obtain ⟨before,held⟩ := mem_events.mp answered
    obtain ⟨_,get,eq⟩ := mem_readsAt.mp read
    obtain ⟨le,covered,value_eq⟩ := spec before op value held get
    have below := stamped.below _ held
    simp only at below
    rw [after_writes ordered.clerks (by omega),← eq,value_eq]
    simp [kvObject,get]
  · intro c d i j precedes first second
    obtain ⟨value,before,after_,held,made,le⟩ := stamped.precedes precedes
    have returned := before_return stamped held placed first
    have later := after_call stamped made placed second
    omega

/-- The service is linearizable in every run in which no tail of `getImpl` writes an old request id and
no snapshot is loaded over other values: one order of all calls, in keeping with real time, gives
each clerk the answers that it got. -/
theorem linearizable (peers : Nat) (maxRaftStateSize : Int) (rand : Nat → Nat → Nat) (s : KvSystem)
    (reach : Run.Reach step Keeps (.new peers maxRaftStateSize rand) s) : Linearizable kvObject s.events := by
  have ordered := ordered_of_reach reach
  have stamped := stamped_of_reach reach
  have consistent := consistent_of_reach reach
  obtain ⟨point,spec⟩ := points stamped consistent
  exact ⟨_,linearizes ordered stamped spec consistent.writes⟩

/-- The Get that follows the Put, up to where its handler reads. -/
def getNext : List Action :=
  let args : Args := .Get "k" "c" 2
  [.call "c" (.Get "k"),.send "c",.deliver 1 args 3 true,.serve 1 (.create 2),.commit args.op,
    .serve 1 .check,.serve 1 .execute,.serve 1 .sendMsgToWaitChan,.serve 1 (.pop 2)]

def getReturns : List Action := [.serve 1 (.remove 2),.reply "c" 2]

theorem each_getNext : Run.Each step Keeps twoServers ((putTwice ++ getNext) ++ .serve 1 (.execGetOpOnKVDB 2) :: getReturns) := by
  apply Run.each_append_of
  · exact each_plain (by decide)
  · intro s ran next _
    have early : (Run.run step twoServers (putTwice ++ getNext)).any (fun s =>
        (s.servers 1).kv.lastRequestIdMap "c" = some 1 ∧
          (s.servers 1).handlers[2]?.map (fun h => (h.op.ClientId,h.op.RequestId)) = some ("c",2)) = true := by
      decide +kernel
    simp only [ran,Option.any_some,decide_eq_true_eq] at early
    refine ⟨fun h there last held => ?_,each_plain (by decide)⟩
    obtain ⟨table,request⟩ := early
    rw [there] at request
    obtain ⟨client,id⟩ := Prod.mk.inj (Option.some.inj request)
    rw [client,table] at held
    cases held
    omega

theorem linearizable_getNext : ∃ s,
    Run.run step twoServers ((putTwice ++ getNext) ++ .serve 1 (.execGetOpOnKVDB 2) :: getReturns) = some s ∧
    s.events = [.call ⟨"Put","k","x","c",1⟩,.ret ⟨"Put","k","x","c",1⟩ "",
      .call ⟨"Get","k","","c",2⟩,.ret ⟨"Get","k","","c",2⟩ "x"] ∧ Linearizable kvObject s.events := by
  have runs : (Run.run step twoServers ((putTwice ++ getNext) ++ .serve 1 (.execGetOpOnKVDB 2) :: getReturns)).any
      (fun s => s.events = [.call ⟨"Put","k","x","c",1⟩,.ret ⟨"Put","k","x","c",1⟩ "",
        .call ⟨"Get","k","","c",2⟩,.ret ⟨"Get","k","","c",2⟩ "x"]) = true := by decide +kernel
  obtain ⟨s,ran,events⟩ := (Option.any_eq_true ..).mp runs
  have reach := Run.reach_of_each (.start : Run.Reach step Keeps twoServers twoServers) _ each_getNext ran
  exact ⟨s,ran,of_decide_eq_true events,linearizable 2 10 (fun _ _ => 0) s reach⟩

end KvSystem
end KvStorage
