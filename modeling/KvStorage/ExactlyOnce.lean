import KvStorage.StateMachine

/-! Requests are numbered one at a time by each client and retried until answered, so a
committed sequence may hold a request many times. Only the first copy takes effect. -/
namespace KvStorage

/-- The entries without the copies that come after the first one of each request. -/
def firstCopies : List Op → List Op
  | [] => []
  | op :: rest => op :: (firstCopies rest).filter fun other => ¬ other.SameRequest op

/-- The first copy of each Put and Append. -/
def firstWrites (entries : List Op) : List Op := (firstCopies entries).filter Op.Mutates

/-- Copies repeat one operation, and first copies follow the numbering of their client. -/
structure ClerkOrder (entries : List Op) : Prop where
  retried : ∀ op ∈ entries, ∀ other ∈ entries, op.SameRequest other → op = other
  increasing : (firstCopies entries).Pairwise fun op later =>
    op.ClientId = later.ClientId → op.RequestId < later.RequestId

instance (entries : List Op) : Decidable (ClerkOrder entries) :=
  decidable_of_iff ((∀ op ∈ entries, ∀ other ∈ entries, op.SameRequest other → op = other) ∧
      (firstCopies entries).Pairwise fun op later =>
        op.ClientId = later.ClientId → op.RequestId < later.RequestId)
    ⟨fun order => ⟨order.1,order.2⟩,fun order => ⟨order.1,order.2⟩⟩

theorem firstCopies_append (entries : List Op) (op : Op) : firstCopies (entries ++ [op]) =
    if ∃ other ∈ entries, op.SameRequest other then firstCopies entries
    else firstCopies entries ++ [op] := by
  induction entries with
  | nil => simp [firstCopies]
  | cons first rest ih =>
    simp only [List.cons_append,firstCopies,ih,List.exists_mem_cons_iff]
    by_cases later : ∃ other ∈ rest, op.SameRequest other
    · simp [later]
    · by_cases same : op.SameRequest first <;> simp [later,same]

theorem mem_firstCopies {entries : List Op} {op : Op} (inside : op ∈ entries) :
    ∃ first ∈ firstCopies entries, op.SameRequest first := by
  induction entries with
  | nil => cases inside
  | cons head rest ih =>
    by_cases same : op.SameRequest head
    · exact ⟨head,List.mem_cons_self,same⟩
    · rcases List.mem_cons.mp inside with rfl | inside
      · exact absurd ⟨rfl,rfl⟩ same
      · obtain ⟨first,here,copy⟩ := ih inside
        have other : ¬ first.SameRequest head :=
          fun eq => same ⟨copy.1.trans eq.1,copy.2.trans eq.2⟩
        exact ⟨first,List.mem_cons_of_mem _ (List.mem_filter.mpr ⟨here,by simpa using other⟩),copy⟩

theorem ClerkOrder.init {entries : List Op} {op : Op} (order : ClerkOrder (entries ++ [op])) :
    ClerkOrder entries := by
  refine ⟨fun a one b two => order.retried a (List.mem_append_left _ one) b (List.mem_append_left _ two),?_⟩
  have increasing := order.increasing
  rw [firstCopies_append] at increasing
  split at increasing
  · exact increasing
  · exact (List.pairwise_append.mp increasing).1

namespace Machine

/-- A recorded id is that of a request among the entries. -/
theorem replay_last {entries : List Op} {client : String} {id : Int}
    (held : (replay entries).last client = some id) :
    ∃ op ∈ entries, op.ClientId = client ∧ op.RequestId = id := by
  induction entries using List.reverseRecOn with
  | nil => cases held
  | append_singleton entries op ih =>
    have old (held : (replay entries).last client = some id) :
        ∃ other ∈ entries ++ [op], other.ClientId = client ∧ other.RequestId = id := by
      obtain ⟨other,inside,rest⟩ := ih held
      exact ⟨other,List.mem_append_left _ inside,rest⟩
    rw [replay_append] at held
    by_cases taken : op.Mutates ∧ ¬ (replay entries).Duplicate op
    · rw [apply_fresh taken.1 taken.2] at held
      by_cases same : client = op.ClientId
      · refine ⟨op,List.mem_append_right _ (List.mem_singleton.mpr rfl),same.symm,?_⟩
        simpa [same] using held
      · exact old (by simpa [same] using held)
    · rw [apply,if_neg taken] at held
      exact old held

/-- A request that was not seen before is above every id recorded for its client. -/
theorem not_duplicate_of_first {entries : List Op} {op : Op} (order : ClerkOrder (entries ++ [op]))
    (first : ¬ ∃ other ∈ entries, op.SameRequest other) : ¬ (replay entries).Duplicate op := by
  rintro ⟨last,held,covers⟩
  obtain ⟨other,inside,client,rfl⟩ := replay_last held
  obtain ⟨copy,here,same⟩ := mem_firstCopies inside
  have increasing := order.increasing
  rw [firstCopies_append,if_neg first] at increasing
  have below := (List.pairwise_append.mp increasing).2.2 copy here op (List.mem_singleton.mpr rfl)
    (same.1.symm.trans client)
  have id := same.2
  omega

theorem replay_contents {entries : List Op} (order : ClerkOrder entries) :
    (replay entries).contents = (firstWrites entries).foldl Op.effect (fun _ => none) := by
  induction entries using List.reverseRecOn with
  | nil => rfl
  | append_singleton entries op ih =>
    rw [replay_append]
    by_cases copied : ∃ other ∈ entries, op.SameRequest other
    · obtain ⟨other,inside,same⟩ := copied
      have eq : op = other := order.retried op (by simp) other (List.mem_append_left _ inside) same
      rw [apply_replayed (eq ▸ inside),ih order.init,firstWrites,firstWrites,firstCopies_append,
        if_pos ⟨other,inside,same⟩]
    · rw [firstWrites,firstCopies_append,if_neg copied,List.filter_append,List.foldl_append]
      by_cases mutates : op.Mutates
      · rw [apply_fresh mutates (not_duplicate_of_first order copied),ih order.init,firstWrites]
        simp [mutates]
      · rw [apply_of_not_mutates mutates,ih order.init,firstWrites]
        simp [mutates]

end Machine

namespace KvServer

/-- The commands are handed to the server one by one from index `first` on. -/
def feed (size : Int → Int) (kv : KvServer) (first : Int) : List Op → KvServer
  | [] => kv
  | op :: rest => feed size (kv.getCommandFromRaft (size first) op first).1 (first + 1) rest

theorem feed_machine (size : Int → Int) (kv : KvServer) (first : Int) (entries : List Op)
    (ahead : kv.lastSnapShotRaftLogIndex < first) :
    (kv.feed size first entries).machine = entries.foldl Machine.apply kv.machine := by
  induction entries generalizing kv first with
  | nil => rfl
  | cons op rest ih =>
    rw [feed,ih _ _ (by simp; omega),machine_getCommandFromRaft,if_neg (not_le.mpr ahead)]
    rfl

theorem feed_new (size : Int → Int) (maxRaftStateSize : Int) (rand : Nat → Nat) (entries : List Op) :
    ((new maxRaftStateSize rand).feed size 1 entries).machine = .replay entries := by
  rw [feed_machine _ _ _ _ Int.zero_lt_one,machine_new]
  rfl

/-- The contents are those of the first copies in order, so they do not depend on the retries. -/
theorem exactly_once (maxRaftStateSize : Int) (rand : Nat → Nat) (size : Int → Int) (entries : List Op)
    (order : ClerkOrder entries) :
    ((new maxRaftStateSize rand).feed size 1 entries).skipList.contents =
      (firstWrites entries).foldl Op.effect (fun _ => none) ∧
    ∀ maxRaftStateSize' rand' size' retried, ClerkOrder retried → firstWrites retried = firstWrites entries →
      ((new maxRaftStateSize' rand').feed size' 1 retried).skipList.contents =
        ((new maxRaftStateSize rand).feed size 1 entries).skipList.contents := by
  have fed : ∀ maxRaftStateSize rand size entries, ClerkOrder entries →
      ((new maxRaftStateSize rand).feed size 1 entries).skipList.contents =
        (firstWrites entries).foldl Op.effect (fun _ => none) :=
    fun maxRaftStateSize rand size entries order =>
      (congrArg Machine.contents (feed_new size maxRaftStateSize rand entries)).trans
        (Machine.replay_contents order)
  refine ⟨fed _ _ _ _ order,fun _ _ _ _ order' same => ?_⟩
  rw [fed _ _ _ _ order',fed _ _ _ _ order,same]

/-- A Put and an Append, both committed again after a later Get. -/
def retriedEntries : List Op :=
  [⟨"Put","k","x","c",1⟩,⟨"Append","k","y","c",2⟩,⟨"Get","k","","c",3⟩,⟨"Put","k","x","c",1⟩,
    ⟨"Append","k","y","c",2⟩]

theorem exactly_once_retriedEntries :
    ((new (-1) fun _ => 0).feed (fun _ => 0) 1 retriedEntries).skipList.contents "k" = some "xy" :=
  congrFun (exactly_once (-1) (fun _ => 0) (fun _ => 0) retriedEntries (by decide)).1 "k"

end KvServer
end KvStorage
