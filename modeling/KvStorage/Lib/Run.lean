/-! Runs of a partial step function. `Reach` collects the states of all finite
runs whose steps meet a side condition, `run` executes one list of actions. -/
namespace KvStorage.Run

/-- States reached from `first` by enabled steps, each meeting `ok` where it is taken. -/
inductive Reach (step : S → A → Option S) (ok : S → A → Prop) (first : S) : S → Prop where
  | start : Reach step ok first first
  | next : Reach step ok first s → ok s a → step s a = some s' → Reach step ok first s'

variable {step : S → A → Option S} {ok : S → A → Prop} {first s : S}

/-- An invariant may assume that the state it is carried from is itself reachable. -/
theorem Reach.invariant (property : S → Prop) (initial : property first)
    (preserved : ∀ s a s', Reach step ok first s → property s → ok s a →
      step s a = some s' → property s')
    (reach : Reach step ok first s) : property s := by
  induction reach with
  | start => exact initial
  | next before met taken ih => exact preserved _ _ _ before ih met taken

theorem Reach.weaken {weaker : S → A → Prop} (implied : ∀ s a, ok s a → weaker s a)
    (reach : Reach step ok first s) : Reach step weaker first s := by
  induction reach with
  | start => exact .start
  | next _ met taken ih => exact .next ih (implied _ _ met) taken

/-- No side condition: every enabled step may be taken. -/
def always : S → A → Prop := fun _ _ => True

theorem Reach.always (reach : Reach step ok first s) : Reach step Run.always first s :=
  reach.weaken fun _ _ _ => trivial

def run (step : S → A → Option S) : S → List A → Option S
  | s, [] => some s
  | s, a :: rest => (step s a).bind fun next => run step next rest

theorem Reach.run (reach : Reach step Run.always first s) (actions : List A)
    (finished : Run.run step s actions = some final) : Reach step Run.always first final := by
  induction actions generalizing s with
  | nil => cases finished; exact reach
  | cons a rest ih =>
    obtain ⟨next,taken,later⟩ := Option.bind_eq_some_iff.mp finished
    exact ih (.next reach trivial taken) later

/-- An executed list of actions is a run. -/
theorem reach_of_run (actions : List A) (finished : Run.run step first actions = some final) :
    Reach step Run.always first final :=
  Reach.run .start actions finished

theorem run_append (one two : List A) (s : S) :
    run step s (one ++ two) = (run step s one).bind fun t => run step t two := by
  induction one generalizing s with
  | nil => rfl
  | cons a rest ih =>
    rw [List.cons_append,run,run,Option.bind_assoc]
    exact congrArg _ (funext fun next => ih next)

theorem run_snoc {front : List A} {a : A} :
    run step s (front ++ [a]) = some final ↔ ∃ t, run step s front = some t ∧ step t a = some final := by
  rw [run_append,Option.bind_eq_some_iff]
  simp [run]

/-- Steps that fail their side condition are not taken. -/
def guarded (step : S → A → Option S) (ok : S → A → Prop) [∀ s a, Decidable (ok s a)] (s : S) (a : A) :
    Option S :=
  if ok s a then step s a else none

/-- An executed list of actions that each met `ok`. -/
theorem reach_of_guarded [∀ s a, Decidable (ok s a)] (actions : List A)
    (finished : Run.run (guarded step ok) s actions = some final)
    (reach : Reach step ok first s) : Reach step ok first final := by
  induction actions generalizing s with
  | nil => cases finished; exact reach
  | cons a rest ih =>
    obtain ⟨next,taken,later⟩ := Option.bind_eq_some_iff.mp finished
    unfold guarded at taken
    split at taken
    · next met => exact ih later (.next reach met taken)
    · simp at taken

/-- Where each step but a last one lowers a rank, repeating the step ends. -/
theorem ends {a : A} (inv final : S → Prop) (rank : S → Nat)
    (progress : ∀ s, inv s → ¬ final s →
      ∃ next, step s a = some next ∧ inv next ∧ (final next ∨ rank next < rank s))
    (start : inv s) : ∃ rounds last, run step s (List.replicate rounds a) = some last ∧ inv last ∧ final last := by
  induction bound : rank s using Nat.strongRecOn generalizing s with
  | _ r ih =>
    by_cases done : final s
    · exact ⟨0,s,rfl,start,done⟩
    obtain ⟨next,taken,kept,ended | lower⟩ := progress s start done
    · exact ⟨1,next,by simp [run,taken],kept,ended⟩
    · obtain ⟨rounds,last,ran,held,ended⟩ := ih (rank next) (bound ▸ lower) kept rfl
      exact ⟨rounds + 1,last,by rw [List.replicate_succ,run,taken]; exact ran,held,ended⟩

/-- `property` holds at every step that the run of these actions takes. -/
def Each (step : S → A → Option S) (property : S → A → Prop) : S → List A → Prop
  | _, [] => True
  | s, a :: rest => ∀ next, step s a = some next → property s a ∧ Each step property next rest

/-- Properties that agree where an invariant holds, which either of them keeps, agree on runs. -/
theorem each_iff {one two : S → A → Prop} (inv : S → Prop)
    (same : ∀ s a next, inv s → step s a = some next → (one s a ↔ two s a))
    (kept : ∀ s a next, inv s → step s a = some next → one s a → inv next)
    (actions : List A) (start : inv s) : Each step one s actions ↔ Each step two s actions := by
  induction actions generalizing s with
  | nil => exact Iff.rfl
  | cons a rest ih =>
    apply forall_congr'
    intro next
    apply imp_congr_right
    intro taken
    have here := same s a next start taken
    constructor
    · rintro ⟨first,later⟩
      exact ⟨here.mp first,(ih (kept s a next start taken first)).mp later⟩
    · rintro ⟨first,later⟩
      have first := here.mpr first
      exact ⟨first,(ih (kept s a next start taken first)).mpr later⟩

theorem each_true (actions : List A) : Each step (fun _ _ => True) s actions := by
  induction actions generalizing s with
  | nil => trivial
  | cons a rest ih => exact fun _ _ => ⟨trivial,ih⟩

/-- A run each of whose steps meets a condition reaches its end under it. -/
theorem reach_of_each (reach : Reach step ok first s) (actions : List A) (each : Each step ok s actions)
    (finished : run step s actions = some final) : Reach step ok first final := by
  induction actions generalizing s with
  | nil =>
    cases finished
    exact reach
  | cons a rest ih =>
    obtain ⟨next,taken,later⟩ := Option.bind_eq_some_iff.mp finished
    obtain ⟨here,there⟩ := each next taken
    exact ih (.next reach here taken) there later

theorem each_append {property : S → A → Prop} (one two : List A) (each : Each step property s (one ++ two))
    (ran : run step s one = some final) : Each step property final two := by
  induction one generalizing s with
  | nil =>
    cases ran
    exact each
  | cons a rest ih =>
    obtain ⟨next,taken,later⟩ := Option.bind_eq_some_iff.mp ran
    exact ih (each next taken).2 later

theorem each_of_forall {property : S → A → Prop} (actions : List A) (all : ∀ a ∈ actions, ∀ s, property s a) :
    Each step property s actions := by
  induction actions generalizing s with
  | nil => trivial
  | cons a rest ih =>
    intro next _
    exact ⟨all a List.mem_cons_self s,ih fun b inside => all b (List.mem_cons_of_mem _ inside)⟩

theorem each_append_of {property : S → A → Prop} (one two : List A) (each : Each step property s one)
    (later : ∀ final, run step s one = some final → Each step property final two) :
    Each step property s (one ++ two) := by
  induction one generalizing s with
  | nil => exact later s rfl
  | cons a rest ih =>
    intro next taken
    obtain ⟨here,there⟩ := each next taken
    refine ⟨here,ih there fun final ran => later final ?_⟩
    rw [run,taken]
    exact ran

/-- What every step does to a state, where it can be chained, is what every stretch of the run does. -/
theorem each_related_iff (related : S → S → Prop) (refl : ∀ s, related s s)
    (trans : ∀ s t u, related s t → related t u → related s u) (actions : List A) :
    Each step (fun s a => ∀ next, step s a = some next → related s next) s actions ↔
      ∀ one two rest t u, actions = one ++ (two ++ rest) → run step s one = some t → run step t two = some u → related t u := by
  constructor
  · rintro each one two rest t u rfl first second
    have later := each_append one (two ++ rest) each first
    clear each first
    induction two generalizing t with
    | nil =>
      cases second
      exact refl _
    | cons a two ih =>
      obtain ⟨next,taken,ran⟩ := Option.bind_eq_some_iff.mp second
      obtain ⟨here,there⟩ := later next taken
      exact trans t next u (here next taken) (ih next ran there)
  · intro all
    induction actions generalizing s with
    | nil => trivial
    | cons a actions ih =>
      intro next taken
      constructor
      · intro next' taken'
        exact all [] [a] actions s next' rfl rfl (by simp [run,taken'])
      · apply ih
        intro one two rest t u split first second
        exact all (a :: one) two rest t u (by rw [split]; rfl) (by rw [run,taken]; exact first) second

end KvStorage.Run
