/-! Computations that may end the process. The error carries what survives the exit. -/
namespace KvStorage.Exit

variable {ε : Type u} {α β : Type v}

/-- `assert` ends the computation with `left` when the condition fails. -/
def assert (left : ε) (condition : Prop) [Decidable condition] : Except ε Unit :=
  if condition then .ok () else .error left

/-- Indexing outside a vector ends the computation too. -/
def lookup (left : ε) (items : List α) (index : Nat) : Except ε α :=
  match items[index]? with
  | some item => .ok item
  | none => .error left

@[simp] theorem bind_ok {x : Except ε α} {f : α → Except ε β} :
    (x >>= f) = .ok b ↔ ∃ a, x = .ok a ∧ f a = .ok b := by
  cases x <;> simp [Bind.bind,Except.bind]

@[simp] theorem bind_error {x : Except ε α} {f : α → Except ε β} :
    (x >>= f) = .error e ↔ x = .error e ∨ ∃ a, x = .ok a ∧ f a = .error e := by
  cases x <;> simp [Bind.bind,Except.bind]

@[simp] theorem pure_ok {a b : α} : (pure a : Except ε α) = .ok b ↔ a = b := by
  simp [Pure.pure,Except.pure]

@[simp] theorem pure_error {a : α} : ¬ (pure a : Except ε α) = .error e := by
  simp [Pure.pure,Except.pure]

@[simp] theorem assert_ok {condition : Prop} [Decidable condition] {left : ε} {u : Unit} :
    assert left condition = .ok u ↔ condition := by
  simp only [assert]; split <;> simp_all

@[simp] theorem assert_error {condition : Prop} [Decidable condition] {left e : ε} :
    assert left condition = .error e ↔ ¬ condition ∧ left = e := by
  simp only [assert]; split <;> simp_all

@[simp] theorem lookup_ok {left : ε} {items : List α} :
    lookup left items index = .ok item ↔ items[index]? = some item := by
  simp only [lookup]; split <;> simp_all

@[simp] theorem lookup_error {left e : ε} {items : List α} :
    lookup left items index = .error e ↔ items[index]? = none ∧ left = e := by
  simp only [lookup]; split <;> simp_all

@[simp] theorem map_fst_ok {result : Except ε (α × β)} :
    result.map Prod.fst = .ok value ↔ ∃ second, result = .ok (value,second) := by
  cases result <;> simp [Except.map,Prod.ext_iff]

@[simp] theorem map_error {result : Except ε α} {f : α → β} :
    result.map f = .error e ↔ result = .error e := by
  cases result <;> simp [Except.map]

@[simp] theorem toOption_some {result : Except ε α} : result.toOption = some value ↔ result = .ok value := by
  cases result <;> simp [Except.toOption]

end KvStorage.Exit
