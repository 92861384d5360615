import Mathlib

/-! Partial logs over ordered indexes, with the term of each entry. Two logs match when equal
terms at an index mean equal entries up to it. A log that takes a window of a matching log
behind an agreed index still matches it, and loses no agreement. -/
namespace KvStorage.LogMatching

variable {Index Entry Term : Type*} [LinearOrder Index]

/-- Both logs have the same entry wherever both have one, up to `high`. -/
def AgreeTo (mine theirs : Index → Option Entry) (high : Index) : Prop :=
  ∀ i ≤ high, ∀ entry ∈ mine i, ∀ other ∈ theirs i, entry = other

/-- Entries of one term at one index: the logs agree up to there. -/
def Matches (term : Entry → Term) (mine theirs : Index → Option Entry) : Prop :=
  ∀ i, ∀ entry ∈ mine i, ∀ other ∈ theirs i, term entry = term other → AgreeTo mine theirs i

/-- No entry of this term that the other log does not have. -/
def Owns (term : Entry → Term) (t : Term) (mine theirs : Index → Option Entry) : Prop :=
  ∀ i, ∀ entry ∈ mine i, term entry = t → theirs i = some entry

/-- `theirs` above `low` up to `high`, `mine` elsewhere. -/
def pasted (mine theirs : Index → Option Entry) (low high : Index) : Index → Option Entry :=
  fun i => if low < i ∧ i ≤ high then theirs i else mine i

/-- More entries behind the last, all of the term `t`. -/
structure Extends (term : Entry → Term) (t : Term) (theirs longer : Index → Option Entry) : Prop where
  kept : ∀ i, ∀ entry ∈ theirs i, longer i = some entry
  fresh : ∀ i, theirs i = none → ∀ entry ∈ longer i, term entry = t ∧ ∀ j, (theirs j).isSome → j < i

variable {term : Entry → Term} {t : Term} {mine theirs longer : Index → Option Entry} {low high : Index}

theorem Matches.same (matching : Matches term mine theirs) {i : Index} {entry other : Entry}
    (here : mine i = some entry) (there : theirs i = some other) (sameTerm : term entry = term other) :
    entry = other :=
  matching i entry here other there sameTerm i le_rfl entry here other there

theorem pasted_agreeTo (anchored : AgreeTo mine theirs low) :
    AgreeTo (pasted mine theirs low high) theirs high := by
  intro i below entry here other there
  unfold pasted at here
  split at here
  · exact Option.some.inj (here.symm.trans there)
  · next outside => exact anchored i (by by_contra above; exact outside ⟨not_le.mp above,below⟩) entry here other there

theorem Matches.pasted (matching : Matches term mine theirs) (anchored : AgreeTo mine theirs low) :
    Matches term (pasted mine theirs low high) theirs := by
  have taken : AgreeTo (LogMatching.pasted mine theirs low high) theirs high := pasted_agreeTo anchored
  intro i entry here other there sameTerm j below
  by_cases inside : j ≤ high
  · exact taken j inside
  -- beyond the window both indexes lie in the old log
  have above := not_le.mp inside
  intro entry' here' other' there'
  unfold LogMatching.pasted at here here'
  rw [if_neg fun within => absurd within.2 (not_le.mpr (above.trans_le below))] at here
  rw [if_neg fun within => absurd within.2 (not_le.mpr above)] at here'
  exact matching i entry here other there sameTerm j below entry' here' other' there'

theorem Owns.pasted (owns : Owns term t mine theirs) : Owns term t (pasted mine theirs low high) theirs := by
  intro i entry here sameTerm
  unfold LogMatching.pasted at here
  split at here
  · exact here
  · exact owns i entry here sameTerm

theorem pasted_keeps {i : Index} (agreed : mine i = theirs i) : pasted mine theirs low high i = theirs i := by
  unfold pasted
  split
  · rfl
  · exact agreed

theorem Owns.extends (owns : Owns term t mine theirs) (grown : Extends term t theirs longer) :
    Owns term t mine longer := fun i entry here sameTerm =>
  grown.kept i entry (owns i entry here sameTerm)

/-- The other log may grow by entries of a term of which `mine` has only its own. -/
theorem Matches.extends (matching : Matches term mine theirs) (owns : Owns term t mine theirs)
    (grown : Extends term t theirs longer) : Matches term mine longer := by
  intro i entry here other there sameTerm
  cases old : theirs i with
  | none =>
    have fresh := (grown.fresh i old other there).1
    cases old.symm.trans (owns i entry here (sameTerm.trans fresh))
  | some other' =>
    obtain rfl := Option.some.inj ((grown.kept i other' old).symm.trans there)
    intro j below entry' here' later there'
    cases old' : theirs j with
    | none =>
      have above := (grown.fresh j old' later there').2 i (by rw [old]; rfl)
      exact absurd below (not_le.mpr above)
    | some known =>
      obtain rfl := Option.some.inj ((grown.kept j known old').symm.trans there')
      exact matching i entry here other' old sameTerm j below entry' here' known old'

end KvStorage.LogMatching
