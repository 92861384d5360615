import Mathlib.Order.WellFoundedSet
import Mathlib.Data.Set.Finite.Basic
import Mathlib.Logic.Function.Basic
import KvStorage.Lib.Majority

/-! Replication of a log under leaders elected one a term, without indexes, messages
or snapshots: a replica either keeps its log or takes over a whole log, and the
facts that matter later (who asked, who voted, what was led and acknowledged) are
recorded as they happen. -/
namespace KvStorage.Replication

structure Replicas (V T E : Type) where
  term : V → T
  log : V → List E
  /-- A candidate asked for votes in a term, with this log. -/
  asked : V → T → List E → Prop
  /-- A vote in a term for a candidate, given on this log, before the term had a leader. -/
  voted : V → T → V → List E → Prop
  /-- The log a term's leader started with. -/
  elected : T → List E → Prop
  /-- Every log the term's leader ever had. -/
  led : T → List E → Prop
  acked : V → T → List E → Prop

variable {V T E : Type}

/-! ### Prefixes -/

theorem prefix_of_longer {P Q L : List E} (comparable : P <+: Q ∨ Q <+: P) (below : L <+: Q)
    (longer : P.length ≤ L.length) : P <+: L := by
  rcases comparable with sub | sub
  · exact List.prefix_of_prefix_length_le sub below longer
  · exact (below.trans sub).eq_of_length_le longer ▸ List.prefix_rfl

/-- Every entry came with its whole prefix from the leader of its term. -/
def Replicas.Traced (termOf : E → T) (s : Replicas V T E) (L : List E) : Prop :=
  ∀ P e, P ++ [e] <+: L → s.led (termOf e) (P ++ [e])

section Traced

variable {termOf : E → T} {s s' : Replicas V T E}

theorem Replicas.Traced.shorter {L L' : List E} (traced : s.Traced termOf L) (sub : L' <+: L) :
    s.Traced termOf L' :=
  fun P e inside => traced P e (inside.trans sub)

theorem Replicas.Traced.append {L : List E} {e : E} (traced : s.Traced termOf L)
    (led : s.led (termOf e) (L ++ [e])) : s.Traced termOf (L ++ [e]) := by
  intro P f inside
  rcases List.prefix_concat_iff.mp inside with whole | inside
  · obtain ⟨rfl,same⟩ := List.append_inj' whole rfl
    obtain rfl := List.singleton_inj.mp same
    exact led
  · exact traced P f inside

theorem Replicas.Traced.mono {L : List E} (traced : s.Traced termOf L)
    (led : ∀ {t L}, s.led t L → s'.led t L) : s'.Traced termOf L :=
  fun P e inside => led (traced P e inside)

end Traced

/-! ### What a run has established -/

variable [LinearOrder T] (termOf : E → T)

/-- The last entry is of a higher term, or of the same term in a log no shorter. -/
def UpToDate (candidate voter : List E) : Prop :=
  ∀ f ∈ voter.getLast?, ∃ g ∈ candidate.getLast?, termOf f < termOf g ∨
    (termOf f = termOf g ∧ voter.length ≤ candidate.length)

theorem UpToDate.refl (L : List E) : UpToDate termOf L L :=
  fun f last => ⟨f,last,.inr ⟨rfl,le_rfl⟩⟩

namespace Replicas

variable (s : Replicas V T E)

/-- Some leader after `t` started without `P`. -/
def Lost (P : List E) (t : T) (until' : T → Prop) : Prop :=
  ∃ t' L₀, s.elected t' L₀ ∧ t < t' ∧ until' t' ∧ ¬ P <+: L₀

variable [Fintype V]

/-- A log of a term's leader that ends in that term, acknowledged by a majority. -/
structure Committed (t : T) (P : List E) : Prop where
  led : s.led t P
  last : ∃ front e, P = front ++ [e] ∧ termOf e = t
  acked : ∃ A : Finset V, Majority A ∧ ∀ v ∈ A, s.acked v t P

/-- What is known by term `t` to be committed. -/
def Known (t : T) (K : List E) : Prop :=
  K = [] ∨ ∃ t' P, t' ≤ t ∧ s.Committed termOf t' P ∧ K <+: P

/-- `L'` is `L`, or replaced it as a longer log committed before `t`. -/
def Continues (t : T) (L L' : List E) : Prop :=
  L' = L ∨ ∃ t' P, t' < t ∧ s.Committed termOf t' P ∧ L' <+: P ∧ L.length ≤ L'.length

/-- A majority voted for a candidate, which then started to lead with `L₀`. -/
def Chosen (t : T) (L₀ : List E) : Prop :=
  ∃ c L, s.asked c t L ∧ (∃ A : Finset V, Majority A ∧ ∀ v ∈ A, ∃ L', s.voted v t c L') ∧
    s.Continues termOf t L L₀

structure Sound : Prop where
  finite : {t | ∃ L, s.elected t L}.Finite
  started : ∀ {t L}, s.elected t L → s.led t L
  origin : ∀ {t L}, s.led t L → ∃ L₀, s.elected t L₀ ∧ L₀ <+: L
  chain : ∀ {t L L'}, s.led t L → s.led t L' → L <+: L' ∨ L' <+: L
  ledTerm : ∀ {t L}, s.led t L → ∀ e ∈ L, termOf e ≤ t
  ledTraced : ∀ {t L}, s.led t L → s.Traced termOf L
  logTerm : ∀ {v}, ∀ e ∈ s.log v, termOf e ≤ s.term v
  logTraced : ∀ v, s.Traced termOf (s.log v)
  askedOnce : ∀ {c t L L'}, s.asked c t L → s.asked c t L' → L = L'
  askedTerm : ∀ {c t L}, s.asked c t L → t ≤ s.term c ∧ ∀ e ∈ L, termOf e < t
  askedTraced : ∀ {c t L}, s.asked c t L → s.Traced termOf L
  votedFor : ∀ {v t c L}, s.voted v t c L →
    t ≤ s.term v ∧ ∃ L', s.asked c t L' ∧ UpToDate termOf L' L
  votedTraced : ∀ {v t c L}, s.voted v t c L → s.Traced termOf L
  ackedLed : ∀ {v t P}, s.acked v t P → s.led t P ∧ t ≤ s.term v
  /-- A replica forgets what it acknowledged only to a leader that lacked it. -/
  kept : ∀ {v t P}, s.acked v t P → P <+: s.log v ∨ s.Lost P t (· ≤ s.term v)
  carried : ∀ {v t t' c L P}, s.voted v t' c L → s.acked v t P → t < t' →
    P <+: L ∨ s.Lost P t (· < t')
  /-- Until its term has a leader a candidate's log can only become a longer committed one. -/
  candidate : ∀ {c t L}, s.asked c t L → s.term c = t → (∀ L', ¬ s.elected t L') →
    s.Continues termOf t L (s.log c)
  chosen : ∀ {t L₀}, s.elected t L₀ → s.Chosen termOf t L₀

end Replicas

/-- Facts are recorded for good and terms do not fall. -/
structure Grows (s s' : Replicas V T E) : Prop where
  term : ∀ v, s.term v ≤ s'.term v
  asked : ∀ {c t L}, s.asked c t L → s'.asked c t L
  voted : ∀ {v t c L}, s.voted v t c L → s'.voted v t c L
  elected : ∀ {t L}, s.elected t L → s'.elected t L
  led : ∀ {t L}, s.led t L → s'.led t L
  acked : ∀ {v t P}, s.acked v t P → s'.acked v t P

variable {termOf} {s s' : Replicas V T E}

namespace Grows

theorem lost (grows : Grows s s') {P : List E} {t : T} {until' until'' : T → Prop}
    (lost : s.Lost P t until') (implied : ∀ t, until' t → until'' t) : s'.Lost P t until'' := by
  obtain ⟨t',L,won,after,reached,lacks⟩ := lost
  exact ⟨t',L,grows.elected won,after,implied t' reached,lacks⟩

variable [Fintype V] (grows : Grows s s')
include grows

theorem committed {t : T} {P : List E} (done : s.Committed termOf t P) : s'.Committed termOf t P :=
  ⟨grows.led done.led,done.last,done.acked.imp fun _ some => ⟨some.1,fun v m => grows.acked (some.2 v m)⟩⟩

theorem continues {t : T} {L L' : List E} (before : s.Continues termOf t L L') :
    s'.Continues termOf t L L' :=
  before.imp_right fun ⟨t',P,order,done,rest⟩ => ⟨t',P,order,grows.committed done,rest⟩

theorem chosen {t : T} {L₀ : List E} (before : s.Chosen termOf t L₀) : s'.Chosen termOf t L₀ := by
  obtain ⟨c,L,asked,⟨A,most,voted⟩,start⟩ := before
  exact ⟨c,L,grows.asked asked,⟨A,most,fun v member => (voted v member).imp fun _ => grows.voted⟩,
    grows.continues start⟩

theorem known {t : T} {K : List E} (known : s.Known termOf t K) : s'.Known termOf t K :=
  known.imp_right fun ⟨t',P,order,done,sub⟩ => ⟨t',P,order,grows.committed done,sub⟩

end Grows

namespace Replicas

variable [Fintype V]

theorem Known.mono (known : s.Known termOf t K) (order : t ≤ t') : s.Known termOf t' K :=
  known.imp_right fun ⟨t₁,P,early,rest⟩ => ⟨t₁,P,early.trans order,rest⟩

theorem Known.shorter (known : s.Known termOf t K) (sub : K' <+: K) : s.Known termOf t K' := by
  rcases known with rfl | ⟨t₁,P,early,committed,inside⟩
  · exact .inl (List.prefix_nil.mp sub)
  · exact .inr ⟨t₁,P,early,committed,sub.trans inside⟩

theorem Known.traced (sound : s.Sound termOf) (known : s.Known termOf t K) : s.Traced termOf K := by
  rcases known with rfl | ⟨t₁,P,early,committed,inside⟩
  · intro P e sub; simp at sub
  · exact (sound.ledTraced committed.led).shorter inside

/-- Two traced logs with entries of one term at one place agree up to there. -/
theorem Traced.agree (sound : s.Sound termOf) {L L' P P' : List E} {e e' : E}
    (traced : s.Traced termOf L) (traced' : s.Traced termOf L') (inside : P ++ [e] <+: L)
    (inside' : P' ++ [e'] <+: L') (length : P.length = P'.length)
    (term : termOf e = termOf e') : P ++ [e] = P' ++ [e'] := by
  have led := traced P e inside
  have led' := traced' P' e' inside'
  rw [term] at led
  rcases sound.chain led led' with sub | sub
  · exact sub.eq_of_length (by simp [length])
  · exact (sub.eq_of_length (by simp [length])).symm

section Agreement

/-- Two committed logs of terms before `t` are comparable when the leaders before `t` keep
what was committed. -/
theorem Sound.comparable_of (sound : s.Sound termOf) {t t' : T} {P P' : List E}
    (keeps : ∀ {t₁ t₂ L₀ Q}, t₂ = t ∨ t₂ = t' → s.elected t₂ L₀ → s.Committed termOf t₁ Q →
      t₁ < t₂ → Q <+: L₀)
    (one : s.Committed termOf t P) (two : s.Committed termOf t' P') : P <+: P' ∨ P' <+: P := by
  rcases lt_trichotomy t t' with less | rfl | more
  · obtain ⟨L₀,won,sub⟩ := sound.origin two.led
    exact .inl ((keeps (.inr rfl) won one less).trans sub)
  · exact sound.chain one.led two.led
  · obtain ⟨L₀,won,sub⟩ := sound.origin one.led
    exact .inr ((keeps (.inl rfl) won two more).trans sub)

variable [DecidableEq V]

/-- Leader completeness: a leader starts with everything committed in earlier terms. -/
theorem Sound.complete (sound : s.Sound termOf) {t t' : T} {P L₀ : List E}
    (won : s.elected t' L₀) (committed : s.Committed termOf t P) (later : t < t') :
    P <+: L₀ := by
  -- by induction on the later term, among the finitely many that have a leader
  suffices all : ∀ t' ∈ {t | ∃ L, s.elected t L}, ∀ {L₀ t P}, s.elected t' L₀ →
      s.Committed termOf t P → t < t' → P <+: L₀ from all t' ⟨L₀,won⟩ won committed later
  intro t' member
  refine (sound.finite.wellFoundedOn (r := (· < ·))).induction member
    (P := fun t' => ∀ {L₀ t P}, s.elected t' L₀ → s.Committed termOf t P → t < t' → P <+: L₀) ?_
  intro t' _ before L₀ t P won committed later
  obtain ⟨c,L,asked,⟨A,most,voted⟩,start⟩ := sound.chosen won
  obtain ⟨B,most',acked⟩ := committed.acked
  obtain ⟨v,inA,inB⟩ := most.meet most'
  obtain ⟨L',vote⟩ := voted v inA
  have held : P <+: L' := by
    rcases sound.carried vote (acked v inB) later with held | ⟨t'',L'',won',after,below,lacks⟩
    · exact held
    · exact absurd (before t'' ⟨L'',won'⟩ below won' committed after) lacks
  have taken : P <+: L := by
    obtain ⟨front,e,rfl,rfl⟩ := committed.last
    obtain ⟨rest,rfl⟩ := held
    obtain ⟨_,L₁,asked',newer⟩ := sound.votedFor vote
    obtain rfl := sound.askedOnce asked asked'
    obtain ⟨f,last⟩ : ∃ f, (front ++ [e] ++ rest).getLast? = some f :=
      ⟨_,List.getLast?_eq_some_getLast (by simp)⟩
    obtain ⟨g,last',order⟩ := newer f last
    obtain ⟨init,eq⟩ := List.getLast?_eq_some_iff.mp last
    obtain ⟨init',rfl⟩ := List.getLast?_eq_some_iff.mp last'
    have above : termOf e ≤ termOf f := sound.ledTerm
      (sound.votedTraced vote init f (by rw [eq])) e (by rw [← eq]; simp)
    have led := sound.askedTraced asked init' g List.prefix_rfl
    have below : termOf g < t' := (sound.askedTerm asked).2 g (by simp)
    by_cases same : termOf e = termOf g
    · have shorter : (front ++ [e] ++ rest).length ≤ (init' ++ [g]).length := by
        rcases order with less | ⟨_,shorter⟩
        · exact absurd (lt_of_le_of_lt above less) (by rw [same]; exact lt_irrefl _)
        · exact shorter
      refine prefix_of_longer (sound.chain (same ▸ committed.led) led) List.prefix_rfl ?_
      refine le_trans ?_ shorter
      simp
    · have less : termOf e < termOf g := by
        rcases order with less | ⟨equal,_⟩
        · exact lt_of_le_of_lt above less
        · exact lt_of_le_of_ne (equal ▸ above) same
      obtain ⟨L₂,won₂,sub⟩ := sound.origin led
      exact (before _ ⟨L₂,won₂⟩ below won₂ committed less).trans sub
  rcases start with rfl | ⟨t₁,P₁,early,committed₁,below,longer⟩
  · exact taken
  · have comparable : P <+: P₁ ∨ P₁ <+: P := by
      refine sound.comparable_of (fun {_ t₂ _ _} which won₂ done less => ?_) committed committed₁
      have under : t₂ < t' := by rcases which with rfl | rfl; exacts [later,early]
      exact before t₂ ⟨_,won₂⟩ under won₂ done less
    exact prefix_of_longer comparable below (taken.length_le.trans longer)

/-- Agreement: whatever is committed is one log. -/
theorem Sound.comparable (sound : s.Sound termOf) {t t' : T} {P P' : List E}
    (one : s.Committed termOf t P) (two : s.Committed termOf t' P') : P <+: P' ∨ P' <+: P :=
  sound.comparable_of (fun _ won done less => sound.complete won done less) one two

/-- What is committed by a leader's term is comparable to every log it leads. -/
theorem Sound.comparable_led (sound : s.Sound termOf) {t t' : T} {P L : List E}
    (committed : s.Committed termOf t P) (led : s.led t' L) (order : t ≤ t') :
    P <+: L ∨ L <+: P := by
  rcases lt_or_eq_of_le order with less | rfl
  · obtain ⟨L₀,won,sub⟩ := sound.origin led
    exact .inl ((sound.complete won committed less).trans sub)
  · exact sound.chain committed.led led

/-- A replica keeps what it acknowledged of a committed log, whatever leaders come later. -/
theorem Sound.acked_holds (sound : s.Sound termOf) {t : T} {P : List E} (committed : s.Committed termOf t P) {v : V}
    (acked : s.acked v t P) : P <+: s.log v := by
  rcases sound.kept acked with held | ⟨t',L₀,won,later,_,lacks⟩
  · exact held
  · exact absurd (sound.complete won committed later) lacks

/-- The longest log that a leader led holds what is committed by its term. -/
theorem Sound.led_holds (sound : s.Sound termOf) {t t' : T} {P L : List E} (committed : s.Committed termOf t P)
    (led : s.led t' L) (latest : ∀ L', s.led t' L' → L' <+: L) (order : t ≤ t') : P <+: L := by
  rcases lt_or_eq_of_le order with less | rfl
  · obtain ⟨L₀,won,sub⟩ := sound.origin led
    exact (sound.complete won committed less).trans sub
  · exact latest P committed.led

end Agreement
end Replicas
end KvStorage.Replication
