import KvStorage.Lib.Replication

/-! The moves of the replication protocol. Each keeps `Sound`, so every reachable
state has one committed log and every replica's log is traced. -/
namespace KvStorage.Replication

variable {V T E : Type} [DecidableEq V]

namespace Replicas

variable (s : Replicas V T E)

def observe (v : V) (t : T) : Replicas V T E := { s with term := Function.update s.term v t }

def ask (c : V) (t : T) : Replicas V T E :=
  { s with asked := fun c' t' L => s.asked c' t' L ∨ (c' = c ∧ t' = t ∧ L = s.log c) }

def vote (v : V) (t : T) (c : V) : Replicas V T E :=
  { s with voted := fun v' t' c' L =>
      s.voted v' t' c' L ∨ (v' = v ∧ t' = t ∧ c' = c ∧ L = s.log v) }

def setLog (v : V) (L : List E) : Replicas V T E := { s with log := Function.update s.log v L }

def lead (t : T) (L : List E) : Replicas V T E :=
  { s with led := fun t' L' => s.led t' L' ∨ (t' = t ∧ L' = L) }

def ack (v : V) (t : T) (P : List E) : Replicas V T E :=
  { s with acked := fun v' t' P' => s.acked v' t' P' ∨ (v' = v ∧ t' = t ∧ P' = P) }

def elect (t : T) (L : List E) : Replicas V T E :=
  { s with elected := fun t' L' => s.elected t' L' ∨ (t' = t ∧ L' = L) }

/-- No votes, no leaders, empty logs, every replica in term `t`. -/
def empty (t : T) : Replicas V T E where
  term _ := t
  log _ := []
  asked _ _ _ := False
  voted _ _ _ _ := False
  elected _ _ := False
  led _ _ := False
  acked _ _ _ := False

end Replicas

/-- A log that already starts with `M` stays, any other is replaced by `M`. -/
def Adopted (M L L' : List E) : Prop := (M <+: L ∧ L' = L) ∨ (¬ M <+: L ∧ L' = M)

theorem Adopted.shorter {M L L' : List E} (adopted : Adopted M L L') : M <+: L' := by
  rcases adopted with ⟨sub,rfl⟩ | ⟨_,rfl⟩
  · exact sub
  · exact List.prefix_rfl

/-- What is comparable to `M` survives its adoption. -/
theorem Adopted.keeps {M L L' K : List E} (adopted : Adopted M L L') (held : K <+: L)
    (comparable : K <+: M ∨ M <+: K) : K <+: L' := by
  rcases adopted with ⟨_,rfl⟩ | ⟨other,rfl⟩
  · exact held
  · exact comparable.resolve_right fun sub => other (sub.trans held)

variable [LinearOrder T] [Fintype V] (termOf : E → T)

open Replicas

inductive Step (s : Replicas V T E) : Replicas V T E → Prop where
  | observe (order : s.term v ≤ t) : Step s (s.observe v t)
  | ask (term : s.term c = t) (first : ∀ L, ¬ s.asked c t L) (below : ∀ e ∈ s.log c, termOf e < t) :
    Step s (s.ask c t)
  | vote (term : s.term v = t) (asked : s.asked c t L) (newer : UpToDate termOf L (s.log v))
    (vacant : ∀ L, ¬ s.elected t L) : Step s (s.vote v t c)
  | elect (term : s.term c = t) (asked : s.asked c t L) (vacant : ∀ L, ¬ s.elected t L)
    (A : Finset V) (most : Majority A) (voted : ∀ v ∈ A, ∃ L', s.voted v t c L') :
    Step s (((s.elect t (s.log c)).lead t (s.log c)).ack c t (s.log c))
  | extend (term : s.term c = t) (led : s.led t (s.log c)) (latest : ∀ L, s.led t L → L <+: s.log c)
    (e : E) (own : termOf e = t) :
    Step s (((s.setLog c (s.log c ++ [e])).lead t (s.log c ++ [e])).ack c t (s.log c ++ [e]))
  | adopt (term : s.term v = t) (led : s.led t M) (adopted : Adopted M (s.log v) L) :
    Step s ((s.setLog v L).ack v t M)
  | restore (known : s.Known termOf (s.term v) C) (long : C <+: s.log v ∨ (s.log v).length ≤ C.length)
    (adopted : Adopted C (s.log v) L) : Step s (s.setLog v L)

variable {termOf} {s s' : Replicas V T E}

theorem Step.grows (step : Step termOf s s') : Grows s s' := by
  cases step with
  | @observe v t order =>
    refine ⟨fun w => ?_,id,id,id,id,id⟩
    by_cases same : w = v
    · subst same; simpa [Replicas.observe] using order
    · simp [Replicas.observe,same]
  | ask => exact ⟨fun _ => le_rfl,.inl,id,id,id,id⟩
  | vote => exact ⟨fun _ => le_rfl,id,.inl,id,id,id⟩
  | elect => exact ⟨fun _ => le_rfl,id,id,.inl,.inl,.inl⟩
  | extend => exact ⟨fun _ => le_rfl,id,id,id,.inl,.inl⟩
  | adopt => exact ⟨fun _ => le_rfl,id,id,id,id,.inl⟩
  | restore => exact ⟨fun _ => le_rfl,id,id,id,id,id⟩

namespace Replicas.Sound

theorem observe (sound : s.Sound termOf) (order : s.term v ≤ t) :
    (s.observe v t).Sound termOf := by
  have grows := (show Step termOf s _ from .observe order).grows
  exact { sound with
    logTerm := fun e member => (sound.logTerm e member).trans (grows.term _)
    askedTerm := fun asked => ⟨(sound.askedTerm asked).1.trans (grows.term _),(sound.askedTerm asked).2⟩
    votedFor := fun vote => ⟨(sound.votedFor vote).1.trans (grows.term _),(sound.votedFor vote).2⟩
    ackedLed := fun acked => ⟨(sound.ackedLed acked).1,(sound.ackedLed acked).2.trans (grows.term _)⟩
    kept := fun acked => (sound.kept acked).imp_right fun lost =>
      grows.lost lost fun _ below => below.trans (grows.term _)
    candidate := by
      intro c t' L asked reached vacant
      have same : s.term c = t' := le_antisymm (reached ▸ grows.term c) (sound.askedTerm asked).1
      exact grows.continues (sound.candidate asked same vacant)
    chosen := fun won => grows.chosen (sound.chosen won) }

theorem ask (sound : s.Sound termOf) (term : s.term c = t) (first : ∀ L, ¬ s.asked c t L)
    (below : ∀ e ∈ s.log c, termOf e < t) : (s.ask c t).Sound termOf := by
  have grows := (show Step termOf s _ from .ask term first below).grows
  exact { sound with
    askedOnce := by
      rintro c' t' L L' (one | ⟨rfl,rfl,rfl⟩) (two | ⟨same,same',rfl⟩)
      · exact sound.askedOnce one two
      · exact absurd (same ▸ same' ▸ one) (first L)
      · exact absurd two (first L')
      · rfl
    askedTerm := by
      rintro c' t' L (asked | ⟨rfl,rfl,rfl⟩)
      · exact sound.askedTerm asked
      · exact ⟨le_of_eq term.symm,below⟩
    askedTraced := by
      rintro c' t' L (asked | ⟨rfl,rfl,rfl⟩)
      · exact sound.askedTraced asked
      · exact sound.logTraced c'
    votedFor := fun vote => (sound.votedFor vote).imp_right fun ⟨L,asked,newer⟩ => ⟨L,.inl asked,newer⟩
    candidate := by
      rintro c' t' L (asked | ⟨rfl,rfl,rfl⟩) reached vacant
      · exact grows.continues (sound.candidate asked reached vacant)
      · exact .inl rfl
    chosen := fun won => grows.chosen (sound.chosen won) }

theorem vote (sound : s.Sound termOf) (term : s.term v = t) (asked : s.asked c t L)
    (newer : UpToDate termOf L (s.log v)) (vacant : ∀ L, ¬ s.elected t L) :
    (s.vote v t c).Sound termOf := by
  have grows := (Step.vote term asked newer vacant).grows
  exact { sound with
    votedFor := by
      rintro v' t' c' L' (vote | ⟨rfl,rfl,rfl,rfl⟩)
      · exact sound.votedFor vote
      · exact ⟨le_of_eq term.symm,L,asked,newer⟩
    votedTraced := by
      rintro v' t' c' L' (vote | ⟨rfl,rfl,rfl,rfl⟩)
      · exact sound.votedTraced vote
      · exact sound.logTraced v'
    carried := by
      rintro v' t₁ t' c' L' P (vote | ⟨rfl,rfl,rfl,rfl⟩) acked later
      · exact sound.carried vote acked later
      · -- a leader that made the voter forget is of an earlier term: this one has none yet
        refine (sound.kept acked).imp_right fun ⟨t₂,L₂,won,after,reached,lacks⟩ => ?_
        have apart : t₂ ≠ t' := fun same => vacant L₂ (same ▸ won)
        exact ⟨t₂,L₂,won,after,lt_of_le_of_ne (term ▸ reached) apart,lacks⟩
    candidate := fun asked reached vacant => grows.continues (sound.candidate asked reached vacant)
    chosen := fun won => grows.chosen (sound.chosen won) }

theorem elect (sound : s.Sound termOf) (term : s.term c = t) (asked : s.asked c t L)
    (vacant : ∀ L, ¬ s.elected t L) (A : Finset V) (most : Majority A)
    (voted : ∀ v ∈ A, ∃ L', s.voted v t c L') :
    (((s.elect t (s.log c)).lead t (s.log c)).ack c t (s.log c)).Sound termOf := by
  have step : Step termOf s _ := .elect term asked vacant A most voted
  have grows := step.grows
  have unled : ∀ {L}, ¬ s.led t L := fun led => by
    obtain ⟨L₀,won,_⟩ := sound.origin led
    exact vacant L₀ won
  exact { sound with
    finite := (sound.finite.insert t).subset fun t' ⟨L',won⟩ => by
      rcases won with won | ⟨rfl,_⟩
      · exact .inr ⟨L',won⟩
      · exact .inl rfl
    started := fun won => won.imp_left sound.started
    origin := by
      rintro t' L' (led | ⟨rfl,rfl⟩)
      · obtain ⟨L₀,won,sub⟩ := sound.origin led
        exact ⟨L₀,.inl won,sub⟩
      · exact ⟨_,.inr ⟨rfl,rfl⟩,List.prefix_rfl⟩
    chain := by
      rintro t' L₁ L₂ (one | ⟨rfl,rfl⟩) (two | ⟨same,rfl⟩)
      · exact sound.chain one two
      · exact absurd (same ▸ one) unled
      · exact absurd two unled
      · exact .inl List.prefix_rfl
    ledTerm := by
      rintro t' L' (led | ⟨rfl,rfl⟩)
      · exact sound.ledTerm led
      · exact term ▸ sound.logTerm
    ledTraced := by
      rintro t' L' (led | ⟨rfl,rfl⟩)
      · exact (sound.ledTraced led).mono grows.led
      · exact (sound.logTraced c).mono grows.led
    logTraced := fun v => (sound.logTraced v).mono grows.led
    askedTraced := fun asked => (sound.askedTraced asked).mono grows.led
    votedTraced := fun vote => (sound.votedTraced vote).mono grows.led
    ackedLed := by
      rintro v t' P (acked | ⟨rfl,rfl,rfl⟩)
      · exact (sound.ackedLed acked).imp_left .inl
      · exact ⟨.inr ⟨rfl,rfl⟩,le_of_eq term.symm⟩
    kept := by
      rintro v t' P (acked | ⟨rfl,rfl,rfl⟩)
      · exact (sound.kept acked).imp_right fun lost => grows.lost lost fun _ => id
      · exact .inl List.prefix_rfl
    carried := by
      rintro v t' t₂ c' L' P vote (acked | ⟨rfl,rfl,rfl⟩) later
      · exact (sound.carried vote acked later).imp_right fun lost => grows.lost lost fun _ => id
      · exact absurd (term ▸ (sound.votedFor vote).1) (not_le.mpr later)
    candidate := fun asked reached vacant =>
      grows.continues (sound.candidate asked reached fun L' won => vacant L' (.inl won))
    chosen := by
      rintro t' L₀ (won | ⟨rfl,rfl⟩)
      · exact grows.chosen (sound.chosen won)
      · exact ⟨c,L,asked,⟨A,most,voted⟩,grows.continues (sound.candidate asked term vacant)⟩ }

/-- One replica's log changes; what that takes. -/
theorem setLog (sound : s.Sound termOf) {v : V} {L : List E} (below : ∀ e ∈ L, termOf e ≤ s.term v)
    (traced : s.Traced termOf L)
    (kept : ∀ {t P}, s.acked v t P → P <+: L ∨ s.Lost P t (· ≤ s.term v))
    (candidate : ∀ {L'}, s.asked v (s.term v) L' → (∀ L₀, ¬ s.elected (s.term v) L₀) →
      s.Continues termOf (s.term v) L' L) : (s.setLog v L).Sound termOf := by
  have grows : Grows s (s.setLog v L) := ⟨fun _ => le_rfl,id,id,id,id,id⟩
  have here : (s.setLog v L).log v = L := Function.update_self ..
  have there : ∀ {w}, w ≠ v → (s.setLog v L).log w = s.log w := fun other =>
    Function.update_of_ne other ..
  exact { sound with
    logTerm := by
      intro w e member
      by_cases same : w = v
      · subst same; exact below e (here ▸ member)
      · exact sound.logTerm e (there same ▸ member)
    logTraced := by
      intro w
      by_cases same : w = v
      · subst same; rw [here]; exact traced
      · rw [there same]; exact sound.logTraced w
    kept := by
      intro w t P acked
      by_cases same : w = v
      · subst same; rw [here]; exact kept acked
      · rw [there same]; exact sound.kept acked
    candidate := by
      intro w t L' asked reached vacant
      by_cases same : w = v
      · subst same; subst reached; rw [here]; exact grows.continues (candidate asked vacant)
      · rw [there same]; exact grows.continues (sound.candidate asked reached vacant)
    chosen := fun won => grows.chosen (sound.chosen won) }

omit [DecidableEq V] in
/-- A replica acknowledges a log of its term's leader that its own log starts with. -/
theorem ack (sound : s.Sound termOf) (term : s.term v = t) (led : s.led t P)
    (held : P <+: s.log v) : (s.ack v t P).Sound termOf := by
  have grows : Grows s (s.ack v t P) := ⟨fun _ => le_rfl,id,id,id,id,.inl⟩
  exact { sound with
    ackedLed := by
      rintro v' t' P' (acked | ⟨rfl,rfl,rfl⟩)
      · exact sound.ackedLed acked
      · exact ⟨led,le_of_eq term.symm⟩
    kept := by
      rintro v' t' P' (acked | ⟨rfl,rfl,rfl⟩)
      · exact sound.kept acked
      · exact .inl held
    carried := by
      rintro v' t' t₂ c L P' vote (acked | ⟨rfl,rfl,rfl⟩) later
      · exact sound.carried vote acked later
      · exact absurd (term ▸ (sound.votedFor vote).1) (not_le.mpr later)
    candidate := fun asked reached vacant => grows.continues (sound.candidate asked reached vacant)
    chosen := fun won => grows.chosen (sound.chosen won) }

omit [DecidableEq V] in
/-- A leader's log grows beyond every earlier one of its term. -/
theorem lead (sound : s.Sound termOf) {L' : List E} (led : s.led t L)
    (latest : ∀ L', s.led t L' → L' <+: L) (sub : L <+: L') (below : ∀ e ∈ L', termOf e ≤ t)
    (traced : (s.lead t L').Traced termOf L') : (s.lead t L').Sound termOf := by
  have grows : Grows s (s.lead t L') := ⟨fun _ => le_rfl,id,id,id,.inl,id⟩
  exact { sound with
    started := fun won => .inl (sound.started won)
    origin := by
      rintro t' M (led' | ⟨rfl,rfl⟩)
      · exact sound.origin led'
      · obtain ⟨L₀,won,sub'⟩ := sound.origin led
        exact ⟨L₀,won,sub'.trans sub⟩
    chain := by
      rintro t' M M' (one | ⟨rfl,rfl⟩) (two | ⟨same,rfl⟩)
      · exact sound.chain one two
      · exact .inl ((latest M (same ▸ one)).trans sub)
      · exact .inr ((latest M' two).trans sub)
      · exact .inl List.prefix_rfl
    ledTerm := by
      rintro t' M (led' | ⟨rfl,rfl⟩)
      · exact sound.ledTerm led'
      · exact below
    ledTraced := by
      rintro t' M (led' | ⟨rfl,rfl⟩)
      · exact (sound.ledTraced led').mono grows.led
      · exact traced
    logTraced := fun v => (sound.logTraced v).mono grows.led
    askedTraced := fun asked => (sound.askedTraced asked).mono grows.led
    votedTraced := fun vote => (sound.votedTraced vote).mono grows.led
    ackedLed := fun acked => (sound.ackedLed acked).imp_left .inl
    candidate := fun asked reached vacant => grows.continues (sound.candidate asked reached vacant)
    chosen := fun won => grows.chosen (sound.chosen won) }

theorem extend (sound : s.Sound termOf) (term : s.term c = t) (led : s.led t (s.log c))
    (latest : ∀ L, s.led t L → L <+: s.log c) (e : E) (own : termOf e = t) :
    (((s.setLog c (s.log c ++ [e])).lead t (s.log c ++ [e])).ack c t (s.log c ++ [e])).Sound
      termOf := by
  have sub : s.log c <+: s.log c ++ [e] := List.prefix_append ..
  have below : ∀ f ∈ s.log c ++ [e], termOf f ≤ t := by
    intro f member
    rcases List.mem_append.mp member with old | new
    · exact term ▸ sound.logTerm f old
    · rw [List.mem_singleton.mp new,own]
  have traced : (s.lead t (s.log c ++ [e])).Traced termOf (s.log c ++ [e]) :=
    Traced.append ((sound.logTraced c).mono .inl) (.inr ⟨own,rfl⟩)
  have longer := sound.lead led latest sub below traced
  have moved : ((s.lead t (s.log c ++ [e])).setLog c (s.log c ++ [e])).Sound termOf := by
    refine longer.setLog (by simpa [Replicas.lead,term] using below) traced
      (fun acked => ?_) (fun _ vacant => ?_)
    · exact (longer.kept acked).imp_left fun held => held.trans sub
    · obtain ⟨L₀,won,_⟩ := sound.origin led
      exact absurd (term ▸ won) (vacant L₀)
  exact moved.ack term (.inr ⟨rfl,rfl⟩) (by simp [Replicas.setLog,Replicas.lead])

theorem adopt (sound : s.Sound termOf) (term : s.term v = t) (led : s.led t M)
    (adopted : Adopted M (s.log v) L) : ((s.setLog v L).ack v t M).Sound termOf := by
  subst term
  have moved : (s.setLog v L).Sound termOf := by
    rcases adopted with ⟨_,rfl⟩ | ⟨other,rfl⟩
    · rw [Replicas.setLog,Function.update_eq_self]; exact sound
    refine sound.setLog (sound.ledTerm led) (sound.ledTraced led) (fun {t P} acked => ?_)
      fun _ vacant => ?_
    · rcases sound.kept acked with held | lost
      · obtain ⟨ledP,reached⟩ := sound.ackedLed acked
        have apart : ¬ L <+: P := fun sub => other (sub.trans held)
        rcases lt_or_eq_of_le reached with later | same
        · -- a later leader's log replaces the acknowledged one: either it starts with it, or
          -- that leader started without it
          by_cases whole : P <+: L
          · exact .inl whole
          obtain ⟨L₀,won,sub⟩ := sound.origin led
          exact .inr ⟨s.term v,L₀,won,later,le_rfl,fun inside => whole (inside.trans sub)⟩
        · exact .inl ((sound.chain (same ▸ ledP) led).resolve_right apart)
      · exact .inr lost
    · obtain ⟨L₀,won,_⟩ := sound.origin led
      exact absurd won (vacant L₀)
  exact moved.ack rfl led (by simpa [Replicas.setLog] using adopted.shorter)

theorem restore (sound : s.Sound termOf) (known : s.Known termOf (s.term v) C)
    (long : C <+: s.log v ∨ (s.log v).length ≤ C.length) (adopted : Adopted C (s.log v) L) :
    (s.setLog v L).Sound termOf := by
  rcases adopted with ⟨_,rfl⟩ | ⟨other,rfl⟩
  · rw [Replicas.setLog,Function.update_eq_self]; exact sound
  obtain ⟨t,Q,early,committed,sub⟩ := known.resolve_left fun same => other (same ▸ List.nil_prefix)
  have long := long.resolve_left other
  refine sound.setLog (fun e member => (sound.ledTerm committed.led e (sub.subset member)).trans early)
    ((sound.ledTraced committed.led).shorter sub) (fun {t' P} acked => ?_) fun {L'} asked vacant => ?_
  · rcases sound.kept acked with held | lost
    · obtain ⟨led,reached⟩ := sound.ackedLed acked
      have longer : P.length ≤ L.length := held.length_le.trans long
      rcases lt_or_ge t' t with less | more
      · obtain ⟨L₀,won,start⟩ := sound.origin committed.led
        by_cases inside : P <+: L₀
        · exact .inl (prefix_of_longer (.inl (inside.trans start)) sub longer)
        · exact .inr ⟨t,L₀,won,less,early,inside⟩
      · exact .inl (prefix_of_longer (sound.comparable_led committed led more).symm sub longer)
    · exact .inr lost
  · have strict : t < s.term v := by
      refine lt_of_le_of_ne early fun same => ?_
      obtain ⟨L₀,won,_⟩ := sound.origin committed.led
      exact vacant L₀ (same ▸ won)
    rcases sound.candidate asked rfl vacant with same | ⟨_,_,_,_,_,shorter⟩
    · exact .inr ⟨t,Q,strict,committed,sub,same ▸ long⟩
    · exact .inr ⟨t,Q,strict,committed,sub,shorter.trans long⟩

theorem step (sound : s.Sound termOf) (step : Step termOf s s') : s'.Sound termOf := by
  cases step with
  | observe order => exact sound.observe order
  | ask term first below => exact sound.ask term first below
  | vote term asked newer vacant => exact sound.vote term asked newer vacant
  | elect term asked vacant A most voted => exact sound.elect term asked vacant A most voted
  | extend term led latest e own => exact sound.extend term led latest e own
  | adopt term led adopted => exact sound.adopt term led adopted
  | restore known long adopted => exact sound.restore known long adopted

omit [DecidableEq V] in
theorem empty (t : T) : (Replicas.empty t : Replicas V T E).Sound termOf where
  finite := by simp [Replicas.empty]
  started := False.elim
  origin := False.elim
  chain := False.elim
  ledTerm := False.elim
  ledTraced := False.elim
  logTerm := by simp [Replicas.empty]
  logTraced v P e inside := by simp [Replicas.empty] at inside
  askedOnce := False.elim
  askedTerm := False.elim
  askedTraced := False.elim
  votedFor := False.elim
  votedTraced := False.elim
  ackedLed := False.elim
  kept := False.elim
  carried := False.elim
  candidate := False.elim
  chosen := False.elim

/-- What is known to be committed survives every adoption of a log of the replica's term. -/
theorem known_adopted (sound : s.Sound termOf) (known : s.Known termOf t K) (led : s.led t M)
    (held : K <+: L) (adopted : Adopted M L L') : K <+: L' := by
  rcases known with rfl | ⟨t',P,early,committed,sub⟩
  · exact List.nil_prefix
  refine adopted.keeps held ?_
  rcases sound.comparable_led committed led early with inside | inside
  · exact .inl (sub.trans inside)
  · exact List.prefix_or_prefix_of_prefix sub inside

theorem known_comparable (sound : s.Sound termOf) (one : s.Known termOf t K)
    (two : s.Known termOf t' K') : K <+: K' ∨ K' <+: K := by
  rcases one with rfl | ⟨_,P,_,committed,sub⟩
  · exact .inl List.nil_prefix
  rcases two with rfl | ⟨_,P',_,committed',sub'⟩
  · exact .inr List.nil_prefix
  rcases sound.comparable committed committed' with inside | inside
  · exact List.prefix_or_prefix_of_prefix (sub.trans inside) sub'
  · exact List.prefix_or_prefix_of_prefix sub (sub'.trans inside)

end Replicas.Sound
end KvStorage.Replication
