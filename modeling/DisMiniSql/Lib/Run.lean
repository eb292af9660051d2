/-!
# `DisMiniSql.Lib.Run`: runs of a step relation

A component is a relation `R s a s'`: from the state `s`, the action `a` may lead to `s'`. A
function is the special case `R s a s' := s' = step s a`, and a side condition on the state
before the step is one more conjunct of `R`. `Steps R s as t` is the run of the actions `as`.

The rule for safety properties is `Steps.invariant`: a predicate that each step keeps holds at
the end of every run from a state where it holds.
-/

set_option autoImplicit false

namespace DisMiniSql.Lib

universe u v

variable {σ : Type u} {α : Type v} {R : σ → α → σ → Prop}

/-- The actions `as`, one after another, lead from the first state to the last. -/
inductive Steps (R : σ → α → σ → Prop) : σ → List α → σ → Prop
  | nil (s : σ) : Steps R s [] s
  | cons {s s' t : σ} {a : α} {as : List α} :
      R s a s' → Steps R s' as t → Steps R s (a :: as) t

/-- A predicate that every step keeps holds at the end of every run. -/
theorem Steps.invariant {I : σ → Prop} (hstep : ∀ s a s', I s → R s a s' → I s')
    {s t : σ} {as : List α} (hrun : Steps R s as t) (h : I s) : I t := by
  induction hrun with
  | nil s => exact h
  | cons hR _ ih => exact ih (hstep _ _ _ h hR)

variable {as : List α} {t s : σ}

/-- The same for a predicate that also speaks of the actions that were taken. -/
theorem Steps.invariant_trace {I : List α → σ → Prop}
    (hstep : ∀ done s a s', I done s → R s a s' → I (done ++ [a]) s') (hrun : Steps R s as t) :
    ∀ {done : List α}, I done s → I (done ++ as) t := by
  induction hrun with
  | nil s =>
    intro done h
    rwa [List.append_nil]
  | cons hR _ ih =>
    intro done h
    rw [List.append_cons]
    exact ih (hstep _ _ _ _ h hR)

/-- A run under stronger conditions is a run. -/
theorem Steps.mono {Q : σ → α → σ → Prop} (hQ : ∀ s a s', R s a s' → Q s a s')
    (hrun : Steps R s as t) : Steps Q s as t := by
  induction hrun with
  | nil s => exact .nil s
  | cons hR _ ih => exact .cons (hQ _ _ _ hR) ih

/-- Two runs, one after the other. -/
theorem Steps.append {u : σ} {bs : List α} (has : Steps R s as t) (hbs : Steps R t bs u) :
    Steps R s (as ++ bs) u := by
  induction has with
  | nil s => exact hbs
  | cons hstep _ ih => exact .cons hstep (ih hbs)

/-- Where an action leads to one state at most, a run goes on from the state that a first part of it
leads to. -/
theorem Steps.drop (hR : ∀ {s a t u}, R s a t → R s a u → t = u) {u : σ} {bs : List α}
    (has : Steps R s as t) (hall : Steps R s (as ++ bs) u) : Steps R t bs u := by
  induction has with
  | nil s => exact hall
  | cons hstep _ ih =>
    cases hall with
    | cons hstep' hrest => exact ih (hR hstep hstep' ▸ hrest)

/-- The first actions of a run are a run. -/
theorem Steps.take (hrun : Steps R s as t) (n : Nat) :
    ∃ u, Steps R s (as.take n) u := by
  induction hrun generalizing n with
  | nil s =>
    rw [List.take_nil]
    exact ⟨s, .nil s⟩
  | @cons s s' t a as hstep _ ih =>
    cases n with
    | zero => exact ⟨s, .nil s⟩
    | succ n =>
      obtain ⟨u, hu⟩ := ih n
      exact ⟨u, .cons hstep hu⟩

/-- The run of a function. -/
theorem Steps.foldl (f : σ → α → σ) (s : σ) (as : List α) :
    Steps (fun s a s' => s' = f s a) s as (as.foldl f s) := by
  induction as generalizing s with
  | nil => exact .nil s
  | cons a as ih => exact .cons rfl (ih (f s a))

/-- The run of a function that may have no answer. -/
theorem Steps.of_foldlM {f : σ → α → Option σ} (h : as.foldlM f s = some t) :
    Steps (fun s a s' => f s a = some s') s as t := by
  induction as generalizing s with
  | nil =>
    obtain rfl := Option.some.inj h
    exact .nil s
  | cons a as ih =>
    obtain ⟨s', hs', hrest⟩ := Option.bind_eq_some_iff.mp h
    exact .cons hs' (ih hrest)

/-- The run of a function that may have no answer, as long as each action passes a test in the state
before it. -/
def runWhere (f : σ → α → Option σ) (test : σ → α → Bool) (s : σ) : List α → Option σ
  | [] => some s
  | a :: as => if test s a then (f s a).bind (fun s' => runWhere f test s' as) else none

variable {P : σ → α → Prop} {I : σ → Prop}

/-- A run that passes the test is a run under a condition, if the test implies the condition
where an invariant of these runs holds. -/
theorem Steps.of_runWhere {f : σ → α → Option σ} {test : σ → α → Bool}
    (htest : ∀ s a, I s → test s a = true → P s a)
    (hstep : ∀ s a s', I s → test s a = true → f s a = some s' → I s') (hs : I s)
    (h : runWhere f test s as = some t) :
    Steps (fun s a s' => P s a ∧ f s a = some s') s as t := by
  induction as generalizing s with
  | nil =>
    obtain rfl := Option.some.inj h
    exact .nil s
  | cons a as ih =>
    unfold runWhere at h
    split at h
    · next ha =>
      obtain ⟨s', hs', hrest⟩ := Option.bind_eq_some_iff.mp h
      exact .cons ⟨htest s a hs ha, hs'⟩ (ih (hstep s a s' hs ha hs') hrest)
    · cases h

/-- Every action of the run of a function meets a condition on the state before it. -/
def Guarded (P : σ → α → Prop) (f : σ → α → σ) : σ → List α → Prop
  | _, [] => True
  | s, a :: as => P s a ∧ Guarded P f (f s a) as

instance Guarded.decidable (P : σ → α → Prop) (f : σ → α → σ) [∀ s a, Decidable (P s a)] :
    (s : σ) → (as : List α) → Decidable (Guarded P f s as)
  | _, [] => isTrue trivial
  | s, a :: as => @instDecidableAnd _ _ _ (Guarded.decidable P f (f s a) as)

variable {f : σ → α → σ}

/-- The condition over two runs, one after the other. -/
theorem Guarded.append {bs : List α} :
    Guarded P f s (as ++ bs) ↔ Guarded P f s as ∧ Guarded P f (as.foldl f s) bs := by
  induction as generalizing s with
  | nil => exact (iff_of_eq (true_and _)).symm
  | cons a as ih =>
    show P s a ∧ Guarded P f (f s a) (as ++ bs) ↔ (P s a ∧ Guarded P f (f s a) as) ∧ _
    rw [ih, and_assoc]
    rfl

/-- A condition on the actions alone, next to one on the states. -/
theorem Guarded.and_forall {Q : α → Prop} :
    Guarded (fun s a => Q a ∧ P s a) f s as ↔ (∀ a ∈ as, Q a) ∧ Guarded P f s as := by
  induction as generalizing s with
  | nil => simp [Guarded]
  | cons a as ih =>
    simp only [Guarded, ih, List.mem_cons, forall_eq_or_imp]
    exact ⟨fun h => ⟨⟨h.1.1, h.2.1⟩, h.1.2, h.2.2⟩, fun h => ⟨⟨h.1.1, h.2.1⟩, h.1.2, h.2.2⟩⟩

/-- The run of a function under a condition. -/
theorem Steps.of_guarded {l : List α} (h : Guarded P f s l) :
    Steps (fun s a s' => P s a ∧ s' = f s a) s l (l.foldl f s) := by
  induction l generalizing s with
  | nil => exact .nil s
  | cons a l ih => exact .cons ⟨h.1, rfl⟩ (ih h.2)

variable {C J : σ → Prop}

/-- A run keeps `C` in every state exactly if its steps meet `P`. `J` holds of the states that a run
under `P` reaches, and a step that does not meet `P` leaves `C` there. -/
theorem Guarded.iff_forall_take_of (hC : ∀ s, J s → C s) (hgood : ∀ s a, J s → P s a → J (f s a))
    (hbad : ∀ s a, J s → C (f s a) → P s a) (as : List α) :
    ∀ s, J s → ((∀ n, C ((as.take n).foldl f s)) ↔ Guarded P f s as) := by
  induction as with
  | nil => exact fun s hJ => ⟨fun _ => trivial, fun _ n => by rw [List.take_nil]; exact hC s hJ⟩
  | cons a as ih =>
    intro s hJ
    constructor
    · intro hall
      have hp : P s a := hbad s a hJ (hall 1)
      exact ⟨hp, (ih (f s a) (hgood s a hJ hp)).mp (fun n => hall (n + 1))⟩
    · rintro ⟨hp, hrest⟩ n
      cases n with
      | zero => exact hC s hJ
      | succ n => exact (ih (f s a) (hgood s a hJ hp)).mpr hrest n

/-- Every step of a run does what `C` says if every step meets `P`. `J` holds of the states that a
run under `P` reaches. -/
theorem Guarded.of_guarded {C : σ → α → Prop} (hgood : ∀ s a, J s → P s a → C s a ∧ J (f s a))
    (hJ : J s) (h : Guarded P f s as) : Guarded C f s as := by
  induction as generalizing s with
  | nil => trivial
  | cons a as ih =>
    obtain ⟨hc, hJ'⟩ := hgood s a hJ h.1
    exact ⟨hc, ih hJ' h.2⟩

/-- Every step of a run does what `C` says exactly if every step meets `P`. `J` holds of the states
that a run under `P` reaches. -/
theorem Guarded.iff_guarded_of {C : σ → α → Prop} (hgood : ∀ s a, J s → P s a → C s a ∧ J (f s a))
    (hbad : ∀ s a, J s → C s a → P s a) (as : List α) :
    ∀ s, J s → (Guarded C f s as ↔ Guarded P f s as) := by
  intro s hJ
  refine ⟨fun h => of_guarded (fun s a hJ hc => ?_) hJ h, fun h => of_guarded hgood hJ h⟩
  have hp : P s a := hbad s a hJ hc
  exact ⟨hp, (hgood s a hJ hp).2⟩

/-- Where the condition `P` on a step is exactly what keeps `C`, a run keeps `C` in every state
exactly if its steps meet `P`. `I` is an invariant of all steps. -/
theorem Guarded.iff_forall_take (hI : ∀ s a, I s → I (f s a))
    (hP : ∀ s a, I s → C s → (C (f s a) ↔ P s a)) (as : List α) :
    ∀ s, I s → C s → ((∀ n, C ((as.take n).foldl f s)) ↔ Guarded P f s as) := by
  intro s hi hc
  have hgood : ∀ s a, I s ∧ C s → P s a → I (f s a) ∧ C (f s a) :=
    fun s a h hp => ⟨hI s a h.1, (hP s a h.1 h.2).mpr hp⟩
  have hbad : ∀ s a, I s ∧ C s → C (f s a) → P s a := fun s a h => (hP s a h.1 h.2).mp
  exact iff_forall_take_of (fun s h => h.2) hgood hbad as s ⟨hi, hc⟩

/-- The same for a relation in which an action leads to one state at most. `J` holds of the states
that a run under `P` reaches. -/
theorem Steps.iff_forall_take_of (hR : ∀ {s a t u}, R s a t → R s a u → t = u) (hC : ∀ s, J s → C s)
    (hgood : ∀ s a s', J s → P s a → R s a s' → J s')
    (hbad : ∀ s a s', J s → R s a s' → C s' → P s a) (hrun : Steps R s as t) (hJ : J s) :
    (∀ n u, Steps R s (as.take n) u → C u) ↔ Steps (fun s a s' => P s a ∧ R s a s') s as t := by
  induction hrun with
  | nil s =>
    refine ⟨fun _ => .nil s, fun _ n u hsteps => ?_⟩
    rw [List.take_nil] at hsteps
    cases hsteps
    exact hC s hJ
  | @cons s s' t a as hstep hrest ih =>
    constructor
    · intro hall
      have hc' : C s' := hall 1 s' (.cons hstep (.nil s'))
      have hp := hbad s a s' hJ hstep hc'
      exact .cons ⟨hp, hstep⟩ ((ih (hgood s a s' hJ hp hstep)).mp fun n u hsteps =>
        hall (n + 1) u (.cons hstep hsteps))
    · intro hguarded n u hsteps
      cases hguarded with
      | cons hboth hguarded =>
        obtain rfl := hR hstep hboth.2
        have hJ' := hgood s a s' hJ hboth.1 hstep
        cases n with
        | zero =>
          cases hsteps
          exact hC s hJ
        | succ n =>
          cases hsteps with
          | cons hstep' hsteps =>
            obtain rfl := hR hstep hstep'
            exact (ih hJ').mpr hguarded n u hsteps

/-- The same where `P` is exactly what keeps `C`. `I` is an invariant of all steps. -/
theorem Steps.iff_forall_take (hR : ∀ {s a t u}, R s a t → R s a u → t = u)
    (hI : ∀ s a s', I s → R s a s' → I s') (hP : ∀ s a s', I s → C s → R s a s' → (C s' ↔ P s a))
    (hrun : Steps R s as t) (hi : I s) (hc : C s) :
    (∀ n u, Steps R s (as.take n) u → C u) ↔ Steps (fun s a s' => P s a ∧ R s a s') s as t := by
  have hgood : ∀ s a s', I s ∧ C s → P s a → R s a s' → I s' ∧ C s' :=
    fun s a s' h hp hstep => ⟨hI s a s' h.1 hstep, (hP s a s' h.1 h.2 hstep).mpr hp⟩
  have hbad : ∀ s a s', I s ∧ C s → R s a s' → C s' → P s a :=
    fun s a s' h hstep => (hP s a s' h.1 h.2 hstep).mp
  have hC : ∀ s, I s ∧ C s → C s := fun s h => h.2
  exact iff_forall_take_of (R := R) hR hC hgood hbad hrun ⟨hi, hc⟩

end DisMiniSql.Lib
