import DisMiniSql.Lib.Run

/-!
# `DisMiniSql.Lib.Calls`: concurrent calls on a shared object

A call is a program over the atomic operations of a shared object: `Prog` is the tree of the
operations it may make, one branch for each answer. Any number of calls run at the same time. A
step of the `Pool` starts a call or makes the next operation of one that is running.

Each call has a note of the operations it has made, which its program does not see. Properties
are proved one call at a time: `Prog.Safe` follows a program down its tree, with a precondition
for every operation and an assumption on its answer, both about the note. `Sound` says that the
object keeps its invariant under operations that meet their precondition, that the assumptions
are true, and that no call spoils what another one has noted. `Steps.pool` is the rule: then the
invariant holds in every run, and every call stays safe.
-/

set_option autoImplicit false

namespace DisMiniSql.Lib

/-- A program over the operations `Op`; `throw` ends it without a result. -/
inductive Prog (Op : Type) (Res : Op → Type) (α : Type)
  | pure (a : α)
  | throw
  | call (o : Op) (k : Res o → Prog Op Res α)

/-- The answers to the operations of an object of two parts. -/
@[reducible]
def SumRes {Op Op' : Type} (Res : Op → Type) (Res' : Op' → Type) : Op ⊕ Op' → Type
  | .inl o => Res o
  | .inr o => Res' o

variable {Op : Type} {Res : Op → Type} {α β : Type} {σ G ι : Type}

namespace Prog

/-- One program after another. -/
def bind : Prog Op Res α → (α → Prog Op Res β) → Prog Op Res β
  | .pure a, f => f a
  | .throw, _ => .throw
  | .call o k, f => .call o (fun r => (k r).bind f)

instance : Monad (Prog Op Res) where
  pure := .pure
  bind := .bind

/-- A single operation. -/
def op (o : Op) : Prog Op Res (Res o) := .call o .pure

/-- The result of a program that has ended with one. -/
def result : Prog Op Res α → Option α
  | .pure a => some a
  | _ => none

/-- A program on one part of an object of two parts. -/
def inl {Op' : Type} {Res' : Op' → Type} :
    Prog Op Res α → Prog (Op ⊕ Op') (SumRes Res Res') α
  | .pure a => .pure a
  | .throw => .throw
  | .call o k => .call (Sum.inl o) (fun r => (k r).inl)

/-- A program on the other part. -/
def inr {Op' : Type} {Res' : Op' → Type} :
    Prog Op Res α → Prog (Op' ⊕ Op) (SumRes Res' Res) α
  | .pure a => .pure a
  | .throw => .throw
  | .call o k => .call (Sum.inr o) (fun r => (k r).inr)

/-- Embedding a program in a larger set of operations goes through its binds. -/
theorem inr_bind {Op' : Type} {Res' : Op' → Type} (p : Prog Op Res α) (f : α → Prog Op Res β) :
    ((p >>= f).inr : Prog (Op' ⊕ Op) (SumRes Res' Res) β) = p.inr >>= fun a => (f a).inr := by
  show (p.bind f).inr = (p.inr.bind fun a => (f a).inr)
  induction p with
  | pure a => rfl
  | throw => rfl
  | call o k ih => exact congrArg (Prog.call (Sum.inr o)) (funext ih)

/-- Every operation that the program may make has the property. -/
def Only (P : Op → Prop) : Prog Op Res α → Prop
  | .pure _ => True
  | .throw => True
  | .call o k => P o ∧ ∀ r, (k r).Only P

variable {p : Prog Op Res α}

/-- A program that asks for certain operations only, followed by one that does. -/
theorem Only.bind {P : Op → Prop} (h : p.Only P) {f : α → Prog Op Res β} (hf : ∀ a, (f a).Only P) :
    (p >>= f).Only P := by
  show (p.bind f).Only P
  induction p with
  | pure a => exact hf a
  | throw => trivial
  | call o k ih => exact ⟨h.1, fun r => ih r (h.2 r)⟩

/-- A single operation. -/
theorem Only.op {P : Op → Prop} {o : Op} (h : P o) :
    (Prog.op o : Prog Op Res (Res o)).Only P := ⟨h, fun _ => trivial⟩

/-- A program over the first set of operations asks for those only. -/
theorem only_inl {Op' : Type} {Res' : Op' → Type} {P : Op ⊕ Op' → Prop}
    (hP : ∀ o, P (Sum.inl o)) (p : Prog Op Res α) :
    (p.inl : Prog (Op ⊕ Op') (SumRes Res Res') α).Only P := by
  induction p with
  | pure a => trivial
  | throw => trivial
  | call o k ih => exact ⟨hP o, ih⟩

/-- And over the second. -/
theorem only_inr {Op' : Type} {Res' : Op' → Type} {P : Op' ⊕ Op → Prop}
    (hP : ∀ o, P (Sum.inr o)) (p : Prog Op Res α) :
    (p.inr : Prog (Op' ⊕ Op) (SumRes Res' Res) α).Only P := by
  induction p with
  | pure a => trivial
  | throw => trivial
  | call o k ih => exact ⟨hP o, ih⟩

/-- A program that runs alone: the object afterwards, and the result if there is one. -/
def run (sem : σ → (o : Op) → Res o × σ) : σ → Prog Op Res α → σ × Option α
  | s, .pure a => (s, some a)
  | s, .throw => (s, none)
  | s, .call o k => run sem (sem s o).2 (k (sem s o).1)

/-- A run of two programs, when the first returns. -/
theorem run_bind {sem : σ → (o : Op) → Res o × σ} {s s' : σ} {a : α}
    (h : p.run sem s = (s', some a)) (f : α → Prog Op Res β) :
    (p >>= f).run sem s = (f a).run sem s' := by
  show (p.bind f).run sem s = _
  induction p generalizing s with
  | pure b =>
    cases h
    rfl
  | throw => cases h
  | call o k ih => exact ih _ h

/-- And when it throws. -/
theorem run_bind_throw {sem : σ → (o : Op) → Res o × σ} {s s' : σ} (h : p.run sem s = (s', none))
    (f : α → Prog Op Res β) :
    (p >>= f).run sem s = (s', none) := by
  show (p.bind f).run sem s = _
  induction p generalizing s with
  | pure b => cases h
  | throw =>
    cases h
    rfl
  | call o k ih => exact ih _ h

/-- A program that needs no operation any more has returned. -/
theorem result_eq_some {a : α} (h : p.result = some a) : p = .pure a := by
  cases p with
  | pure b => exact congrArg _ (Option.some.inj h)
  | throw => cases h
  | call o k => cases h

end Prog

/-- The meaning of the operations, and what a call notes of them. -/
structure SharedObject (Op : Type) (Res : Op → Type) (σ G : Type) where
  sem : σ → (o : Op) → Res o × σ
  note : G → (o : Op) → Res o → G

/-- What a call has to ensure before an operation, and what it may assume of the answer. -/
structure Contract (Op : Type) (Res : Op → Type) (G : Type) where
  pre : G → Op → Prop
  may : G → (o : Op) → Res o → Prop

namespace Prog

variable {O : SharedObject Op Res σ G} {C : Contract Op Res G}

/-- Every operation of the program meets its precondition, and every result has the
postcondition. -/
def Safe (O : SharedObject Op Res σ G) (C : Contract Op Res G) (post : G → α → Prop) :
    G → Prog Op Res α → Prop
  | g, .pure a => post g a
  | _, .throw => True
  | g, .call o k => C.pre g o ∧ ∀ r, C.may g o r → Safe O C post (O.note g o r) (k r)

variable {p : Prog Op Res α}

/-- A safe program satisfies every weaker postcondition. -/
theorem Safe.mono {post post' : G → α → Prop} (hpost : ∀ g a, post g a → post' g a) {g : G}
    (h : p.Safe O C post g) : p.Safe O C post' g := by
  induction p generalizing g with
  | pure a => exact hpost g a h
  | throw => trivial
  | call o k ih => exact ⟨h.1, fun r hr => ih r (h.2 r hr)⟩

/-- The rule for one program after another. -/
theorem Safe.bind {post : G → β → Prop} {g : G} {f : α → Prog Op Res β}
    (h : p.Safe O C (fun g a => (f a).Safe O C post g) g) : (p >>= f).Safe O C post g := by
  show (p.bind f).Safe O C post g
  induction p generalizing g with
  | pure a => exact h
  | throw => trivial
  | call o k ih => exact ⟨h.1, fun r hr => ih r (h.2 r hr)⟩

/-- A program of operations that are always allowed is safe. -/
theorem Safe.of_only {P : Op → Prop} (hP : ∀ g o, P o → C.pre g o) {g : G} (h : p.Only P) :
    p.Safe O C (fun _ _ => True) g := by
  induction p generalizing g with
  | pure a => trivial
  | throw => trivial
  | call o k ih => exact ⟨hP g o h.1, fun r _ => ih r (h.2 r)⟩

/-- The rule for a single operation. -/
theorem Safe.op {g : G} {o : Op} {post : G → Res o → Prop} (hpre : C.pre g o)
    (hpost : ∀ r, C.may g o r → post (O.note g o r) r) : (Prog.op o).Safe O C post g :=
  ⟨hpre, hpost⟩

/-- A program that is safe on one part is safe on the whole: `proj` is what its notes say of the
part. -/
theorem Safe.inl {Op' : Type} {Res' : Op' → Type} {τ G' : Type}
    {O' : SharedObject (Op ⊕ Op') (SumRes Res Res') τ G'}
    {C' : Contract (Op ⊕ Op') (SumRes Res Res') G'} (proj : G' → G) {post : G → α → Prop}
    (hnote : ∀ g (o : Op) (r : Res o), proj (O'.note g (Sum.inl o) r) = O.note (proj g) o r)
    (hpre : ∀ g o, C.pre (proj g) o → C'.pre g (Sum.inl o))
    (hmay : ∀ g (o : Op) (r : Res o), C'.may g (Sum.inl o) r → C.may (proj g) o r) {g : G'}
    (h : p.Safe O C post (proj g)) :
    p.inl.Safe O' C' (fun g a => post (proj g) a) g := by
  induction p generalizing g with
  | pure a => exact h
  | throw => trivial
  | call o k ih =>
    refine ⟨hpre g o h.1, fun r hr => ih r ?_⟩
    rw [hnote]
    exact h.2 r (hmay g o r hr)

end Prog

/-- A call that was started: what it has noted, and what is left of its program. -/
structure Running (Op : Type) (Res : Op → Type) (α G : Type) where
  ghost : G
  prog : Prog Op Res α

/-- The shared object and the calls on it. -/
structure Pool (Op : Type) (Res : Op → Type) (α σ G : Type) where
  shared : σ
  calls : List (Running Op Res α G) := []

/-- A call starts, or one that was started makes its next operation. -/
inductive PoolAction (ι : Type)
  | start (i : ι)
  | op (k : Nat)
  deriving DecidableEq, Repr

namespace Pool

/-- One step of the pool. -/
def step (O : SharedObject Op Res σ G) (program : ι → Prog Op Res α) (g₀ : G)
    (c : Pool Op Res α σ G) : PoolAction ι → Pool Op Res α σ G
  | .start i => { c with calls := c.calls ++ [⟨g₀, program i⟩] }
  | .op k =>
    match c.calls[k]? with
    | some ⟨g, .call o next⟩ =>
      { shared := (O.sem c.shared o).2
        calls := c.calls.set k
          ⟨O.note g o (O.sem c.shared o).1, next (O.sem c.shared o).1⟩ }
    | _ => c

/-- The operation of this step meets a condition on the object and the note of its call. -/
def Meets (cond : σ → G → Op → Prop) (c : Pool Op Res α σ G) : PoolAction ι → Prop
  | .start _ => True
  | .op k => ∀ g o next, c.calls[k]? = some ⟨g, .call o next⟩ → cond c.shared g o

instance (cond : σ → G → Op → Prop) [∀ s g o, Decidable (cond s g o)] (c : Pool Op Res α σ G) :
    (a : PoolAction ι) → Decidable (c.Meets cond a)
  | .start _ => isTrue trivial
  | .op k =>
    match hk : c.calls[k]? with
    | some ⟨g, .call o _⟩ =>
      decidable_of_iff (cond c.shared g o)
        ⟨fun h _ _ _ heq => by
          cases hk.symm.trans heq
          exact h, fun h => h _ _ _ hk⟩
    | some ⟨_, .pure _⟩ => isTrue fun _ _ _ heq => nomatch hk.symm.trans heq
    | some ⟨_, .throw⟩ => isTrue fun _ _ _ heq => nomatch hk.symm.trans heq
    | none => isTrue fun _ _ _ heq => nomatch hk.symm.trans heq

/-- Operations that meet their precondition and the condition keep the invariant, their answers
are as assumed, and the notes of all calls stay true. -/
structure Sound (O : SharedObject Op Res σ G) (C : Contract Op Res G)
    (cond : σ → G → Op → Prop) (J : σ → Prop) (K : σ → G → Prop) : Prop where
  step : ∀ {s g o}, J s → K s g → C.pre g o → cond s g o →
    J (O.sem s o).2 ∧ K (O.sem s o).2 (O.note g o (O.sem s o).1) ∧ C.may g o (O.sem s o).1
  stable : ∀ {s g o g'}, J s → K s g → C.pre g o → cond s g o → K s g' → K (O.sem s o).2 g'

/-- The invariant of the object holds, and every call has true notes and is safe. -/
structure Ok (O : SharedObject Op Res σ G) (C : Contract Op Res G) (J : σ → Prop)
    (K : σ → G → Prop) (post : G → α → Prop) (c : Pool Op Res α σ G) : Prop where
  shared : J c.shared
  noted : ∀ x ∈ c.calls, K c.shared x.ghost
  safe : ∀ x ∈ c.calls, x.prog.Safe O C post x.ghost

variable {O : SharedObject Op Res σ G} {C : Contract Op Res G} {cond : σ → G → Op → Prop}
  {J : σ → Prop} {K : σ → G → Prop} {post : G → α → Prop} {program : ι → Prog Op Res α} {g₀ : G}

/-- The step rule of a pool of programs: a start puts a safe program next to the others, an
operation of one of them keeps the shared invariant and its own knowledge, and leaves the knowledge
of all others true. -/
theorem Ok.step (hsound : Sound O C cond J K) (hstart : ∀ s, J s → K s g₀)
    {c : Pool Op Res α σ G} (h : c.Ok O C J K post) {a : PoolAction ι}
    (hsafe : ∀ i, a = .start i → (program i).Safe O C post g₀) (ha : c.Meets cond a) :
    (c.step O program g₀ a).Ok O C J K post := by
  -- one case for a start, one for the next operation of a running program
  cases a with
  | start i =>
    refine ⟨h.shared, fun x hx => ?_, fun x hx => ?_⟩
    · obtain hx | hx := List.mem_append.mp hx
      · exact h.noted x hx
      · rw [List.mem_singleton.mp hx]
        exact hstart _ h.shared
    · obtain hx | hx := List.mem_append.mp hx
      · exact h.safe x hx
      · rw [List.mem_singleton.mp hx]
        exact hsafe i rfl
  | op k =>
    unfold Pool.step
    dsimp only
    split
    · rename_i g o next hk
      have hmem := List.mem_of_getElem? hk
      have hcond := ha g o next hk
      have hnoted := h.noted _ hmem
      obtain ⟨hpre, hnext⟩ := h.safe _ hmem
      obtain ⟨hshared, hnote, hmay⟩ := hsound.step h.shared hnoted hpre hcond
      refine ⟨hshared, fun x hx => ?_, fun x hx => ?_⟩
      · obtain hx | rfl := List.mem_or_eq_of_mem_set hx
        · exact hsound.stable h.shared hnoted hpre hcond (h.noted x hx)
        · exact hnote
      · obtain hx | rfl := List.mem_or_eq_of_mem_set hx
        · exact h.safe x hx
        · exact hnext _ hmay
    · exact h

end Pool

/-- The rule for concurrent calls. -/
theorem Steps.pool {O : SharedObject Op Res σ G} {C : Contract Op Res G}
    {cond : σ → G → Op → Prop} {J : σ → Prop} {K : σ → G → Prop} {post : G → α → Prop}
    {program : ι → Prog Op Res α} {g₀ : G} (hsound : Pool.Sound O C cond J K)
    (hstart : ∀ s, J s → K s g₀) {s : σ} (hs : J s) {actions : List (PoolAction ι)}
    (hsafe : ∀ i, .start i ∈ actions → (program i).Safe O C post g₀) {c : Pool Op Res α σ G}
    (hrun : Steps (fun (c : Pool Op Res α σ G) a c' =>
      c.Meets cond a ∧ c' = c.step O program g₀ a) { shared := s } actions c) :
    c.Ok O C J K post := by
  have hinit : ({ shared := s } : Pool Op Res α σ G).Ok O C J K post := ⟨hs, by simp, by simp⟩
  revert hsafe hinit
  generalize ({ shared := s } : Pool Op Res α σ G) = c₀ at hrun
  induction hrun with
  | nil c => exact fun _ h => h
  | cons hR _ ih =>
    intro hsafe hok
    obtain ⟨ha, rfl⟩ := hR
    refine ih (fun i hi => hsafe i (List.mem_cons_of_mem _ hi)) (hok.step hsound hstart ?_ ha)
    rintro i rfl
    exact hsafe i List.mem_cons_self

/-- The rule for concurrent calls whose operations need no condition. -/
theorem Pool.ok_foldl {O : SharedObject Op Res σ G} {C : Contract Op Res G} {J : σ → Prop}
    {K : σ → G → Prop} {post : G → α → Prop} {program : ι → Prog Op Res α} {g₀ : G}
    (hsound : Pool.Sound O C (fun _ _ _ => True) J K) (hstart : ∀ s, J s → K s g₀) {s : σ}
    (hs : J s) {actions : List (PoolAction ι)}
    (hsafe : ∀ i, .start i ∈ actions → (program i).Safe O C post g₀) :
    (actions.foldl (Pool.step O program g₀) { shared := s }).Ok O C J K post := by
  refine Steps.pool hsound hstart hs hsafe ((Steps.foldl _ _ actions).mono ?_)
  intro c a c' hc'
  refine ⟨?_, hc'⟩
  cases a with
  | start i => trivial
  | op k => exact fun _ _ _ _ => trivial

end DisMiniSql.Lib
