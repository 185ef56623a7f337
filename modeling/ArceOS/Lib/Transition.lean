import Mathlib

/-!
# Labelled Transition Systems

Generic state machines with labelled steps. A run is built one step at a time
at its end, so a run over `ls ++ [l]` is a run over `ls` followed by one step:
invariants over whole runs are proved from what a single step preserves.

## Contents

- `LTS`, `LTS.Run`, `LTS.Reachable`
- the invariant rules `Run.invariant`, `Run.trace_induction`, `Reachable.invariant`
- forward simulation: `Run.simulate`, which maps the runs of a concrete system to
  runs of an abstract one with the same labels, and `Run.simulateRel`, which
  matches every run of an abstract system by a run of a concrete one
- deterministic systems given by a partial step function, executed by `LTS.exec`
-/

namespace ArceOS.Lib

/-- A labelled transition system over states `σ` and labels `ℓ`. -/
structure LTS (σ ℓ : Type*) where
  /-- The initial states. -/
  init : σ → Prop
  /-- `step s l s'`: from `s`, the step labelled `l` may lead to `s'`. -/
  step : σ → ℓ → σ → Prop

namespace LTS

variable {σ τ ℓ : Type*}

/-! ## §1 Runs and reachable states -/

/-- `M.Run s ls s'`: the labels `ls`, taken in order from `s`, lead to `s'`. -/
inductive Run (M : LTS σ ℓ) : σ → List ℓ → σ → Prop where
  | nil (s : σ) : Run M s [] s
  | snoc {s s' s'' : σ} {ls : List ℓ} {l : ℓ} :
      Run M s ls s' → M.step s' l s'' → Run M s (ls ++ [l]) s''

/-- A state is reachable when some run from an initial state ends in it. -/
def Reachable (M : LTS σ ℓ) (s : σ) : Prop :=
  ∃ s₀ ls, M.init s₀ ∧ M.Run s₀ ls s

variable {M : LTS σ ℓ}

/-- A single step is a run. -/
theorem Run.single {s s' : σ} {l : ℓ} (h : M.step s l s') : M.Run s [l] s' := by
  simpa using Run.snoc (Run.nil s) h

/-- Runs compose. -/
theorem Run.append {s s' s'' : σ} {ls ls' : List ℓ}
    (h₁ : M.Run s ls s') (h₂ : M.Run s' ls' s'') : M.Run s (ls ++ ls') s'' := by
  induction h₂ with
  | nil => simpa using h₁
  | snoc _ hstep ih =>
    rw [← List.append_assoc]
    exact Run.snoc ih hstep

/-- A step followed by a run is a run. -/
theorem Run.cons {s s' s'' : σ} {l : ℓ} {ls : List ℓ}
    (hstep : M.step s l s') (h : M.Run s' ls s'') : M.Run s (l :: ls) s'' :=
  Run.append (Run.single hstep) h

/-- A reachable state stepped once is reachable. -/
theorem Reachable.step {s s' : σ} {l : ℓ} (hs : M.Reachable s) (hstep : M.step s l s') :
    M.Reachable s' := by
  obtain ⟨s₀, ls, hinit, hrun⟩ := hs
  exact ⟨s₀, ls ++ [l], hinit, Run.snoc hrun hstep⟩

/-! ## §2 Invariants -/

/-- **Invariant rule**: a property kept by every step holds at the end of every run
    that starts in it. -/
theorem Run.invariant {inv : σ → Prop}
    (hstep : ∀ s l s', inv s → M.step s l s' → inv s')
    {s s' : σ} {ls : List ℓ} (h : M.Run s ls s') (hs : inv s) : inv s' := by
  induction h with
  | nil => exact hs
  | snoc _ hlast ih => exact hstep _ _ _ ih hlast

/-- **History rule**: a property of the labels taken so far and the current state,
    true of the empty history and kept by every step, holds after every run. -/
theorem Run.trace_induction {P : List ℓ → σ → Prop} {s₀ : σ}
    (h₀ : P [] s₀)
    (hstep : ∀ ls s l s', P ls s → M.step s l s' → P (ls ++ [l]) s')
    {s : σ} {ls : List ℓ} (h : M.Run s₀ ls s) : P ls s := by
  induction h with
  | nil => exact h₀
  | snoc _ hlast ih => exact hstep _ _ _ _ ih hlast

/-- An invariant that holds initially and is kept by every step holds in every
    reachable state. -/
theorem Reachable.invariant {inv : σ → Prop}
    (hinit : ∀ s, M.init s → inv s)
    (hstep : ∀ s l s', inv s → M.step s l s' → inv s')
    {s : σ} (h : M.Reachable s) : inv s := by
  obtain ⟨s₀, ls, h₀, hrun⟩ := h
  exact Run.invariant hstep hrun (hinit s₀ h₀)

/-! ## §3 Forward simulation -/

/-- **Forward simulation**: when every step of `M` from a state satisfying `inv`
    keeps `inv` and is matched by a step of `N` with the same label between the
    abstractions, every run of `M` from an `inv` state is mapped to a run of `N`
    over the same labels. -/
theorem Run.simulate {N : LTS τ ℓ} (abs : σ → τ) {inv : σ → Prop}
    (hinv : ∀ s l s', inv s → M.step s l s' → inv s')
    (hsim : ∀ s l s', inv s → M.step s l s' → N.step (abs s) l (abs s'))
    {s s' : σ} {ls : List ℓ} (h : M.Run s ls s') (hs : inv s) :
    N.Run (abs s) ls (abs s') ∧ inv s' := by
  induction h with
  | nil => exact ⟨Run.nil _, hs⟩
  | snoc _ hlast ih =>
    obtain ⟨hrun, hmid⟩ := ih
    exact ⟨Run.snoc hrun (hsim _ _ _ hmid hlast), hinv _ _ _ hmid hlast⟩

/-- **Simulation by a relation**: when every step of `N` from a state related to
    `s` is matched by a step of `M` from `s` with the same label into related
    states, every run of `N` is matched by a run of `M` over the same labels. -/
theorem Run.simulateRel {N : LTS τ ℓ} {R : σ → τ → Prop}
    (hsim : ∀ s t l t', R s t → N.step t l t' → ∃ s', M.step s l s' ∧ R s' t')
    {t t' : τ} {ls : List ℓ} (h : N.Run t ls t') {s : σ} (hs : R s t) :
    ∃ s', M.Run s ls s' ∧ R s' t' := by
  induction h with
  | nil => exact ⟨s, Run.nil s, hs⟩
  | snoc _ hlast ih =>
    -- extend the matching run of `M` by the step matching the last one of `N`
    obtain ⟨s₁, hrun, hR⟩ := ih
    obtain ⟨s₂, hstep, hR₂⟩ := hsim _ _ _ _ hR hlast
    exact ⟨s₂, Run.snoc hrun hstep, hR₂⟩

/-! ## §4 Deterministic systems -/

/-- The system whose steps are those of a partial step function. -/
def ofNext (init : σ → Prop) (next : σ → ℓ → Option σ) : LTS σ ℓ where
  init := init
  step s l s' := next s l = some s'

/-- Execute a partial step function over a list of labels, stopping at the first
    label that cannot be taken. -/
def exec (next : σ → ℓ → Option σ) : σ → List ℓ → Option σ
  | s, [] => some s
  | s, l :: ls => (next s l).bind fun s' => exec next s' ls

/-- A successful execution is a run of the system of the step function. -/
theorem exec_run {init : σ → Prop} {next : σ → ℓ → Option σ} :
    ∀ {s s' : σ} {ls : List ℓ}, exec next s ls = some s' → (ofNext init next).Run s ls s'
  | s, s', [], h => by
    simp only [exec, Option.some.injEq] at h
    subst h
    exact Run.nil s
  | s, s', l :: ls, h => by
    simp only [exec] at h
    cases hn : next s l with
    | none => simp [hn] at h
    | some s₁ =>
      simp only [hn, Option.bind_some] at h
      exact Run.cons hn (exec_run h)

end LTS

end ArceOS.Lib
