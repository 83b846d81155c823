import Mathlib.Data.List.Induction

/-! # Machines

A machine is a guarded step function: `step s a` is the state after the action
`a`, or `none` where `s` does not allow it.  A run is a list of actions; what one
step keeps of what was done so far, a run keeps.

Where the state after an action is not determined, a step is a relation, and a run
is a `Path`.
-/
namespace Machine

variable {σ α : Type} {step : σ → α → Option σ}

/-- The state after a list of actions, if each was allowed in its turn. -/
def run (step : σ → α → Option σ) (s : σ) (actions : List α) : Option σ :=
  actions.foldlM step s

theorem run_concat {s s' : σ} {actions : List α} {a : α} :
    run step s (actions ++ [a]) = some s' ↔
      ∃ t, run step s actions = some t ∧ step t a = some s' := by
  simp [run, List.foldlM_append, Option.bind_eq_some_iff]

theorem run_append_cons {s s' : σ} {actions later : List α} {a : α} :
    run step s (actions ++ a :: later) = some s' ↔
      ∃ t u, run step s actions = some t ∧ step t a = some u ∧ run step u later = some s' := by
  simp only [run, List.foldlM_append, List.foldlM_cons, Option.bind_eq_bind,
    Option.bind_eq_some_iff]
  constructor
  · rintro ⟨t, ht, u, hu, hlater⟩
    exact ⟨t, u, ht, hu, hlater⟩
  · rintro ⟨t, u, ht, hu, hlater⟩
    exact ⟨t, ht, u, hu, hlater⟩

/-- An invariant of the state and of what was done since `s`. -/
theorem run_keeps {I : List α → σ → Prop} {s s' : σ} {actions : List α}
    (hrun : run step s actions = some s') (hinit : I [] s)
    (hstep : ∀ done t a t', I done t → step t a = some t' → I (done ++ [a]) t') :
    I actions s' := by
  induction actions using List.reverseRecOn generalizing s' with
  | nil =>
    obtain rfl : s = s' := by simpa [run] using hrun
    exact hinit
  | append_singleton actions a ih =>
    obtain ⟨t, ht, ha⟩ := run_concat.mp hrun
    exact hstep actions t a s' (ih ht) ha

/-! ## Steps with more than one outcome -/

/-- The actions lead from one state to another. -/
inductive Path (step : σ → α → σ → Prop) : σ → List α → σ → Prop
  | nil (s : σ) : Path step s [] s
  | cons {s s₁ s' : σ} {a : α} {actions : List α} (h : step s a s₁)
    (rest : Path step s₁ actions s') : Path step s (a :: actions) s'

section Path
variable {step : σ → α → σ → Prop} {s s' : σ} {a : α} {actions : List α}

theorem path_nil : Path step s [] s' ↔ s' = s := by
  constructor
  · intro h
    cases h
    rfl
  · rintro rfl
    exact .nil _

theorem path_cons :
    Path step s (a :: actions) s' ↔ ∃ s₁, step s a s₁ ∧ Path step s₁ actions s' := by
  constructor
  · intro h
    cases h with
    | cons hstep rest => exact ⟨_, hstep, rest⟩
  · rintro ⟨s₁, hstep, rest⟩
    exact .cons hstep rest

theorem path_append {actions' : List α} :
    Path step s (actions ++ actions') s' ↔
      ∃ s₁, Path step s actions s₁ ∧ Path step s₁ actions' s' := by
  induction actions generalizing s with
  | nil => simp [path_nil]
  | cons a actions ih =>
    simp only [List.cons_append, path_cons, ih]
    constructor
    · rintro ⟨s₁, hstep, s₂, hpath, hpath'⟩
      exact ⟨s₂, ⟨s₁, hstep, hpath⟩, hpath'⟩
    · rintro ⟨s₂, ⟨s₁, hstep, hpath⟩, hpath'⟩
      exact ⟨s₁, hstep, s₂, hpath, hpath'⟩

/-- An invariant of the state and of what was done since `s`. -/
theorem Path.keeps {I : List α → σ → Prop} (h : Path step s actions s') (hinit : I [] s)
    (hstep : ∀ done t a t', I done t → step t a t' → I (done ++ [a]) t') : I actions s' := by
  induction actions using List.reverseRecOn generalizing s' with
  | nil =>
    obtain rfl := path_nil.mp h
    exact hinit
  | append_singleton actions a ih =>
    obtain ⟨t, ht, hlast⟩ := path_append.mp h
    obtain ⟨t', ha, hend⟩ := path_cons.mp hlast
    obtain rfl := path_nil.mp hend
    exact hstep actions t a _ (ih ht) ha

end Path
end Machine
