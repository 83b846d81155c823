import Mathlib.Data.List.Induction
import Sigillum.Runes

/-! # The guard checker

`GuardChecker` looks at the guard of the credential Secrets again and again, and keeps a
verdict that the reconcilers read.  A lookup that could not be completed says nothing
about the guard and leaves the verdict, unless there is none yet.

`ok_checks_iff` says what the verdict is after any number of checks: that of the last
conclusive one.  Logs, the metric and the requeueing after a change are left out.
-/
namespace Sigillum
open Runes Bytes

/-- What is wrong with the guard, or why that is not known. -/
inductive GuardErrorKind where
  /-- `credential.ErrGuardChanged`. -/
  | changed
  | notFound
  | forbidden
  /-- Any other error of the lookup. -/
  | lookup
  deriving DecidableEq, Repr

/-- An error of `Guard.Verify`. -/
structure GuardError where
  kind : GuardErrorKind
  text : Bytes
  deriving DecidableEq, Repr

/-- `definitive`. -/
def GuardError.definitive (err : GuardError) : Bool :=
  match err.kind with
  | .changed | .notFound | .forbidden => true
  | .lookup => false

/-- `GuardChecker`. -/
structure GuardChecker where
  checked : Bool
  err : Option GuardError
  deriving DecidableEq, Repr

namespace GuardChecker

/-- `NewGuardChecker`. -/
def new : GuardChecker := ⟨false, none⟩

/-- `OK`; the checker may be nil. -/
def ok : Option GuardChecker → Bool × Bytes
  | none => (false, lit "credential Secret guard is not being checked")
  | some g =>
    if g.checked = false then (false, lit "credential Secret guard not verified yet")
    else match g.err with
      | some err => (false, lit ("credential Secret guard missing or changed, refusing to " ++
          "write Secrets: ") ++ err.text)
      | none => (true, [])

/-- A check that leaves the verdict as it is. -/
def keeps (g : GuardChecker) (result : Option GuardError) : Bool :=
  match result with
  | some err => g.checked && !err.definitive
  | none => false

/-- Whether the verdict is another one, or has another reason. -/
def changes (g : GuardChecker) (result : Option GuardError) : Bool :=
  !g.checked || (g.err.isNone != result.isNone) ||
    match result, g.err with
    | some err, some old => err.text != old.text
    | _, _ => false

/-- `Check`, with what `Guard.Verify` returned; and whether the verdict changed. -/
def check (g : GuardChecker) (result : Option GuardError) : GuardChecker × Bool :=
  if g.keeps result then (g, false) else (⟨true, result⟩, g.changes result)

/-- The checker after checks with these results. -/
def checks (results : List (Option GuardError)) : GuardChecker :=
  results.foldl (fun g result => (g.check result).1) new

/-- The results that say something about the guard: the first, and later ones that are a
success or a definitive failure. -/
def conclusive : List (Option GuardError) → List (Option GuardError)
  | [] => []
  | first :: later => first :: later.filter fun result => result.all GuardError.definitive

theorem checks_concat (results : List (Option GuardError)) (result : Option GuardError) :
    checks (results ++ [result]) = ((checks results).check result).1 := by
  simp [checks]

theorem conclusive_concat {results : List (Option GuardError)} (h : results ≠ [])
    (result : Option GuardError) :
    conclusive (results ++ [result]) = conclusive results ++
      if result.all GuardError.definitive then [result] else [] := by
  cases results with
  | nil => exact absurd rfl h
  | cons first later =>
    simp only [List.cons_append, conclusive, List.filter_append]
    split
    · rename_i hresult
      simp [hresult]
    · rename_i hresult
      simp [hresult]

/-- A checker that has a verdict keeps it where a check is not conclusive. -/
theorem check_of_checked (old result : Option GuardError) :
    (check ⟨true, old⟩ result).1 =
      if result.all GuardError.definitive then ⟨true, result⟩ else ⟨true, old⟩ := by
  cases result with
  | none => rfl
  | some err => cases hdefinitive : err.definitive <;> simp [check, keeps, hdefinitive]

/-- **The verdict is that of the last conclusive check.** -/
theorem checks_eq (results : List (Option GuardError)) :
    checks results = (conclusive results).getLast?.elim new fun result => ⟨true, result⟩ := by
  induction results using List.reverseRecOn with
  | nil => rfl
  | append_singleton results result ih =>
    rw [checks_concat, ih]
    by_cases hfirst : results = []
    · subst hfirst
      cases result <;> rfl
    · -- there is a verdict already
      obtain ⟨old, hold⟩ : ∃ old, (conclusive results).getLast? = some old := by
        obtain ⟨first, later, rfl⟩ := List.exists_cons_of_ne_nil hfirst
        exact ⟨_, List.getLast?_cons⟩
      rw [hold, Option.elim_some, check_of_checked, conclusive_concat hfirst]
      split
      · simp
      · simp [hold]

/-- The guard is found in place exactly if the last conclusive check found it so. -/
theorem ok_checks_iff (results : List (Option GuardError)) :
    (ok (some (checks results))).1 = true ↔ (conclusive results).getLast? = some none := by
  rw [checks_eq]
  cases (conclusive results).getLast? with
  | none => simp [ok, new]
  | some result => cases result <;> simp [ok]

/-- A lookup that could not be completed leaves a verdict as it is. -/
theorem checks_of_not_definitive {results : List (Option GuardError)} (h : results ≠ [])
    {err : GuardError} (herr : err.definitive = false) :
    checks (results ++ [some err]) = checks results := by
  rw [checks_eq, checks_eq, conclusive_concat h]
  simp [herr]

end GuardChecker
end Sigillum
