import Sigillum.CredentialController

/-! # JSON patches of Secrets

What the API server makes of the patches the controller sends: a `test` compares a label
or an annotation, and the patch is refused where one fails; an `add` sets one, or the
whole data.  The maps of a Secret are given by their entries.
-/
namespace Sigillum
open Runes Bytes

namespace Controller

/-! ## Maps -/

/-- `m[key] = value`. -/
def setEntry (key value : Bytes) : List (Bytes × Bytes) → List (Bytes × Bytes)
  | [] => [(key, value)]
  | e :: m => if e.1 = key then (key, value) :: m else e :: setEntry key value m

/-- `m[key]`, which is empty where there is none. -/
def entry (m : List (Bytes × Bytes)) (key : Bytes) : Bytes := (m.lookup key).getD []

theorem lookup_setEntry (key value k : Bytes) (m : List (Bytes × Bytes)) :
    (setEntry key value m).lookup k = if k = key then some value else m.lookup k := by
  induction m with
  | nil =>
    rw [setEntry, List.lookup_cons]
    by_cases hk : k = key
    · simp [hk]
    · simp [hk, beq_false_of_ne hk]
  | cons e m ih =>
    rw [setEntry]
    by_cases hk : k = key
    · subst hk
      by_cases he : e.1 = k
      · simp [he]
      · have hne : (k == e.1) = false := beq_false_of_ne (Ne.symm he)
        rw [if_neg he, List.lookup_cons, hne, ih, if_pos rfl, if_pos rfl]
    · rw [if_neg hk]
      rw [if_neg hk] at ih
      split
      · rename_i he
        have hne : (k == e.1) = false := beq_false_of_ne (he ▸ hk)
        rw [List.lookup_cons, List.lookup_cons, hne, beq_false_of_ne hk]
      · rw [List.lookup_cons, List.lookup_cons, ih]

@[simp] theorem entry_setEntry_self (key value : Bytes) (m : List (Bytes × Bytes)) :
    entry (setEntry key value m) key = value := by
  simp [entry, lookup_setEntry]

theorem entry_setEntry_of_ne {key k : Bytes} (h : k ≠ key) (value : Bytes)
    (m : List (Bytes × Bytes)) : entry (setEntry key value m) k = entry m k := by
  simp [entry, lookup_setEntry, h]

/-! ## JSON pointers -/

/-- `jsonPointerEscape`. -/
def jsonPointerEscape (key : Bytes) : Bytes :=
  key.flatMap fun c => if c = 126 then lit "~0" else if c = 47 then lit "~1" else [c]

/-- The key that an escaped one stands for. -/
def jsonPointerUnescape : Bytes → Bytes
  | [] => []
  | [c] => [c]
  | c :: d :: s =>
    if c = 126 ∧ d = 49 then 47 :: jsonPointerUnescape s
    else if c = 126 ∧ d = 48 then 126 :: jsonPointerUnescape s
    else c :: jsonPointerUnescape (d :: s)

def labelsPath : Bytes := lit "/metadata/labels/"
def annotationsPath : Bytes := lit "/metadata/annotations/"

/-- A part of a Secret that a patch tests or sets. -/
inductive SecretField where
  | inLabels (key : Bytes)
  | inAnnotations (key : Bytes)
  deriving DecidableEq, Repr

/-- What a path points to in a Secret. -/
def pointed (path : Bytes) : Option SecretField :=
  if labelsPath.isPrefixOf path then
    some (.inLabels (jsonPointerUnescape (trimStart labelsPath path)))
  else if annotationsPath.isPrefixOf path then
    some (.inAnnotations (jsonPointerUnescape (trimStart annotationsPath path)))
  else none

theorem jsonPointerUnescape_escape (key : Bytes) :
    jsonPointerUnescape (jsonPointerEscape key) = key := by
  induction key with
  | nil => rfl
  | cons c key ih =>
    have hcons : jsonPointerEscape (c :: key) =
        (if c = 126 then lit "~0" else if c = 47 then lit "~1" else [c]) ++
          jsonPointerEscape key := rfl
    rw [hcons]
    split
    · rename_i hc
      rw [show lit "~0" = [126, 48] by decide, List.cons_append, List.singleton_append,
        jsonPointerUnescape, if_neg (by decide), if_pos (by decide), ih, hc]
    · split
      · rename_i hc
        rw [show lit "~1" = [126, 49] by decide, List.cons_append, List.singleton_append,
          jsonPointerUnescape, if_pos (by decide), ih, hc]
      · -- a character of its own: what follows it does not matter
        rename_i htilde _
        rw [List.singleton_append]
        cases hrest : jsonPointerEscape key with
        | nil =>
          rw [hrest] at ih
          rw [jsonPointerUnescape, ← ih]
          rfl
        | cons d s =>
          rw [hrest] at ih
          rw [jsonPointerUnescape, if_neg (fun h => htilde h.1), if_neg (fun h => htilde h.1), ih]

theorem pointed_label (key : Bytes) :
    pointed (labelsPath ++ jsonPointerEscape key) = some (.inLabels key) := by
  simp [pointed, trimStart, jsonPointerUnescape_escape]

theorem pointed_annotation (key : Bytes) :
    pointed (annotationsPath ++ jsonPointerEscape key) = some (.inAnnotations key) := by
  have hlabels : labelsPath.isPrefixOf (annotationsPath ++ jsonPointerEscape key) = false := by
    rw [show labelsPath = lit "/metadata/" ++ 108 :: lit "abels/" by decide,
      show annotationsPath = lit "/metadata/" ++ 97 :: lit "nnotations/" by decide,
      Bool.eq_false_iff, ne_eq, List.isPrefixOf_iff_prefix, List.append_assoc,
      List.prefix_append_right_inj]
    exact fun h => absurd (List.cons_prefix_cons.mp h).1 (by decide)
  simp [pointed, hlabels, trimStart, jsonPointerUnescape_escape]

/-! ## Patches -/

namespace SecretObject

/-- What stands at a path. -/
def value (s : SecretObject) (path : Bytes) : Option Bytes :=
  match pointed path with
  | some (.inLabels key) => s.labels.lookup key
  | some (.inAnnotations key) => s.annotations.lookup key
  | none => none

/-- The `add` of a value at a path. -/
def add (s : SecretObject) (op : Bytes × Bytes) : Option SecretObject :=
  match pointed op.1 with
  | some (.inLabels key) => some { s with labels := setEntry key op.2 s.labels }
  | some (.inAnnotations key) => some { s with annotations := setEntry key op.2 s.annotations }
  | none => none

end SecretObject

/-- The Secret after a patch, if its tests pass. -/
def SecretPatch.apply (p : SecretPatch) (s : SecretObject) : Option SecretObject :=
  if p.tests.all fun test => s.value test.1 == some test.2 then some { s with data := p.data }
  else none

/-- A patch that also sets labels and annotations. -/
structure TokenPatch extends SecretPatch where
  adds : List (Bytes × Bytes)
  deriving DecidableEq, Repr

/-- The Secret after the patch, if its tests pass and what it sets is there to be set. -/
def TokenPatch.apply (p : TokenPatch) (s : SecretObject) : Option SecretObject := do
  let patched ← p.toSecretPatch.apply s
  p.adds.foldlM SecretObject.add patched

end Controller
end Sigillum
