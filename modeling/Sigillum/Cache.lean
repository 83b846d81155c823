import Mathlib.Data.List.Dedup
import Mathlib.Data.List.Perm.Subperm

/-! # Caches

A cache forgets, and what it forgets is its own affair.  What a program knows is what it has
done with it (`History`), and two laws: what is found was stored last under its key, and
nothing is forgotten while no more keys were stored than there is room for (`Cache`).
-/

namespace Cache

/-- What is done with a cache. -/
inductive Op (κ ν : Type) where
  | get (key : κ)
  | add (key : κ) (value : ν)
  | remove (key : κ)
  deriving DecidableEq, Repr

/-- All that was done with a cache, the last first. -/
abbrev History (κ ν : Type) := List (Op κ ν)

namespace History
variable {κ ν : Type}

/-- The keys that were stored. -/
def keys : History κ ν → List κ :=
  List.filterMap fun
    | .add key _ => some key
    | _ => none

/-- What was stored last under a key, and not removed since. -/
def stored [DecidableEq κ] : History κ ν → κ → Option ν
  | [], _ => none
  | .get _ :: h, k => stored h k
  | .add key value :: h, k => if k = key then some value else stored h k
  | .remove key :: h, k => if k = key then none else stored h k

end History
end Cache

open Cache in
/-- A cache with room for so many keys, by what it finds. -/
structure Cache (size : Nat) (κ ν : Type) [DecidableEq κ] where
  find : History κ ν → κ → Option ν
  stored_of_find : ∀ {h key value}, find h key = some value → h.stored key = some value
  find_of_room : ∀ {h}, h.keys.dedup.length ≤ size → ∀ key, find h key = h.stored key

namespace Cache
variable {size : Nat} {κ ν : Type} [DecidableEq κ]

/-- What is found under a key, which has been looked for then. -/
def get (c : Cache size κ ν) (h : History κ ν) (key : κ) : Option ν × History κ ν :=
  (c.find h key, .get key :: h)

/-- A cache that forgets nothing. -/
def roomy : Cache size κ ν where
  find := History.stored
  stored_of_find h := h
  find_of_room _ _ := rfl

/-- All keys are among few. -/
theorem find_of_subset (c : Cache size κ ν) {h : History κ ν} {keys : List κ}
    (hsub : h.keys ⊆ keys) (hfew : keys.dedup.length ≤ size) (key : κ) :
    c.find h key = h.stored key := by
  have hdedup : h.keys.dedup ⊆ keys.dedup := by
    intro k hk
    rw [List.mem_dedup] at hk ⊢
    exact hsub hk
  exact c.find_of_room
    (Nat.le_trans (List.subperm_of_subset h.keys.nodup_dedup hdedup).length_le hfew) key

end Cache
