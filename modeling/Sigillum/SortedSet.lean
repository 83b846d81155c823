import Mathlib.Data.Int.Order.Basic
import Mathlib.Data.List.Nodup
import Mathlib.Order.Lattice

/-! # Sorted sets that expire

One key of a store of sorted sets.  Members carry a score and are kept in order
of score, then of member; a key vanishes, together with its expiry, when its
last member goes or its time to live reaches zero.

Callers that ask only for scores reason about `scores`, a sorted list of
integers: every operation has one lemma that says what it does to that list.
-/
namespace SortedSet

structure Entry (M : Type) where
  score : Int
  member : M
  deriving DecidableEq, Repr

variable {M : Type} [LinearOrder M]

/-- Lower score first, then lower member. -/
def Entry.before (a b : Entry M) : Bool :=
  decide (a.score < b.score) || (decide (a.score = b.score) && decide (a.member < b.member))

/-- A key that exists; without `expireAt` it lives until it is emptied. -/
structure Key (M : Type) [LinearOrder M] where
  entries : List (Entry M)
  expireAt : Option Int
  nonempty : entries ≠ []
  ordered : entries.Pairwise (fun a b => a.before b)
  distinct : (entries.map Entry.member).Nodup

/-- What is stored under a key, if anything is. -/
abbrev Cell (M : Type) [LinearOrder M] := Option (Key M)

namespace Cell

def entries (c : Cell M) : List (Entry M) := (c.map Key.entries).getD []

/-- The scores, lowest first. -/
def scores (c : Cell M) : List Int := c.entries.map Entry.score

def members (c : Cell M) : List M := c.entries.map Entry.member

/-- When the key expires, if it does. -/
def expiry (c : Cell M) : Option Int := c.bind Key.expireAt

end Cell

/-- What some entries less leave of a key: nothing, if none is left. -/
def Key.restrict (k : Key M) (es : List (Entry M)) (h : es.Sublist k.entries) : Cell M :=
  if hne : es = [] then none
  else some ⟨es, k.expireAt, hne, k.ordered.sublist h, k.distinct.sublist (h.map _)⟩

/-- What is left of a key at `now`. -/
def live (now : Int) (c : Cell M) : Cell M :=
  c.filter fun k => k.expireAt.all fun e => decide (now < e)

/-- `PTTL`: `-2` for no key, `-1` for a key that does not expire. -/
def pttl (now : Int) : Cell M → Int
  | none => -2
  | some k => (k.expireAt.map (· - now)).getD (-1)

/-- `ZREMRANGEBYSCORE key -inf max`. -/
def remRangeByScore (max : Int) (c : Cell M) : Cell M :=
  c.bind fun k => k.restrict (k.entries.filter fun e => decide (max < e.score)) List.filter_sublist

/-- `ZCOUNT key (min +inf`. -/
def count (min : Int) (c : Cell M) : Nat := c.entries.countP fun e => decide (min < e.score)

/-- The rank an index stands for: from the end if it is negative. -/
def rank (n : Nat) (i : Int) : Int := if i < 0 then n + i else i

/-- `ZRANGE key start stop`. -/
def range (start stop : Int) (c : Cell M) : List (Entry M) :=
  (c.entries.take (rank c.entries.length stop + 1).toNat).drop (rank c.entries.length start).toNat

/-- `ZPOPMAX key 1`. -/
def popMax (c : Cell M) : Cell M :=
  c.bind fun k => k.restrict k.entries.dropLast (List.dropLast_sublist _)

/-- `PEXPIRE`. -/
def pexpire (now ttl : Int) (c : Cell M) : Cell M :=
  c.map fun k => { k with expireAt := some (now + ttl) }

/-! ## Adding a member -/

/-- Put an entry in its place. -/
def insert (e : Entry M) : List (Entry M) → List (Entry M)
  | [] => [e]
  | a :: es => if e.before a then e :: a :: es else a :: insert e es

theorem insert_perm (e : Entry M) (es : List (Entry M)) : (insert e es).Perm (e :: es) := by
  induction es with
  | nil => exact List.Perm.refl _
  | cons a es ih =>
    rw [insert]
    split
    · exact List.Perm.refl _
    · exact (ih.cons a).trans (List.Perm.swap e a es)

theorem mem_insert {e x : Entry M} {es : List (Entry M)} : x ∈ insert e es ↔ x = e ∨ x ∈ es := by
  rw [(insert_perm e es).mem_iff, List.mem_cons]

theorem before_trans {a b c : Entry M} (hab : a.before b) (hbc : b.before c) : a.before c := by
  simp only [Entry.before, Bool.or_eq_true, Bool.and_eq_true, decide_eq_true_eq] at *
  rcases hab with hab | ⟨hab, hm⟩
  · rcases hbc with hbc | ⟨hbc, -⟩ <;> exact Or.inl (by omega)
  · rcases hbc with hbc | ⟨hbc, hm'⟩
    · exact Or.inl (by omega)
    · exact Or.inr ⟨by omega, hm.trans hm'⟩

/-- Of two entries with different members one comes first. -/
theorem before_of_not_before {a b : Entry M} (hne : a.member ≠ b.member) (h : ¬ a.before b) :
    b.before a := by
  simp only [Entry.before, Bool.or_eq_true, Bool.and_eq_true, decide_eq_true_eq, not_or,
    not_and] at *
  rcases lt_trichotomy a.score b.score with hlt | heq | hgt
  · exact absurd hlt h.1
  · exact Or.inr ⟨heq.symm, lt_of_le_of_ne (not_lt.mp (h.2 heq)) (Ne.symm hne)⟩
  · exact Or.inl hgt

theorem insert_ordered {e : Entry M} {es : List (Entry M)}
    (hes : es.Pairwise (fun a b => a.before b)) (hnew : ∀ a ∈ es, a.member ≠ e.member) :
    (insert e es).Pairwise (fun a b => a.before b) := by
  induction es with
  | nil => exact List.pairwise_singleton _ _
  | cons a es ih =>
    obtain ⟨ha, htail⟩ := List.pairwise_cons.mp hes
    rw [insert]
    split
    · rename_i hbefore
      refine List.pairwise_cons.mpr ⟨fun x hx => ?_, hes⟩
      rcases List.mem_cons.mp hx with rfl | hx
      · exact hbefore
      · exact before_trans hbefore (ha x hx)
    · rename_i hbefore
      refine List.pairwise_cons.mpr
        ⟨fun x hx => ?_, ih htail fun x hx => hnew x (List.mem_cons_of_mem _ hx)⟩
      rcases mem_insert.mp hx with rfl | hx
      · exact before_of_not_before (Ne.symm (hnew a List.mem_cons_self)) hbefore
      · exact ha x hx

/-- The entries of other members. -/
def without (member : M) (c : Cell M) : List (Entry M) :=
  c.entries.filter fun e => decide (e.member ≠ member)

theorem member_ne_of_mem_without {member : M} {c : Cell M} {a : Entry M}
    (ha : a ∈ without member c) : a.member ≠ member :=
  of_decide_eq_true (List.mem_filter.mp ha).2

theorem Cell.ordered (c : Cell M) : c.entries.Pairwise (fun a b => a.before b) := by
  cases c with
  | none => exact List.Pairwise.nil
  | some k => exact k.ordered

theorem Cell.distinct (c : Cell M) : c.members.Nodup := by
  cases c with
  | none => exact List.nodup_nil
  | some k => exact k.distinct

theorem insert_ne_nil (e : Entry M) (es : List (Entry M)) : insert e es ≠ [] := by
  intro h
  have : e ∈ insert e es := mem_insert.mpr (Or.inl rfl)
  rw [h] at this
  cases this

theorem insert_distinct {score : Int} {member : M} {c : Cell M} :
    ((insert ⟨score, member⟩ (without member c)).map Entry.member).Nodup := by
  rw [((insert_perm _ _).map _).nodup_iff, List.map_cons, List.nodup_cons]
  constructor
  · intro hmem
    obtain ⟨a, ha, he⟩ := List.mem_map.mp hmem
    exact member_ne_of_mem_without ha he
  · exact c.distinct.sublist (List.filter_sublist.map _)

/-- `ZADD`: the score of a member that exists is replaced. -/
def add (score : Int) (member : M) (c : Cell M) : Cell M :=
  some {
    entries := insert ⟨score, member⟩ (without member c)
    expireAt := c.expiry
    nonempty := insert_ne_nil _ _
    ordered := insert_ordered (c.ordered.sublist List.filter_sublist)
      fun _ => member_ne_of_mem_without
    distinct := insert_distinct }

/-! ## What the operations do to the scores -/

@[simp] theorem Cell.scores_none : Cell.scores (none : Cell M) = [] := rfl

theorem Cell.scores_sorted (c : Cell M) : c.scores.Pairwise (· ≤ ·) := by
  refine List.pairwise_map.mpr (c.ordered.imp fun {a b} h => ?_)
  simp only [Entry.before, Bool.or_eq_true, Bool.and_eq_true, decide_eq_true_eq] at h
  omega

/-- A key exists exactly while it has members. -/
theorem Cell.scores_eq_nil {c : Cell M} : c.scores = [] ↔ c = none := by
  cases c with
  | none => simp
  | some k => simpa [Cell.scores, Cell.entries] using k.nonempty

theorem live_cases (now : Int) (c : Cell M) :
    (live now c = c ∧ ∀ e ∈ c.expiry, now < e) ∨
      (live now c = none ∧ ∃ e ∈ c.expiry, e ≤ now) := by
  cases c with
  | none => exact Or.inl ⟨rfl, nofun⟩
  | some k =>
    cases he : k.expireAt with
    | none => exact Or.inl ⟨by simp [live, he], by simp [Cell.expiry, he]⟩
    | some e =>
      by_cases hlt : now < e
      · exact Or.inl ⟨by simp [live, he, hlt], by simpa [Cell.expiry, he] using hlt⟩
      · exact Or.inr ⟨by simp [live, he, hlt], by simpa [Cell.expiry, he] using hlt⟩

theorem entries_live (now : Int) (c : Cell M) : (live now c).entries.Sublist c.entries := by
  rcases live_cases now c with ⟨h, -⟩ | ⟨h, -⟩
  · rw [h]
  · rw [h]
    exact List.nil_sublist _

theorem Key.entries_restrict {k : Key M} {es : List (Entry M)} (h : es.Sublist k.entries) :
    (k.restrict es h).entries = es := by
  unfold Key.restrict
  split
  · rename_i hnil
    exact hnil.symm
  · rfl

/-- What is left of a key keeps its expiry. -/
theorem Key.expiry_restrict {k : Key M} {es : List (Entry M)} (h : es.Sublist k.entries) :
    (k.restrict es h).expiry = if es = [] then none else k.expireAt := by
  unfold Key.restrict
  split <;> rfl

theorem scores_remRangeByScore (max : Int) (c : Cell M) :
    (remRangeByScore max c).scores = c.scores.filter fun a => decide (max < a) := by
  cases c with
  | none => rfl
  | some k =>
    simp only [remRangeByScore, Option.bind_some, Cell.scores, Key.entries_restrict,
      List.filter_map]
    rfl

theorem expiry_remRangeByScore (max : Int) (c : Cell M) :
    (remRangeByScore max c).expiry =
      if (remRangeByScore max c).scores = [] then none else c.expiry := by
  cases c with
  | none => rfl
  | some k =>
    simp only [remRangeByScore, Option.bind_some, Cell.scores, Key.entries_restrict,
      Key.expiry_restrict, List.map_eq_nil_iff]
    rfl

theorem entries_remRangeByScore (max : Int) (c : Cell M) :
    (remRangeByScore max c).entries.Sublist c.entries := by
  cases c with
  | none => exact List.Sublist.refl _
  | some k =>
    simp only [remRangeByScore, Option.bind_some, Key.entries_restrict]
    exact List.filter_sublist

theorem count_eq (min : Int) (c : Cell M) :
    count min c = (c.scores.filter fun a => decide (min < a)).length := by
  rw [count, Cell.scores, ← List.countP_eq_length_filter, List.countP_map]
  rfl

/-- The `n`-th entry from the end. -/
theorem range_neg {n : Nat} {c : Cell M} (hpos : 0 < n) (hn : n ≤ c.scores.length) :
    (range (-n) (-n) c).map Entry.score = [c.scores[c.scores.length - n]] := by
  have hlen : c.entries.length = c.scores.length := by simp [Cell.scores]
  have hrank : rank c.entries.length (-n) = (c.entries.length - n : Nat) := by
    rw [rank, if_pos (by omega)]
    omega
  have hnext : (((c.entries.length - n : Nat) : Int) + 1).toNat = c.entries.length - n + 1 := by
    omega
  have hat : c.entries.length - n < c.entries.length := by omega
  rw [range, hrank, hnext, Int.toNat_natCast, List.take_succ_eq_append_getElem hat,
    List.drop_left' (by rw [List.length_take]; omega)]
  simp [Cell.scores]

theorem scores_popMax (c : Cell M) : (popMax c).scores = c.scores.dropLast := by
  cases c with
  | none => rfl
  | some k =>
    simp only [popMax, Option.bind_some, Cell.scores, Key.entries_restrict, List.map_dropLast]
    rfl

theorem expiry_popMax (c : Cell M) :
    (popMax c).expiry = if (popMax c).scores = [] then none else c.expiry := by
  cases c with
  | none => rfl
  | some k =>
    simp only [popMax, Option.bind_some, Cell.scores, Key.entries_restrict,
      Key.expiry_restrict, List.map_eq_nil_iff]
    rfl

theorem entries_popMax (c : Cell M) : (popMax c).entries.Sublist c.entries := by
  cases c with
  | none => exact List.Sublist.refl _
  | some k =>
    simp only [popMax, Option.bind_some, Key.entries_restrict]
    exact List.dropLast_sublist _

@[simp] theorem entries_pexpire (now ttl : Int) (c : Cell M) :
    (pexpire now ttl c).entries = c.entries := by
  cases c <;> rfl

/-- A member scored at least as high as all others comes last but for ties, which
do not show in the scores. -/
theorem map_score_insert {e : Entry M} {es : List (Entry M)}
    (hes : (es.map Entry.score).Pairwise (· ≤ ·)) (hmax : ∀ a ∈ es, a.score ≤ e.score) :
    (insert e es).map Entry.score = es.map Entry.score ++ [e.score] := by
  induction es with
  | nil => rfl
  | cons a es ih =>
    obtain ⟨ha, htail⟩ := List.pairwise_cons.mp hes
    rw [insert]
    split
    · rename_i hbefore
      -- `a` and everything after it has the score of `e`
      have hscore : ∀ x ∈ (a :: es).map Entry.score, x = e.score := by
        intro x hx
        obtain ⟨y, hy, rfl⟩ := List.mem_map.mp hx
        have hle := hmax y hy
        simp only [Entry.before, Bool.or_eq_true, Bool.and_eq_true, decide_eq_true_eq] at hbefore
        rcases List.mem_cons.mp hy with rfl | hy
        · omega
        · have := ha y.score (List.mem_map_of_mem hy)
          omega
      rw [List.map_cons, List.eq_replicate_of_mem hscore, ← List.replicate_succ,
        List.replicate_succ']
    · rw [List.map_cons, ih htail fun x hx => hmax x (List.mem_cons_of_mem _ hx)]
      rfl

theorem without_eq_self {member : M} {c : Cell M} (hnew : member ∉ c.members) :
    without member c = c.entries := by
  refine List.filter_eq_self.mpr fun e he => decide_eq_true fun heq => ?_
  exact hnew (heq ▸ List.mem_map_of_mem he)

/-- Adding a new member with the highest score. -/
theorem scores_add {score : Int} {member : M} {c : Cell M} (hnew : member ∉ c.members)
    (hmax : ∀ a ∈ c.scores, a ≤ score) : (add score member c).scores = c.scores ++ [score] := by
  have hes : (insert ⟨score, member⟩ c.entries).map Entry.score = c.scores ++ [score] :=
    map_score_insert c.scores_sorted fun a ha => hmax _ (List.mem_map_of_mem ha)
  rw [← without_eq_self hnew] at hes
  exact hes

theorem length_entries_add {score : Int} {member : M} {c : Cell M} (hnew : member ∉ c.members) :
    (add score member c).entries.length = c.entries.length + 1 := by
  rw [← without_eq_self hnew]
  exact (insert_perm _ _).length_eq

theorem length_entries_popMax (c : Cell M) :
    (popMax c).entries.length = c.entries.length - 1 := by
  have hscores := congrArg List.length (scores_popMax c)
  simpa [Cell.scores] using hscores

theorem mem_members_add {score : Int} {member x : M} {c : Cell M}
    (h : x ∈ (add score member c).members) : x = member ∨ x ∈ c.members := by
  obtain ⟨a, ha, rfl⟩ := List.mem_map.mp h
  rcases mem_insert.mp ha with rfl | ha
  · exact Or.inl rfl
  · exact Or.inr (List.mem_map_of_mem (List.mem_filter.mp ha).1)

end SortedSet
