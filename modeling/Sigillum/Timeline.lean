import Mathlib.Order.Lattice
import Mathlib.Data.List.Basic

/-! # Binary search, and the suffixes of a sorted list

`search n f` is the textbook half-interval search: the least index at which a
monotone test succeeds.  On a list sorted in increasing order it finds the cut
between the entries at or below a cutoff and those above it, so that dropping
everything before the cut keeps exactly the entries above the cutoff
(`drop_search`), and their number is the list's length less the cut
(`length_sub_search`).
-/
namespace Timeline

/-- The loop of the search: `f` is false below `i` and true from `j` on.  `fuel`
bounds the number of halvings; the gap `j - i` is always enough. -/
def searchLoop (f : Nat → Bool) : Nat → Nat → Nat → Nat
  | 0, i, _ => i
  | fuel + 1, i, j =>
      if i < j then
        let h := (i + j) / 2
        if f h then searchLoop f fuel i h else searchLoop f fuel (h + 1) j
      else i

/-- The least index below `n` at which `f` holds, or `n`. -/
def search (n : Nat) (f : Nat → Bool) : Nat := searchLoop f n 0 n

/-- A test that, once true, stays true below `n`. -/
def MonotoneBelow (n : Nat) (f : Nat → Bool) : Prop :=
  ∀ i j, i ≤ j → j < n → f i = true → f j = true

theorem searchLoop_spec {n : Nat} {f : Nat → Bool} (hmono : MonotoneBelow n f) :
    ∀ (fuel i j : Nat), j - i ≤ fuel → i ≤ j → j ≤ n →
      (∀ k, k < i → f k = false) → (∀ k, j ≤ k → k < n → f k = true) →
      searchLoop f fuel i j ≤ n ∧ (∀ k, k < searchLoop f fuel i j → f k = false) ∧
        (∀ k, searchLoop f fuel i j ≤ k → k < n → f k = true)
  | 0, i, j, hfuel, hij, hjn, hlow, hhigh => by
      have he : i = j := by omega
      subst he
      exact ⟨hjn, hlow, hhigh⟩
  | fuel + 1, i, j, hfuel, hij, hjn, hlow, hhigh => by
      unfold searchLoop
      by_cases hlt : i < j
      · rw [if_pos hlt]
        have hmid : i ≤ (i + j) / 2 ∧ (i + j) / 2 < j := by omega
        by_cases hf : f ((i + j) / 2) = true
        · simp only [hf, if_true]
          refine searchLoop_spec hmono fuel i ((i + j) / 2) (by omega) hmid.1 (by omega) hlow ?_
          intro k hk hkn
          exact hmono _ _ hk hkn hf
        · simp only [hf]
          refine searchLoop_spec hmono fuel ((i + j) / 2 + 1) j (by omega) (by omega) hjn ?_ hhigh
          intro k hk
          -- A success at or below the midpoint would be one at the midpoint.
          by_contra hne
          exact hf (hmono k _ (by omega) (by omega) (by simpa using hne))
      · rw [if_neg hlt]
        have he : i = j := by omega
        subst he
        exact ⟨hjn, hlow, hhigh⟩

/-- **The search is correct on every monotone test**: the test fails before the
returned index and succeeds from it on. -/
theorem search_spec {n : Nat} {f : Nat → Bool} (hmono : MonotoneBelow n f) :
    search n f ≤ n ∧ (∀ k, k < search n f → f k = false) ∧
      (∀ k, search n f ≤ k → k < n → f k = true) :=
  searchLoop_spec hmono n 0 n (by omega) (Nat.zero_le n) (Nat.le_refl n)
    (fun _ hk => absurd hk (Nat.not_lt_zero _)) (fun _ hk hkn => absurd hkn (by omega))

theorem searchLoop_le {f : Nat → Bool} : ∀ (fuel i j n : Nat), i ≤ n → j ≤ n →
    searchLoop f fuel i j ≤ n
  | 0, _, _, _, hi, _ => hi
  | fuel + 1, i, j, n, hi, hj => by
      unfold searchLoop
      by_cases hlt : i < j
      · rw [if_pos hlt]
        by_cases hf : f ((i + j) / 2) = true
        · simp only [hf, if_true]
          exact searchLoop_le fuel i _ n hi (by omega)
        · simp only [hf]
          exact searchLoop_le fuel _ j n (by omega) hj
      · rw [if_neg hlt]
        exact hi

/-- The search never leaves its range, whatever the test. -/
theorem search_le (n : Nat) (f : Nat → Bool) : search n f ≤ n :=
  searchLoop_le n 0 n n (Nat.zero_le n) (Nat.le_refl n)

section Sorted
variable {α : Type} [LinearOrder α]

/-- Entry `i` exists and lies above `cutoff`. -/
def above (l : List α) (cutoff : α) (i : Nat) : Bool := (l[i]?).any (fun a => decide (cutoff < a))

theorem above_eq {l : List α} {cutoff : α} {i : Nat} (h : i < l.length) :
    above l cutoff i = decide (cutoff < l[i]) := by
  simp [above, List.getElem?_eq_getElem h]

theorem above_monotone {l : List α} (hs : l.Pairwise (· ≤ ·)) (cutoff : α) :
    MonotoneBelow l.length (above l cutoff) := by
  intro i j hij hj hi
  rw [above_eq (by omega), decide_eq_true_eq] at hi
  rw [above_eq hj, decide_eq_true_eq]
  rcases Nat.eq_or_lt_of_le hij with rfl | hlt
  · exact hi
  · exact lt_of_lt_of_le hi (List.pairwise_iff_getElem.mp hs i j (by omega) hj hlt)

/-- The cut keeps exactly the entries above the cutoff. -/
theorem drop_search {l : List α} (hs : l.Pairwise (· ≤ ·)) (cutoff : α) :
    l.drop (search l.length (above l cutoff)) = l.filter (fun a => decide (cutoff < a)) := by
  obtain ⟨-, hlow, hhigh⟩ := search_spec (above_monotone hs cutoff)
  generalize hk : search l.length (above l cutoff) = k at hlow hhigh
  have hdropped : (l.take k).filter (fun a => decide (cutoff < a)) = [] := by
    rw [List.filter_eq_nil_iff]
    intro a ha
    obtain ⟨i, hi, rfl⟩ := List.mem_iff_getElem.mp ha
    have hik : i < k ∧ i < l.length := by rw [List.length_take] at hi; omega
    have := hlow i hik.1
    rw [above_eq hik.2] at this
    simpa using this
  have hkept : (l.drop k).filter (fun a => decide (cutoff < a)) = l.drop k := by
    rw [List.filter_eq_self]
    intro a ha
    obtain ⟨i, hi, rfl⟩ := List.mem_iff_getElem.mp ha
    have hil : k + i < l.length := by rw [List.length_drop] at hi; omega
    have := hhigh (k + i) (by omega) hil
    rw [above_eq hil] at this
    simpa using this
  calc l.drop k = (l.take k).filter (fun a => decide (cutoff < a)) ++
        (l.drop k).filter (fun a => decide (cutoff < a)) := by rw [hdropped, hkept]; rfl
    _ = l.filter (fun a => decide (cutoff < a)) := by
        rw [← List.filter_append, List.take_append_drop]

/-- A scan from the front finds the same cut. -/
theorem dropWhile_le {l : List α} (hs : l.Pairwise (· ≤ ·)) (cutoff : α) :
    l.dropWhile (fun a => decide (a ≤ cutoff)) = l.filter (fun a => decide (cutoff < a)) := by
  induction l with
  | nil => rfl
  | cons a l ih =>
    obtain ⟨hhead, htail⟩ := List.pairwise_cons.mp hs
    by_cases ha : a ≤ cutoff
    · rw [List.dropWhile_cons_of_pos (by simpa using ha), ih htail,
        List.filter_cons_of_neg (by simpa using ha)]
    · have hall : ∀ b ∈ a :: l, decide (cutoff < b) = true := by
        intro b hb
        rcases List.mem_cons.mp hb with rfl | hb
        · simpa using ha
        · exact decide_eq_true (lt_of_lt_of_le (not_le.mp ha) (hhead b hb))
      rw [List.dropWhile_cons_of_neg (by simpa using ha), List.filter_eq_self.mpr hall]

/-- The number of entries above the cutoff. -/
theorem length_sub_search {l : List α} (hs : l.Pairwise (· ≤ ·)) (cutoff : α) :
    l.length - search l.length (above l cutoff) =
      (l.filter (fun a => decide (cutoff < a))).length := by
  rw [← drop_search hs, List.length_drop]

/-- Cutting at a lower cutoff first loses nothing above a higher one. -/
theorem filter_above_filter {c c' : α} (h : c ≤ c') (l : List α) :
    (l.filter (fun a => decide (c < a))).filter (fun a => decide (c' < a)) =
      l.filter (fun a => decide (c' < a)) := by
  rw [List.filter_filter]
  refine List.filter_congr fun a _ => ?_
  by_cases ha : c' < a
  · simp [ha, lt_of_le_of_lt h ha]
  · simp [ha]

/-- Nothing lies above a cutoff no entry exceeds. -/
theorem filter_above_eq_nil {c : α} {l : List α} (h : ∀ a ∈ l, a ≤ c) :
    l.filter (fun a => decide (c < a)) = [] := by
  rw [List.filter_eq_nil_iff]
  intro a ha
  simpa using h a ha

/-- Removing the newest entry of a sorted list that holds every entry of another
above the cutoff, and the same instant from that other list. -/
theorem filter_above_dropLast {c a : α} {before after l : List α}
    (hs : (before ++ a :: after).Pairwise (· ≤ ·)) (hl : l.Pairwise (· ≤ ·))
    (hsub : ((before ++ a :: after).filter (fun x => decide (c < x))).Sublist l)
    (hlast : ∀ x ∈ l.getLast?, a = x) :
    ((before ++ after).filter (fun x => decide (c < x))).Sublist l.dropLast := by
  have hless : (before ++ after).Sublist (before ++ a :: after) :=
    (List.Sublist.refl before).append (List.sublist_cons_self a after)
  rcases List.eq_nil_or_concat l with rfl | ⟨init, x, rfl⟩
  · exact (hless.filter _).trans hsub
  obtain rfl : a = x := hlast x (by simp)
  rw [List.concat_eq_append] at hsub hl ⊢
  rw [List.dropLast_concat]
  by_cases hca : c < a
  · -- Every entry after `a` above the cutoff is the instant `a` again.
    have hafter : ∀ b ∈ after.filter (fun x => decide (c < x)), b = a := by
      intro b hb
      have hge : a ≤ b := (List.pairwise_cons.mp (List.pairwise_append.mp hs).2.1).1 b
        (List.mem_filter.mp hb).1
      have hmem : b ∈ init ++ [a] := hsub.subset <| by
        rw [List.filter_append, List.filter_cons, if_pos (decide_eq_true hca)]
        exact List.mem_append_right _ (List.mem_cons_of_mem _ hb)
      rcases List.mem_append.mp hmem with hinit | hself
      · exact le_antisymm ((List.pairwise_append.mp hl).2.2 b hinit a (by simp)) hge
      · exact List.mem_singleton.mp hself
    rw [List.filter_append, List.filter_cons, if_pos (decide_eq_true hca),
      List.eq_replicate_of_mem hafter, ← List.replicate_succ, List.replicate_succ',
      ← List.append_assoc, List.append_sublist_append_right] at hsub
    rwa [List.filter_append, List.eq_replicate_of_mem hafter]
  · rw [List.filter_append, List.filter_cons, if_neg (by simpa using hca), ← List.filter_append,
      List.sublist_append_iff] at hsub
    obtain ⟨l₁, l₂, he, h₁, h₂⟩ := hsub
    rcases List.sublist_singleton.mp h₂ with rfl | rfl
    · rw [he, List.append_nil]
      exact h₁
    · have hmem : a ∈ (before ++ after).filter (fun x => decide (c < x)) := by
        rw [he]
        exact List.mem_append_right _ (List.mem_singleton_self a)
      exact absurd (of_decide_eq_true (List.mem_filter.mp hmem).2) hca

end Sorted
end Timeline
