import Sigillum.MemoryLimiter

/-! # What one call does to a history

`Allow` is a trim, a test of the windows and, if every window has room, an
append.  This module says so once: what the trim keeps (`trimmed_eq`), when a
window is full (`retryAfter_pos_iff`), and what is stored after the call, under
its own key (`allow_stored`) and under the others (`allow_stored_of_ne`).

Everything about runs follows from one relation, `Retains c w h T`: the history
`h` still holds every instant of `T` after `c`, and lives for at least `w` after
each of them.  A call keeps it as long as it trims nothing after `c`
(`Retains.allow`), and one that is admitted adds its own (`Retains.allow_admitted`).
-/
namespace Sigillum
open Duration

/-- The hits of a window: those younger than `size` at `now`. -/
def younger (hist : List Int) (now : Int) (size : Int) : List Int :=
  hist.filter (fun a => decide (now - size < a))

/-- A capped window has no room. -/
def Full (hist : List Int) (now : Int) (w : Window) : Prop :=
  0 < w.limit ∧ w.limit ≤ (younger hist now w.size).length

theorem since_le (hist : List Int) (cutoff : Int) : since hist cutoff ≤ hist.length :=
  Timeline.search_le _ _

theorem drop_since {hist : List Int} (hs : hist.Pairwise (· ≤ ·)) (now : Int) (size : Int) :
    hist.drop (since hist (now - size)) = younger hist now size :=
  Timeline.drop_search hs _

theorem length_sub_since {hist : List Int} (hs : hist.Pairwise (· ≤ ·)) (now : Int)
    (size : Int) :
    (hist.length : Int) - (since hist (now - size) : Nat) = (younger hist now size).length := by
  have h := Timeline.length_sub_search hs (now - size)
  have hle := since_le hist (now - size)
  unfold younger
  unfold since at hle ⊢
  omega

/-! ## The windows -/

/-- In a full window the hit the retry time is taken from is still in it, so the
wait is positive. -/
theorem now_lt_get_add {hist : List Int} (hs : hist.Pairwise (· ≤ ·)) {now : Int} {w : Window}
    (hcap : ¬ w.limit ≤ 0)
    (hfull : ¬ ((hist.length : Int) - (since hist (now - w.size) : Nat) < w.limit)) :
    0 < hist.get ⟨retryIndex hist w, retryIndex_lt hcap hfull⟩ + w.size - now := by
  obtain ⟨-, -, hhigh⟩ := Timeline.search_spec (Timeline.above_monotone hs (now - w.size))
  have hlt := retryIndex_lt hcap hfull
  have hge : since hist (now - w.size) ≤ retryIndex hist w := by
    unfold retryIndex
    omega
  have h := hhigh _ hge hlt
  rw [Timeline.above_eq hlt, decide_eq_true_eq] at h
  simp only [List.get_eq_getElem]
  omega

theorem windowRetry_pos_iff {hist : List Int} (hs : hist.Pairwise (· ≤ ·)) (now : Int)
    (retry : Int) (w : Window) :
    0 < windowRetry hist now retry w ↔ 0 < retry ∨ Full hist now w := by
  unfold windowRetry Full
  rw [← length_sub_since hs]
  split
  · omega
  · split
    · omega
    · rename_i hcap hfull
      have hpos := now_lt_get_add hs hcap hfull
      have hmax := Int.le_max_right retry
        (hist.get ⟨retryIndex hist w, retryIndex_lt hcap hfull⟩ + w.size - now)
      exact ⟨fun _ => Or.inr (by omega), fun _ => by omega⟩

/-- **A call is refused exactly when one of its windows is full.** -/
theorem retryAfter_pos_iff {hist : List Int} (hs : hist.Pairwise (· ≤ ·)) (limits : Limits)
    (now : Int) : 0 < retryAfter limits hist now ↔ ∃ w ∈ limits.windows, Full hist now w := by
  have general : ∀ (ws : List Window) (retry : Int),
      0 < ws.foldl (windowRetry hist now) retry ↔ 0 < retry ∨ ∃ w ∈ ws, Full hist now w := by
    intro ws
    induction ws with
    | nil => intro retry; simp
    | cons w ws ih =>
      intro retry
      rw [List.foldl_cons, ih, windowRetry_pos_iff hs, or_assoc]
      simp
  rw [retryAfter, general]
  simp

/-! ## The store -/

@[simp] theorem History.zero_seenAt (now : Int) : History.zero.seenAt now = History.zero := by
  unfold History.seenAt
  split <;> rfl

theorem History.seenAt_of_lt {h : History} {now : Int} (hlt : now < h.expires) :
    h.seenAt now = h := if_pos hlt

theorem History.seenAt_of_le {h : History} {now : Int} (hle : h.expires ≤ now) :
    h.seenAt now = History.zero := if_neg (by omega)

theorem le_later_left (a b : Int) : a ≤ later a b := by
  unfold later
  split <;> omega

theorem le_later_right (a b : Int) : b ≤ later a b := by
  unfold later
  split <;> omega

namespace MemoryLimiter
variable {K : Type}

/-- The sweep deletes only histories that have expired. -/
theorem stored_sweep (l : MemoryLimiter K) (now : Int) (k : K) :
    (l.sweep now).stored k = l.stored k ∨
      ((l.stored k).expires ≤ now ∧ (l.sweep now).stored k = History.zero) := by
  unfold sweep
  split
  · exact Or.inl rfl
  · cases hk : l.hits k with
    | none => exact Or.inl (by simp [stored, hk])
    | some h =>
      by_cases hlt : now < h.expires
      · exact Or.inl (by simp [stored, hk, hlt, Option.filter])
      · refine Or.inr ⟨?_, by simp [stored, hk, hlt, Option.filter]⟩
        simpa [stored, hk] using hlt

/-- A call sees the same history whether or not its sweep deletes it. -/
theorem current_eq (l : MemoryLimiter K) (k : K) (now : Int) :
    l.current k now = (l.stored k).seenAt now := by
  unfold current
  rcases l.stored_sweep now k with h | ⟨hexp, h⟩
  · rw [h]
  · rw [h, History.seenAt_of_le hexp, History.zero_seenAt]

/-- The current history is the stored one, or empty once that has expired. -/
theorem current_cases (l : MemoryLimiter K) (k : K) (now : Int) :
    (now < (l.stored k).expires ∧ l.current k now = l.stored k) ∨
      ((l.stored k).expires ≤ now ∧ l.current k now = History.zero) := by
  rw [current_eq]
  by_cases hlt : now < (l.stored k).expires
  · exact Or.inl ⟨hlt, History.seenAt_of_lt hlt⟩
  · exact Or.inr ⟨by omega, History.seenAt_of_le (by omega)⟩

theorem current_hits_sublist (l : MemoryLimiter K) (k : K) (now : Int) :
    (l.current k now).hits.Sublist (l.stored k).hits := by
  rcases l.current_cases k now with ⟨-, h⟩ | ⟨-, h⟩
  · rw [h]
  · rw [h]
    exact List.nil_sublist _

theorem trimmed_sublist (l : MemoryLimiter K) (k : K) (limits : Limits) (now : Int) :
    (l.trimmed k limits now).Sublist (l.stored k).hits :=
  (List.drop_sublist _ _).trans (l.current_hits_sublist k now)

theorem trimmed_sorted {l : MemoryLimiter K} {k : K}
    (hs : (l.stored k).hits.Pairwise (· ≤ ·)) (limits : Limits) (now : Int) :
    (l.trimmed k limits now).Pairwise (· ≤ ·) :=
  hs.sublist (l.trimmed_sublist k limits now)

/-- The trim keeps what is younger than the retention. -/
theorem trimmed_eq {l : MemoryLimiter K} {k : K} (hs : (l.stored k).hits.Pairwise (· ≤ ·))
    (limits : Limits) (now : Int) :
    l.trimmed k limits now =
      younger (l.current k now).hits now (limits.retain ((l.current k now).expires - now)) :=
  drop_since (hs.sublist (l.current_hits_sublist k now)) _ _

variable [DecidableEq K]

@[simp] theorem stored_store_self (l : MemoryLimiter K) (k : K) (h : History) :
    (l.store k h).stored k = h := by
  simp [stored, store]

theorem stored_store_of_ne (l : MemoryLimiter K) {k key : K} (hne : k ≠ key) (h : History) :
    (l.store key h).stored k = l.stored k := by
  simp [stored, store, hne]

theorem allow_of_isNone {limits : Limits} (h : limits.isNone = true) (l : MemoryLimiter K) (k : K)
    (now : Int) : l.allow k limits now = (⟨true, 0⟩, l) := by
  simp [allow, h]

theorem allow_of_capped {limits : Limits} (h : limits.isNone = false) (l : MemoryLimiter K) (k : K)
    (now : Int) :
    l.allow k limits now =
      if 0 < retryAfter limits (l.trimmed k limits now) now then
        (⟨false, ceilToSecond (retryAfter limits (l.trimmed k limits now) now)⟩,
          (l.sweep now).store k ⟨l.trimmed k limits now, (l.current k now).expires⟩)
      else
        (⟨true, 0⟩, (l.sweep now).store k ⟨l.trimmed k limits now ++ [now],
          later (l.current k now).expires (now + limits.keep)⟩) := by
  simp [allow, h]

/-- **A call is admitted exactly when every capped window of the trimmed history
has room.** -/
theorem allow_ok_iff {l : MemoryLimiter K} {k : K} {limits : Limits} (hcap : limits.isNone = false)
    (hs : (l.stored k).hits.Pairwise (· ≤ ·)) (now : Int) :
    (l.allow k limits now).1.ok = true ↔
      ∀ w ∈ limits.windows, ¬ Full (l.trimmed k limits now) now w := by
  have hpos := retryAfter_pos_iff (trimmed_sorted hs limits now) limits now
  rw [allow_of_capped hcap]
  by_cases hretry : 0 < retryAfter limits (l.trimmed k limits now) now
  · rw [if_pos hretry]
    obtain ⟨w, hw, hfull⟩ := hpos.mp hretry
    exact ⟨fun h => Bool.noConfusion h, fun hall => absurd hfull (hall w hw)⟩
  · rw [if_neg hretry]
    exact ⟨fun _ w hw hfull => hretry (hpos.mpr ⟨w, hw, hfull⟩), fun _ => rfl⟩

/-- What a capped call leaves under its own key. -/
theorem allow_stored (l : MemoryLimiter K) (k : K) {limits : Limits} (hcap : limits.isNone = false)
    (now : Int) :
    ((l.allow k limits now).1.ok = true ∧ (l.allow k limits now).2.stored k =
        ⟨l.trimmed k limits now ++ [now],
          later (l.current k now).expires (now + limits.keep)⟩) ∨
      ((l.allow k limits now).1.ok = false ∧ (l.allow k limits now).2.stored k =
        ⟨l.trimmed k limits now, (l.current k now).expires⟩) := by
  rw [allow_of_capped hcap]
  split
  · exact Or.inr ⟨rfl, stored_store_self ..⟩
  · exact Or.inl ⟨rfl, stored_store_self ..⟩

/-- Under another key a call leaves what its sweep leaves. -/
theorem allow_stored_of_ne (l : MemoryLimiter K) {k key : K} (hne : k ≠ key) (limits : Limits)
    (now : Int) :
    (l.allow key limits now).2.stored k = l.stored k ∨
      ((l.stored k).expires ≤ now ∧ (l.allow key limits now).2.stored k = History.zero) := by
  cases hcap : limits.isNone with
  | true =>
    rw [allow_of_isNone hcap]
    exact Or.inl rfl
  | false =>
    rw [allow_of_capped hcap]
    split
    · rw [stored_store_of_ne _ hne]
      exact l.stored_sweep now k
    · rw [stored_store_of_ne _ hne]
      exact l.stored_sweep now k

/-- `Refund` drops the newest hit and leaves the expiry. -/
theorem stored_refund (l : MemoryLimiter K) (k : K) :
    (l.refund k).stored k = ⟨(l.stored k).hits.dropLast, (l.stored k).expires⟩ := by
  unfold refund
  by_cases h : (l.stored k).hits = []
  · simp only [h, if_true, List.dropLast_nil]
    exact congrArg (fun x => (⟨x, (l.stored k).expires⟩ : History)) h
  · simp [h]

/-- A refund leaves other keys alone. -/
theorem stored_refund_of_ne (l : MemoryLimiter K) {k key : K} (hne : k ≠ key) :
    (l.refund key).stored k = l.stored k := by
  unfold refund
  simp only
  split
  · rfl
  · exact l.stored_store_of_ne hne _

end MemoryLimiter

/-! ## What a history still holds -/

/-- **`h` retains `T` after `c`, for `w`**: every instant of `T` after `c` is still
among the hits, and the history lives for at least `w` after each of them. -/
structure Retains (c w : Int) (h : History) (T : List Int) : Prop where
  kept : (T.filter (fun a => decide (c < a))).Sublist h.hits
  lives : ∀ a ∈ T, c < a → a + w ≤ h.expires

namespace Retains
variable {c w now : Int} {h : History} {T : List Int}

theorem of_le (hT : ∀ a ∈ T, a ≤ c) : Retains c w h T where
  kept := by
    rw [Timeline.filter_above_eq_nil hT]
    exact List.nil_sublist _
  lives := fun a ha hlt => absurd (hT a ha) (by omega)

/-- A history that has expired by `c + w` had nothing left to retain. -/
theorem le_of_expired (hr : Retains c w h T) (hexp : h.expires ≤ c + w) : ∀ a ∈ T, a ≤ c := by
  intro a ha
  by_contra hlt
  have := hr.lives a ha (by omega)
  omega

theorem seenAt (hr : Retains c w h T) (hnow : now ≤ c + w) : Retains c w (h.seenAt now) T := by
  by_cases hlt : now < h.expires
  · rw [History.seenAt_of_lt hlt]
    exact hr
  · rw [History.seenAt_of_le (by omega)]
    exact of_le (hr.le_of_expired (by omega))

theorem mono {c' : Int} (hr : Retains c w h T) (hc : c ≤ c') : Retains c' w h T where
  kept := by
    rw [← Timeline.filter_above_filter hc]
    exact List.filter_sublist.trans hr.kept
  lives := fun a ha hlt => hr.lives a ha (by omega)

section Calls
variable {K : Type} {l : MemoryLimiter K} {k key : K} {limits : Limits}

/-- The trim loses nothing after `c` when it reaches back to `c`. -/
theorem trimmed (hr : Retains c w (l.stored k) T) (hs : (l.stored k).hits.Pairwise (· ≤ ·))
    (hnow : now ≤ c + w)
    (hspare : now - limits.retain ((l.current k now).expires - now) ≤ c) :
    (T.filter (fun a => decide (c < a))).Sublist (l.trimmed k limits now) := by
  have hcur : Retains c w (l.current k now) T := by
    rw [l.current_eq]
    exact hr.seenAt hnow
  rw [MemoryLimiter.trimmed_eq hs]
  have hfilter := hcur.kept.filter
    (fun a => decide (now - limits.retain ((l.current k now).expires - now) < a))
  have hself : (T.filter (fun a => decide (c < a))).filter
      (fun a => decide (now - limits.retain ((l.current k now).expires - now) < a)) =
      T.filter (fun a => decide (c < a)) := by
    rw [List.filter_eq_self]
    intro a ha
    have hca : c < a := by simpa using (List.mem_filter.mp ha).2
    exact decide_eq_true (by omega)
  rwa [hself] at hfilter

theorem lives_current (hr : Retains c w (l.stored k) T) (hnow : now ≤ c + w) :
    ∀ a ∈ T, c < a → a + w ≤ (l.current k now).expires := by
  rw [l.current_eq]
  exact (hr.seenAt hnow).lives

variable [DecidableEq K]

/-- A call whose trim reaches back to `c` keeps what was retained. -/
theorem allow (hr : Retains c w (l.stored k) T) (hs : (l.stored k).hits.Pairwise (· ≤ ·))
    (hcap : limits.isNone = false) (hnow : now ≤ c + w)
    (hspare : now - limits.retain ((l.current k now).expires - now) ≤ c) :
    Retains c w ((l.allow k limits now).2.stored k) T := by
  have hkept := hr.trimmed hs hnow hspare
  have hlives := hr.lives_current hnow
  rcases l.allow_stored k hcap now with ⟨-, h⟩ | ⟨-, h⟩
  · rw [h]
    exact ⟨hkept.trans (List.sublist_append_left _ _),
      fun a ha hlt => Int.le_trans (hlives a ha hlt) (le_later_left _ _)⟩
  · rw [h]
    exact ⟨hkept, hlives⟩

/-- An admitted call whose limits keep at least `w` is itself retained. -/
theorem allow_admitted (hr : Retains c w (l.stored k) T)
    (hs : (l.stored k).hits.Pairwise (· ≤ ·)) (hcap : limits.isNone = false) (hnow : now ≤ c + w)
    (hspare : now - limits.retain ((l.current k now).expires - now) ≤ c)
    (hok : (l.allow k limits now).1.ok = true) (hkeep : w ≤ limits.keep) :
    Retains c w ((l.allow k limits now).2.stored k) (T ++ [now]) := by
  have hkept := hr.trimmed hs hnow hspare
  have hlives := hr.lives_current hnow
  rcases l.allow_stored k hcap now with ⟨-, h⟩ | ⟨hno, -⟩
  · rw [h]
    constructor
    · rw [List.filter_append]
      exact hkept.append List.filter_sublist
    · intro a ha hlt
      rcases List.mem_append.mp ha with ha | ha
      · exact Int.le_trans (hlives a ha hlt) (le_later_left _ _)
      · have he : a = now := List.mem_singleton.mp ha
        have hlate := le_later_right (l.current k now).expires (now + limits.keep)
        simp only
        omega
  · rw [hok] at hno
    cases hno

/-- A call on another key can only sweep the history away once it has expired. -/
theorem allow_of_ne (hr : Retains c w (l.stored k) T) (hne : k ≠ key) (hnow : now ≤ c + w) :
    Retains c w ((l.allow key limits now).2.stored k) T := by
  rcases l.allow_stored_of_ne hne limits now with h | ⟨hexp, h⟩
  · rw [h]
    exact hr
  · rw [h]
    exact of_le (hr.le_of_expired (by omega))

end Calls
end Retains
end Sigillum
