import Mathlib.Data.List.Induction
import Sigillum.LimiterSteps

/-! # Runs of `Allow`

A run is a list of `Allow` calls, on any keys and with any limits, made at
non-decreasing readings of the clock.  Next to the limiter it keeps the log of
calls and answers, and everything the limiter promises is said about the log.

* `allow_exact`: the limiter is a sliding window.  A call is admitted exactly
  when each capped window holds fewer admitted calls than its cap, whatever the
  trims, expiries and sweeps in between; for the daily window as long as the
  calls of the last day all carried a daily cap.
* `daily_cap_holds`: without that proviso the daily count survives calls that
  lack the daily cap, unless such a call comes when the newest daily hit is
  between 23 and 24 hours old.
-/
namespace Sigillum
open Duration

/-- One call of `Allow`. -/
structure Call (K : Type) where
  key : K
  limits : Limits
  now : Int

/-- A call and what it was answered. -/
structure Entry (K : Type) where
  call : Call K
  answer : Answer

/-- The limiter, and what has been asked of it. -/
structure Run (K : Type) where
  limiter : MemoryLimiter K
  log : List (Entry K)

/-- The clock never runs backwards. -/
def Clock {K : Type} (calls : List (Call K)) : Prop := calls.Pairwise (fun a b => a.now ≤ b.now)

instance {K : Type} (calls : List (Call K)) : Decidable (Clock calls) :=
  inferInstanceAs (Decidable (calls.Pairwise (fun a b => a.now ≤ b.now)))

/-- The instants of the log entries that satisfy `p`. -/
def times {K : Type} (p : Entry K → Bool) (log : List (Entry K)) : List Int :=
  (log.filter p).map (fun e => e.call.now)

/-- The instants in the window of length `size` that ends at `t`. -/
def inWindow (T : List Int) (t size : Int) : List Int :=
  T.filter (fun a => decide (t - size < a) && decide (a ≤ t))

section Runs
variable {K : Type}

theorem Clock.init {calls : List (Call K)} {c : Call K} (h : Clock (calls ++ [c])) :
    Clock calls := (List.pairwise_append.mp h).1

theorem Clock.last_le {calls : List (Call K)} {c : Call K} (h : Clock (calls ++ [c])) :
    ∀ a ∈ calls, a.now ≤ c.now :=
  fun a ha => (List.pairwise_append.mp h).2.2 a ha c (List.mem_singleton_self c)

theorem times_snoc (p : Entry K → Bool) (log : List (Entry K)) (e : Entry K) :
    times p (log ++ [e]) = times p log ++ (if p e then [e.call.now] else []) := by
  simp only [times, List.filter_append, List.map_append, List.filter_cons, List.filter_nil]
  split <;> simp

variable [DecidableEq K]

/-- An admitted call of `k` that had a capped window. -/
def Entry.counts (k : K) (e : Entry K) : Bool :=
  decide (e.call.key = k) && e.answer.ok && !e.call.limits.isNone

/-- An admitted call of `k` that had the daily window capped. -/
def Entry.countsDaily (k : K) (e : Entry K) : Bool :=
  decide (e.call.key = k) && e.answer.ok && decide (0 < e.call.limits.perDay)

def Run.start : Run K := ⟨MemoryLimiter.new, []⟩

/-- Make one more call. -/
def Run.step (r : Run K) (c : Call K) : Run K :=
  let a := r.limiter.allow c.key c.limits c.now
  ⟨a.2, r.log ++ [⟨c, a.1⟩]⟩

/-- The run of `calls`, from a new limiter. -/
def run (calls : List (Call K)) : Run K := calls.foldl Run.step Run.start

theorem run_snoc (calls : List (Call K)) (c : Call K) :
    run (calls ++ [c]) = (run calls).step c := by
  simp [run]

/-- Every instant of the log is that of a call. -/
theorem times_mem {p : Entry K → Bool} {calls : List (Call K)} {a : Int}
    (h : a ∈ times p (run calls).log) : ∃ c ∈ calls, c.now = a := by
  induction calls using List.reverseRecOn with
  | nil => cases h
  | append_singleton calls c ih =>
    rw [run_snoc, Run.step, times_snoc, List.mem_append] at h
    rcases h with h | h
    · obtain ⟨c', hc', he⟩ := ih h
      exact ⟨c', List.mem_append_left _ hc', he⟩
    · split at h
      · exact ⟨c, by simp, (List.mem_singleton.mp h).symm⟩
      · cases h

theorem times_le {p : Entry K → Bool} {calls : List (Call K)} {t : Int}
    (ht : ∀ c ∈ calls, c.now ≤ t) : ∀ a ∈ times p (run calls).log, a ≤ t := by
  intro a ha
  obtain ⟨c, hc, rfl⟩ := times_mem ha
  exact ht c hc

theorem times_sorted {p : Entry K → Bool} {calls : List (Call K)} (hclock : Clock calls) :
    (times p (run calls).log).Pairwise (· ≤ ·) := by
  induction calls using List.reverseRecOn with
  | nil => exact List.Pairwise.nil
  | append_singleton calls c ih =>
    rw [run_snoc, Run.step, times_snoc]
    refine List.pairwise_append.mpr ⟨ih hclock.init, ?_, ?_⟩
    · split <;> simp
    · intro a ha b hb
      split at hb
      · rw [List.mem_singleton.mp hb]
        exact times_le hclock.last_le a ha
      · cases hb

/-- The log entry of a capped call counts exactly when the call is admitted. -/
theorem counts_self {c : Call K} (hcap : c.limits.isNone = false) (a : Answer) :
    Entry.counts c.key ⟨c, a⟩ = a.ok := by
  simp [Entry.counts, hcap]

theorem counts_of_ne {k : K} {c : Call K} (hne : c.key ≠ k) (a : Answer) :
    Entry.counts k ⟨c, a⟩ = false := by
  simp [Entry.counts, hne]

theorem counts_of_isNone {k : K} {c : Call K} (h : c.limits.isNone = true) (a : Answer) :
    Entry.counts k ⟨c, a⟩ = false := by
  simp [Entry.counts, h]

/-- **Nothing is stored that was not admitted.** -/
theorem stored_sublist (calls : List (Call K)) (k : K) :
    ((run calls).limiter.stored k).hits.Sublist (times (Entry.counts k) (run calls).log) := by
  induction calls using List.reverseRecOn with
  | nil => exact List.nil_sublist _
  | append_singleton calls c ih =>
    rw [run_snoc, Run.step, times_snoc]
    by_cases hkey : c.key = k
    · subst hkey
      cases hcap : c.limits.isNone with
      | true =>
        rw [MemoryLimiter.allow_of_isNone hcap]
        exact ih.trans (List.sublist_append_left _ _)
      | false =>
        have htrim := ((run calls).limiter.trimmed_sublist c.key c.limits c.now).trans ih
        rcases (run calls).limiter.allow_stored c.key hcap c.now with ⟨hok, h⟩ | ⟨-, h⟩
        · rw [h, counts_self hcap, hok]
          exact htrim.append (List.Sublist.refl _)
        · rw [h]
          exact htrim.trans (List.sublist_append_left _ _)
    · refine List.Sublist.trans ?_ (List.sublist_append_left _ _)
      rcases (run calls).limiter.allow_stored_of_ne (Ne.symm hkey) c.limits c.now with h | ⟨-, h⟩
      · rw [h]
        exact ih
      · rw [h]
        exact List.nil_sublist _

theorem stored_sorted {calls : List (Call K)} (hclock : Clock calls) (k : K) :
    ((run calls).limiter.stored k).hits.Pairwise (· ≤ ·) :=
  (times_sorted hclock).sublist (stored_sublist calls k)

/-- **Nothing inside a window of length `w` is dropped** while the calls made
inside it keep at least `w`. -/
theorem run_retains {calls : List (Call K)} (hclock : Clock calls) (k : K) (b w : Int)
    (hpast : ∀ c ∈ calls, c.now ≤ b + w)
    (hkeep : ∀ c ∈ calls, c.key = k → c.limits.isNone = false → b < c.now → w ≤ c.limits.keep) :
    Retains b w ((run calls).limiter.stored k) (times (Entry.counts k) (run calls).log) := by
  induction calls using List.reverseRecOn with
  | nil => exact Retains.of_le (fun a ha => by cases ha)
  | append_singleton calls c ih =>
    have hr := ih hclock.init (fun a ha => hpast a (List.mem_append_left _ ha))
      (fun a ha => hkeep a (List.mem_append_left _ ha))
    have hnow : c.now ≤ b + w := hpast c (by simp)
    have hs := stored_sorted hclock.init k
    rw [run_snoc, Run.step, times_snoc]
    by_cases hkey : c.key = k
    · subst hkey
      cases hcap : c.limits.isNone with
      | true =>
        rw [MemoryLimiter.allow_of_isNone hcap, counts_of_isNone hcap]
        simpa using hr
      | false =>
        rw [counts_self hcap]
        by_cases hb : b < c.now
        · have hw := hkeep c (by simp) rfl hcap hb
          have hretain := c.limits.keep_le_retain
            (((run calls).limiter.current c.key c.now).expires - c.now)
          cases hok : ((run calls).limiter.allow c.key c.limits c.now).1.ok with
          | true => exact hr.allow_admitted hs hcap hnow (by omega) hok hw
          | false => simpa using hr.allow hs hcap hnow (by omega)
        · -- Before the window nothing has to be kept.
          refine Retains.of_le fun a ha => ?_
          rcases List.mem_append.mp ha with ha | ha
          · have := times_le hclock.last_le a ha
            omega
          · split at ha
            · rw [List.mem_singleton.mp ha]
              exact Int.not_lt.mp hb
            · cases ha
    · rw [counts_of_ne hkey]
      simpa using hr.allow_of_ne (Ne.symm hkey) hnow

/-! ## The sliding window -/

/-- No entry lies after the end of the window, so only its start matters. -/
theorem inWindow_eq {T : List Int} {t : Int} (hT : ∀ a ∈ T, a ≤ t) (size : Int) :
    inWindow T t size = younger T t size := by
  refine List.filter_congr fun a ha => ?_
  simp [hT a ha]

/-- The stored hits of a window are among the admitted calls in it. -/
theorem younger_trimmed_le {calls : List (Call K)} {c : Call K} (hclock : Clock (calls ++ [c]))
    (size : Int) :
    (younger ((run calls).limiter.trimmed c.key c.limits c.now) c.now size).length ≤
      (inWindow (times (Entry.counts c.key) (run calls).log) c.now size).length := by
  rw [inWindow_eq (times_le hclock.last_le)]
  exact ((((run calls).limiter.trimmed_sublist _ _ _).trans (stored_sublist calls _)).filter
    _).length_le

/-- The stored hits of a window are all the admitted calls in it, while the
calls made in the window keep its length. -/
theorem younger_trimmed_eq {calls : List (Call K)} {c : Call K} (hclock : Clock (calls ++ [c]))
    {size : Int} (hsize : size ≤ c.limits.keep)
    (hkeep : ∀ a ∈ calls, a.key = c.key → a.limits.isNone = false → c.now - size < a.now →
      size ≤ a.limits.keep) :
    (younger ((run calls).limiter.trimmed c.key c.limits c.now) c.now size).length =
      (inWindow (times (Entry.counts c.key) (run calls).log) c.now size).length := by
  refine Nat.le_antisymm (younger_trimmed_le hclock size) ?_
  rw [inWindow_eq (times_le hclock.last_le)]
  have hr := run_retains hclock.init c.key (c.now - size) size
    (fun a ha => by have := hclock.last_le a ha; omega) hkeep
  have hretain := c.limits.keep_le_retain
    (((run calls).limiter.current c.key c.now).expires - c.now)
  have hkept : ((times (Entry.counts c.key) (run calls).log).filter
      (fun a => decide (c.now - size < a))).Sublist
      ((run calls).limiter.trimmed c.key c.limits c.now) :=
    hr.trimmed (stored_sorted hclock.init _) (by omega) (by omega)
  have hfilter := hkept.filter (fun a => decide (c.now - size < a))
  rw [Timeline.filter_above_filter (Int.le_refl _)] at hfilter
  exact hfilter.length_le

/-- Every capped call of `c`'s key in the day before `c` carried a daily cap. -/
def DailyThroughout (calls : List (Call K)) (c : Call K) : Prop :=
  ∀ a ∈ calls, a.key = c.key → a.limits.isNone = false → c.now - day < a.now → 0 < a.limits.perDay

/-- **The in-memory limiter is an exact sliding window.**  `calls` are the calls
before `c`, on any keys.  If `c` has a daily cap, so must the calls of its key in
the day before it have; then `c` is admitted exactly when each of its capped
windows holds fewer admitted calls than its cap.  Without that, `c` still is
never admitted into a full minute or hour and never refused unless some capped
window is full.  The index a retry time is read from is `len - limit`, inside
the history. -/
theorem allow_exact (calls : List (Call K)) (c : Call K) (hclock : Clock (calls ++ [c]))
    (hcap : c.limits.isNone = false) :
    ((0 < c.limits.perDay → DailyThroughout calls c) →
      (((run calls).limiter.allow c.key c.limits c.now).1.ok = true ↔
        ∀ w ∈ c.limits.windows, 0 < w.limit →
          (inWindow (times (Entry.counts c.key) (run calls).log) c.now w.size).length < w.limit)) ∧
    (((run calls).limiter.allow c.key c.limits c.now).1.ok = true →
      ∀ w ∈ c.limits.windows, w.size ≤ hour → 0 < w.limit →
        (inWindow (times (Entry.counts c.key) (run calls).log) c.now w.size).length < w.limit) ∧
    (((run calls).limiter.allow c.key c.limits c.now).1.ok = false →
      ∃ w ∈ c.limits.windows, 0 < w.limit ∧
        w.limit ≤ (inWindow (times (Entry.counts c.key) (run calls).log) c.now w.size).length) ∧
    (∀ w ∈ c.limits.windows,
      let hist := (run calls).limiter.trimmed c.key c.limits c.now
      ¬ w.limit ≤ 0 → ¬ ((hist.length : Int) - (since hist (c.now - w.size) : Nat) < w.limit) →
        (retryIndex hist w : Int) = hist.length - w.limit ∧ retryIndex hist w < hist.length) := by
  have hok := MemoryLimiter.allow_ok_iff hcap (stored_sorted hclock.init c.key) c.now
  -- A window no longer than what every call in it keeps is counted exactly.
  have hexact : ∀ w ∈ c.limits.windows, 0 < w.limit →
      (w.size ≤ hour ∨ DailyThroughout calls c) →
      (younger ((run calls).limiter.trimmed c.key c.limits c.now) c.now w.size).length =
        (inWindow (times (Entry.counts c.key) (run calls).log) c.now w.size).length := by
    intro w hw hpos hor
    refine younger_trimmed_eq hclock (Limits.size_le_keep hw hpos) ?_
    intro a ha hkey hacap hlt
    rcases hor with hhour | hdaily
    · exact Int.le_trans hhour a.limits.hour_le_keep
    · have hday := Int.le_trans (Limits.size_le_keep hw hpos) c.limits.keep_le_day
      rw [Limits.keep_of_perDay (hdaily a ha hkey hacap (by omega))]
      exact hday
  have hshort : ∀ w ∈ c.limits.windows, 0 < w.limit → ¬ w.size ≤ hour → 0 < c.limits.perDay := by
    intro w hw hpos hlong
    simp only [Limits.windows, List.mem_cons, List.not_mem_nil, or_false] at hw
    rcases hw with rfl | rfl | rfl
    · exact absurd (show minute ≤ hour by decide) hlong
    · exact absurd (Int.le_refl hour) hlong
    · exact hpos
  refine ⟨fun hdaily => ?_, fun hadm w hw hhour hpos => ?_, fun hrej => ?_, ?_⟩
  · rw [hok]
    refine forall_congr' fun w => forall_congr' fun hw => ?_
    unfold Full
    by_cases hpos : 0 < w.limit
    · rw [hexact w hw hpos]
      · omega
      · by_cases hhour : w.size ≤ hour
        · exact Or.inl hhour
        · exact Or.inr (hdaily (hshort w hw hpos hhour))
    · simp [hpos]
  · have hroom := hok.mp hadm w hw
    rw [Full, hexact w hw hpos (Or.inl hhour)] at hroom
    omega
  · have hne : ¬ ∀ w ∈ c.limits.windows,
        ¬ Full ((run calls).limiter.trimmed c.key c.limits c.now) c.now w := by
      rw [← hok, hrej]
      exact Bool.false_ne_true
    simp only [not_forall, not_not] at hne
    obtain ⟨w, hw, hpos, hfull⟩ := hne
    have hle := younger_trimmed_le hclock w.size
    exact ⟨w, hw, hpos, by omega⟩
  · intro w _ hist hpos hfull
    refine ⟨?_, retryIndex_lt hpos hfull⟩
    unfold retryIndex
    omega

end Runs

/-- Two calls a minute, then a third one: refused ten seconds on, admitted once
the first has left the window. -/
theorem allow_exact_third_call :
    ((run [⟨(), ⟨2, 0, 0⟩, 0⟩, ⟨(), ⟨2, 0, 0⟩, second⟩] : Run Unit).limiter.allow ()
        ⟨2, 0, 0⟩ (10 * second)).1.ok = false ∧
      ((run [⟨(), ⟨2, 0, 0⟩, 0⟩, ⟨(), ⟨2, 0, 0⟩, second⟩] : Run Unit).limiter.allow ()
        ⟨2, 0, 0⟩ (60 * second)).1.ok = true := by
  constructor
  · have h := (allow_exact [⟨(), ⟨2, 0, 0⟩, 0⟩, ⟨(), ⟨2, 0, 0⟩, second⟩]
      ⟨(), ⟨2, 0, 0⟩, 10 * second⟩ (by decide) (by decide)).1 (fun h => absurd h (by decide))
    rw [Bool.eq_false_iff, ne_eq, h]
    exact fun hall => absurd (hall ⟨2, minute⟩ (by decide) (by decide)) (by decide)
  · refine ((allow_exact [⟨(), ⟨2, 0, 0⟩, 0⟩, ⟨(), ⟨2, 0, 0⟩, second⟩]
      ⟨(), ⟨2, 0, 0⟩, 60 * second⟩ (by decide) (by decide)).1
      (fun h => absurd h (by decide))).mpr ?_
    decide

/-! ## The daily count and calls without a daily cap -/

section Daily
variable {K : Type} [DecidableEq K]

/-- The newest admitted call with a daily cap is at least 23 hours old at `c`,
and less than a day. -/
def StaleDaily (pre : List (Call K)) (c : Call K) : Prop :=
  (∃ a ∈ times (Entry.countsDaily c.key) (run pre).log, c.now - day < a) ∧
    ∀ a ∈ times (Entry.countsDaily c.key) (run pre).log, a ≤ c.now - 23 * hour

/-- No call of `k` that caps a window but not the day is made while the newest
daily hit is stale. -/
def NoStaleDaily (k : K) (calls : List (Call K)) : Prop :=
  ∀ pre c post, calls = pre ++ c :: post → c.key = k → c.limits.isNone = false →
    c.limits.perDay ≤ 0 → ¬ StaleDaily pre c

/-- Whenever a call of `k` with a daily cap is admitted, the calls with a daily
cap admitted in the day that ends with it, itself included, are within the cap. -/
def DailyCapHolds (k : K) (calls : List (Call K)) : Prop :=
  ∀ pre c post, calls = pre ++ c :: post → c.key = k → 0 < c.limits.perDay →
    ((run pre).limiter.allow k c.limits c.now).1.ok = true →
    ((inWindow (times (Entry.countsDaily k) (run (pre ++ [c])).log) c.now day).length : Int) ≤
      c.limits.perDay

theorem NoStaleDaily.init {k : K} {calls : List (Call K)} {c : Call K}
    (h : NoStaleDaily k (calls ++ [c])) : NoStaleDaily k calls := by
  intro pre a post he
  exact h pre a (post ++ [c]) (by rw [he]; simp)

theorem countsDaily_self {c : Call K} (hday : 0 < c.limits.perDay) (a : Answer) :
    Entry.countsDaily c.key ⟨c, a⟩ = a.ok := by
  simp [Entry.countsDaily, hday]

theorem countsDaily_of_ne {k : K} {c : Call K} (hne : c.key ≠ k) (a : Answer) :
    Entry.countsDaily k ⟨c, a⟩ = false := by
  simp [Entry.countsDaily, hne]

theorem countsDaily_of_not_perDay {k : K} {c : Call K} (hday : ¬ 0 < c.limits.perDay)
    (a : Answer) : Entry.countsDaily k ⟨c, a⟩ = false := by
  simp [Entry.countsDaily, hday]

/-- A call without a daily cap, made while the newest daily hit is not stale,
drops no daily hit of the last day. -/
theorem Retains.allow_uncapped {l : MemoryLimiter K} {k : K} {limits : Limits} {now : Int}
    {T : List Int} (hr : Retains (now - day) day (l.stored k) T)
    (hs : (l.stored k).hits.Pairwise (· ≤ ·)) (hcap : limits.isNone = false)
    (hday : ¬ 0 < limits.perDay)
    (hfresh : ¬ ((∃ a ∈ T, now - day < a) ∧ ∀ a ∈ T, a ≤ now - 23 * hour)) :
    Retains (now - day) day ((l.allow k limits now).2.stored k) T := by
  by_cases hsome : ∃ a ∈ T, now - day < a
  · have hnew : ¬ ∀ a ∈ T, a ≤ now - 23 * hour := fun hall => hfresh ⟨hsome, hall⟩
    simp only [not_forall] at hnew
    obtain ⟨a, ha, hlt⟩ := hnew
    -- That hit holds the history for more than another hour, so a day is retained.
    have hsize : day = 23 * hour + hour ∧ 0 < hour := by decide
    have hlives := hr.lives a ha (by omega)
    have hcur : l.current k now = l.stored k := by
      rw [l.current_eq, History.seenAt_of_lt (by omega)]
    have hretain : limits.retain ((l.current k now).expires - now) = day := by
      apply Limits.retain_of_lt
      rw [Limits.keep_of_not_perDay hday, hcur]
      omega
    exact hr.allow hs hcap (by omega) (by rw [hretain])
  · exact Retains.of_le fun a ha => Int.not_lt.mp fun hlt => hsome ⟨a, ha, hlt⟩

/-- The daily hits of the last day are all stored. -/
theorem run_retains_daily {calls : List (Call K)} {k : K} (hclock : Clock calls)
    (hcond : NoStaleDaily k calls) {t : Int} (ht : ∀ c ∈ calls, c.now ≤ t) :
    Retains (t - day) day ((run calls).limiter.stored k)
      (times (Entry.countsDaily k) (run calls).log) := by
  induction calls using List.reverseRecOn generalizing t with
  | nil => exact Retains.of_le (fun a ha => by cases ha)
  | append_singleton calls c ih =>
    have hr := ih hclock.init hcond.init hclock.last_le
    have hs := stored_sorted hclock.init k
    have hct : c.now - day ≤ t - day := by
      have := ht c (by simp)
      omega
    refine Retains.mono ?_ hct
    rw [run_snoc, Run.step, times_snoc]
    by_cases hkey : c.key = k
    · subst hkey
      by_cases hday : 0 < c.limits.perDay
      · have hcap := Limits.isNone_eq_false_of_perDay hday
        have hkeep := Limits.keep_of_perDay hday
        have hretain := c.limits.keep_le_retain
          (((run calls).limiter.current c.key c.now).expires - c.now)
        rw [countsDaily_self hday]
        cases hok : ((run calls).limiter.allow c.key c.limits c.now).1.ok with
        | true => exact hr.allow_admitted hs hcap (by omega) (by omega) hok (by omega)
        | false => simpa using hr.allow hs hcap (by omega) (by omega)
      · rw [countsDaily_of_not_perDay hday]
        cases hcap : c.limits.isNone with
        | true =>
          rw [MemoryLimiter.allow_of_isNone hcap]
          simpa using hr
        | false =>
          simpa using hr.allow_uncapped hs hcap hday
            (hcond calls c [] rfl rfl hcap (Int.not_lt.mp hday))
    · rw [countsDaily_of_ne hkey]
      simpa using hr.allow_of_ne (Ne.symm hkey) (by omega)

/-- **The daily count survives calls that lack the daily cap**, in every run in
which no such call is made while the newest daily hit is between 23 and 24 hours
old. -/
theorem daily_cap_holds (k : K) (calls : List (Call K)) (hclock : Clock calls)
    (hcond : NoStaleDaily k calls) : DailyCapHolds k calls := by
  intro pre c post he hkey hday hok
  subst hkey
  have hpre : Clock (pre ++ [c]) := by
    rw [he] at hclock
    exact hclock.sublist ((List.Sublist.refl pre).append (List.sublist_append_left [c] post))
  have hcondpre : NoStaleDaily c.key pre := by
    intro pre' a post' he'
    exact hcond pre' a (post' ++ c :: post) (by rw [he, he']; simp)
  have hcap := Limits.isNone_eq_false_of_perDay hday
  have hkeep := Limits.keep_of_perDay hday
  have hs := stored_sorted hpre.init c.key
  have hr := run_retains_daily hpre.init hcondpre hpre.last_le
  have hretain := c.limits.keep_le_retain
    (((run pre).limiter.current c.key c.now).expires - c.now)
  have hkept : ((times (Entry.countsDaily c.key) (run pre).log).filter
      (fun a => decide (c.now - day < a))).Sublist
      ((run pre).limiter.trimmed c.key c.limits c.now) := hr.trimmed hs (by omega) (by omega)
  have hroom := (MemoryLimiter.allow_ok_iff hcap hs c.now).mp hok ⟨c.limits.perDay, day⟩
    (by simp [Limits.windows])
  have hle := (hkept.filter (fun a => decide (c.now - day < a))).length_le
  rw [Timeline.filter_above_filter (Int.le_refl _)] at hle
  have hbefore : inWindow (times (Entry.countsDaily c.key) (run pre).log) c.now day =
      younger (times (Entry.countsDaily c.key) (run pre).log) c.now day :=
    inWindow_eq (times_le hpre.last_le) day
  rw [run_snoc, Run.step, times_snoc, countsDaily_self hday, hok]
  unfold inWindow at hbefore ⊢
  rw [List.filter_append, List.length_append, hbefore]
  have hone :
      ([c.now].filter (fun a => decide (c.now - day < a) && decide (a ≤ c.now))).length ≤ 1 :=
    List.length_filter_le _ _
  simp only [Full, hday, true_and, not_le] at hroom
  simp only [if_true]
  unfold younger at hroom ⊢
  omega

end Daily

/-- Three daily hits, an hourly call 23 hours and 10 minutes later, and a daily
call ten minutes after that. -/
def staleRun : List (Call Unit) :=
  [⟨(), ⟨0, 0, 3⟩, 0⟩, ⟨(), ⟨0, 0, 3⟩, minute⟩, ⟨(), ⟨0, 0, 3⟩, 2 * minute⟩,
    ⟨(), ⟨0, 10, 0⟩, 23 * hour + 10 * minute⟩, ⟨(), ⟨0, 0, 3⟩, 23 * hour + 20 * minute⟩]

/-- The hourly call trims the daily hits away, and a fourth call is admitted
into a day that allows three. -/
theorem staleRun_exceeds_daily_cap : Clock staleRun ∧ ¬ DailyCapHolds () staleRun := by
  refine ⟨by decide, fun h => ?_⟩
  have hcap := h (staleRun.take 4) ⟨(), ⟨0, 0, 3⟩, 23 * hour + 20 * minute⟩ [] rfl rfl
    (by decide) (by decide +kernel)
  exact absurd hcap (by decide +kernel)

/-- With the hourly call already at 22 hours the daily hit stays, and the next
daily call is counted on top of it. -/
theorem daily_cap_holds_earlier_call :
    DailyCapHolds () [⟨(), ⟨0, 0, 3⟩, 0⟩, ⟨(), ⟨0, 10, 0⟩, 22 * hour⟩,
      ⟨(), ⟨0, 0, 3⟩, 23 * hour⟩] := by
  refine daily_cap_holds () _ (by decide) ?_
  intro pre c post he _ _ hday hstale
  rcases pre with _ | ⟨a, _ | ⟨b, _ | ⟨d, pre⟩⟩⟩
  · obtain ⟨rfl, -⟩ := List.cons.inj he
    exact absurd hday (by decide)
  · obtain ⟨rfl, htail⟩ := List.cons.inj he
    obtain ⟨rfl, -⟩ := List.cons.inj htail
    exact absurd (hstale.2 0 (by decide)) (by decide)
  · obtain ⟨rfl, htail⟩ := List.cons.inj he
    obtain ⟨rfl, hlast⟩ := List.cons.inj htail
    obtain ⟨rfl, -⟩ := List.cons.inj hlast
    exact absurd hday (by decide)
  · simp at he

end Sigillum
