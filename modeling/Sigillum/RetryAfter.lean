import Mathlib.Data.List.Induction
import Sigillum.KeyIsolation

/-! # When to try again

A refused call is told how long to wait.  The wait is taken from the history the call has
trimmed: in a window that is full it ends when the hit at `retryIndex` leaves, and of the
full windows the longest wait counts.  `full_iff_get` says that a window stays full exactly
until then.

Between the refusal and the next call on the key, its history may lose hits, to refunds and
to the sweep, and never gains one (`hits_sublist_run`): so the wait is enough.  And while
nobody calls on the key, a history whose hits were all stored with the same limits outlives
the windows they cap (`Lives`): so the wait is no longer than it must be.
-/
namespace Sigillum
open Duration

/-! ## Full windows -/

/-- **A window is full until the hit that the wait is taken from leaves it.** -/
theorem full_iff_get {hist : List Int} (hs : hist.Pairwise (· ≤ ·)) {w : Window}
    (hcap : 0 < w.limit) (now : Int) :
    Full hist now w ↔ w.limit ≤ hist.length ∧
      ∃ a, hist[retryIndex hist w]? = some a ∧ now < a + w.size := by
  constructor
  · rintro ⟨-, hfull⟩
    rw [← length_sub_since hs] at hfull
    have hcap' : ¬ w.limit ≤ 0 := by omega
    have hfull' : ¬ ((hist.length : Int) - (since hist (now - w.size) : Nat) < w.limit) := by omega
    have hpos := now_lt_get_add hs hcap' hfull'
    exact ⟨by omega, _, List.getElem?_eq_getElem (retryIndex_lt hcap' hfull'),
      by simp only [List.get_eq_getElem] at hpos; omega⟩
  · rintro ⟨hlen, a, ha, hnow⟩
    obtain ⟨hlt, rfl⟩ := List.getElem?_eq_some_iff.mp ha
    -- that hit and all after it are in the window
    have hall : ∀ b ∈ hist.drop (retryIndex hist w), decide (now - w.size < b) = true := by
      intro b hb
      obtain ⟨i, hi, rfl⟩ := List.mem_iff_getElem.mp hb
      have hbound : retryIndex hist w + i < hist.length := by
        rw [List.length_drop] at hi
        omega
      rw [List.getElem_drop, decide_eq_true_eq]
      have hle : hist[retryIndex hist w] ≤ hist[retryIndex hist w + i] := by
        rcases Nat.eq_zero_or_pos i with rfl | hpos
        · exact Int.le_refl _
        · exact List.pairwise_iff_getElem.mp hs _ _ hlt _ (by omega)
      omega
    have hsub := ((List.drop_sublist (retryIndex hist w) hist).filter
      (fun b => decide (now - w.size < b))).length_le
    rw [List.filter_eq_self.mpr hall, List.length_drop] at hsub
    refine ⟨hcap, ?_⟩
    unfold younger
    unfold retryIndex at hsub
    omega

theorem Full.mono {hist hist' : List Int} {now : Int} {w : Window} (h : Full hist now w)
    (hsub : hist.Sublist hist') : Full hist' now w := by
  have hle := (hsub.filter fun a => decide (now - w.size < a)).length_le
  refine ⟨h.1, h.2.trans ?_⟩
  unfold younger
  omega

/-- Trimming no more than the window leaves it as full as it is. -/
theorem full_younger_iff {hist : List Int} {now size : Int} {w : Window} (hsize : w.size ≤ size) :
    Full (younger hist now size) now w ↔ Full hist now w := by
  unfold Full younger
  rw [Timeline.filter_above_filter (by omega)]

/-! ## The wait -/

section Wait
variable {hist : List Int} (hs : hist.Pairwise (· ≤ ·)) (now : Int)
include hs

theorem windowRetry_of_full {w : Window} (hfull : Full hist now w) (retry : Int) :
    ∃ a, hist[retryIndex hist w]? = some a ∧
      windowRetry hist now retry w = max retry (a + w.size - now) := by
  obtain ⟨hcap, hlen⟩ := hfull
  rw [← length_sub_since hs] at hlen
  have hcap' : ¬ w.limit ≤ 0 := by omega
  have hroom : ¬ ((hist.length : Int) - (since hist (now - w.size) : Nat) < w.limit) := by omega
  refine ⟨_, List.getElem?_eq_getElem (retryIndex_lt hcap' hroom), ?_⟩
  unfold windowRetry
  rw [dif_neg hcap', dif_neg hroom]
  rfl

theorem windowRetry_of_not_full {w : Window} (hroom : ¬ Full hist now w) (retry : Int) :
    windowRetry hist now retry w = retry := by
  unfold Full at hroom
  rw [← length_sub_since hs] at hroom
  unfold windowRetry
  split
  · rfl
  · rw [dif_pos (by omega)]

/-- No full window waits longer. -/
theorem le_retryAfter {limits : Limits} {w : Window} (hw : w ∈ limits.windows)
    (hfull : Full hist now w) {a : Int} (ha : hist[retryIndex hist w]? = some a) :
    a + w.size - now ≤ retryAfter limits hist now := by
  have general : ∀ (ws : List Window) (retry : Int),
      retry ≤ ws.foldl (windowRetry hist now) retry ∧
        (w ∈ ws → a + w.size - now ≤ ws.foldl (windowRetry hist now) retry) := by
    intro ws
    induction ws with
    | nil => exact fun retry => ⟨Int.le_refl _, nofun⟩
    | cons v ws ih =>
      intro retry
      obtain ⟨hgrows, hmem⟩ := ih (windowRetry hist now retry v)
      by_cases hv : Full hist now v
      · obtain ⟨b, hb, heq⟩ := windowRetry_of_full hs now hv retry
        refine ⟨by rw [List.foldl_cons]; omega, fun hwv => ?_⟩
        rcases List.mem_cons.mp hwv with rfl | hwv
        · obtain rfl := Option.some.inj (ha.symm.trans hb)
          rw [List.foldl_cons]
          omega
        · exact hmem hwv
      · have heq := windowRetry_of_not_full hs now hv retry
        refine ⟨by rw [List.foldl_cons]; omega, fun hwv => ?_⟩
        rcases List.mem_cons.mp hwv with rfl | hwv
        · exact absurd hfull hv
        · exact hmem hwv
  exact (general limits.windows 0).2 hw

/-- The wait is that of a full window. -/
theorem exists_full_of_retryAfter {limits : Limits} (hpos : 0 < retryAfter limits hist now) :
    ∃ w ∈ limits.windows, Full hist now w ∧
      ∃ a, hist[retryIndex hist w]? = some a ∧ retryAfter limits hist now = a + w.size - now := by
  have general : ∀ (ws : List Window) (retry : Int),
      ws.foldl (windowRetry hist now) retry = retry ∨
        ∃ w ∈ ws, Full hist now w ∧ ∃ a, hist[retryIndex hist w]? = some a ∧
          ws.foldl (windowRetry hist now) retry = a + w.size - now := by
    intro ws
    induction ws with
    | nil => exact fun retry => .inl rfl
    | cons v ws ih =>
      intro retry
      rw [List.foldl_cons]
      rcases ih (windowRetry hist now retry v) with hsame | ⟨w, hw, hfound⟩
      · rw [hsame]
        by_cases hv : Full hist now v
        · obtain ⟨b, hb, heq⟩ := windowRetry_of_full hs now hv retry
          rw [heq]
          rcases Int.le_total (b + v.size - now) retry with hle | hle
          · exact .inl (Int.max_eq_left hle)
          · exact .inr ⟨v, List.mem_cons_self, hv, b, hb, Int.max_eq_right hle⟩
        · exact .inl (windowRetry_of_not_full hs now hv retry)
      · exact .inr ⟨w, List.mem_cons_of_mem v hw, hfound⟩
  rcases general limits.windows 0 with hzero | hfound
  · unfold retryAfter at hpos
    omega
  · exact hfound

/-- **The wait is enough**: after it no window is full. -/
theorem not_full_of_retryAfter_le {limits : Limits} {t' : Int}
    (hlate : now + retryAfter limits hist now ≤ t') (hle : now ≤ t') {w : Window}
    (hw : w ∈ limits.windows) : ¬ Full hist t' w := by
  intro hfull
  have hcap := hfull.1
  obtain ⟨hlen, a, ha, hin⟩ := (full_iff_get hs hcap t').mp hfull
  have hbefore : Full hist now w := (full_iff_get hs hcap now).mpr ⟨hlen, a, ha, by omega⟩
  have := le_retryAfter hs now hw hbefore ha
  omega

/-- **The wait is necessary**: before its end some window is full. -/
theorem full_of_lt_retryAfter {limits : Limits} (t' : Int)
    (hpos : 0 < retryAfter limits hist now) (hearly : t' < now + retryAfter limits hist now) :
    ∃ w ∈ limits.windows, Full hist t' w := by
  obtain ⟨w, hw, hfull, a, ha, heq⟩ := exists_full_of_retryAfter hs now hpos
  obtain ⟨hlen, -⟩ := (full_iff_get hs hfull.1 now).mp hfull
  exact ⟨w, hw, (full_iff_get hs hfull.1 t').mpr ⟨hlen, a, ha, by omega⟩⟩

end Wait

theorem ceilToSecond_spec {d : Int} (hpos : 0 < d) :
    0 < ceilToSecond d ∧ ceilToSecond d % second = 0 ∧ d ≤ ceilToSecond d ∧
      ceilToSecond d < d + second := by
  unfold ceilToSecond second
  rw [if_neg (by omega)]
  split <;> omega

/-! ## Runs of `Allow` and `Refund` -/

section Runs
variable {K : Type} [DecidableEq K]

/-- The limiter after calls on any keys. -/
def MemoryLimiter.run (l : MemoryLimiter K) (ops : List (KeyedOp K)) : MemoryLimiter K :=
  ops.foldl MemoryLimiter.after l

variable {l : MemoryLimiter K} {k : K} {op : KeyedOp K} {ops : List (KeyedOp K)}

theorem MemoryLimiter.run_append (l : MemoryLimiter K) (ops ops' : List (KeyedOp K)) :
    l.run (ops ++ ops') = (l.run ops).run ops' := List.foldl_append

/-- What one call does to the history of a key: a call on another key may sweep it away once
it has expired, a refund takes the newest hit, and `Allow` trims and may add one. -/
theorem stored_after (l : MemoryLimiter K) (k : K) (op : KeyedOp K) :
    (l.after op).stored k = l.stored k ∨
      (op.key ≠ k ∧ (∃ now ∈ op.now?, (l.stored k).expires ≤ now) ∧
        (l.after op).stored k = History.zero) ∨
      (op = .refund k ∧
        (l.after op).stored k = ⟨(l.stored k).hits.dropLast, (l.stored k).expires⟩) ∨
      ∃ limits now, op = .allow k limits now ∧ limits.isNone = false ∧
        ((l.after op).stored k = ⟨l.trimmed k limits now, (l.current k now).expires⟩ ∨
          (l.after op).stored k = ⟨l.trimmed k limits now ++ [now],
            later (l.current k now).expires (now + limits.keep)⟩) := by
  cases op with
  | refund key =>
    by_cases hkey : k = key
    · subst hkey
      exact .inr (.inr (.inl ⟨rfl, l.stored_refund k⟩))
    · exact .inl (l.stored_refund_of_ne hkey)
  | allow key limits now =>
    by_cases hkey : k = key
    · subst hkey
      cases hcap : limits.isNone with
      | true =>
        left
        simp only [MemoryLimiter.after, MemoryLimiter.allow_of_isNone hcap]
      | false =>
        refine .inr (.inr (.inr ⟨limits, now, rfl, hcap, ?_⟩))
        rcases l.allow_stored k hcap now with ⟨-, h⟩ | ⟨-, h⟩
        · exact .inr h
        · exact .inl h
    · rcases l.allow_stored_of_ne hkey limits now with h | ⟨hexp, h⟩
      · exact .inl h
      · exact .inr (.inl ⟨fun heq => hkey heq.symm, ⟨now, rfl, hexp⟩, h⟩)

/-- The hits of a history are in order, and none lies after `t`. -/
structure Ordered (t : Int) (h : History) : Prop where
  sorted : h.hits.Pairwise (· ≤ ·)
  past : ∀ a ∈ h.hits, a ≤ t

omit [DecidableEq K] in
theorem Ordered.trimmed {t now : Int} (h : Ordered t (l.stored k)) (hle : t ≤ now)
    (limits : Limits) : Ordered now ⟨l.trimmed k limits now, (l.current k now).expires⟩ where
  sorted := MemoryLimiter.trimmed_sorted h.sorted limits now
  past a ha := (h.past a ((l.trimmed_sublist k limits now).subset ha)).trans hle

theorem Ordered.after {t : Int} (h : Ordered t (l.stored k)) (op : KeyedOp K)
    (hlate : ∀ now ∈ op.now?, t ≤ now) : Ordered (op.now?.getD t) ((l.after op).stored k) := by
  have hgrows : t ≤ op.now?.getD t := by
    cases hnow : op.now? with
    | none => exact Int.le_refl _
    | some now => exact hlate now (by simp [hnow])
  rcases stored_after l k op with hsame | ⟨-, -, hzero⟩ | ⟨rfl, hdrop⟩ |
    ⟨limits, now, rfl, -, htrim | hadd⟩
  · rw [hsame]
    exact ⟨h.sorted, fun a ha => (h.past a ha).trans hgrows⟩
  · rw [hzero]
    exact ⟨.nil, nofun⟩
  · rw [hdrop]
    have hsub := List.dropLast_sublist (l.stored k).hits
    exact ⟨h.sorted.sublist hsub, fun a ha => h.past a (hsub.subset ha)⟩
  · rw [htrim]
    exact h.trimmed hgrows limits
  · rw [hadd]
    obtain ⟨hsorted, hpast⟩ : Ordered now _ := h.trimmed hgrows limits
    constructor
    · refine List.pairwise_append.mpr ⟨hsorted, List.pairwise_singleton _ _, fun a ha b hb => ?_⟩
      rw [List.mem_singleton.mp hb]
      exact hpast a ha
    · intro a ha
      rcases List.mem_append.mp ha with ha | ha
      · exact hpast a ha
      · exact Int.le_of_eq (List.mem_singleton.mp ha)

/-- The hits of every history are in order, in every run whose clock does not go back. -/
theorem ordered_run (hclock : Ticking ops) {t : Int}
    (hbefore : ∀ now ∈ ops.filterMap KeyedOp.now?, now ≤ t) :
    Ordered t ((MemoryLimiter.new.run ops).stored k) := by
  induction ops using List.reverseRecOn generalizing t with
  | nil => exact ⟨.nil, nofun⟩
  | append_singleton ops op ih =>
    unfold Ticking at hclock
    rw [List.filterMap_append, List.pairwise_append] at hclock
    obtain ⟨hclock, -, hlast⟩ := hclock
    rw [List.filterMap_append] at hbefore
    rw [MemoryLimiter.run_append]
    cases hnow : op.now? with
    | none =>
      have hmid := ih hclock (t := t) fun now hn => hbefore now (List.mem_append_left _ hn)
      have hnext := hmid.after op (by simp [hnow])
      rw [hnow, Option.getD_none] at hnext
      exact hnext
    | some now =>
      have hself : now ∈ [op].filterMap KeyedOp.now? := by simp [hnow]
      have hmid := ih hclock (t := now) fun now' hn => hlast now' hn now hself
      have hnext := hmid.after op (by simp [hnow])
      rw [hnow, Option.getD_some] at hnext
      have hle := hbefore now (List.mem_append_right _ hself)
      exact ⟨hnext.sorted, fun a ha => (hnext.past a ha).trans hle⟩

/-- A history lives for as long as `limits` keep each of its hits. -/
def Lives (limits : Limits) (h : History) : Prop := ∀ a ∈ h.hits, a + limits.keep ≤ h.expires

omit [DecidableEq K] in
theorem Lives.trimmed {limits : Limits} (h : Lives limits (l.stored k)) (limits' : Limits)
    (now : Int) : Lives limits ⟨l.trimmed k limits' now, (l.current k now).expires⟩ := by
  intro a ha
  have hmem : a ∈ (l.current k now).hits := List.mem_of_mem_drop ha
  rcases l.current_cases k now with ⟨-, hcur⟩ | ⟨-, hcur⟩
  · rw [hcur] at hmem ⊢
    exact h a hmem
  · rw [hcur] at hmem
    cases hmem

theorem Lives.after {limits : Limits} (h : Lives limits (l.stored k))
    (hsame : ∀ limits' now, op = .allow k limits' now → limits' = limits) :
    Lives limits ((l.after op).stored k) := by
  rcases stored_after l k op with heq | ⟨-, -, hzero⟩ | ⟨rfl, hdrop⟩ |
    ⟨limits', now, rfl, -, htrim | hadd⟩
  · rw [heq]
    exact h
  · rw [hzero]
    exact nofun
  · rw [hdrop]
    exact fun a ha => h a ((List.dropLast_sublist _).subset ha)
  · rw [htrim]
    exact h.trimmed limits' now
  · obtain rfl := hsame limits' now rfl
    rw [hadd]
    intro a ha
    have hlate := le_later_left (l.current k now).expires (now + limits'.keep)
    rcases List.mem_append.mp ha with ha | ha
    · exact (h.trimmed limits' now a ha).trans hlate
    · rw [List.mem_singleton.mp ha]
      exact le_later_right _ _

theorem lives_run {limits : Limits}
    (hsame : ∀ limits' now, KeyedOp.allow k limits' now ∈ ops → limits' = limits) :
    Lives limits ((MemoryLimiter.new.run ops).stored k) := by
  induction ops using List.reverseRecOn with
  | nil => exact nofun
  | append_singleton ops op ih =>
    rw [MemoryLimiter.run_append]
    refine (ih fun limits' now hmem => hsame limits' now (List.mem_append_left _ hmem)).after
      fun limits' now heq => hsame limits' now ?_
    exact List.mem_append_right _ (List.mem_singleton.mpr heq.symm)

/-- Without a call of `Allow` on the key, its history gains no hit. -/
theorem hits_sublist_run (hops : ∀ op ∈ ops, op.key = k → op.now? = none) :
    ((l.run ops).stored k).hits.Sublist (l.stored k).hits := by
  induction ops generalizing l with
  | nil => exact .refl _
  | cons op ops ih =>
    have hrest := ih (l := l.after op) fun op' hop => hops op' (List.mem_cons_of_mem op hop)
    refine hrest.trans ?_
    rcases stored_after l k op with hsame | ⟨-, -, hzero⟩ | ⟨-, hdrop⟩ | ⟨limits, now, rfl, -⟩
    · rw [hsame]
    · rw [hzero]
      exact List.nil_sublist _
    · rw [hdrop]
      exact List.dropLast_sublist _
    · cases hops _ List.mem_cons_self rfl

/-- Without a call on the key its history stays, until it expires. -/
theorem stored_run_of_ne (hops : ∀ op ∈ ops, op.key ≠ k)
    (hlives : ∀ now ∈ ops.filterMap KeyedOp.now?, now < (l.stored k).expires) :
    (l.run ops).stored k = l.stored k := by
  induction ops generalizing l with
  | nil => rfl
  | cons op ops ih =>
    have hkey := hops op List.mem_cons_self
    have hsame : (l.after op).stored k = l.stored k := by
      rcases stored_after l k op with hsame | ⟨-, ⟨now, hnow, hexp⟩, -⟩ | ⟨rfl, -⟩ |
        ⟨limits, now, rfl, -⟩
      · exact hsame
      · have := hlives now (List.mem_filterMap.mpr ⟨op, List.mem_cons_self, hnow⟩)
        omega
      · exact absurd rfl hkey
      · exact absurd rfl hkey
    refine (ih (l := l.after op) (fun op' hop => hops op' (List.mem_cons_of_mem op hop))
      fun now hnow => ?_).trans hsame
    rw [hsame]
    obtain ⟨op', hop, hop'⟩ := List.mem_filterMap.mp hnow
    exact hlives now (List.mem_filterMap.mpr ⟨op', List.mem_cons_of_mem op hop, hop'⟩)

omit [DecidableEq K] in
/-- What is known of a run that ends with a refusal, more calls, and another call. -/
theorem Ticking.split {limits : Limits} {t t' : Int} {between : List (KeyedOp K)}
    (hclock : Ticking (ops ++ .allow k limits t :: between ++ [.allow k limits t'])) :
    Ticking ops ∧ (∀ now ∈ ops.filterMap KeyedOp.now?, now ≤ t) ∧ t ≤ t' ∧
      ∀ now ∈ between.filterMap KeyedOp.now?, now ≤ t' := by
  unfold Ticking at hclock
  simp only [List.filterMap_append, List.filterMap_cons, KeyedOp.now?, List.filterMap_nil,
    List.append_assoc, List.cons_append, List.pairwise_append, List.pairwise_cons,
    List.mem_append, List.mem_cons, List.not_mem_nil, or_false] at hclock
  obtain ⟨hops, ⟨hfirst, -, -, hlast⟩, hbefore⟩ := hclock
  exact ⟨hops, fun now hn => hbefore now hn t (.inl rfl), hfirst t' (.inr rfl),
    fun now hn => hlast now hn t' rfl⟩

/-- A refused call leaves what it has trimmed, and its wait is that of the windows, in whole
seconds. -/
theorem allow_rejected {limits : Limits} {t : Int} (hrejected : (l.allow k limits t).1.ok = false) :
    limits.isNone = false ∧ 0 < retryAfter limits (l.trimmed k limits t) t ∧
      (l.allow k limits t).1.retryAfter =
        ceilToSecond (retryAfter limits (l.trimmed k limits t) t) ∧
      (l.allow k limits t).2.stored k = ⟨l.trimmed k limits t, (l.current k t).expires⟩ := by
  cases hcap : limits.isNone with
  | true =>
    rw [MemoryLimiter.allow_of_isNone hcap] at hrejected
    cases hrejected
  | false =>
    rw [MemoryLimiter.allow_of_capped hcap] at hrejected ⊢
    split at hrejected
    · rename_i hpos
      rw [if_pos hpos]
      exact ⟨rfl, hpos, rfl, MemoryLimiter.stored_store_self ..⟩
    · cases hrejected

/-- After the wait a call is admitted, if `Allow` was not called on the key. -/
theorem allow_ok_of_wait {limits : Limits} {t t' : Int} (hordered : Ordered t (l.stored k))
    (hrejected : (l.allow k limits t).1.ok = false) (hops : ∀ op ∈ ops, op.key = k → op.now? = none)
    (hle : t ≤ t') (hlate : t + (l.allow k limits t).1.retryAfter ≤ t') :
    (((l.allow k limits t).2.run ops).allow k limits t').1.ok = true := by
  obtain ⟨hcap, hpos, hwait, hleft⟩ := allow_rejected hrejected
  obtain ⟨-, -, hcovers, -⟩ := ceilToSecond_spec hpos
  have hsorted := MemoryLimiter.trimmed_sorted hordered.sorted limits t
  have hsub := hits_sublist_run (l := (l.allow k limits t).2) hops
  rw [hleft] at hsub
  rw [MemoryLimiter.allow_ok_iff hcap (hsorted.sublist hsub)]
  intro w hw hfull
  exact not_full_of_retryAfter_le hsorted t (by omega) hle hw
    (hfull.mono ((MemoryLimiter.trimmed_sublist _ k limits t').trans hsub))

/-- A second before its end at the latest it is still refused, if nothing was called on the
key. -/
theorem allow_rejected_of_wait {limits : Limits} {t t' : Int} (hordered : Ordered t (l.stored k))
    (hlives : Lives limits (l.stored k)) (hrejected : (l.allow k limits t).1.ok = false)
    (hops : ∀ op ∈ ops, op.key ≠ k) (hnows : ∀ now ∈ ops.filterMap KeyedOp.now?, now ≤ t')
    (hearly : t' ≤ t + (l.allow k limits t).1.retryAfter - second) :
    (((l.allow k limits t).2.run ops).allow k limits t').1.ok = false := by
  obtain ⟨hcap, hpos, hwait, hleft⟩ := allow_rejected hrejected
  obtain ⟨-, -, -, hshort⟩ := ceilToSecond_spec hpos
  have hsorted := MemoryLimiter.trimmed_sorted hordered.sorted limits t
  obtain ⟨w, hw, hfull⟩ := full_of_lt_retryAfter hsorted t t' hpos (by omega)
  -- the hit that fills the window keeps the history alive
  obtain ⟨-, a, ha, hin⟩ := (full_iff_get hsorted hfull.1 t').mp hfull
  have hkept : a + limits.keep ≤ (l.current k t).expires :=
    hlives.trimmed limits t a (List.mem_of_getElem? ha)
  have hsize := Limits.size_le_keep hw hfull.1
  have hexpires : t' < (l.current k t).expires := by omega
  have hstored : ((l.allow k limits t).2.run ops).stored k =
      ⟨l.trimmed k limits t, (l.current k t).expires⟩ := by
    rw [← hleft]
    refine stored_run_of_ne hops fun now hn => ?_
    rw [hleft]
    exact Int.lt_of_le_of_lt (hnows now hn) hexpires
  have hsorted' : (((l.allow k limits t).2.run ops).stored k).hits.Pairwise (· ≤ ·) := by
    rw [hstored]
    exact hsorted
  have hcurrent : ((l.allow k limits t).2.run ops).current k t' =
      ⟨l.trimmed k limits t, (l.current k t).expires⟩ := by
    rw [MemoryLimiter.current_eq, hstored]
    exact History.seenAt_of_lt hexpires
  rw [← Bool.not_eq_true, MemoryLimiter.allow_ok_iff hcap hsorted']
  intro hroom
  refine hroom w hw ?_
  rw [MemoryLimiter.trimmed_eq hsorted', hcurrent,
    full_younger_iff (hsize.trans (limits.keep_le_retain _))]
  exact hfull

/-- **`Retry-After` is sufficient and tight.**  In every run whose clock does not go back, a
refused call is told a positive number of whole seconds.  After that wait a call with the
same limits is admitted, unless `Allow` was called on the key in between.  And if all calls on
the key so far had these limits and none is made in between, a call is refused until a second
before the end of the wait. -/
theorem retryAfter_exact (ops : List (KeyedOp K)) (k : K) (limits : Limits) (t : Int)
    (hrejected : ((MemoryLimiter.new.run ops).allow k limits t).1.ok = false) :
    let wait := ((MemoryLimiter.new.run ops).allow k limits t).1.retryAfter
    0 < wait ∧ wait % second = 0 ∧
      (∀ between t', Ticking (ops ++ .allow k limits t :: between ++ [.allow k limits t']) →
        (∀ op ∈ between, op.key = k → op.now? = none) → t + wait ≤ t' →
        ((MemoryLimiter.new.run (ops ++ .allow k limits t :: between)).allow
          k limits t').1.ok = true) ∧
      ((∀ limits' now, KeyedOp.allow k limits' now ∈ ops → limits' = limits) →
        ∀ between t', Ticking (ops ++ .allow k limits t :: between ++ [.allow k limits t']) →
        (∀ op ∈ between, op.key ≠ k) → t' ≤ t + wait - second →
        ((MemoryLimiter.new.run (ops ++ .allow k limits t :: between)).allow
          k limits t').1.ok = false) := by
  intro wait
  obtain ⟨-, hpos, hwait, -⟩ := allow_rejected hrejected
  obtain ⟨hwaitPos, hwhole, -, -⟩ := ceilToSecond_spec hpos
  rw [← hwait] at hwaitPos hwhole
  have hrun : ∀ between, MemoryLimiter.new.run (ops ++ .allow k limits t :: between) =
      ((MemoryLimiter.new.run ops).allow k limits t).2.run between := fun between =>
    MemoryLimiter.run_append ..
  refine ⟨hwaitPos, hwhole, fun between t' hclock hbetween hlate => ?_,
    fun hsame between t' hclock hbetween hearly => ?_⟩
  · obtain ⟨hops, hbefore, hle, -⟩ := hclock.split
    rw [hrun]
    exact allow_ok_of_wait (ordered_run hops hbefore) hrejected hbetween hle hlate
  · obtain ⟨hops, hbefore, -, hnows⟩ := hclock.split
    rw [hrun]
    exact allow_rejected_of_wait (ordered_run hops hbefore) (lives_run hsame) hrejected hbetween
      hnows hearly

/-- A message a minute and two an hour: the second call is told to wait for the minute, and
is admitted then. -/
theorem retryAfter_exact_minute :
    ((MemoryLimiter.new.run [.allow () ⟨1, 2, 0⟩ day]).allow () ⟨1, 2, 0⟩ (day + 1)).1 =
        ⟨false, minute⟩ ∧
      ((MemoryLimiter.new.run [.allow () ⟨1, 2, 0⟩ day, .allow () ⟨1, 2, 0⟩ (day + 1)]).allow
        () ⟨1, 2, 0⟩ (day + 1 + minute)).1.ok = true :=
  ⟨by decide +kernel, (retryAfter_exact [.allow () ⟨1, 2, 0⟩ day] () ⟨1, 2, 0⟩ (day + 1)
    (by decide +kernel)).2.2.1 [] _ (by decide +kernel) nofun (by decide +kernel)⟩

end Runs
end Sigillum
