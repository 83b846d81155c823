import Sigillum.LimiterSteps
import Sigillum.RedisLimiter

/-! # The two limiters agree

The same operations on one key, made at whole milliseconds, are given to
`MemoryLimiter` and to the Redis script.  The memory limiter keeps the expiry of
a history it has emptied, Redis forgets it with the key; the relation `Mirrors`
allows for that, and an operation keeps it as long as a history that the trim
empties has no longer to live than a new one would (`Mirrors.allow`).

Two kinds of run meet that condition, for different reasons: without refunds a
history lives at most a day after its newest hit (`Lasting`), and with the same
limits throughout it never has more to live than one call keeps (`Fitting`).
-/
namespace Sigillum
open Duration SortedSet

/-- 1970 in nanoseconds since the zero `time.Time`. -/
def unixEpoch : Int := 62135596800 * second

/-- A time in milliseconds since 1970 as a `time.Time`. -/
def instant (t : Int) : Int := unixEpoch + t * millisecond

theorem instant_sub (a b : Int) : instant a - instant b = (a - b) * millisecond := by
  unfold instant
  rw [Int.sub_mul]
  omega

theorem instant_le {a b : Int} : instant a ≤ instant b ↔ a ≤ b := by
  unfold instant millisecond
  omega

theorem instant_lt {a b : Int} : instant a < instant b ↔ a < b := by
  unfold instant millisecond
  omega

section Agreement
variable {M : Type} [LinearOrder M]

theorem scriptNow_mul (t : Nat) : scriptNow (t * 1000) = t := by
  unfold scriptNow redisTime
  omega

/-! ## The windows -/

theorem younger_map_instant (scores : List Int) (t size : Int) :
    younger (scores.map instant) (instant t) (size * millisecond) =
      (scores.filter fun a => decide (t - size < a)).map instant := by
  unfold younger
  rw [List.filter_map]
  congr 1
  refine List.filter_congr fun a _ => ?_
  simp only [Function.comp, decide_eq_decide]
  unfold instant millisecond
  omega

/-- A wait of the script, as the memory limiter counts it. -/
def ofWait (wait : Int) : Int := if wait < 0 then 0 else wait * millisecond

theorem max_ofWait {retry wait : Int} (hwait : 0 < wait * millisecond) :
    max (ofWait retry) (wait * millisecond) = ofWait (if retry < wait then wait else retry) := by
  unfold ofWait millisecond at *
  split <;> split <;> omega

/-- The `limit`-th newest hit of a set that holds as many. -/
theorem range_limit {c : Cell M} {limit : Int} (hcap : ¬ limit ≤ 0)
    (hle : limit.toNat ≤ c.scores.length) :
    ∃ hit hits, range (-limit) (-limit) c = hit :: hits ∧
      ∃ h, c.scores.get ⟨c.scores.length - limit.toNat, h⟩ = hit.score := by
  have hrange := range_neg (show 0 < limit.toNat by omega) hle
  rw [Int.toNat_of_nonneg (by omega)] at hrange
  cases h : range (-limit) (-limit) c with
  | nil =>
    rw [h] at hrange
    cases hrange
  | cons hit hits =>
    rw [h, List.map_cons] at hrange
    exact ⟨hit, hits, rfl, by omega, (List.cons.inj hrange).1.symm⟩

theorem sorted_map_instant (c : Cell M) : (c.scores.map instant).Pairwise (· ≤ ·) :=
  List.pairwise_map.mpr (c.scores_sorted.imp fun h => instant_le.mpr h)

theorem length_sub_since_eq_count (c : Cell M) (t size : Int) :
    ((c.scores.map instant).length : Int) -
      (since (c.scores.map instant) (instant t - size * millisecond) : Nat) =
      count (t - size) c := by
  rw [length_sub_since (sorted_map_instant c), younger_map_instant,
    List.length_map (f := instant), count_eq]

/-- One window: the same wait, and a wait that is none is not zero. -/
theorem windowRetry_eq {c : Cell M} {t retry : Int} (hretry : retry = -1 ∨ 0 < retry)
    (limit size : Int) :
    windowRetry (c.scores.map instant) (instant t) (ofWait retry) ⟨limit, size * millisecond⟩ =
        ofWait (windowWait c t retry ⟨limit, size⟩) ∧
      (windowWait c t retry ⟨limit, size⟩ = -1 ∨ 0 < windowWait c t retry ⟨limit, size⟩) := by
  have hcount := length_sub_since_eq_count c t size
  unfold windowRetry windowWait
  by_cases hcap : limit ≤ 0
  · rw [dif_pos hcap, if_neg (not_lt.mpr hcap)]
    exact ⟨rfl, hretry⟩
  rw [dif_neg hcap, if_pos (not_le.mp hcap)]
  by_cases hroom : (count (t - size) c : Int) < limit
  · have hroom' := hcount.trans_lt hroom
    rw [dif_pos hroom', if_neg (not_le.mpr hroom)]
    exact ⟨rfl, hretry⟩
  have hfull := fun h => hroom (hcount.symm.trans_lt h)
  rw [dif_neg hfull, if_pos (not_lt.mp hroom)]
  -- the hit both look at is the `limit`-th newest
  have hle : limit.toNat ≤ c.scores.length := by
    have hcounted := List.length_filter_le (fun a => decide (t - size < a)) c.scores
    rw [← count_eq] at hcounted
    omega
  obtain ⟨hit, hits, hcons, hlt, hscore⟩ := range_limit hcap hle
  have hget : (c.scores.map instant).get ⟨retryIndex (c.scores.map instant)
      ⟨limit, size * millisecond⟩, retryIndex_lt hcap hfull⟩ = instant hit.score := by
    rw [← hscore]
    simp only [List.get_eq_getElem, List.getElem_map, retryIndex, List.length_map]
  have hpos := now_lt_get_add (w := ⟨limit, size * millisecond⟩) (sorted_map_instant c) hcap hfull
  have hwait : instant hit.score + size * millisecond - instant t =
      (hit.score + size - t) * millisecond := by
    rw [Int.sub_mul, Int.add_mul]
    unfold instant
    omega
  rw [hget, hwait] at hpos ⊢
  rw [hcons]
  refine ⟨max_ofWait hpos, Or.inr ?_⟩
  have hpos' : 0 < hit.score + size - t := by
    unfold millisecond at hpos
    omega
  show 0 < if retry < hit.score + size - t then hit.score + size - t else retry
  split <;> omega

/-- The windows of the script are those of the memory limiter. -/
theorem windows_eq (limits : Limits) :
    limits.windows =
      (scriptWindows limits).map fun w => ⟨w.limit, w.size * millisecond⟩ := rfl

theorem keep_eq (limits : Limits) : limits.keep = scriptKeep limits * millisecond := by
  unfold Limits.keep scriptKeep
  split <;> rfl

/-- **Both limiters compute the same wait** from the same hits. -/
theorem retryAfter_eq (limits : Limits) (c : Cell M) (t : Int) :
    retryAfter limits (c.scores.map instant) (instant t) =
        ofWait ((scriptWindows limits).foldl (windowWait c t) (-1)) ∧
      ((scriptWindows limits).foldl (windowWait c t) (-1) = -1 ∨
        0 < (scriptWindows limits).foldl (windowWait c t) (-1)) := by
  have general : ∀ (ws : List Window) (retry : Int), retry = -1 ∨ 0 < retry →
      (ws.map fun w => (⟨w.limit, w.size * millisecond⟩ : Window)).foldl
          (windowRetry (c.scores.map instant) (instant t)) (ofWait retry) =
          ofWait (ws.foldl (windowWait c t) retry) ∧
        (ws.foldl (windowWait c t) retry = -1 ∨ 0 < ws.foldl (windowWait c t) retry) := by
    intro ws
    induction ws with
    | nil => exact fun retry hretry => ⟨rfl, hretry⟩
    | cons w ws ih =>
      intro retry hretry
      obtain ⟨heq, hnext⟩ := windowRetry_eq (c := c) (t := t) hretry w.limit w.size
      rw [List.map_cons, List.foldl_cons, List.foldl_cons, heq]
      exact ih _ hnext
  have hstart := general (scriptWindows limits) (-1) (Or.inl rfl)
  rwa [show ofWait (-1) = 0 from rfl, ← windows_eq] at hstart

/-! ## The relation between the two states -/

/-- **The history and the key say the same at `t`**: hit for hit, with the same
expiry, or Redis has no such key and the history holds nothing or has expired. -/
def Mirrors (t : Int) (h : History) (c : Cell M) : Prop :=
  (∃ e, c.expiry = some e ∧ h = ⟨c.scores.map instant, instant e⟩) ∨
    (live t c = none ∧ (h.hits = [] ∨ h.expires ≤ instant t))

namespace Mirrors
variable {t t' : Int} {h : History} {c : Cell M}

theorem start (t : Int) : Mirrors t History.zero (none : Cell M) :=
  Or.inr ⟨rfl, Or.inl rfl⟩

/-- What has vanished stays so. -/
theorem mono (hm : Mirrors t h c) (hle : t ≤ t') : Mirrors t' h c := by
  rcases hm with hsame | ⟨hgone, hh⟩
  · exact Or.inl hsame
  · refine Or.inr ⟨?_, hh.imp_right fun hexp => hexp.trans (instant_le.mpr hle)⟩
    rcases live_cases t c with ⟨heq, -⟩ | ⟨-, e, he, hexp⟩
    · rw [← heq, hgone]
      rfl
    · rcases live_cases t' c with ⟨-, hlive⟩ | ⟨hnone, -⟩
      · have := hlive e he
        omega
      · exact hnone

/-- At the time of a call, either both still hold the hits, or both hold none. -/
theorem cases (hm : Mirrors t h c) :
    (live t c = c ∧ ∃ e, c.expiry = some e ∧ t < e ∧ h.seenAt (instant t) = h ∧
        h = ⟨c.scores.map instant, instant e⟩) ∨
      (live t c = none ∧ (h.seenAt (instant t)).hits = []) := by
  rcases hm with ⟨e, he, rfl⟩ | ⟨hgone, hh⟩
  · rcases live_cases t c with ⟨heq, hlive⟩ | ⟨hgone, e', he', hexp⟩
    · have hlt := hlive e he
      exact Or.inl ⟨heq, e, he, hlt, History.seenAt_of_lt (instant_lt.mpr hlt), rfl⟩
    · obtain rfl : e = e' := Option.some.inj (he.symm.trans he')
      refine Or.inr ⟨hgone, ?_⟩
      rw [History.seenAt_of_le (instant_le.mpr hexp)]
      rfl
  · refine Or.inr ⟨hgone, ?_⟩
    rcases hh with hnil | hexp
    · unfold History.seenAt
      split
      · exact hnil
      · rfl
    · rw [History.seenAt_of_le hexp]
      rfl

theorem entries_scriptTrim (limits : Limits) (t : Int) (c : Cell M) :
    (scriptTrim limits t c).entries.Sublist c.entries :=
  (entries_remRangeByScore _ _).trans (entries_live t c)

/-- Both trim to the same hits, and what is left of the key keeps its expiry. -/
theorem trimmed {K : Type} {l : MemoryLimiter K} {key : K} (hm : Mirrors t (l.stored key) c)
    (limits : Limits) :
    l.trimmed key limits (instant t) = (scriptTrim limits t c).scores.map instant ∧
      ((scriptTrim limits t c).scores ≠ [] →
        ∃ e, (scriptTrim limits t c).expiry = some e ∧
          (l.current key (instant t)).expires = instant e) := by
  have hsorted : (l.current key (instant t)).hits.Pairwise (· ≤ ·) := by
    rw [l.current_eq]
    rcases hm.cases with ⟨-, e, -, -, hseen, heq⟩ | ⟨-, hnil⟩
    · rw [hseen, heq]
      exact sorted_map_instant c
    · rw [hnil]
      exact List.Pairwise.nil
  have htrim : l.trimmed key limits (instant t) = younger (l.current key (instant t)).hits
      (instant t) (limits.retain ((l.current key (instant t)).expires - instant t)) :=
    drop_since hsorted _ _
  rw [htrim]
  rw [l.current_eq] at *
  rcases hm.cases with ⟨hlive, e, he, hlt, hseen, heq⟩ | ⟨hgone, hnil⟩
  · have hpttl : pttl t c = e - t := by
      cases c with
      | none => cases he
      | some k => simp [pttl, show k.expireAt = some e from he]
    have hretain : limits.retain (instant e - instant t) =
        (if scriptKeep limits < e - t then 86400000 else scriptKeep limits) * millisecond := by
      rw [Limits.retain, keep_eq, instant_sub]
      unfold millisecond
      split <;> split <;> first | rfl | omega
    have hscores : (scriptTrim limits t c).scores = c.scores.filter fun a => decide
        (t - (if scriptKeep limits < e - t then 86400000 else scriptKeep limits) < a) := by
      rw [scriptTrim, hlive, hpttl]
      exact scores_remRangeByScore _ _
    rw [hseen, heq, hscores]
    constructor
    · rw [hretain]
      exact younger_map_instant _ _ _
    · intro hne
      refine ⟨e, ?_, rfl⟩
      rw [← hscores] at hne
      rw [scriptTrim, hlive] at hne ⊢
      rw [expiry_remRangeByScore, if_neg hne, he]
  · have hnone : scriptTrim limits t c = none := by
      rw [scriptTrim, hgone]
      rfl
    rw [hnil, hnone]
    exact ⟨rfl, fun hne => absurd rfl hne⟩

/-- What the script leaves under the key after an admitted call. -/
def admitted (limits : Limits) (member : M) (t : Int) (c : Cell M) : Cell M :=
  let key := add t member c
  if pttl t key < scriptKeep limits then pexpire t (scriptKeep limits) key else key

/-- The two ways the script ends. -/
theorem slidingWindow_eq (limits : Limits) (member : M) (t : Nat) (c : Cell M) :
    slidingWindow limits member (t * 1000) c =
      if 0 ≤ (scriptWindows limits).foldl (windowWait (scriptTrim limits t c) t) (-1) then
        ((0, (scriptWindows limits).foldl (windowWait (scriptTrim limits t c) t) (-1)),
          scriptTrim limits t c)
      else ((1, 0), admitted limits member t (scriptTrim limits t c)) := by
  unfold slidingWindow
  rw [scriptNow_mul]
  rfl

theorem pttl_add (member : M) (t : Int) (c : Cell M) :
    pttl t (add t member c) = (c.expiry.map (· - t)).getD (-1) := rfl

theorem expiry_admitted (limits : Limits) (member : M) (t : Int) (c : Cell M) :
    (admitted limits member t c).expiry =
      if (c.expiry.map (· - t)).getD (-1) < scriptKeep limits then some (t + scriptKeep limits)
      else c.expiry := by
  unfold admitted
  rw [← pttl_add member]
  simp only
  by_cases hlt : pttl t (add t member c) < scriptKeep limits
  · rw [if_pos hlt, if_pos hlt]
    rfl
  · rw [if_neg hlt, if_neg hlt]
    rfl

theorem entries_admitted (limits : Limits) (member : M) (t : Int) (c : Cell M) :
    (admitted limits member t c).entries = (add t member c).entries := by
  unfold admitted
  simp only
  split
  · exact entries_pexpire _ _ _
  · rfl

theorem scores_admitted {limits : Limits} {member : M} (hnew : member ∉ c.members)
    (hpast : ∀ a ∈ c.scores, a ≤ t) :
    (admitted limits member t c).scores = c.scores ++ [t] := by
  rw [← scores_add hnew hpast, Cell.scores, entries_admitted]
  rfl

/-- A new hit, in a set whose expiry is `x` or that has none yet. -/
theorem of_admitted {limits : Limits} {member : M} {x : Int} (hnew : member ∉ c.members)
    (hpast : ∀ a ∈ c.scores, a ≤ t)
    (hexp : c.scores ≠ [] → ∃ e, c.expiry = some e ∧ x = instant e)
    (hshort : c.scores = [] → x ≤ instant t + limits.keep) :
    Mirrors t ⟨c.scores.map instant ++ [instant t], later x (instant t + limits.keep)⟩
      (admitted limits member t c) := by
  have hkeep : instant t + limits.keep = instant (t + scriptKeep limits) := by
    rw [keep_eq]
    unfold instant
    rw [Int.add_mul]
    omega
  have hpos : 0 < scriptKeep limits := by
    unfold scriptKeep
    split <;> decide
  refine Or.inl ?_
  rw [expiry_admitted, scores_admitted hnew hpast, hkeep, List.map_append]
  by_cases hnil : c.scores = []
  · have hx := hshort hnil
    rw [Cell.scores_eq_nil.mp hnil]
    refine ⟨t + scriptKeep limits, if_pos (Int.lt_trans (show (-1 : Int) < 0 by decide) hpos), ?_⟩
    rw [later, if_neg (by omega)]
    rfl
  · obtain ⟨e, he, rfl⟩ := hexp hnil
    simp only [he, Option.map_some, Option.getD_some]
    by_cases hlt : e - t < scriptKeep limits
    · refine ⟨t + scriptKeep limits, if_pos hlt, ?_⟩
      rw [later, if_neg (by rw [instant_lt]; omega)]
      rfl
    · refine ⟨e, if_neg hlt, ?_⟩
      by_cases heq : e = t + scriptKeep limits
      · rw [heq, later, if_neg (Int.lt_irrefl _)]
        rfl
      · rw [later, if_pos (by rw [instant_lt]; omega)]
        rfl

variable {K : Type} [DecidableEq K] {l : MemoryLimiter K} {key : K} {limits : Limits}

/-- **One call**: the same answer, and the states mirror each other again, if a
history the trim empties has no longer to live than the call keeps. -/
theorem allow {t : Nat} {member : M} (hm : Mirrors t (l.stored key) c)
    (hcap : limits.isNone = false) (hpast : ∀ a ∈ c.scores, a ≤ (t : Int))
    (hnew : member ∉ c.members)
    (hshort : l.trimmed key limits (instant t) = [] →
      (l.current key (instant t)).expires ≤ instant t + limits.keep) :
    (l.allow key limits (instant t)).1 =
        (if (slidingWindow limits member (t * 1000) c).1.1 = 1 then ⟨true, 0⟩
        else ⟨false, ceilToSecond ((slidingWindow limits member (t * 1000) c).1.2 * millisecond)⟩) ∧
      Mirrors t ((l.allow key limits (instant t)).2.stored key)
        (slidingWindow limits member (t * 1000) c).2 := by
  obtain ⟨htrim, hexp⟩ := hm.trimmed limits
  obtain ⟨hretry, hwait⟩ := retryAfter_eq limits (scriptTrim limits t c) t
  rw [MemoryLimiter.allow_of_capped hcap, slidingWindow_eq, htrim, hretry]
  rw [htrim, List.map_eq_nil_iff] at hshort
  by_cases hneg : 0 ≤ (scriptWindows limits).foldl (windowWait (scriptTrim limits t c) t) (-1)
  · have hpos : 0 < ofWait
        ((scriptWindows limits).foldl (windowWait (scriptTrim limits t c) t) (-1)) := by
      unfold ofWait millisecond
      split <;> omega
    rw [if_pos hpos, if_pos hneg]
    refine ⟨?_, ?_⟩
    · rw [if_neg (show (0 : Int) ≠ 1 by decide), ofWait, if_neg (by omega)]
    · rw [MemoryLimiter.stored_store_self]
      by_cases hnil : (scriptTrim limits t c).scores = []
      · rw [Cell.scores_eq_nil.mp hnil]
        exact Or.inr ⟨rfl, Or.inl rfl⟩
      · obtain ⟨e, he, hcur⟩ := hexp hnil
        exact Or.inl ⟨e, he, by rw [hcur]⟩
  · have hzero : ofWait
        ((scriptWindows limits).foldl (windowWait (scriptTrim limits t c) t) (-1)) = 0 :=
      if_pos (by omega)
    rw [hzero, if_neg (Int.lt_irrefl 0), if_neg hneg]
    refine ⟨rfl, ?_⟩
    rw [MemoryLimiter.stored_store_self]
    have hless := entries_scriptTrim limits t c
    exact of_admitted (fun hmem => hnew ((hless.map _).subset hmem))
      (fun a ha => hpast a ((hless.map _).subset ha)) hexp hshort

/-- A refund drops the newest hit on both sides; a set it empties is gone. -/
theorem refund (hm : Mirrors t (l.stored key) c) :
    Mirrors t ((l.refund key).stored key) (popMax (live t c)) := by
  rw [MemoryLimiter.stored_refund]
  rcases hm with ⟨e, he, hh⟩ | ⟨hgone, hh⟩
  · rcases live_cases t c with ⟨hlive, -⟩ | ⟨hgone, e', he', hexp⟩
    · rw [hlive, hh]
      by_cases hnil : (popMax c).scores = []
      · refine Or.inr ⟨by rw [Cell.scores_eq_nil.mp hnil]; rfl, Or.inl ?_⟩
        rw [scores_popMax] at hnil
        rw [← List.map_dropLast, hnil]
        rfl
      · refine Or.inl ⟨e, by rw [expiry_popMax, if_neg hnil, he], ?_⟩
        rw [scores_popMax, List.map_dropLast]
    · obtain rfl : e = e' := Option.some.inj (he.symm.trans he')
      rw [hgone, hh]
      exact Or.inr ⟨rfl, Or.inr (instant_le.mpr hexp)⟩
  · rw [hgone]
    refine Or.inr ⟨rfl, ?_⟩
    rcases hh with hnil | hexp
    · exact Or.inl (by rw [hnil]; rfl)
    · exact Or.inr hexp

end Mirrors

/-! ## Runs -/

/-- What is asked of a limiter about the key; a call of `Allow` brings the member
its hit would get in Redis. -/
inductive LimiterOp (M : Type) where
  | allow (limits : Limits) (member : M)
  | refund

/-- An operation at a time in whole milliseconds since 1970. -/
structure TimedOp (M : Type) where
  time : Nat
  op : LimiterOp M

/-- The answers a limiter gives along a run. -/
def answersOf {σ β : Type} (step : σ → TimedOp M → List β × σ) : σ → List (TimedOp M) → List β
  | _, [] => []
  | s, o :: ops => (step s o).1 ++ answersOf step (step s o).2 ops

/-- One operation of the memory limiter. -/
def memoryStep (key : Bytes) (l : MemoryLimiter Bytes) (o : TimedOp M) :
    List (Except Err Answer) × MemoryLimiter Bytes :=
  match o.op with
  | .allow limits _ =>
    ([.ok (l.allow key limits (instant o.time)).1], (l.allow key limits (instant o.time)).2)
  | .refund => ([], l.refund key)

/-- The same operation of the Redis limiter. -/
def redisStep (rl : RedisLimiter) (key : Bytes) (r : Redis M) (o : TimedOp M) :
    List (Except Err Answer) × Redis M :=
  match o.op with
  | .allow limits member =>
    ([(rl.allow r key limits (.up (o.time * 1000, member))).1],
      (rl.allow r key limits (.up (o.time * 1000, member))).2)
  | .refund => ([], (rl.refund r key (.up (o.time * 1000))).2)

/-- The members a run gives to its hits. -/
def membersOf (ops : List (TimedOp M)) : List M :=
  ops.filterMap fun o =>
    match o.op with
    | .allow _ member => some member
    | .refund => none

/-- A bound `P` on the history of the memory limiter that runs of operations in
`ok` keep, and that is tight enough for `Mirrors.allow`. -/
structure Bound (ok : LimiterOp M → Prop) (P : Int → History → Prop) : Prop where
  start : P 0 History.zero
  mono : ∀ {t t' h}, P t h → t ≤ t' → P t' h
  short : ∀ {l : MemoryLimiter Bytes} {key limits} {member : M} {t : Nat},
    ok (.allow limits member) → P t (l.stored key) →
    l.trimmed key limits (instant t) = [] →
    (l.current key (instant t)).expires ≤ instant t + limits.keep
  allow : ∀ {l : MemoryLimiter Bytes} {key limits} {member : M} {t : Nat},
    ok (.allow limits member) → limits.isNone = false → P t (l.stored key) →
    P t ((l.allow key limits (instant t)).2.stored key)
  refund : ∀ {t h}, ok (.refund) → P t h → P t ⟨h.hits.dropLast, h.expires⟩

/-- What holds between the operations of a run: both states, and what is known of
the members to come. -/
structure InStep (P : Int → History → Prop) (key : Bytes) (t : Nat) (l : MemoryLimiter Bytes)
    (c : Cell M) (coming : List M) : Prop where
  mirrors : Mirrors t (l.stored key) c
  bound : P t (l.stored key)
  past : ∀ a ∈ c.scores, a ≤ (t : Int)
  new : ∀ m ∈ coming, m ∉ c.members

/-- What a capped call that reaches Redis answers and leaves under its key. -/
theorem RedisLimiter.allow_up (rl : RedisLimiter) (r : Redis M) (key : Bytes) {limits : Limits}
    (hcap : limits.isNone = false) (clock : Nat) (member : M) :
    (rl.allow r key limits (.up (clock, member))).1 =
        .ok (if (slidingWindow limits member clock (r (rl.keyPrefix ++ key))).1.1 = 1 then ⟨true, 0⟩
          else ⟨false, ceilToSecond
            ((slidingWindow limits member clock (r (rl.keyPrefix ++ key))).1.2 * millisecond)⟩) ∧
      (rl.allow r key limits (.up (clock, member))).2 (rl.keyPrefix ++ key) =
        (slidingWindow limits member clock (r (rl.keyPrefix ++ key))).2 := by
  simp only [RedisLimiter.allow, hcap, Bool.false_eq_true, if_false]
  split <;> simp [RedisLimiter.write]

/-- What the script leaves under the key: no later score, and no member but those
that were there and the call's own. -/
theorem slidingWindow_leaves (limits : Limits) {member : M} {t : Nat} {c : Cell M}
    (hpast : ∀ a ∈ c.scores, a ≤ (t : Int)) (hnew : member ∉ c.members) :
    (∀ a ∈ (slidingWindow limits member (t * 1000) c).2.scores, a ≤ (t : Int)) ∧
      ∀ m ∈ (slidingWindow limits member (t * 1000) c).2.members, m = member ∨ m ∈ c.members := by
  have hless := Mirrors.entries_scriptTrim limits t c
  have hmembers : (scriptTrim limits t c).members ⊆ c.members := (hless.map _).subset
  have hpast' : ∀ a ∈ (scriptTrim limits t c).scores, a ≤ (t : Int) :=
    fun a ha => hpast a ((hless.map _).subset ha)
  rw [Mirrors.slidingWindow_eq]
  split
  · exact ⟨hpast', fun m hm => Or.inr (hmembers hm)⟩
  · have hnew' : member ∉ (scriptTrim limits t c).members := fun hm => hnew (hmembers hm)
    refine ⟨?_, fun m hm => ?_⟩
    · rw [Mirrors.scores_admitted hnew' hpast']
      intro a ha
      rcases List.mem_append.mp ha with hold | hlast
      · exact hpast' a hold
      · exact (List.mem_singleton.mp hlast).le
    · rw [Cell.members, Mirrors.entries_admitted] at hm
      exact (mem_members_add hm).imp_right fun h => hmembers h

namespace InStep
variable {ok : LimiterOp M → Prop} {P : Int → History → Prop} {key : Bytes} {t : Nat}
  {l : MemoryLimiter Bytes} {coming : List M}

theorem mono {c : Cell M} {t' : Nat} (hb : Bound ok P) (hi : InStep P key t l c coming)
    (hle : t ≤ t') : InStep P key t' l c coming where
  mirrors := hi.mirrors.mono (by omega)
  bound := hb.mono hi.bound (by omega)
  past := fun a ha => (hi.past a ha).trans (by omega)
  new := hi.new

theorem allow {c : Cell M} {limits : Limits} {member : M} (hb : Bound ok P)
    (hi : InStep P key t l c (member :: coming)) (hok : ok (.allow limits member))
    (hcap : limits.isNone = false) (hfresh : member ∉ coming) :
    (l.allow key limits (instant t)).1 =
        (if (slidingWindow limits member (t * 1000) c).1.1 = 1 then ⟨true, 0⟩
        else ⟨false, ceilToSecond ((slidingWindow limits member (t * 1000) c).1.2 * millisecond)⟩) ∧
      InStep P key t (l.allow key limits (instant t)).2
        (slidingWindow limits member (t * 1000) c).2 coming := by
  have hnew := hi.new member List.mem_cons_self
  obtain ⟨hanswer, hmirrors⟩ := hi.mirrors.allow hcap hi.past hnew (hb.short hok hi.bound)
  obtain ⟨hpast, hmembers⟩ := slidingWindow_leaves limits hi.past hnew
  refine ⟨hanswer, hmirrors, hb.allow hok hcap hi.bound, hpast, fun m hm hmem => ?_⟩
  rcases hmembers m hmem with rfl | hold
  · exact hfresh hm
  · exact hi.new m (List.mem_cons_of_mem _ hm) hold

theorem refund {c : Cell M} (hb : Bound ok P) (hi : InStep P key t l c coming)
    (hok : ok .refund) : InStep P key t (l.refund key) (popMax (live t c)) coming := by
  have hless : (popMax (live t c)).entries.Sublist c.entries :=
    (entries_popMax _).trans (entries_live _ _)
  refine ⟨hi.mirrors.refund, ?_, fun a ha => hi.past a ((hless.map _).subset ha),
    fun m hm hmem => hi.new m hm ((hless.map _).subset hmem)⟩
  rw [MemoryLimiter.stored_refund]
  exact hb.refund hok hi.bound

end InStep

/-- The clock of a run never goes back. -/
def InOrder {M : Type} (ops : List (TimedOp M)) : Prop :=
  ops.Pairwise (fun a b => a.time ≤ b.time)

instance {M : Type} (ops : List (TimedOp M)) : Decidable (InOrder ops) :=
  inferInstanceAs (Decidable (ops.Pairwise (fun a b => a.time ≤ b.time)))

/-- Runs of operations in `ok` are answered alike, from states that mirror each other. -/
theorem answersOf_eq {ok : LimiterOp M → Prop} {P : Int → History → Prop} (hb : Bound ok P)
    (rl : RedisLimiter) (key : Bytes) (ops : List (TimedOp M)) {t : Nat}
    {l : MemoryLimiter Bytes} {r : Redis M} (hok : ∀ o ∈ ops, ok o.op) (hclock : InOrder ops)
    (hlate : ∀ o ∈ ops, t ≤ o.time) (hmembers : (membersOf ops).Nodup)
    (hi : InStep P key t l (r (rl.keyPrefix ++ key)) (membersOf ops)) :
    answersOf (memoryStep key) l ops = answersOf (redisStep rl key) r ops := by
  induction ops generalizing t l r with
  | nil => rfl
  | cons o ops ih =>
    obtain ⟨hafter, hlater⟩ := List.pairwise_cons.mp hclock
    have hrest : ∀ o ∈ ops, ok o.op := fun x hx => hok x (List.mem_cons_of_mem _ hx)
    have hi := hi.mono hb (hlate o List.mem_cons_self)
    obtain ⟨time, op⟩ := o
    rw [answersOf, answersOf]
    cases op with
    | refund =>
      refine congrArg (([] : List (Except Err Answer)) ++ ·)
        (ih hrest hlater hafter hmembers ?_)
      have hcell : (redisStep rl key r ⟨time, .refund⟩).2 (rl.keyPrefix ++ key) =
          popMax (live time (r (rl.keyPrefix ++ key))) := by
        simp [redisStep, RedisLimiter.refund, RedisLimiter.write, scriptNow_mul]
      rw [hcell]
      exact hi.refund hb (hok _ List.mem_cons_self)
    | allow limits member =>
      obtain ⟨hfresh, hmembers⟩ := List.nodup_cons.mp hmembers
      cases hcap : limits.isNone with
      | true =>
        have hmem : memoryStep key l ⟨time, .allow limits member⟩ = ([.ok ⟨true, 0⟩], l) := by
          simp [memoryStep, MemoryLimiter.allow_of_isNone hcap]
        have hred : redisStep rl key r ⟨time, .allow limits member⟩ = ([.ok ⟨true, 0⟩], r) := by
          simp [redisStep, RedisLimiter.allow, hcap]
        rw [hmem, hred]
        exact congrArg _ (ih hrest hlater hafter hmembers
          ⟨hi.mirrors, hi.bound, hi.past, fun m hm => hi.new m (List.mem_cons_of_mem _ hm)⟩)
      | false =>
        obtain ⟨hanswer, hcell⟩ := rl.allow_up r key hcap (time * 1000) member
        obtain ⟨hsame, hnext⟩ := hi.allow hb (hok _ List.mem_cons_self) hcap hfresh
        have hhead : (memoryStep key l ⟨time, .allow limits member⟩).1 =
            (redisStep rl key r ⟨time, .allow limits member⟩).1 := by
          simp only [memoryStep, redisStep]
          rw [hanswer, hsame]
        rw [hhead]
        refine congrArg _ (ih hrest hlater hafter hmembers ?_)
        rw [← hcell] at hnext
        exact hnext

/-! ## Two kinds of run -/

/-- The history lives at most a day after its newest hit. -/
structure Lasting (t : Int) (h : History) : Prop where
  sorted : h.hits.Pairwise (· ≤ ·)
  past : ∀ a ∈ h.hits, a ≤ instant t
  lasts : h.expires ≤ unixEpoch ∨ ∃ a ∈ h.hits.getLast?, h.expires ≤ a + day

/-- The history has no longer to live than a call with `limits` keeps. -/
def Fitting (limits : Limits) (t : Int) (h : History) : Prop := h.expires ≤ instant t + limits.keep

theorem unixEpoch_le_instant (t : Nat) : unixEpoch ≤ instant t := by
  unfold instant millisecond
  omega

theorem zero_le_unixEpoch : 0 ≤ unixEpoch := by decide

/-- Nothing is refused on an empty history. -/
theorem trimmed_ne_nil_of_refused {l : MemoryLimiter Bytes} {key : Bytes} {limits : Limits}
    {now : Int} (hcap : limits.isNone = false) (hs : (l.stored key).hits.Pairwise (· ≤ ·))
    (hno : (l.allow key limits now).1.ok = false) : l.trimmed key limits now ≠ [] := by
  intro hnil
  have hroom : (l.allow key limits now).1.ok = true := by
    rw [MemoryLimiter.allow_ok_iff hcap hs, hnil]
    rintro w - ⟨hpos, hfull⟩
    simp only [younger, List.filter_nil, List.length_nil] at hfull
    omega
  rw [hno] at hroom
  cases hroom

namespace Lasting
variable {l : MemoryLimiter Bytes} {key : Bytes} {limits : Limits} {t : Nat}

theorem start : Lasting 0 History.zero where
  sorted := List.Pairwise.nil
  past := nofun
  lasts := Or.inl zero_le_unixEpoch

theorem mono {t t' : Int} {h : History} (hl : Lasting t h) (hle : t ≤ t') : Lasting t' h where
  sorted := hl.sorted
  past := fun a ha => (hl.past a ha).trans (instant_le.mpr hle)
  lasts := hl.lasts

/-- A history that is still alive expires at most a day after its newest hit. -/
theorem newest (hl : Lasting t (l.stored key)) (halive : instant t < (l.stored key).expires) :
    ∃ a ∈ (l.stored key).hits.getLast?, (l.stored key).expires ≤ a + day := by
  rcases hl.lasts with hold | hlast
  · have := unixEpoch_le_instant t
    omega
  · exact hlast

/-- A day of history is never trimmed away from under a longer life. -/
theorem short (hl : Lasting t (l.stored key)) (hnil : l.trimmed key limits (instant t) = []) :
    (l.current key (instant t)).expires ≤ instant t + limits.keep := by
  have hhour := limits.hour_le_keep
  have hzero := zero_le_unixEpoch.trans (unixEpoch_le_instant t)
  have hpos : 0 ≤ hour := by decide
  rcases l.current_cases key (instant t) with ⟨halive, hcur⟩ | ⟨-, hcur⟩
  · rw [hcur]
    by_contra hlong
    obtain ⟨a, ha, hday⟩ := hl.newest halive
    -- the whole day is kept, and the newest hit with it
    rw [MemoryLimiter.trimmed_eq hl.sorted, hcur,
      Limits.retain_of_lt (by omega), younger, List.filter_eq_nil_iff] at hnil
    have := hnil a (List.mem_of_getLast? ha)
    simp only [decide_eq_true_eq] at this
    omega
  · rw [hcur]
    exact hzero.trans (by omega)

theorem current_le (hl : Lasting t (l.stored key)) :
    (l.current key (instant t)).expires ≤ instant t + day := by
  have hpos : 0 ≤ day := by decide
  rcases l.current_cases key (instant t) with ⟨halive, hcur⟩ | ⟨-, hcur⟩
  · obtain ⟨a, ha, hday⟩ := hl.newest halive
    have hle := hl.past a (List.mem_of_getLast? ha)
    rw [hcur]
    omega
  · have hzero := zero_le_unixEpoch.trans (unixEpoch_le_instant t)
    rw [hcur]
    exact hzero.trans (by omega)

/-- The newest hit survives a trim that leaves anything. -/
theorem trimmed_newest (hl : Lasting t (l.stored key))
    (hne : l.trimmed key limits (instant t) ≠ []) :
    ∃ a ∈ (l.trimmed key limits (instant t)).getLast?,
      (l.current key (instant t)).expires ≤ a + day := by
  rcases l.current_cases key (instant t) with ⟨halive, hcur⟩ | ⟨-, hcur⟩
  · obtain ⟨a, ha, hday⟩ := hl.newest halive
    refine ⟨a, ?_, by rw [hcur]; exact hday⟩
    unfold MemoryLimiter.trimmed at hne ⊢
    simp only [hcur] at hne ⊢
    rw [List.getLast?_drop, if_neg (by simpa using hne)]
    exact ha
  · refine absurd ?_ hne
    unfold MemoryLimiter.trimmed
    simp only [hcur, History.zero, List.drop_nil]

theorem allow (hl : Lasting t (l.stored key)) (hcap : limits.isNone = false) :
    Lasting t ((l.allow key limits (instant t)).2.stored key) := by
  have hsub := l.trimmed_sublist key limits (instant t)
  have hsorted := MemoryLimiter.trimmed_sorted hl.sorted limits (instant t)
  have hpast : ∀ a ∈ l.trimmed key limits (instant t), a ≤ instant t :=
    fun a ha => hl.past a (hsub.subset ha)
  rcases l.allow_stored key hcap (instant t) with ⟨-, hstored⟩ | ⟨hno, hstored⟩
  · rw [hstored]
    refine ⟨List.pairwise_append.mpr ⟨hsorted, List.pairwise_singleton _ _, ?_⟩, ?_, ?_⟩
    · intro a ha b hb
      rw [List.mem_singleton.mp hb]
      exact hpast a ha
    · intro a ha
      rcases List.mem_append.mp ha with hold | hlast
      · exact hpast a hold
      · exact (List.mem_singleton.mp hlast).le
    · refine Or.inr ⟨instant t, by simp, ?_⟩
      have hday := limits.keep_le_day
      have hcur := hl.current_le
      simp only [later]
      split <;> omega
  · rw [hstored]
    exact ⟨hsorted, hpast,
      Or.inr (hl.trimmed_newest (trimmed_ne_nil_of_refused hcap hl.sorted hno))⟩

end Lasting

theorem Fitting.current {l : MemoryLimiter Bytes} {key : Bytes} {limits : Limits} {t : Nat}
    (hf : Fitting limits t (l.stored key)) :
    (l.current key (instant t)).expires ≤ instant t + limits.keep := by
  rcases l.current_cases key (instant t) with ⟨-, h⟩ | ⟨-, h⟩
  · rw [h]
    exact hf
  · have hpos := Int.le_trans (show 0 ≤ hour by decide) limits.hour_le_keep
    rw [h]
    exact (zero_le_unixEpoch.trans (unixEpoch_le_instant t)).trans (by omega)

theorem Fitting.allow {l : MemoryLimiter Bytes} {key : Bytes} {limits : Limits} {t : Nat}
    (hf : Fitting limits t (l.stored key)) (hcap : limits.isNone = false) :
    Fitting limits t ((l.allow key limits (instant t)).2.stored key) := by
  have hcur := hf.current
  rcases l.allow_stored key hcap (instant t) with ⟨-, h⟩ | ⟨-, h⟩
  · rw [h]
    unfold Fitting
    simp only [later]
    split <;> omega
  · rw [h]
    exact hcur

/-- Without refunds the limits may vary from call to call. -/
theorem lasting_bound {M : Type} : Bound (fun op : LimiterOp M => op ≠ .refund) Lasting where
  start := Lasting.start
  mono := Lasting.mono
  short := fun _ hl => hl.short
  allow := fun _ hcap hl => hl.allow hcap
  refund := fun hok _ => absurd rfl hok

/-- With refunds they stay the same. -/
theorem fitting_bound {M : Type} (limits : Limits) :
    Bound (fun op : LimiterOp M => ∀ l m, op = .allow l m → l = limits) (Fitting limits) where
  start := by
    have hpos := Int.le_trans (show 0 ≤ hour by decide) limits.hour_le_keep
    exact Int.le_trans (show (0 : Int) ≤ instant 0 by decide) (by omega)
  mono := fun hf hle => Int.le_trans hf (by have := instant_le.mpr hle; omega)
  short := by
    intro l key limits' member t hok hf _
    obtain rfl := hok _ _ rfl
    exact hf.current
  allow := by
    intro l key limits' member t hok hcap hf
    obtain rfl := hok _ _ rfl
    exact hf.allow hcap
  refund := fun _ hf => hf

/-- **The two limiters agree.**  A run of operations on one key, at non-decreasing
times in whole milliseconds, in which no refund occurs or all calls carry the same
limits, is answered by the Redis limiter as by the memory limiter: every call is
admitted or refused by both, with the same retry time.  Members are unique, as
`member` makes them. -/
theorem memory_redis_agree (rl : RedisLimiter) (key : Bytes) (ops : List (TimedOp M))
    (hclock : InOrder ops) (hmembers : (membersOf ops).Nodup)
    (hruns : (∀ o ∈ ops, o.op ≠ .refund) ∨
      ∃ limits, ∀ o ∈ ops, ∀ l m, o.op = .allow l m → l = limits) :
    answersOf (memoryStep key) MemoryLimiter.new ops =
      answersOf (redisStep rl key) (fun _ => none) ops := by
  have start : ∀ {P : Int → History → Prop}, P 0 History.zero →
      InStep P key 0 (MemoryLimiter.new : MemoryLimiter Bytes) (none : Cell M)
        (membersOf ops) :=
    fun hP => ⟨Mirrors.start 0, hP, nofun, fun m _ => nofun⟩
  rcases hruns with hruns | ⟨limits, hruns⟩
  · exact answersOf_eq lasting_bound rl key ops hruns hclock (fun o _ => Nat.zero_le _) hmembers
      (start (lasting_bound (M := M)).start)
  · exact answersOf_eq (fitting_bound limits) rl key ops hruns hclock (fun o _ => Nat.zero_le _)
      hmembers (start (fitting_bound (M := M) limits).start)

/-- One message a minute: the second call is refused, and the third finds the room
the refund left, when Redis has dropped the key and the memory limiter an empty
history. -/
def refundedOps : List (TimedOp Nat) :=
  [⟨1000, .allow ⟨1, 0, 0⟩ 7⟩, ⟨21000, .allow ⟨1, 0, 0⟩ 3⟩, ⟨22000, .refund⟩,
    ⟨23000, .allow ⟨1, 0, 0⟩ 5⟩]

theorem memory_redis_agree_refundedOps :
    answersOf (redisStep ⟨[], true⟩ []) (fun _ => none) refundedOps =
        [.ok ⟨true, 0⟩, .ok ⟨false, 40 * second⟩, .ok ⟨true, 0⟩] ∧
      answersOf (memoryStep []) MemoryLimiter.new refundedOps =
        answersOf (redisStep ⟨[], true⟩ []) (fun _ => none) refundedOps :=
  ⟨by decide +kernel, memory_redis_agree ⟨[], true⟩ [] refundedOps (by decide +kernel)
    (by decide +kernel) (Or.inr ⟨⟨1, 0, 0⟩, by simp [refundedOps]⟩)⟩

end Agreement
end Sigillum
