import Mathlib.Data.Int.Order.Basic
import Sigillum.Timeline

/-! # The in-memory rate limiter

`internal/policy/ratelimit`: the limits of one policy, the three sliding windows
they cap, and `MemoryLimiter`, which keeps one sorted list of timestamps per key.

Instants and durations are integers, in nanoseconds; the zero `time.Time` is
instant `0`.  Saturation of `Time.Sub` plays no part: the two differences the
code takes are only compared with an hour, a day or a minute.  The mutex makes
every call atomic, and the clock is read under it, so a call takes its reading
of the clock as an argument.
-/
namespace Sigillum

namespace Duration
def second : Int := 1000000000
def minute : Int := 60 * second
def hour : Int := 60 * minute
def day : Int := 24 * hour

/-- What an `int64` holds of a number: 64 bits in two's complement. -/
def wrap (n : Int) : Int := (n + 9223372036854775808) % 18446744073709551616 - 9223372036854775808

theorem wrap_of_bounds {n : Int} (hmin : -9223372036854775808 ≤ n)
    (hmax : n < 9223372036854775808) : wrap n = n := by
  unfold wrap
  omega

theorem wrap_le {n : Int} (hmin : -9223372036854775808 ≤ n) : wrap n ≤ n := by
  unfold wrap
  omega

end Duration

open Duration

/-- The caps on the hits per sliding window; a cap that is not positive is no
cap.  The source's fields are `int32`, of which only comparisons and one
subtraction from a length are ever taken. -/
structure Limits where
  perMinute : Int
  perHour : Int
  perDay : Int
  deriving DecidableEq, Repr

/-- One sliding window and its cap. -/
structure Window where
  limit : Int
  size : Int
  deriving DecidableEq, Repr

namespace Limits

/-- `Limits.None`: no window is capped. -/
def isNone (l : Limits) : Bool :=
  decide (l.perMinute ≤ 0) && decide (l.perHour ≤ 0) && decide (l.perDay ≤ 0)

/-- Every window, shortest first. -/
def windows (l : Limits) : List Window :=
  [⟨l.perMinute, minute⟩, ⟨l.perHour, hour⟩, ⟨l.perDay, day⟩]

/-- How far back hits must be kept to count every capped window. -/
def keep (l : Limits) : Int := if 0 < l.perDay then day else hour

/-- How far back a call trims the stored history, which has `left` to live: the
call's own `keep`, or a day while a daily cap holds the history for longer. -/
def retain (l : Limits) (left : Int) : Int :=
  if l.keep < left then day else l.keep

theorem hour_le_keep (l : Limits) : hour ≤ l.keep := by
  unfold keep
  split <;> decide

theorem keep_le_day (l : Limits) : l.keep ≤ day := by
  unfold keep
  split <;> decide

theorem keep_of_perDay {l : Limits} (h : 0 < l.perDay) : l.keep = day := if_pos h

theorem keep_of_not_perDay {l : Limits} (h : ¬ 0 < l.perDay) : l.keep = hour := if_neg h

theorem keep_le_retain (l : Limits) (left : Int) : l.keep ≤ l.retain left := by
  unfold retain
  split
  · exact l.keep_le_day
  · exact Int.le_refl _

theorem retain_of_lt {l : Limits} {left : Int} (h : l.keep < left) : l.retain left = day :=
  if_pos h

/-- A capped window is never longer than what the limits keep. -/
theorem size_le_keep {l : Limits} {w : Window} (hw : w ∈ l.windows) (hcap : 0 < w.limit) :
    w.size ≤ l.keep := by
  simp only [windows, List.mem_cons, List.not_mem_nil, or_false] at hw
  rcases hw with rfl | rfl | rfl
  · exact Int.le_trans (show minute ≤ hour by decide) l.hour_le_keep
  · exact l.hour_le_keep
  · rw [keep_of_perDay hcap]

/-- Limits cap something exactly when one of their windows is capped. -/
theorem isNone_eq_false_iff (l : Limits) :
    l.isNone = false ↔ ∃ w ∈ l.windows, 0 < w.limit := by
  simp only [isNone, windows, Bool.and_eq_false_iff, decide_eq_false_iff_not, List.mem_cons,
    List.not_mem_nil, or_false, exists_eq_or_imp, exists_eq_left]
  omega

theorem isNone_eq_false_of_perDay {l : Limits} (h : 0 < l.perDay) : l.isNone = false :=
  l.isNone_eq_false_iff.mpr ⟨⟨l.perDay, day⟩, by simp [windows], h⟩

end Limits

/-- One key's hits, oldest first, and when they all stop counting. -/
structure History where
  hits : List Int
  expires : Int
  deriving DecidableEq, Repr

namespace History

/-- The zero `history{}`, also what a missing map entry reads as. -/
def zero : History := ⟨[], 0⟩

/-- The history as a call at `now` sees it: once expired it is gone, swept or not. -/
def seenAt (h : History) (now : Int) : History := if now < h.expires then h else zero

end History

/-- `since`: the index of the first hit younger than `cutoff`, by binary search. -/
def since (hist : List Int) (cutoff : Int) : Nat :=
  Timeline.search hist.length (Timeline.above hist cutoff)

/-- `ceilToSecond`: at least a second, rounded up to whole seconds. -/
def ceilToSecond (d : Int) : Int :=
  if d ≤ 0 then second
  else if d % second ≠ 0 then (d - d % second) + second
  else d

/-- `later`: the later of two instants. -/
def later (a b : Int) : Int := if b < a then a else b

/-- The index `Allow` takes the retry time from, in a full window: that of the
`limit`-th newest hit. -/
def retryIndex (hist : List Int) (w : Window) : Nat := hist.length - w.limit.toNat

/-- In a full window the index is inside the history. -/
theorem retryIndex_lt {hist : List Int} {w : Window} {first : Nat} (hcap : ¬ w.limit ≤ 0)
    (hfull : ¬ ((hist.length : Int) - first < w.limit)) : retryIndex hist w < hist.length := by
  unfold retryIndex
  omega

/-- One round of the loop over the windows: the longest wait so far. -/
def windowRetry (hist : List Int) (now : Int) (retry : Int) (w : Window) : Int :=
  if hcap : w.limit ≤ 0 then retry
  else if hfull : (hist.length : Int) - (since hist (now - w.size) : Nat) < w.limit then retry
  else max retry (hist.get ⟨retryIndex hist w, retryIndex_lt hcap hfull⟩ + w.size - now)

/-- The wait until every full window has room again; `0` when none is full. -/
def retryAfter (limits : Limits) (hist : List Int) (now : Int) : Int :=
  limits.windows.foldl (windowRetry hist now) 0

/-- What `Allow` answers; its error is always nil. -/
structure Answer where
  ok : Bool
  retryAfter : Int
  deriving DecidableEq, Repr

/-- `MemoryLimiter`: the histories by key, and the instant of the last sweep. -/
structure MemoryLimiter (K : Type) where
  hits : K → Option History
  swept : Int

namespace MemoryLimiter
variable {K : Type} [DecidableEq K]

/-- `NewMemoryLimiter`. -/
def new : MemoryLimiter K := ⟨fun _ => none, 0⟩

/-- The map read `l.hits[key]`. -/
def stored (l : MemoryLimiter K) (key : K) : History := (l.hits key).getD History.zero

/-- The map write `l.hits[key] = h`. -/
def store (l : MemoryLimiter K) (key : K) (h : History) : MemoryLimiter K :=
  { l with hits := fun k => if k = key then some h else l.hits k }

/-- `sweep`: at most once a minute, delete the keys whose hits no longer count. -/
def sweep (l : MemoryLimiter K) (now : Int) : MemoryLimiter K :=
  if now - l.swept < minute then l
  else ⟨fun k => (l.hits k).filter (fun h => decide (now < h.expires)), now⟩

/-- The history a call with `limits` at `now` starts from, after the sweep. -/
def current (l : MemoryLimiter K) (key : K) (now : Int) : History :=
  ((l.sweep now).stored key).seenAt now

/-- The part of it the call keeps. -/
def trimmed (l : MemoryLimiter K) (key : K) (limits : Limits) (now : Int) : List Int :=
  let h := l.current key now
  h.hits.drop (since h.hits (now - limits.retain (h.expires - now)))

/-- `Allow`, with the clock at `now`. -/
def allow (l : MemoryLimiter K) (key : K) (limits : Limits) (now : Int) :
    Answer × MemoryLimiter K :=
  if limits.isNone then (⟨true, 0⟩, l)
  else
    let h := l.current key now
    let hist := l.trimmed key limits now
    let retry := Sigillum.retryAfter limits hist now
    if 0 < retry then
      (⟨false, ceilToSecond retry⟩, (l.sweep now).store key ⟨hist, h.expires⟩)
    else
      (⟨true, 0⟩, (l.sweep now).store key ⟨hist ++ [now], later h.expires (now + limits.keep)⟩)

/-- `Refund`: drop the newest hit of the key. -/
def refund (l : MemoryLimiter K) (key : K) : MemoryLimiter K :=
  let h := l.stored key
  if h.hits = [] then l else l.store key ⟨h.hits.dropLast, h.expires⟩

end MemoryLimiter
end Sigillum
