import Sigillum.Libraries
import Sigillum.MemoryLimiter
import Sigillum.SortedSet

/-! # The Redis rate limiter

`slidingWindow` is the Lua script, run atomically by Redis on the sorted set of
one key: scores and durations are in milliseconds, and the clock is that of
Redis, in microseconds since 1970.  `RedisLimiter` calls it, and pops the newest
member to refund.

A call reaches Redis or does not (`Link`); one that does not leaves Redis as it
was.  `ARGV[4]`, the member for the hit, is part of the call, as are the
`crypto/rand` bytes it is made of.
-/
namespace Sigillum
open Duration SortedSet

namespace Duration
def millisecond : Int := 1000000
end Duration

/-- `redis.call('TIME')`: seconds and microseconds. -/
def redisTime (clock : Nat) : Nat × Nat := (clock / 1000000, clock % 1000000)

/-- The clock in milliseconds, as the script computes it. -/
def scriptNow (clock : Nat) : Int :=
  ((redisTime clock).1 * 1000 + (redisTime clock).2 / 1000 : Nat)

section Script
variable {M : Type} [LinearOrder M]

/-- The three windows of the script. -/
def scriptWindows (limits : Limits) : List Window :=
  [⟨limits.perMinute, 60000⟩, ⟨limits.perHour, 3600000⟩, ⟨limits.perDay, 86400000⟩]

/-- One round of the loop over the windows. -/
def windowWait (c : Cell M) (now : Int) (retry : Int) (w : Window) : Int :=
  if 0 < w.limit then
    if w.limit ≤ count (now - w.size) c then
      match range (-w.limit) (-w.limit) c with
      | hit :: _ =>
        let wait := hit.score + w.size - now
        if retry < wait then wait else retry
      | [] => retry -- not reached: the window alone holds `limit` entries
    else retry
  else retry

/-- How long a call keeps its own hit. -/
def scriptKeep (limits : Limits) : Int := if 0 < limits.perDay then 86400000 else 3600000

/-- What the script finds under the key once it has trimmed it: it keeps what its
own limits need, or a day of history while a call with a daily cap holds the key
for longer. -/
def scriptTrim (limits : Limits) (now : Int) (c : Cell M) : Cell M :=
  let key := live now c
  let trim := if scriptKeep limits < pttl now key then 86400000 else scriptKeep limits
  remRangeByScore (now - trim) key

/-- The script, with the limits and the member as its arguments. -/
def slidingWindow (limits : Limits) (member : M) (clock : Nat) (c : Cell M) :
    (Int × Int) × Cell M :=
  let now := scriptNow clock
  let keep := scriptKeep limits
  let key := scriptTrim limits now c
  let retry := (scriptWindows limits).foldl (windowWait key now) (-1)
  if 0 ≤ retry then ((0, retry), key)
  else
    let key := add now member key
    ((1, 0), if pttl now key < keep then pexpire now keep key else key)

end Script

/-- `RedisLimiter`; the client is whatever answers its calls. -/
structure RedisLimiter where
  keyPrefix : Bytes
  failOpen : Bool
  deriving DecidableEq, Repr

/-- What Redis holds: one sorted set a key. -/
abbrev Redis (M : Type) [LinearOrder M] := Bytes → Cell M

/-- Whether a call reaches Redis, and if so what it finds there. -/
inductive Link (α : Type) where
  | up (found : α)
  | down (err : Err)
  deriving DecidableEq, Repr

namespace RedisLimiter
variable {M : Type} [LinearOrder M]

/-- The write of one key. -/
def write (r : Redis M) (key : Bytes) (c : Cell M) : Redis M :=
  fun k => if k = key then c else r k

/-- `Allow`; a call that reaches Redis finds its clock and takes a member. -/
def allow (l : RedisLimiter) (r : Redis M) (key : Bytes) (limits : Limits)
    (link : Link (Nat × M)) : Except Err Answer × Redis M :=
  if limits.isNone then (.ok ⟨true, 0⟩, r)
  else match link with
  | .down err =>
    if l.failOpen then (.ok ⟨true, 0⟩, r)
    else (.error (.new (Bytes.lit "rate limiter unavailable: " ++ err.text)), r)
  | .up (clock, member) =>
    let k := l.keyPrefix ++ key
    let res := slidingWindow limits member clock (r k)
    if res.1.1 = 1 then (.ok ⟨true, 0⟩, write r k res.2)
    else (.ok ⟨false, ceilToSecond (res.1.2 * millisecond)⟩, write r k res.2)

/-- `Refund`; a call that reaches Redis finds its clock. -/
def refund (l : RedisLimiter) (r : Redis M) (key : Bytes) (link : Link Nat) :
    Option Err × Redis M :=
  match link with
  | .down err => (some err, r)
  | .up clock =>
    let k := l.keyPrefix ++ key
    (none, write r k (popMax (live (scriptNow clock) (r k))))

end RedisLimiter
end Sigillum
