import Sigillum.ByteString
import Sigillum.KeyedSemaphore

/-! # The messages of one tenant

`tenantLimiter` of the SMTP proxy bounds how many messages a namespace relays at once,
with a channel of that capacity for each namespace that has messages in flight.  Calls of
`acquire` and of the `release` it returns run concurrently; what is atomic in them is a
section under `mu` or one operation on a channel, and these are the actions here.
-/
namespace Sigillum.TenantLimiter
open Bytes KeyedSemaphore

/-- `tenantLimiter`, without its map, which is part of the state. -/
structure Limiter where
  cap : Nat
  cap_pos : 0 < cap
  deriving DecidableEq, Repr

/-- `newTenantLimiter`; the nil limiter bounds nothing. -/
def newTenantLimiter (cap : Int) : Option Limiter :=
  if h : cap ≤ 0 then none else some ⟨cap.toNat, by omega⟩

/-- What calls do, one atomic part at a time; a call is given by its number. -/
inductive Call where
  /-- The locked start of `acquire`: find or make the `nsSlot`, and count the call. -/
  | acquire (ns : Bytes)
  /-- `s.ch <- struct{}{}`. -/
  | send (i : Nat)
  /-- `<-ctx.Done()`. -/
  | ctxDone (i : Nat)
  /-- `<-s.ch`, when the caller releases. -/
  | receive (i : Nat)
  /-- `done`. -/
  | done (i : Nat)
  deriving DecidableEq, Repr

/-- A channel of the limiter is a semaphore that is taken by sending on it. -/
def Call.action : Call → Action Bytes
  | .acquire ns => .enter ns
  | .send i => .take i
  | .ctxDone i => .cancel i
  | .receive i => .giveBack i
  | .done i => .leave i

/-- One atomic part of a call, if it does not have to wait. -/
def Limiter.step (t : Limiter) (s : State Bytes) (call : Call) : Option (State Bytes) :=
  KeyedSemaphore.step t.cap s call.action

section Numbers
variable (s : State Bytes) (ns : Bytes)

/-- The calls of a namespace that wait for its channel. -/
def waiters : Nat := s.inPhase ns .waiting

/-- The calls that hold a slot of it. -/
def holders : Nat := s.inPhase ns .holding

/-- The calls that have given their slot back, or whose context ended, and that have not
run `done` yet. -/
def leavers : Nat := s.inPhase ns .leaving

end Numbers

theorem balanced_run {t : Limiter} {calls : List Call} {s : State Bytes}
    (hrun : Machine.run t.step .start calls = some s) : Balanced t.cap s :=
  Machine.run_keeps (I := fun _ => Balanced t.cap) hrun balanced_start
    fun _ _ _ _ hbalanced hstep => hbalanced.step hstep

/-- **The cap of a tenant.**  However calls interleave, at most `cap` of them hold a slot of
a namespace; those that hold one, wait or leave share its one `nsSlot`, which is in the map
while there are any and counts them; and a call waits only while its own namespace is at
the cap. -/
theorem tenant_cap {t : Limiter} {calls : List Call} {s : State Bytes}
    (hrun : Machine.run t.step .start calls = some s) (ns : Bytes) :
    holders s ns ≤ t.cap ∧
      (∀ c ∈ s.callers, c.key = ns → c.phase ≠ .gone → s.entry ns = some c.slot) ∧
      (s.entry ns ≠ none ↔ 0 < holders s ns + waiters s ns + leavers s ns) ∧
      (∀ a, s.entry ns = some a → ∃ slot, s.slots[a]? = some slot ∧
        slot.taken = holders s ns ∧
        slot.refs = holders s ns + waiters s ns + leavers s ns) ∧
      (t.step s (.acquire ns)).isSome = true ∧
      ∀ i c, s.callers[i]? = some c → c.key = ns → c.phase = .waiting →
        ((t.step s (.send i)).isSome = true ↔ holders s ns < t.cap) := by
  have hbalanced := balanced_run hrun
  have hcounted : s.counted ns = holders s ns + waiters s ns + leavers s ns := counted_eq s ns
  refine ⟨hbalanced.holding_le ns, ?_, ?_, ?_, hbalanced.enter_isSome ns, ?_⟩
  · rintro c hc rfl hphase
    exact hbalanced.shared c hc hphase
  · rw [← hcounted, hbalanced.entry_ne_none_iff]
  · intro a ha
    obtain ⟨slot, hslot, htaken, hrefs, -, -⟩ := hbalanced.slot ns a ha
    exact ⟨slot, hslot, htaken, hrefs.trans hcounted⟩
  · rintro i c hi rfl hphase
    exact hbalanced.take_isSome_iff hi hphase

/-- The limiter of one message at a time. -/
def oneAtATime : Limiter := ⟨1, Nat.one_pos⟩

/-- Two calls of a namespace with one slot: the second waits, and a call of another
namespace does not. -/
theorem tenant_cap_waiting :
    ∃ s, Machine.run oneAtATime.step .start
        [.acquire (lit "a"), .send 0, .acquire (lit "a"), .acquire (lit "b")] = some s ∧
      holders s (lit "a") ≤ oneAtATime.cap ∧ oneAtATime.step s (.send 1) = none ∧
      (oneAtATime.step s (.send 2)).isSome = true :=
  ⟨_, rfl, (@tenant_cap oneAtATime
    [.acquire (lit "a"), .send 0, .acquire (lit "a"), .acquire (lit "b")] _ rfl (lit "a")).1,
    rfl, rfl⟩

/-- A caller that releases: its slot is free already, and its namespace is still in the map
with a reference, though nobody holds a slot or waits. -/
theorem leaver_counts :
    ∃ s, Machine.run oneAtATime.step .start
        [.acquire (lit "a"), .send 0, .receive 0] = some s ∧
      holders s (lit "a") + waiters s (lit "a") = 0 ∧
      s.entry (lit "a") = some 0 ∧ s.slots[0]? = some ⟨0, 1⟩ :=
  ⟨_, rfl, by decide, rfl, rfl⟩

end Sigillum.TenantLimiter
