import Mathlib.Data.List.Basic
import Mathlib.Logic.Function.Basic
import Sigillum.Machine

/-! # A semaphore for each key in use

A map holds one semaphore for each key that somebody waits for or has taken.  A
semaphore is made on first use, counts the callers that refer to it, and leaves the
map with the last of them.  The steps of a caller are its locked sections and its
operations on the semaphore: it enters, takes the semaphore or gives up waiting for
it, gives it back, and drops its reference; callers take their steps in any order.

`Balanced` is what every step keeps (`Balanced.step`): the callers of a key that are still
counted all refer to the semaphore the map has for it, and its two numbers are those of
these callers.
-/
namespace KeyedSemaphore

/-- How often a semaphore is taken, and how many callers refer to it. -/
structure Slot where
  taken : Nat
  refs : Nat
  deriving DecidableEq, Repr

/-- Where a caller is.  It is `leaving` once it has given the semaphore back or given up,
until it has dropped its reference. -/
inductive Phase where
  | waiting
  | holding
  | leaving
  | gone
  deriving DecidableEq, Repr

structure Caller (K : Type) where
  key : K
  slot : Nat
  phase : Phase
  deriving DecidableEq, Repr

/-- Every semaphore that was made, by its address, the map, and the callers. -/
structure State (K : Type) where
  slots : List Slot
  entry : K → Option Nat
  callers : List (Caller K)

/-- The steps; callers are given by their number. -/
inductive Action (K : Type) where
  | enter (key : K)
  | take (i : Nat)
  | cancel (i : Nat)
  | giveBack (i : Nat)
  | leave (i : Nat)
  deriving DecidableEq, Repr

variable {K : Type}

namespace State

def start : State K := ⟨[], fun _ => none, []⟩

/-- Change the semaphore of a caller, which goes on to a phase. -/
def move (s : State K) (i : Nat) (c : Caller K) (slot : Slot) (phase : Phase) : State K :=
  { s with
    slots := s.slots.set c.slot slot
    callers := s.callers.set i { c with phase } }

/-- Take the semaphore of a key out of the map. -/
def drop [DecidableEq K] (s : State K) (key : K) : State K :=
  { s with entry := Function.update s.entry key none }

/-- The callers of a key in a phase. -/
def inPhase [DecidableEq K] (s : State K) (key : K) (phase : Phase) : Nat :=
  s.callers.countP fun c => c.key = key ∧ c.phase = phase

/-- The callers of a key that are still counted. -/
def counted [DecidableEq K] (s : State K) (key : K) : Nat :=
  s.callers.countP fun c => c.key = key ∧ c.phase ≠ .gone

end State

/-- One step, if it is possible. -/
def step [DecidableEq K] (cap : Nat) (s : State K) : Action K → Option (State K)
  | .enter key =>
    match s.entry key with
    | none => some
        { slots := s.slots ++ [⟨0, 1⟩]
          entry := Function.update s.entry key (some s.slots.length)
          callers := s.callers ++ [⟨key, s.slots.length, .waiting⟩] }
    | some a => do
      let slot ← s.slots[a]?
      some
        { s with
          slots := s.slots.set a { slot with refs := slot.refs + 1 }
          callers := s.callers ++ [⟨key, a, .waiting⟩] }
  | .take i => do
    let c ← s.callers[i]?
    let slot ← s.slots[c.slot]?
    if c.phase = .waiting ∧ slot.taken < cap then
      some (s.move i c { slot with taken := slot.taken + 1 } .holding)
    else none
  | .cancel i => do
    let c ← s.callers[i]?
    let slot ← s.slots[c.slot]?
    if c.phase = .waiting then some (s.move i c slot .leaving) else none
  | .giveBack i => do
    let c ← s.callers[i]?
    let slot ← s.slots[c.slot]?
    if c.phase = .holding ∧ 0 < slot.taken then
      some (s.move i c { slot with taken := slot.taken - 1 } .leaving)
    else none
  | .leave i => do
    let c ← s.callers[i]?
    let slot ← s.slots[c.slot]?
    if c.phase = .leaving then
      let s' := s.move i c { slot with refs := slot.refs - 1 } .gone
      some (if slot.refs - 1 = 0 then s'.drop c.key else s')
    else none

/-! ## What a step does -/

section Cases
variable [DecidableEq K] {cap : Nat} {s s' : State K} {a : Action K}

/-- Everything a step can do. -/
inductive Stepped (cap : Nat) (s : State K) : Action K → State K → Prop
  | first {key : K} (h : s.entry key = none) : Stepped cap s (.enter key)
      { slots := s.slots ++ [⟨0, 1⟩]
        entry := Function.update s.entry key (some s.slots.length)
        callers := s.callers ++ [⟨key, s.slots.length, .waiting⟩] }
  | further {key : K} {a : Nat} {slot : Slot} (h : s.entry key = some a)
    (hslot : s.slots[a]? = some slot) : Stepped cap s (.enter key)
      { s with
        slots := s.slots.set a { slot with refs := slot.refs + 1 }
        callers := s.callers ++ [⟨key, a, .waiting⟩] }
  | take {i : Nat} {c : Caller K} {slot : Slot} (hi : s.callers[i]? = some c)
    (hslot : s.slots[c.slot]? = some slot) (hphase : c.phase = .waiting)
    (hroom : slot.taken < cap) : Stepped cap s (.take i)
      (s.move i c { slot with taken := slot.taken + 1 } .holding)
  | cancel {i : Nat} {c : Caller K} {slot : Slot} (hi : s.callers[i]? = some c)
    (hslot : s.slots[c.slot]? = some slot) (hphase : c.phase = .waiting) :
    Stepped cap s (.cancel i) (s.move i c slot .leaving)
  | giveBack {i : Nat} {c : Caller K} {slot : Slot} (hi : s.callers[i]? = some c)
    (hslot : s.slots[c.slot]? = some slot) (hphase : c.phase = .holding)
    (htaken : 0 < slot.taken) : Stepped cap s (.giveBack i)
      (s.move i c { slot with taken := slot.taken - 1 } .leaving)
  | leave {i : Nat} {c : Caller K} {slot : Slot} (hi : s.callers[i]? = some c)
    (hslot : s.slots[c.slot]? = some slot) (hphase : c.phase = .leaving)
    (hmore : slot.refs - 1 ≠ 0) : Stepped cap s (.leave i)
      (s.move i c { slot with refs := slot.refs - 1 } .gone)
  | last {i : Nat} {c : Caller K} {slot : Slot} (hi : s.callers[i]? = some c)
    (hslot : s.slots[c.slot]? = some slot) (hphase : c.phase = .leaving)
    (hlast : slot.refs - 1 = 0) : Stepped cap s (.leave i)
      ((s.move i c { slot with refs := slot.refs - 1 } .gone).drop c.key)

theorem stepped_of_step (h : step cap s a = some s') : Stepped cap s a s' := by
  cases a with
  | enter key =>
    simp only [step] at h
    split at h
    · rename_i hentry
      obtain rfl := Option.some.inj h
      exact .first hentry
    · rename_i address hentry
      obtain ⟨slot, hslot, h⟩ := Option.bind_eq_some_iff.mp h
      obtain rfl := Option.some.inj h
      exact .further hentry hslot
  | take i =>
    obtain ⟨c, hi, h⟩ := Option.bind_eq_some_iff.mp h
    obtain ⟨slot, hslot, h⟩ := Option.bind_eq_some_iff.mp h
    split at h
    · rename_i hcond
      obtain rfl := Option.some.inj h
      exact .take hi hslot hcond.1 hcond.2
    · cases h
  | cancel i =>
    obtain ⟨c, hi, h⟩ := Option.bind_eq_some_iff.mp h
    obtain ⟨slot, hslot, h⟩ := Option.bind_eq_some_iff.mp h
    split at h
    · rename_i hphase
      obtain rfl := Option.some.inj h
      exact .cancel hi hslot hphase
    · cases h
  | giveBack i =>
    obtain ⟨c, hi, h⟩ := Option.bind_eq_some_iff.mp h
    obtain ⟨slot, hslot, h⟩ := Option.bind_eq_some_iff.mp h
    split at h
    · rename_i hcond
      obtain rfl := Option.some.inj h
      exact .giveBack hi hslot hcond.1 hcond.2
    · cases h
  | leave i =>
    obtain ⟨c, hi, h⟩ := Option.bind_eq_some_iff.mp h
    obtain ⟨slot, hslot, h⟩ := Option.bind_eq_some_iff.mp h
    split at h
    · rename_i hphase
      obtain rfl := Option.some.inj h
      split
      · rename_i hlast
        exact .last hi hslot hphase hlast
      · rename_i hmore
        exact .leave hi hslot hphase hmore
    · cases h

/-- A caller that enters waits. -/
theorem callers_enter {key : K} (h : step cap s (.enter key) = some s') :
    ∃ slot, s'.callers = s.callers ++ [⟨key, slot, .waiting⟩] := by
  cases stepped_of_step h with
  | first _ => exact ⟨_, rfl⟩
  | further _ _ => exact ⟨_, rfl⟩

/-- The caller that an action moves, and the phase it goes on to. -/
def Action.moves : Action K → Option (Nat × Phase)
  | .enter _ => none
  | .take i => some (i, .holding)
  | .cancel i => some (i, .leaving)
  | .giveBack i => some (i, .leaving)
  | .leave i => some (i, .gone)

theorem callers_move {i : Nat} {phase : Phase} (h : step cap s a = some s')
    (ha : a.moves = some (i, phase)) :
    ∃ c, s.callers[i]? = some c ∧ s'.callers = s.callers.set i { c with phase } := by
  cases stepped_of_step h with
  | first _ | further _ _ => cases ha
  | take hi _ _ _ | cancel hi _ _ | giveBack hi _ _ _ | leave hi _ _ _ | last hi _ _ _ =>
    cases ha
    exact ⟨_, hi, rfl⟩

end Cases

/-! ## The invariant -/

/-- **The map and the callers agree.**  Callers that are still counted refer to the
semaphore of their key in the map; no two keys have the same; and its numbers are those
of the callers that hold it and of those still counted, of which there is one. -/
structure Balanced [DecidableEq K] (cap : Nat) (s : State K) : Prop where
  shared : ∀ c ∈ s.callers, c.phase ≠ .gone → s.entry c.key = some c.slot
  separate : ∀ k k' a, s.entry k = some a → s.entry k' = some a → k = k'
  slot : ∀ k a, s.entry k = some a → ∃ slot, s.slots[a]? = some slot ∧
    slot.taken = s.inPhase k .holding ∧ slot.refs = s.counted k ∧ slot.taken ≤ cap ∧ 0 < slot.refs

/-- What becomes of a number of callers when one of them changes. -/
theorem countP_set_add {p : Caller K → Bool} {callers : List (Caller K)} {i : Nat} {c : Caller K}
    (hi : callers[i]? = some c) (c' : Caller K) :
    (callers.set i c').countP p + (if p c then 1 else 0) =
      callers.countP p + (if p c' then 1 else 0) := by
  induction callers generalizing i with
  | nil => cases hi
  | cons d callers ih =>
    cases i with
    | zero =>
      obtain rfl : d = c := Option.some.inj hi
      simp only [List.set_cons_zero, List.countP_cons]
      omega
    | succ i =>
      have := ih (i := i) hi
      simp only [List.set_cons_succ, List.countP_cons]
      omega

/-- The counted callers, by their phase. -/
theorem counted_eq [DecidableEq K] (s : State K) (k : K) :
    s.counted k = s.inPhase k .holding + s.inPhase k .waiting + s.inPhase k .leaving := by
  unfold State.counted State.inPhase
  induction s.callers with
  | nil => rfl
  | cons c callers ih =>
    simp only [List.countP_cons, ih]
    by_cases hkey : c.key = k <;> cases hphase : c.phase <;> simp [hkey] <;> omega

section Balanced
variable [DecidableEq K] {cap : Nat} {s s' : State K}

theorem balanced_start : Balanced cap (State.start : State K) := ⟨nofun, nofun, nofun⟩

section Move
variable {i : Nat} {c : Caller K} (hi : s.callers[i]? = some c) (slot : Slot) (phase : Phase)
include hi

theorem inPhase_move (k : K) (p : Phase) :
    (s.move i c slot phase).inPhase k p + (if c.key = k ∧ c.phase = p then 1 else 0) =
      s.inPhase k p + (if c.key = k ∧ phase = p then 1 else 0) := by
  have h := countP_set_add (p := fun c => decide (c.key = k ∧ c.phase = p)) hi
    { c with phase }
  simp only [decide_eq_true_eq] at h
  exact h

theorem counted_move (k : K) :
    (s.move i c slot phase).counted k + (if c.key = k ∧ c.phase ≠ .gone then 1 else 0) =
      s.counted k + (if c.key = k ∧ phase ≠ .gone then 1 else 0) := by
  have h := countP_set_add (p := fun c => decide (c.key = k ∧ c.phase ≠ .gone)) hi
    { c with phase }
  simp only [decide_eq_true_eq] at h
  exact h

end Move

/-- A caller of a key that is not in the map is gone. -/
theorem Balanced.entry_ne_none (h : Balanced cap s) {c : Caller K} (hc : c ∈ s.callers)
    (hphase : c.phase ≠ .gone) : s.entry c.key ≠ none := by
  rw [h.shared c hc hphase]
  exact Option.some_ne_none _

/-- Without a semaphore for the key, its callers are gone. -/
theorem Balanced.idle (h : Balanced cap s) {k : K} (hentry : s.entry k = none) :
    s.counted k = 0 ∧ s.inPhase k .holding = 0 := by
  constructor
  · rw [State.counted, List.countP_eq_zero]
    intro d hd hcount
    obtain ⟨rfl, hlive⟩ := of_decide_eq_true hcount
    exact h.entry_ne_none hd hlive hentry
  · rw [State.inPhase, List.countP_eq_zero]
    intro d hd hcount
    obtain ⟨rfl, hphase⟩ := of_decide_eq_true hcount
    exact h.entry_ne_none hd (by simp [hphase]) hentry

/-- The semaphore of a caller that is still counted. -/
theorem Balanced.slot_of_mem (h : Balanced cap s) {c : Caller K} (hc : c ∈ s.callers)
    (hphase : c.phase ≠ .gone) {slot : Slot} (hslot : s.slots[c.slot]? = some slot) :
    slot.taken = s.inPhase c.key .holding ∧ slot.refs = s.counted c.key ∧ slot.taken ≤ cap ∧
      0 < slot.refs := by
  obtain ⟨slot', hslot', hnumbers⟩ := h.slot _ _ (h.shared c hc hphase)
  obtain rfl := Option.some.inj (hslot.symm.trans hslot')
  exact hnumbers

/-- The semaphores of other keys are not touched by a caller. -/
theorem Balanced.slot_move_of_ne (h : Balanced cap s) {i : Nat} {c : Caller K}
    (hi : s.callers[i]? = some c) (hphase : c.phase ≠ .gone) (slot' : Slot) (phase : Phase) {k : K}
    {a : Nat} (hk : s.entry k = some a) (hkey : c.key ≠ k) :
    ∃ slot, (s.move i c slot' phase).slots[a]? = some slot ∧
      slot.taken = (s.move i c slot' phase).inPhase k .holding ∧
      slot.refs = (s.move i c slot' phase).counted k ∧ slot.taken ≤ cap ∧ 0 < slot.refs := by
  have hentry := h.shared c (List.mem_of_getElem? hi) hphase
  have hne : c.slot ≠ a := fun heq => hkey (h.separate _ _ _ hentry (heq ▸ hk))
  obtain ⟨slot, hslot, hrest⟩ := h.slot k a hk
  have hphases := inPhase_move hi slot' phase k .holding
  have hcounts := counted_move hi slot' phase k
  simp only [hkey, false_and, if_false, Nat.add_zero] at hphases hcounts
  rw [hphases, hcounts]
  exact ⟨slot, (List.getElem?_set_ne hne).trans hslot, hrest⟩

/-- A caller changes its semaphore and goes on; the numbers change as it does. -/
theorem Balanced.move (h : Balanced cap s) {i : Nat} {c : Caller K} {slot slot' : Slot}
    {phase : Phase} (hi : s.callers[i]? = some c) (hslot : s.slots[c.slot]? = some slot)
    (hphase : c.phase ≠ .gone)
    (htaken : slot'.taken + (if c.phase = .holding then 1 else 0) =
      slot.taken + (if phase = .holding then 1 else 0))
    (hrefs : slot'.refs + 1 = slot.refs + (if phase ≠ .gone then 1 else 0))
    (hcap : slot'.taken ≤ cap) (hpos : 0 < slot'.refs) :
    Balanced cap (s.move i c slot' phase) := by
  have hc := List.mem_of_getElem? hi
  have hentry := h.shared c hc hphase
  obtain ⟨hold, holdRefs, -, -⟩ := h.slot_of_mem hc hphase hslot
  refine ⟨fun d hd hlive => ?_, h.separate, fun k a hk => ?_⟩
  · rcases List.mem_or_eq_of_mem_set hd with hd | rfl
    · exact h.shared d hd hlive
    · exact hentry
  · by_cases hkey : c.key = k
    · -- the semaphore of the caller
      subst hkey
      obtain rfl : c.slot = a := Option.some.inj (hentry.symm.trans hk)
      have hphases := inPhase_move hi slot' phase c.key .holding
      have hcounts := counted_move hi slot' phase c.key
      simp only [true_and, hphase, ne_eq, not_false_eq_true, if_true] at hphases hcounts hrefs
      refine ⟨slot', ?_, by omega, by omega, hcap, hpos⟩
      exact List.getElem?_set_self (List.getElem?_eq_some_iff.mp hslot).1
    · exact h.slot_move_of_ne hi hphase slot' phase hk hkey

/-- The last caller of a key takes its semaphore out of the map. -/
theorem Balanced.last (h : Balanced cap s) {i : Nat} {c : Caller K} {slot : Slot}
    (hi : s.callers[i]? = some c) (hslot : s.slots[c.slot]? = some slot)
    (hphase : c.phase = .leaving)
    (hlast : slot.refs - 1 = 0) (slot' : Slot) :
    Balanced cap ((s.move i c slot' .gone).drop c.key) := by
  have hc := List.mem_of_getElem? hi
  have hlive : c.phase ≠ .gone := by simp [hphase]
  obtain ⟨-, hrefs, -, -⟩ := h.slot_of_mem hc hlive hslot
  have hcounts := counted_move hi slot' .gone c.key
  simp only [true_and, hlive, ne_eq, not_false_eq_true, if_true, not_true_eq_false, if_false]
    at hcounts
  -- nobody else of the key is counted
  have hnone : (s.move i c slot' .gone).counted c.key = 0 := by omega
  have hkept : ∀ {k a}, ((s.move i c slot' .gone).drop c.key).entry k = some a →
      s.entry k = some a ∧ c.key ≠ k := by
    intro k a hk
    by_cases hkey : k = c.key
    · rw [hkey] at hk
      simp [State.drop] at hk
    · exact ⟨(Function.update_of_ne hkey _ _).symm.trans hk, fun heq => hkey heq.symm⟩
  refine ⟨fun d hd hd' => ?_, fun k k' a hk hk' => ?_, fun k a hk => ?_⟩
  · have hkey : d.key ≠ c.key := fun hkey =>
      List.countP_eq_zero.mp hnone d hd (decide_eq_true ⟨hkey, hd'⟩)
    refine (Function.update_of_ne hkey _ _).trans ?_
    rcases List.mem_or_eq_of_mem_set hd with hd | rfl
    · exact h.shared d hd hd'
    · exact absurd rfl hkey
  · exact h.separate k k' a (hkept hk).1 (hkept hk').1
  · exact h.slot_move_of_ne hi hlive slot' .gone (hkept hk).1 (hkept hk).2

/-- A caller joins those of its key. -/
theorem Balanced.further (h : Balanced cap s) {key : K} {a : Nat} {slot : Slot}
    (hentry : s.entry key = some a) (hslot : s.slots[a]? = some slot) :
    Balanced cap
      { s with
        slots := s.slots.set a { slot with refs := slot.refs + 1 }
        callers := s.callers ++ [⟨key, a, .waiting⟩] } := by
  refine ⟨fun d hd hd' => ?_, h.separate, fun k b hk => ?_⟩
  · rcases List.mem_append.mp hd with hd | hd
    · exact h.shared d hd hd'
    · obtain rfl := List.mem_singleton.mp hd
      exact hentry
  · obtain ⟨slot₀, hslot₀, htaken, hrefs, hcap, hpos⟩ := h.slot k b hk
    by_cases hkey : key = k
    · subst hkey
      obtain rfl : a = b := Option.some.inj (hentry.symm.trans hk)
      obtain rfl := Option.some.inj (hslot.symm.trans hslot₀)
      refine ⟨{ slot with refs := slot.refs + 1 },
        List.getElem?_set_self (List.getElem?_eq_some_iff.mp hslot).1, ?_, ?_, hcap, Nat.succ_pos _⟩
      · simpa [State.inPhase] using htaken
      · simpa [State.counted] using hrefs
    · have hne : a ≠ b := fun heq => hkey (h.separate _ _ _ hentry (heq ▸ hk))
      refine ⟨slot₀, (List.getElem?_set_ne hne).trans hslot₀, ?_, ?_, hcap, hpos⟩
      · simpa [State.inPhase, hkey] using htaken
      · simpa [State.counted, hkey] using hrefs

/-- The first caller of a key makes a semaphore for it. -/
theorem Balanced.first (h : Balanced cap s) {key : K} (hentry : s.entry key = none) :
    Balanced cap
      { slots := s.slots ++ [⟨0, 1⟩]
        entry := Function.update s.entry key (some s.slots.length)
        callers := s.callers ++ [⟨key, s.slots.length, .waiting⟩] } := by
  have hold : ∀ {k a}, s.entry k = some a → a < s.slots.length := by
    intro k a hk
    obtain ⟨slot, hslot, -⟩ := h.slot k a hk
    exact (List.getElem?_eq_some_iff.mp hslot).1
  refine ⟨fun d hd hd' => ?_, fun k k' a hk hk' => ?_, fun k a hk => ?_⟩
  · rcases List.mem_append.mp hd with hd | hd
    · have hkey : d.key ≠ key := fun hkey => h.entry_ne_none hd hd' (hkey ▸ hentry)
      exact (Function.update_of_ne hkey _ _).trans (h.shared d hd hd')
    · obtain rfl := List.mem_singleton.mp hd
      exact Function.update_self _ _ _
  · by_cases hkey : k = key <;> by_cases hkey' : k' = key
    · exact hkey.trans hkey'.symm
    · simp only [hkey, Function.update_self, Function.update_of_ne hkey'] at hk hk'
      have := hold hk'
      obtain rfl := Option.some.inj hk
      omega
    · simp only [hkey', Function.update_self, Function.update_of_ne hkey] at hk hk'
      have := hold hk
      obtain rfl := Option.some.inj hk'
      omega
    · simp only [Function.update_of_ne hkey, Function.update_of_ne hkey'] at hk hk'
      exact h.separate k k' a hk hk'
  · by_cases hkey : k = key
    · subst hkey
      simp only [Function.update_self, Option.some.injEq] at hk
      subst hk
      obtain ⟨hnone, hidle⟩ := h.idle hentry
      refine ⟨⟨0, 1⟩, by simp, ?_, ?_, Nat.zero_le _, Nat.one_pos⟩
      · simpa [State.inPhase] using hidle.symm
      · simpa [State.counted] using hnone
    · simp only [Function.update_of_ne hkey] at hk
      obtain ⟨slot, hslot, htaken, hrefs, hcap, hpos⟩ := h.slot k a hk
      have hkey' : key ≠ k := fun heq => hkey heq.symm
      refine ⟨slot, (List.getElem?_append_left (hold hk)).trans hslot, ?_, ?_, hcap, hpos⟩
      · simpa [State.inPhase, hkey'] using htaken
      · simpa [State.counted, hkey'] using hrefs

/-- **Every step keeps the balance.** -/
theorem Balanced.step {a : Action K} (h : Balanced cap s)
    (hstep : KeyedSemaphore.step cap s a = some s') : Balanced cap s' := by
  cases stepped_of_step hstep with
  | first hentry => exact h.first hentry
  | further hentry hslot => exact h.further hentry hslot
  | @take i c slot hi hslot hphase hroom =>
    have hlive : c.phase ≠ .gone := by simp [hphase]
    obtain ⟨-, -, -, hpos⟩ := h.slot_of_mem (List.mem_of_getElem? hi) hlive hslot
    exact h.move hi hslot hlive (by simp [hphase]) (by simp) hroom hpos
  | @cancel i c slot hi hslot hphase =>
    have hlive : c.phase ≠ .gone := by simp [hphase]
    obtain ⟨-, -, hcap, hpos⟩ := h.slot_of_mem (List.mem_of_getElem? hi) hlive hslot
    exact h.move hi hslot hlive (by simp [hphase]) (by simp) hcap hpos
  | @giveBack i c slot hi hslot hphase htaken =>
    have hlive : c.phase ≠ .gone := by simp [hphase]
    obtain ⟨-, -, hcap, hpos⟩ := h.slot_of_mem (List.mem_of_getElem? hi) hlive hslot
    refine h.move hi hslot hlive ?_ (by simp) (by simp only; omega) hpos
    simp only [hphase, if_true, reduceCtorEq, if_false]
    omega
  | @leave i c slot hi hslot hphase hmore =>
    have hlive : c.phase ≠ .gone := by simp [hphase]
    obtain ⟨-, -, hcap, -⟩ := h.slot_of_mem (List.mem_of_getElem? hi) hlive hslot
    refine h.move hi hslot hlive (by simp [hphase]) ?_ hcap (Nat.pos_of_ne_zero hmore)
    simp only [ne_eq, not_true_eq_false, if_false]
    omega
  | last hi hslot hphase hlast => exact h.last hi hslot hphase hlast _

/-! ## What the balance says -/

/-- A key is in the map exactly while a caller of it is counted. -/
theorem Balanced.entry_ne_none_iff (h : Balanced cap s) (k : K) :
    s.entry k ≠ none ↔ 0 < s.counted k := by
  constructor
  · intro hk
    obtain ⟨a, ha⟩ := Option.ne_none_iff_exists'.mp hk
    obtain ⟨slot, -, -, hrefs, -, hpos⟩ := h.slot k a ha
    rwa [hrefs] at hpos
  · intro hpos hentry
    rw [(h.idle hentry).1] at hpos
    exact absurd hpos (Nat.lt_irrefl 0)

/-- A semaphore is never taken more often than it may be. -/
theorem Balanced.holding_le (h : Balanced cap s) (k : K) : s.inPhase k .holding ≤ cap := by
  cases hk : s.entry k with
  | some a =>
    obtain ⟨slot, -, htaken, -, hcap, -⟩ := h.slot k a hk
    rwa [← htaken]
  | none =>
    rw [(h.idle hk).2]
    exact Nat.zero_le _

/-- A semaphore for one is held by one. -/
theorem Balanced.holding_unique (h : Balanced 1 s) {i j : Nat} {c d : Caller K}
    (hi : s.callers[i]? = some c) (hj : s.callers[j]? = some d) (hkey : d.key = c.key)
    (hc : c.phase = .holding) (hd : d.phase = .holding) : i = j := by
  by_contra hne
  -- without the first, there is none left
  have hmove := inPhase_move hi ⟨0, 0⟩ .leaving c.key .holding
  have hle := h.holding_le c.key
  simp only [hc, and_self, if_true, reduceCtorEq, and_false, if_false] at hmove
  have hnone : (s.move i c ⟨0, 0⟩ .leaving).inPhase c.key .holding = 0 := by omega
  have hmem : d ∈ (s.move i c ⟨0, 0⟩ .leaving).callers :=
    List.mem_of_getElem? ((List.getElem?_set_ne hne).trans hj)
  exact List.countP_eq_zero.mp hnone d hmem (decide_eq_true ⟨hkey, hd⟩)

/-- A caller may always enter. -/
theorem Balanced.enter_isSome (h : Balanced cap s) (k : K) :
    (KeyedSemaphore.step cap s (.enter k)).isSome = true := by
  cases hk : s.entry k with
  | none => simp [KeyedSemaphore.step, hk]
  | some a =>
    obtain ⟨slot, hslot, -⟩ := h.slot k a hk
    simp [KeyedSemaphore.step, hk, hslot]

/-- A caller waits only for those that hold the semaphore of its own key. -/
theorem Balanced.take_isSome_iff (h : Balanced cap s) {i : Nat} {c : Caller K}
    (hi : s.callers[i]? = some c) (hphase : c.phase = .waiting) :
    (KeyedSemaphore.step cap s (.take i)).isSome = true ↔ s.inPhase c.key .holding < cap := by
  have hlive : c.phase ≠ .gone := by simp [hphase]
  have hc := List.mem_of_getElem? hi
  obtain ⟨slot, hslot, htaken, -⟩ := h.slot _ _ (h.shared c hc hlive)
  rw [← htaken]
  by_cases hroom : slot.taken < cap <;> simp [KeyedSemaphore.step, hi, hslot, hphase, hroom]

end Balanced
end KeyedSemaphore
