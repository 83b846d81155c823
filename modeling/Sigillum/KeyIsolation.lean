import Sigillum.LimiterSteps

/-! # Keys do not affect each other

A run of `Allow` and `Refund` calls on any keys, and the same run with the calls
on all keys but one left out.  The sweep that the other keys' calls set off may
have deleted in the one run what lies expired in the other, so the two limiters
are not equal on the key.  They are `Alike`: from now on, both show the same
history to a call.  A refund on an expired history keeps that, since nothing
brings such a history back.
-/
namespace Sigillum

/-- A call on the limiter; only `Allow` reads the clock. -/
inductive KeyedOp (K : Type) where
  | allow (key : K) (limits : Limits) (now : Int)
  | refund (key : K)

namespace KeyedOp
variable {K : Type}

def key : KeyedOp K → K
  | .allow key _ _ => key
  | .refund key => key

/-- The reading of the clock, if the call takes one. -/
def now? : KeyedOp K → Option Int
  | .allow _ _ now => some now
  | .refund _ => none

end KeyedOp

/-- The readings of the clock along a run never go back. -/
def Ticking {K : Type} (ops : List (KeyedOp K)) : Prop :=
  (ops.filterMap KeyedOp.now?).Pairwise (· ≤ ·)

instance {K : Type} (ops : List (KeyedOp K)) : Decidable (Ticking ops) :=
  inferInstanceAs (Decidable ((ops.filterMap KeyedOp.now?).Pairwise (· ≤ ·)))

/-! ## Histories that look the same -/

/-- From `t` on, a call sees the same of both. -/
def Alike (t : Int) (h h' : History) : Prop := ∀ t', t ≤ t' → h.seenAt t' = h'.seenAt t'

namespace Alike
variable {t t' : Int} {h h' h'' : History}

theorem refl (t : Int) (h : History) : Alike t h h := fun _ _ => rfl

theorem symm (ha : Alike t h h') : Alike t h' h := fun t' ht => (ha t' ht).symm

theorem trans (ha : Alike t h h') (hb : Alike t h' h'') : Alike t h h'' :=
  fun t' ht => (ha t' ht).trans (hb t' ht)

theorem mono (ha : Alike t h h') (hle : t ≤ t') : Alike t' h h' :=
  fun u hu => ha u (hle.trans hu)

/-- What has expired looks like what was deleted. -/
theorem of_expired (hexp : h.expires ≤ t) : Alike t h History.zero := by
  intro u hu
  rw [History.seenAt_of_le (hexp.trans hu), History.zero_seenAt]

/-- A refund shows in what is seen only. -/
theorem dropLast (ha : Alike t h h') :
    Alike t ⟨h.hits.dropLast, h.expires⟩ ⟨h'.hits.dropLast, h'.expires⟩ := by
  have hseen : ∀ (h : History) (u : Int), (⟨h.hits.dropLast, h.expires⟩ : History).seenAt u =
      ⟨(h.seenAt u).hits.dropLast, (h.seenAt u).expires⟩ := by
    intro h u
    unfold History.seenAt
    split <;> rfl
  intro u hu
  rw [hseen, hseen, ha u hu]

end Alike

section Isolation
variable {K : Type} [DecidableEq K]

variable {l l' : MemoryLimiter K} {k key : K} {limits : Limits} {t now : Int}

/-- A call on another key leaves a history that looks the same. -/
theorem Alike.allow_of_ne (ha : Alike t (l.stored k) (l'.stored k)) (hne : k ≠ key)
    (hle : t ≤ now) : Alike now ((l.allow key limits now).2.stored k) (l'.stored k) := by
  rcases l.allow_stored_of_ne hne limits now with h | ⟨hexp, h⟩
  · rw [h]
    exact ha.mono hle
  · rw [h]
    exact (Alike.of_expired hexp).symm.trans (ha.mono hle)

/-- **A call on the key is answered alike** where the histories look the same, and
leaves the same history. -/
theorem Alike.allow (ha : Alike t (l.stored k) (l'.stored k)) (hle : t ≤ now) (limits : Limits) :
    (l.allow k limits now).1 = (l'.allow k limits now).1 ∧
      Alike now ((l.allow k limits now).2.stored k) ((l'.allow k limits now).2.stored k) := by
  cases hcap : limits.isNone with
  | true =>
    rw [MemoryLimiter.allow_of_isNone hcap, MemoryLimiter.allow_of_isNone hcap]
    exact ⟨rfl, ha.mono hle⟩
  | false =>
    have hcur : l.current k now = l'.current k now := by
      rw [l.current_eq, l'.current_eq]
      exact ha now hle
    have htrim : l.trimmed k limits now = l'.trimmed k limits now := by
      unfold MemoryLimiter.trimmed
      rw [hcur]
    rw [MemoryLimiter.allow_of_capped hcap, MemoryLimiter.allow_of_capped hcap, htrim, hcur]
    split
    · refine ⟨rfl, ?_⟩
      rw [MemoryLimiter.stored_store_self, MemoryLimiter.stored_store_self]
      exact Alike.refl _ _
    · refine ⟨rfl, ?_⟩
      rw [MemoryLimiter.stored_store_self, MemoryLimiter.stored_store_self]
      exact Alike.refl _ _

/-! ## Runs -/

/-- The limiter after a call. -/
def MemoryLimiter.after (l : MemoryLimiter K) : KeyedOp K → MemoryLimiter K
  | .allow key limits now => (l.allow key limits now).2
  | .refund key => l.refund key

/-- What a call on `k` is answered; a refund is answered nothing. -/
def MemoryLimiter.answerOn (l : MemoryLimiter K) (k : K) : KeyedOp K → List Answer
  | .allow key limits now => if key = k then [(l.allow key limits now).1] else []
  | .refund _ => []

/-- The answers to the calls on `k` along a run. -/
def answersOn (k : K) : MemoryLimiter K → List (KeyedOp K) → List Answer
  | _, [] => []
  | l, op :: ops => l.answerOn k op ++ answersOn k (l.after op) ops

/-- One more call of the run, made on both limiters if it is on the key and
otherwise on the first only. -/
theorem Alike.after (ha : Alike t (l.stored k) (l'.stored k)) (op : KeyedOp K)
    (hlate : ∀ now ∈ op.now?, t ≤ now) :
    (op.key = k → l.answerOn k op = l'.answerOn k op ∧
        Alike (op.now?.getD t) ((l.after op).stored k) ((l'.after op).stored k)) ∧
      (op.key ≠ k → l.answerOn k op = [] ∧
        Alike (op.now?.getD t) ((l.after op).stored k) (l'.stored k)) := by
  cases op with
  | allow key limits now =>
    have hle : t ≤ now := hlate now rfl
    constructor
    · intro hkey
      obtain rfl : key = k := hkey
      obtain ⟨hanswer, hnext⟩ := ha.allow hle limits
      refine ⟨?_, hnext⟩
      simp only [MemoryLimiter.answerOn, hanswer]
    · intro hkey
      exact ⟨if_neg hkey, ha.allow_of_ne (Ne.symm hkey) hle⟩
  | refund key =>
    constructor
    · intro hkey
      obtain rfl : key = k := hkey
      refine ⟨rfl, ?_⟩
      simp only [MemoryLimiter.after, MemoryLimiter.stored_refund]
      exact ha.dropLast
    · intro hkey
      have hsame : (l.refund key).stored k = l.stored k := l.stored_refund_of_ne (Ne.symm hkey)
      refine ⟨rfl, ?_⟩
      simp only [MemoryLimiter.after, hsame]
      exact ha

/-- Leaving out the calls on other keys, from limiters that look the same on `k`. -/
theorem answersOn_filter (ops : List (KeyedOp K)) (hclock : Ticking ops)
    (hlate : ∀ now ∈ ops.filterMap KeyedOp.now?, t ≤ now)
    (ha : Alike t (l.stored k) (l'.stored k)) :
    answersOn k l ops = answersOn k l' (ops.filter fun op => decide (op.key = k)) := by
  induction ops generalizing l l' t with
  | nil => rfl
  | cons op ops ih =>
    have hnow : ∀ now ∈ op.now?, t ≤ now := by
      intro now hn
      exact hlate now (List.mem_filterMap.mpr ⟨op, List.mem_cons_self, hn⟩)
    -- what is left of the run is made no earlier than `op`
    have hrest : Ticking ops ∧ ∀ now ∈ ops.filterMap KeyedOp.now?, op.now?.getD t ≤ now := by
      unfold Ticking at hclock
      cases hop : op.now? with
      | none =>
        rw [List.filterMap_cons_none hop] at hclock hlate
        exact ⟨hclock, hlate⟩
      | some now =>
        rw [List.filterMap_cons_some hop] at hclock
        exact ⟨(List.pairwise_cons.mp hclock).2, (List.pairwise_cons.mp hclock).1⟩
    obtain ⟨hself, hother⟩ := ha.after op hnow
    by_cases hkey : op.key = k
    · obtain ⟨hanswer, hnext⟩ := hself hkey
      rw [List.filter_cons_of_pos (by simpa using hkey), answersOn, answersOn, hanswer,
        ih hrest.1 hrest.2 hnext]
    · obtain ⟨hanswer, hnext⟩ := hother hkey
      rw [List.filter_cons_of_neg (by simpa using hkey), answersOn, hanswer, List.nil_append,
        ih hrest.1 hrest.2 hnext]

/-- **Keys are isolated.**  In every run of calls on any keys, with a clock that
never goes back, the calls on `k` are answered as they are when all calls on other
keys are left out. -/
theorem keys_isolated (ops : List (KeyedOp K)) (k : K) (hclock : Ticking ops) :
    answersOn k MemoryLimiter.new ops =
      answersOn k MemoryLimiter.new (ops.filter fun op => decide (op.key = k)) := by
  -- the clock of the run starts somewhere
  obtain ⟨t, ht⟩ : ∃ t, ∀ now ∈ ops.filterMap KeyedOp.now?, t ≤ now := by
    cases h : ops.filterMap KeyedOp.now? with
    | nil => exact ⟨0, nofun⟩
    | cons first rest =>
      unfold Ticking at hclock
      rw [h] at hclock
      refine ⟨first, fun now hn => ?_⟩
      rcases List.mem_cons.mp hn with rfl | hn
      · exact Int.le_refl _
      · exact (List.pairwise_cons.mp hclock).1 now hn
  exact answersOn_filter ops hclock ht (Alike.refl _ _)

open Duration in
/-- The call on the other key sweeps the expired history away, the refund hits it
in one run and nothing in the other, and the last call is admitted in both. -/
def sweptOps : List (KeyedOp Bool) :=
  [.allow true ⟨1, 0, 0⟩ day, .allow true ⟨1, 0, 0⟩ (day + second),
    .allow false ⟨1, 0, 0⟩ (2 * day), .refund true, .allow true ⟨1, 0, 0⟩ (2 * day)]

open Duration in
theorem keys_isolated_sweptOps :
    answersOn true MemoryLimiter.new sweptOps = [⟨true, 0⟩, ⟨false, 59 * second⟩, ⟨true, 0⟩] ∧
      answersOn true MemoryLimiter.new sweptOps =
        answersOn true MemoryLimiter.new (sweptOps.filter fun op => decide (op.key = true)) :=
  ⟨by decide +kernel, keys_isolated sweptOps true (by decide +kernel)⟩

end Isolation
end Sigillum
