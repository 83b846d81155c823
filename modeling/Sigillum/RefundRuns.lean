import Sigillum.LimiterRuns

/-! # Interleaved sends and their refunds

`Gateway.Send` takes one hit from the limiter before it calls the backend, and
hands it back with `Refund` when the backend fails transiently.  Many sends run
at once: here the limits and the key are those of one policy, and a state holds
the limiter together with every send that was admitted so far.

`Refund` removes the *newest* hit.  That keeps the caps for the messages that
were not refunded as long as the newest hit is the refunding send's own
(`reaches_withinCaps`); the hit of a later send, once removed, is not counted
again (`lateRefund_exceeds`).
-/
namespace Sigillum
open Duration

/-- A send the limiter admitted, and whether it gave its hit back. -/
structure Admission where
  time : Int
  refunded : Bool
  deriving DecidableEq, Repr

/-- The limiter, the clock, and the admitted sends, oldest first. -/
structure Sends (K : Type) where
  limiter : MemoryLimiter K
  clock : Int
  admitted : List Admission

/-- What a pipeline does next: call `Allow`, or refund the `i`-th admission. -/
inductive Action where
  | allow (now : Int)
  | refund (i : Nat)
  deriving DecidableEq, Repr

namespace Sends
variable {K : Type}

def start (clock : Int) : Sends K := ⟨MemoryLimiter.new, clock, []⟩

/-- When the sends that keep their hit were admitted. -/
def kept (s : Sends K) : List Int :=
  (s.admitted.filter (fun a => !a.refunded)).map Admission.time

/-- No capped window, wherever it ends, holds more messages than its cap. -/
def WithinCaps (limits : Limits) (s : Sends K) : Prop :=
  ∀ w ∈ limits.windows, 0 < w.limit → ∀ t, ((inWindow s.kept t w.size).length : Int) ≤ w.limit

variable [DecidableEq K]

/-- One action, if it is possible: the clock does not run backwards, and only an
admitted send refunds, once. -/
def step (limits : Limits) (key : K) (s : Sends K) : Action → Option (Sends K)
  | .allow now =>
    if now < s.clock then none
    else
      let a := s.limiter.allow key limits now
      some ⟨a.2, now, if a.1.ok then s.admitted ++ [⟨now, false⟩] else s.admitted⟩
  | .refund i =>
    match s.admitted[i]? with
    | some ⟨time, false⟩ =>
      some { s with limiter := s.limiter.refund key, admitted := s.admitted.set i ⟨time, true⟩ }
    | _ => none

/-- The states of the runs whose steps all satisfy `P`. -/
inductive Reaches (limits : Limits) (key : K) (P : Sends K → Action → Prop) : Sends K → Prop
  | start (clock : Int) : Reaches limits key P (start clock)
  | step {s s' : Sends K} {a : Action} : Reaches limits key P s → P s a →
      s.step limits key a = some s' → Reaches limits key P s'

/-- A refund finds no hit stored, or its own send's as the newest. -/
def OwnHit (key : K) (s : Sends K) : Action → Prop
  | .allow _ => True
  | .refund i => ∀ h ∈ (s.limiter.stored key).hits.getLast?, ∀ a ∈ s.admitted[i]?, a.time = h

/-! ## One step -/

omit [DecidableEq K] in
theorem kept_append (s : Sends K) (l : MemoryLimiter K) (clock now : Int) :
    (⟨l, clock, s.admitted ++ [⟨now, false⟩]⟩ : Sends K).kept = s.kept ++ [now] := by
  simp [kept]

/-- Everything an action can do. -/
theorem step_cases {limits : Limits} {key : K} {s s' : Sends K} {a : Action}
    (h : s.step limits key a = some s') :
    (∃ now, a = .allow now ∧ s.clock ≤ now ∧ s'.clock = now ∧
        s'.limiter = (s.limiter.allow key limits now).2 ∧
        s'.kept = s.kept ++ if (s.limiter.allow key limits now).1.ok then [now] else []) ∨
      (∃ i time before after, a = .refund i ∧ s.admitted[i]? = some ⟨time, false⟩ ∧
        s'.clock = s.clock ∧ s'.limiter = s.limiter.refund key ∧
        s.kept = before ++ time :: after ∧ s'.kept = before ++ after) := by
  cases a with
  | allow now =>
    simp only [step] at h
    split at h
    · cases h
    · rename_i hclock
      obtain rfl := Option.some.inj h
      refine Or.inl ⟨now, rfl, by omega, rfl, rfl, ?_⟩
      cases hok : (s.limiter.allow key limits now).1.ok with
      | true => exact s.kept_append ..
      | false => simp [kept]
  | refund i =>
    simp only [step] at h
    split at h
    · rename_i time hi
      obtain rfl := Option.some.inj h
      obtain ⟨hlt, hget⟩ := List.getElem?_eq_some_iff.mp hi
      have hsplit : s.admitted = s.admitted.take i ++ ⟨time, false⟩ :: s.admitted.drop (i + 1) := by
        rw [← hget, List.getElem_cons_drop, List.take_append_drop]
      refine Or.inr ⟨i, time,
        ((s.admitted.take i).filter (fun a => !a.refunded)).map Admission.time,
        ((s.admitted.drop (i + 1)).filter (fun a => !a.refunded)).map Admission.time,
        rfl, hi, rfl, rfl, ?_, ?_⟩
      · unfold kept
        conv_lhs => rw [hsplit]
        simp
      · simp [kept, List.set_eq_take_append_cons_drop, hlt]
    · cases h

/-! ## The invariant -/

/-- What holds in every state of a run whose refunds all meet `OwnHit`: the
messages kept are in order and within the caps, and every one that can still
count is stored. -/
structure Inv (limits : Limits) (key : K) (s : Sends K) : Prop where
  kept_sorted : s.kept.Pairwise (· ≤ ·)
  kept_le : ∀ a ∈ s.kept, a ≤ s.clock
  hits_sorted : (s.limiter.stored key).hits.Pairwise (· ≤ ·)
  hits_le : ∀ a ∈ (s.limiter.stored key).hits, a ≤ s.clock
  retains : Retains (s.clock - limits.keep) limits.keep (s.limiter.stored key) s.kept
  within : s.WithinCaps limits

namespace Inv
variable {limits : Limits} {key : K} {s s' : Sends K}

omit [DecidableEq K] in
theorem start (clock : Int) : Inv limits key (Sends.start clock) where
  kept_sorted := List.Pairwise.nil
  kept_le := fun a ha => by cases ha
  hits_sorted := List.Pairwise.nil
  hits_le := fun a ha => by cases ha
  retains := Retains.of_le (fun a ha => by cases ha)
  within := fun w _ hcap t => by
    simp only [Sends.start, kept, inWindow, List.filter_nil, List.map_nil, List.length_nil]
    omega

/-- A window of the messages kept so far and an admitted one more. -/
theorem within_admitted (hi : Inv limits key s) (hcap : limits.isNone = false) {now : Int}
    (hclock : s.clock ≤ now) (hok : (s.limiter.allow key limits now).1.ok = true)
    {w : Window} (hw : w ∈ limits.windows) (hpos : 0 < w.limit) (t : Int) :
    ((inWindow (s.kept ++ [now]) t w.size).length : Int) ≤ w.limit := by
  by_cases ht : now ≤ t
  · -- The window ends no earlier than the call, whose own window had room.
    have hsize := Limits.size_le_keep hw hpos
    have hretain := limits.keep_le_retain ((s.limiter.current key now).expires - now)
    have hkept : (s.kept.filter (fun a => decide (now - limits.keep < a))).Sublist
        (s.limiter.trimmed key limits now) :=
      (hi.retains.mono (by omega)).trimmed hi.hits_sorted (by omega) (by omega)
    have hroom := (MemoryLimiter.allow_ok_iff hcap hi.hits_sorted now).mp hok w hw
    simp only [Full, hpos, true_and, not_le, younger] at hroom
    have hyounger := (hkept.filter (fun a => decide (now - w.size < a))).length_le
    rw [Timeline.filter_above_filter (by omega)] at hyounger
    have hwindow : (inWindow s.kept t w.size).Sublist
        (s.kept.filter (fun a => decide (now - w.size < a))) := by
      refine List.monotone_filter_right _ fun a ha => ?_
      simp only [Bool.and_eq_true, decide_eq_true_eq] at ha ⊢
      omega
    have hone : (inWindow [now] t w.size).length ≤ 1 := List.length_filter_le _ _
    have hle := hwindow.length_le
    unfold inWindow at hle hone ⊢
    rw [List.filter_append, List.length_append]
    omega
  · have hout : inWindow [now] t w.size = [] := by simp [inWindow, ht]
    have hbefore := hi.within w hw hpos t
    unfold inWindow at hout hbefore ⊢
    rwa [List.filter_append, hout, List.append_nil]

theorem allow (hi : Inv limits key s) (hcap : limits.isNone = false) {now : Int}
    (hclock : s.clock ≤ now) (hnow : s'.clock = now)
    (hlimiter : s'.limiter = (s.limiter.allow key limits now).2)
    (hkept : s'.kept = s.kept ++ if (s.limiter.allow key limits now).1.ok then [now] else []) :
    Inv limits key s' := by
  have hr := hi.retains.mono (show s.clock - limits.keep ≤ now - limits.keep by omega)
  have hspare := limits.keep_le_retain ((s.limiter.current key now).expires - now)
  have hsorted := MemoryLimiter.trimmed_sorted hi.hits_sorted limits now
  have hle : ∀ a ∈ s.limiter.trimmed key limits now, a ≤ now := fun a ha =>
    Int.le_trans (hi.hits_le a ((s.limiter.trimmed_sublist key limits now).subset ha)) hclock
  have hbefore : ∀ a ∈ s.kept, a ≤ now := fun a ha => Int.le_trans (hi.kept_le a ha) hclock
  subst hnow
  rcases s.limiter.allow_stored key hcap s'.clock with ⟨hok, hstored⟩ | ⟨hok, hstored⟩
  · rw [hok, if_pos rfl] at hkept
    constructor
    · rw [hkept]
      exact List.pairwise_append.mpr ⟨hi.kept_sorted, List.pairwise_singleton _ _,
        fun a ha b hb => by rw [List.mem_singleton.mp hb]; exact hbefore a ha⟩
    · rw [hkept]
      simpa [or_imp, forall_and] using hbefore
    · rw [hlimiter, hstored]
      exact List.pairwise_append.mpr ⟨hsorted, List.pairwise_singleton _ _,
        fun a ha b hb => by rw [List.mem_singleton.mp hb]; exact hle a ha⟩
    · rw [hlimiter, hstored]
      simpa [or_imp, forall_and] using hle
    · rw [hlimiter, hkept]
      exact hr.allow_admitted hi.hits_sorted hcap (by omega) (by omega) hok (Int.le_refl _)
    · intro w hw hpos t
      rw [hkept]
      exact hi.within_admitted hcap hclock hok hw hpos t
  · rw [hok, if_neg Bool.false_ne_true, List.append_nil] at hkept
    constructor
    · rw [hkept]
      exact hi.kept_sorted
    · rw [hkept]
      exact hbefore
    · rw [hlimiter, hstored]
      exact hsorted
    · rw [hlimiter, hstored]
      exact hle
    · rw [hlimiter, hkept]
      exact hr.allow hi.hits_sorted hcap (by omega) (by omega)
    · intro w hw hpos t
      rw [hkept]
      exact hi.within w hw hpos t

theorem refund (hi : Inv limits key s) {time : Int} {before after : List Int}
    (hnow : s'.clock = s.clock) (hlimiter : s'.limiter = s.limiter.refund key)
    (hkept : s.kept = before ++ time :: after) (hkept' : s'.kept = before ++ after)
    (hown : ∀ h ∈ (s.limiter.stored key).hits.getLast?, time = h) : Inv limits key s' := by
  have hless : s'.kept.Sublist s.kept := by
    rw [hkept, hkept']
    exact (List.Sublist.refl before).append (List.sublist_cons_self time after)
  have hdrop := List.dropLast_sublist (s.limiter.stored key).hits
  constructor
  · exact hi.kept_sorted.sublist hless
  · exact fun a ha => hnow ▸ hi.kept_le a (hless.subset ha)
  · rw [hlimiter, MemoryLimiter.stored_refund]
    exact hi.hits_sorted.sublist hdrop
  · rw [hlimiter, MemoryLimiter.stored_refund]
    exact fun a ha => hnow ▸ hi.hits_le a (hdrop.subset ha)
  · rw [hlimiter, MemoryLimiter.stored_refund, hnow]
    have hsorted := hi.kept_sorted
    have hsub := hi.retains.kept
    rw [hkept] at hsorted hsub
    refine ⟨?_, fun a ha => hi.retains.lives a (hless.subset ha)⟩
    rw [hkept']
    exact Timeline.filter_above_dropLast hsorted hi.hits_sorted hsub hown
  · intro w hw hpos t
    have hle := (hless.filter (fun a => decide (t - w.size < a) && decide (a ≤ t))).length_le
    have hbefore := hi.within w hw hpos t
    unfold inWindow at hbefore ⊢
    omega

theorem step (hi : Inv limits key s) (hcap : limits.isNone = false) {a : Action}
    (hown : OwnHit key s a) (h : s.step limits key a = some s') : Inv limits key s' := by
  obtain ⟨now, -, hclock, hnow, hlimiter, hkept⟩ |
    ⟨i, time, before, after, rfl, hget, hnow, hlimiter, hkept, hkept'⟩ := step_cases h
  · exact hi.allow hcap hclock hnow hlimiter hkept
  · exact hi.refund hnow hlimiter hkept hkept' fun h hh => hown h hh _ hget

end Inv

/-- **The caps hold for the messages that were not refunded**, in every state of
every interleaving in which each refund finds no hit, or its own as the newest. -/
theorem reaches_withinCaps (limits : Limits) (key : K) (s : Sends K)
    (h : Reaches limits key (OwnHit key) s) : s.WithinCaps limits := by
  cases hcap : limits.isNone with
  | true =>
    intro w hw hpos
    have hcapped := limits.isNone_eq_false_iff.mpr ⟨w, hw, hpos⟩
    rw [hcap] at hcapped
    cases hcapped
  | false =>
    have hinv : Inv limits key s := by
      induction h with
      | start clock => exact Inv.start clock
      | step _ hown hstep ih => exact ih.step hcap hown hstep
    exact hinv.within

/-- A send that refunds before the next one is admitted leaves its room to it. -/
theorem reaches_withinCaps_own_refund : ∃ s : Sends Unit,
    s.admitted = [⟨0, true⟩, ⟨second, false⟩] ∧ s.WithinCaps ⟨1, 0, 0⟩ := by
  refine ⟨_, ?_, reaches_withinCaps ⟨1, 0, 0⟩ () _ <| .step (a := .allow second) (.step
    (a := .refund 0) (.step (a := .allow 0) (.start 0) trivial rfl) ?_ rfl) trivial rfl⟩
  · rfl
  · intro h hh a ha
    obtain rfl := Option.some.inj hh
    obtain rfl := Option.some.inj ha
    rfl

/-- The states along a list of actions. -/
theorem reaches_foldlM {limits : Limits} {key : K} {P : Sends K → Action → Prop}
    (hP : ∀ s a, P s a) (actions : List Action) {s s' : Sends K} (hs : Reaches limits key P s)
    (h : actions.foldlM (step limits key) s = some s') : Reaches limits key P s' := by
  induction actions generalizing s with
  | nil => exact Option.some.inj h ▸ hs
  | cons a actions ih =>
    rw [List.foldlM_cons] at h
    obtain ⟨s₁, hstep, hrest⟩ := Option.bind_eq_some_iff.mp h
    exact ih (.step hs (hP s a) hstep) hrest

/-- One message a minute: the first send refunds when its own hit no longer
counts, and takes the hit of the second with it. -/
def lateRefund : List Action :=
  [.allow 0, .allow (61 * second), .refund 0, .allow (63 * second)]

/-- The second and the third send are both kept, two seconds apart. -/
theorem lateRefund_exceeds : ∃ s : Sends Unit,
    lateRefund.foldlM (step ⟨1, 0, 0⟩ ()) (start 0) = some s ∧
      Reaches ⟨1, 0, 0⟩ () (fun _ _ => True) s ∧ ¬ s.WithinCaps ⟨1, 0, 0⟩ := by
  refine ⟨_, rfl, reaches_foldlM (fun _ _ => trivial) lateRefund (.start 0) rfl, ?_⟩
  intro h
  exact absurd (h ⟨1, minute⟩ (by decide) (by decide) (63 * second)) (by decide)

end Sends
end Sigillum
