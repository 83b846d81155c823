import Sigillum.ByteString
import Sigillum.Cache
import Sigillum.KeyedSemaphore
import Sigillum.Timeline

/-! # Failed logins

`FailureLimiter` of the SMTP proxy refuses a login once its user and address have used up
their failures of the last `Window`, without checking the password.  Attempts of one user
from one address run one at a time: `Begin` waits for the turn, counts the failures, and
the attempt keeps its turn until `done` has recorded the outcome.  Everything between two
locks may interleave with other attempts, so the actions here are the sections under `mu`
and the operations on the channel of a turn.

`Sound` is kept by every action.  It says above all that nothing recorded within the
window is missing from the cache (`complete`), and that an attempt which was let in still
has a failure to spend (`unspent`), since nobody else has its turn.
-/
namespace Sigillum.FailureLimiter
open Bytes KeyedSemaphore

def maxFailureKeys : Nat := 100000

/-- `FailureLimiter`, with a limit: without one, `Begin` lets every attempt in. -/
structure Limiter where
  window : Int
  perUserIP : Nat
  perUserIP_pos : 0 < perUserIP
  /-- The `lru.Cache` of `hits`. -/
  cache : Cache maxFailureKeys Bytes (List Int)

def userIPKey (username ip : Bytes) : Bytes := ip ++ 0 :: username

/-- How far an attempt got. -/
inductive Stage where
  /-- `Begin` waits for the turn. -/
  | queued
  /-- It has the turn, and goes on to count the failures. -/
  | turn
  /-- There were too many, and it is about to free the turn. -/
  | blocked
  /-- `Begin` has returned `done`. -/
  | running
  /-- `done` has recorded the outcome, and is about to free the turn. -/
  | settled
  /-- The turn is free, or was not waited for any longer, and `leave` is next; in `done` or
  in `Begin`. -/
  | leaving (inDone : Bool)
  | over
  deriving DecidableEq, Repr

namespace Stage

/-- What the channel and the count of the turn know of it. -/
def phase : Stage → Phase
  | .queued => .waiting
  | .turn | .blocked | .running | .settled => .holding
  | .leaving _ => .leaving
  | .over => .gone

/-- `Begin` has counted the attempt, and not returned. -/
def isWaiting : Stage → Bool
  | .queued | .turn | .blocked | .leaving false => true
  | _ => false

/-- `Begin` has let the attempt in, and its `done` has not returned. -/
def isRunning : Stage → Bool
  | .running | .settled | .leaving true => true
  | _ => false

/-- `Begin` has let the attempt in, and its turn is not free again. -/
def hasBegun : Stage → Bool
  | .running | .settled => true
  | _ => false

end Stage

/-- `busy`, how far each attempt got, and what was done with `hits`; besides, the last time the
clock was read and when failures of each key were ever recorded. -/
structure State where
  busy : KeyedSemaphore.State Bytes
  stages : List Stage
  hits : Cache.History Bytes (List Int)
  clock : Int
  failures : Bytes → List Int

def State.start (clock : Int) : State := ⟨.start, [], [], clock, fun _ => []⟩

inductive Action where
  /-- The locked start of `Begin`. -/
  | enter (username ip : Bytes)
  /-- `turn.ch <- struct{}{}`. -/
  | send (i : Nat)
  /-- `<-ctx.Done()`. -/
  | ctxDone (i : Nat)
  /-- The section of `Begin` that counts the failures. -/
  | count (i : Nat) (now : Int)
  /-- The start of `done`, up to `release`. -/
  | done (i : Nat) (failed : Bool) (now : Int)
  /-- `<-turn.ch`. -/
  | receive (i : Nat)
  /-- `leave`. -/
  | leave (i : Nat)
  deriving DecidableEq, Repr

/-- The key of a `Begin`. -/
def Action.key? : Action → Option Bytes
  | .enter username ip => some (userIPKey username ip)
  | _ => none

namespace Limiter
variable (f : Limiter)

/-- `countLocked`. -/
def countLocked (hits : Cache.History Bytes (List Int)) (key : Bytes) (now : Int) :
    Nat × Cache.History Bytes (List Int) :=
  match f.cache.get hits key with
  | (none, hits) => (0, hits)
  | (some ts, hits) =>
    match ts.dropWhile fun t => decide (t ≤ now - f.window) with
    | [] => (0, .remove key :: hits)
    | t :: ts' =>
      ((t :: ts').length,
        if (t :: ts').length < ts.length then .add key (t :: ts') :: hits else hits)

/-- The section of `done` that records a failure. -/
def record (s : State) (key : Bytes) (now : Int) : State :=
  let (ts, hits) := f.cache.get s.hits key
  { s with
    hits := .add key (ts.getD [] ++ [now]) :: hits
    clock := now
    failures := Function.update s.failures key (s.failures key ++ [now]) }

/-- An operation on a turn, after which the attempt is at a stage. -/
def operate (s : State) (i : Nat) (action : KeyedSemaphore.Action Bytes) (stage : Stage) :
    Option State := do
  let busy ← KeyedSemaphore.step 1 s.busy action
  some { s with busy, stages := s.stages.set i stage }

/-- One action, if it is possible; the clock never goes back. -/
def step (s : State) : Action → Option State
  | .enter username ip => do
    let busy ← KeyedSemaphore.step 1 s.busy (.enter (userIPKey username ip))
    some { s with busy, stages := s.stages ++ [.queued] }
  | .send i =>
    match s.stages[i]? with
    | some .queued => operate s i (.take i) .turn
    | _ => none
  | .ctxDone i =>
    match s.stages[i]? with
    | some .queued => operate s i (.cancel i) (.leaving false)
    | _ => none
  | .count i now =>
    match s.stages[i]?, s.busy.callers[i]? with
    | some .turn, some c =>
      if s.clock ≤ now then
        let (n, hits) := f.countLocked s.hits c.key now
        some
          { s with
            hits, clock := now
            stages := s.stages.set i (if f.perUserIP ≤ n then .blocked else .running) }
      else none
    | _, _ => none
  | .done i failed now =>
    match s.stages[i]?, s.busy.callers[i]? with
    | some .running, some c =>
      if s.clock ≤ now then
        let s' := if failed then f.record s c.key now else s
        some { s' with stages := s.stages.set i .settled }
      else none
    | _, _ => none
  | .receive i =>
    match s.stages[i]? with
    | some .blocked => operate s i (.giveBack i) (.leaving false)
    | some .settled => operate s i (.giveBack i) (.leaving true)
    | _ => none
  | .leave i =>
    match s.stages[i]? with
    | some (.leaving _) => operate s i (.leave i) .over
    | _ => none

end Limiter

/-! ## What an action does -/

/-- Everything an action can do: an attempt is added, or operates on its turn, or counts,
or is done. -/
inductive Stepped (f : Limiter) (s : State) : Action → State → Prop
  | enter {username ip : Bytes} {busy : KeyedSemaphore.State Bytes}
    (hbusy : KeyedSemaphore.step 1 s.busy (.enter (userIPKey username ip)) = some busy) :
    Stepped f s (.enter username ip) { s with busy, stages := s.stages ++ [.queued] }
  | operate {a : Action} {i : Nat} {action : KeyedSemaphore.Action Bytes} {stage : Stage}
    {busy : KeyedSemaphore.State Bytes} (hbusy : KeyedSemaphore.step 1 s.busy action = some busy)
    (hmoves : action.moves = some (i, stage.phase)) (hstage : stage ≠ .running) :
    Stepped f s a { s with busy, stages := s.stages.set i stage }
  | count {i : Nat} {now : Int} {c : KeyedSemaphore.Caller Bytes} (hi : s.stages[i]? = some .turn)
    (hc : s.busy.callers[i]? = some c) (hclock : s.clock ≤ now) :
    Stepped f s (.count i now)
      { s with
        hits := (f.countLocked s.hits c.key now).2, clock := now
        stages := s.stages.set i
          (if f.perUserIP ≤ (f.countLocked s.hits c.key now).1 then .blocked else .running) }
  | done {i : Nat} {now : Int} {c : KeyedSemaphore.Caller Bytes}
    (hi : s.stages[i]? = some .running) (hc : s.busy.callers[i]? = some c)
    (hclock : s.clock ≤ now) :
    Stepped f s (.done i false now) { s with stages := s.stages.set i .settled }
  | failed {i : Nat} {now : Int} {c : KeyedSemaphore.Caller Bytes}
    (hi : s.stages[i]? = some .running) (hc : s.busy.callers[i]? = some c)
    (hclock : s.clock ≤ now) :
    Stepped f s (.done i true now)
      { f.record s c.key now with stages := s.stages.set i .settled }

section Steps
variable {f : Limiter} {s s' : State} {a : Action}

theorem stepped_of_operate {i : Nat} {action : KeyedSemaphore.Action Bytes} {stage : Stage}
    (h : Limiter.operate s i action stage = some s')
    (hmoves : action.moves = some (i, stage.phase)) (hstage : stage ≠ .running) :
    Stepped f s a s' := by
  obtain ⟨busy, hbusy, h⟩ := Option.bind_eq_some_iff.mp h
  obtain rfl := Option.some.inj h
  exact .operate hbusy hmoves hstage

theorem stepped_of_step (h : f.step s a = some s') : Stepped f s a s' := by
  cases a with
  | enter username ip =>
    obtain ⟨busy, hbusy, h⟩ := Option.bind_eq_some_iff.mp h
    obtain rfl := Option.some.inj h
    exact .enter hbusy
  | send i =>
    simp only [Limiter.step] at h
    split at h
    · exact stepped_of_operate h rfl (by decide)
    · cases h
  | ctxDone i =>
    simp only [Limiter.step] at h
    split at h
    · exact stepped_of_operate h rfl (by decide)
    · cases h
  | count i now =>
    simp only [Limiter.step] at h
    split at h
    · rename_i c hi hc
      split at h
      · rename_i hclock
        obtain rfl := Option.some.inj h
        exact .count hi hc hclock
      · cases h
    · cases h
  | done i failed now =>
    simp only [Limiter.step] at h
    split at h
    · rename_i c hi hc
      split at h
      · rename_i hclock
        obtain rfl := Option.some.inj h
        cases failed with
        | false => exact .done hi hc hclock
        | true => exact .failed hi hc hclock
      · cases h
    · cases h
  | receive i =>
    simp only [Limiter.step] at h
    split at h
    · exact stepped_of_operate h rfl (by decide)
    · exact stepped_of_operate h rfl (by decide)
    · cases h
  | leave i =>
    simp only [Limiter.step] at h
    split at h
    · exact stepped_of_operate h rfl (by decide)
    · cases h

end Steps

/-! ## The cache of failures -/

/-- What was stored of a key. -/
def stored (hits : Cache.History Bytes (List Int)) (key : Bytes) : List Int :=
  (Cache.History.stored hits key).getD []

section Cache
variable {hits : Cache.History Bytes (List Int)} {keys : List Bytes} {key : Bytes}

theorem stored_add (ts : List Int) (k : Bytes) :
    stored (.add key ts :: hits) k = if k = key then ts else stored hits k := by
  unfold stored
  rw [Cache.History.stored]
  split <;> rfl

theorem stored_remove (k : Bytes) :
    stored (.remove key :: hits) k = if k = key then [] else stored hits k := by
  unfold stored
  rw [Cache.History.stored]
  split <;> rfl

/-- What the cache has of a key, while there are few. -/
theorem getD_find (f : Limiter) (hsub : hits.keys ⊆ keys)
    (hfew : keys.dedup.length < maxFailureKeys) (key : Bytes) :
    (f.cache.find hits key).getD [] = stored hits key := by
  rw [f.cache.find_of_subset hsub (Nat.le_of_lt hfew)]
  rfl

/-- **`countLocked`**: the failures inside the window are counted, and the others forgotten. -/
theorem countLocked_spec (f : Limiter) (hsub : hits.keys ⊆ keys)
    (hfew : keys.dedup.length < maxFailureKeys) (hkey : key ∈ keys) (now : Int)
    (hsorted : (stored hits key).Pairwise (· ≤ ·)) :
    (f.countLocked hits key now).2.keys ⊆ keys ∧
      (f.countLocked hits key now).1 =
        ((stored hits key).filter fun t => decide (now - f.window < t)).length ∧
      ∀ k, stored (f.countLocked hits key now).2 k =
        if k = key then (stored hits key).filter fun t => decide (now - f.window < t)
        else stored hits k := by
  have hfind := getD_find f hsub hfew key
  rw [← Timeline.dropWhile_le hsorted]
  unfold Limiter.countLocked
  split
  · rename_i hits' heq
    obtain ⟨hnone, rfl⟩ := Prod.mk.inj heq
    rw [hnone] at hfind
    refine ⟨hsub, by simp [← hfind], fun k => ?_⟩
    split
    · rename_i hk
      rw [hk, ← hfind]
      exact hfind.symm
    · rfl
  · rename_i ts hits' heq
    obtain ⟨hsome, rfl⟩ := Prod.mk.inj heq
    rw [hsome] at hfind
    rw [← show ts = stored hits key from hfind]
    split
    · rename_i hold
      refine ⟨hsub, by rw [hold]; rfl, fun k => ?_⟩
      rw [stored_remove, hold]
      rfl
    · rename_i t ts' hkept
      rw [hkept]
      split
      · refine ⟨List.cons_subset.mpr ⟨hkey, hsub⟩, rfl, fun k => ?_⟩
        rw [stored_add]
        rfl
      · -- nothing was too old
        rename_i hall
        have hsame : t :: ts' = ts := by
          rw [← hkept] at hall ⊢
          exact (List.dropWhile_sublist _).eq_of_length_le (by omega)
        refine ⟨hsub, rfl, fun k => ?_⟩
        rw [hsame]
        split
        · rename_i hk
          rw [hk]
          exact hfind.symm
        · rfl

end Cache

/-! ## The invariant -/

/-- **What every action keeps**, for the keys of an interleaving. -/
structure Sound (f : Limiter) (keys : List Bytes) (s : State) : Prop where
  balanced : Balanced 1 s.busy
  phases : s.stages.map Stage.phase = s.busy.callers.map KeyedSemaphore.Caller.phase
  among : ∀ c ∈ s.busy.callers, c.key ∈ keys
  keyed : s.hits.keys ⊆ keys
  few : keys.dedup.length < maxFailureKeys
  sorted : ∀ k, (s.failures k).Pairwise (· ≤ ·)
  past : ∀ k, ∀ t ∈ s.failures k, t ≤ s.clock
  sublist : ∀ k, (stored s.hits k).Sublist (s.failures k)
  complete : ∀ k cut, s.clock - f.window ≤ cut →
    (s.failures k).filter (fun t => decide (cut < t)) =
      (stored s.hits k).filter (fun t => decide (cut < t))
  unspent : ∀ (i : Nat) (c : KeyedSemaphore.Caller Bytes), s.stages[i]? = some .running →
    s.busy.callers[i]? = some c →
    ((s.failures c.key).filter fun t => decide (s.clock - f.window < t)).length < f.perUserIP
  bounded : ∀ k t, ((s.failures k).filter fun u =>
    decide (t - f.window < u ∧ u ≤ t)).length ≤ f.perUserIP

section Sound
variable {f : Limiter} {keys : List Bytes} {s s' : State}

theorem sound_start (hfew : keys.dedup.length < maxFailureKeys) (clock : Int) :
    Sound f keys (.start clock) where
  balanced := balanced_start
  phases := rfl
  among := nofun
  keyed := List.nil_subset _
  few := hfew
  sorted _ := .nil
  past _ := nofun
  sublist _ := .refl _
  complete _ _ _ := rfl
  unspent := nofun
  bounded _ _ := Nat.zero_le _

/-- Fewer failures lie above a later cutoff. -/
theorem length_filter_le (c c' : Int) (h : c ≤ c') (ts : List Int) :
    (ts.filter fun t => decide (c' < t)).length ≤ (ts.filter fun t => decide (c < t)).length := by
  apply List.Sublist.length_le
  apply List.monotone_filter_right
  intro t ht
  simp only [decide_eq_true_eq] at ht ⊢
  omega

/-- The phase of an attempt, from how far it got. -/
theorem Sound.phase_eq (h : Sound f keys s) {i : Nat} {stage : Stage}
    {c : KeyedSemaphore.Caller Bytes}
    (hi : s.stages[i]? = some stage) (hc : s.busy.callers[i]? = some c) :
    c.phase = stage.phase := by
  have hphase := congrArg (fun l => l[i]?) h.phases
  simp only [List.getElem?_map, hi, hc, Option.map_some, Option.some.injEq] at hphase
  exact hphase.symm

/-- An attempt that goes on within its phase. -/
theorem Sound.phases_set (h : Sound f keys s) {i : Nat} {stage stage' : Stage}
    (hi : s.stages[i]? = some stage) (hphase : stage'.phase = stage.phase) :
    (s.stages.set i stage').map Stage.phase = s.busy.callers.map KeyedSemaphore.Caller.phase := by
  obtain ⟨hlt, rfl⟩ := List.getElem?_eq_some_iff.mp hi
  rw [List.map_set, hphase, ← h.phases, ← List.map_set, List.set_getElem_self]

/-- Attempts other than one that goes on, and is not running then. -/
theorem getElem?_of_set_running {stages : List Stage} {i j : Nat} {stage : Stage}
    (hstage : stage ≠ .running) (hj : (stages.set i stage)[j]? = some .running) :
    i ≠ j ∧ stages[j]? = some .running := by
  rw [List.getElem?_set] at hj
  split at hj
  · split at hj
    · exact absurd (Option.some.inj hj) hstage
    · cases hj
  · exact ⟨by assumption, hj⟩

theorem Sound.enter (h : Sound f keys s) {key : Bytes} {busy : KeyedSemaphore.State Bytes}
    (hbusy : KeyedSemaphore.step 1 s.busy (.enter key) = some busy) (hkey : key ∈ keys) :
    Sound f keys { s with busy, stages := s.stages ++ [.queued] } := by
  obtain ⟨slot, hcallers⟩ := callers_enter hbusy
  have hlen : s.stages.length = s.busy.callers.length := by
    simpa using congrArg List.length h.phases
  refine { h with
    balanced := h.balanced.step hbusy
    phases := by simp [hcallers, h.phases, Stage.phase]
    among := fun c hc => ?_
    unspent := fun i c hi hc => ?_ }
  · rw [hcallers] at hc
    rcases List.mem_append.mp hc with hc | hc
    · exact h.among c hc
    · rw [List.mem_singleton.mp hc]
      exact hkey
  · rw [hcallers] at hc
    rw [List.getElem?_append] at hi hc
    rw [← hlen] at hc
    split at hi
    · rename_i hlt
      rw [if_pos hlt] at hc
      exact h.unspent i c hi hc
    · have := List.mem_of_getElem? hi
      simp at this

theorem Sound.operate (h : Sound f keys s) {i : Nat} {action : KeyedSemaphore.Action Bytes}
    {stage : Stage} {busy : KeyedSemaphore.State Bytes}
    (hbusy : KeyedSemaphore.step 1 s.busy action = some busy)
    (hmoves : action.moves = some (i, stage.phase)) (hstage : stage ≠ .running) :
    Sound f keys { s with busy, stages := s.stages.set i stage } := by
  obtain ⟨c, hc, hcallers⟩ := callers_move hbusy hmoves
  refine { h with
    balanced := h.balanced.step hbusy
    phases := by rw [hcallers, List.map_set, List.map_set, h.phases]
    among := fun d hd => ?_
    unspent := fun j d hj hd => ?_ }
  · rw [hcallers] at hd
    rcases List.mem_or_eq_of_mem_set hd with hd | rfl
    · exact h.among d hd
    · exact h.among c (List.mem_of_getElem? hc)
  · obtain ⟨hne, hj⟩ := getElem?_of_set_running hstage hj
    rw [hcallers, List.getElem?_set_ne hne] at hd
    exact h.unspent j d hj hd

/-- An attempt that runs leaves room for its failure, whenever that comes. -/
theorem Sound.unspent_later (h : Sound f keys s) {i : Nat} {now : Int}
    {c : KeyedSemaphore.Caller Bytes} (hi : s.stages[i]? = some .running)
    (hc : s.busy.callers[i]? = some c) (hclock : s.clock ≤ now) :
    ((s.failures c.key).filter fun t => decide (now - f.window < t)).length < f.perUserIP := by
  have hle := length_filter_le (s.clock - f.window) (now - f.window) (by omega) (s.failures c.key)
  exact Nat.lt_of_le_of_lt hle (h.unspent i c hi hc)

theorem Sound.count (h : Sound f keys s) {i : Nat} {now : Int} {c : KeyedSemaphore.Caller Bytes}
    (hi : s.stages[i]? = some .turn) (hc : s.busy.callers[i]? = some c) (hclock : s.clock ≤ now) :
    Sound f keys
      { s with
        hits := (f.countLocked s.hits c.key now).2, clock := now
        stages := s.stages.set i
          (if f.perUserIP ≤ (f.countLocked s.hits c.key now).1 then .blocked else .running) } := by
  have hkey := h.among c (List.mem_of_getElem? hc)
  obtain ⟨hkeyed, hcount, hstored⟩ := countLocked_spec f h.keyed h.few hkey now
    ((h.sorted c.key).sublist (h.sublist c.key))
  refine { h with
    phases := h.phases_set hi (by split <;> rfl)
    keyed := hkeyed
    past := fun k t ht => (h.past k t ht).trans hclock
    sublist := fun k => ?_
    complete := fun k cut hcut => ?_
    unspent := fun j d hj hd => ?_ }
  · rw [hstored]
    split
    · rename_i hk
      rw [hk]
      exact List.filter_sublist.trans (h.sublist c.key)
    · exact h.sublist k
  · simp only at hcut
    rw [hstored, h.complete k cut (by omega)]
    split
    · rename_i hk
      rw [hk, Timeline.filter_above_filter hcut]
    · rfl
  · by_cases hij : i = j
    · -- the attempt itself, which was let in
      subst hij
      obtain rfl := Option.some.inj (hc.symm.trans hd)
      simp only
      rw [h.complete _ _ (by omega), ← hcount]
      rw [List.getElem?_set_self (List.getElem?_eq_some_iff.mp hi).1] at hj
      split at hj
      · cases hj
      · omega
    · rw [List.getElem?_set_ne hij] at hj
      exact h.unspent_later hj hd hclock

theorem Sound.done (h : Sound f keys s) {i : Nat} (hi : s.stages[i]? = some .running) :
    Sound f keys { s with stages := s.stages.set i .settled } :=
  { h with
    phases := h.phases_set hi rfl
    unspent := fun j d hj hd => h.unspent j d (getElem?_of_set_running (by decide) hj).2 hd }

/-- A failure more, after all others, where those of the window left room for one. -/
theorem window_concat {ts : List Int} {limit : Nat} {window now : Int}
    (hroom : (ts.filter fun t => decide (now - window < t)).length < limit)
    (hbounded : ∀ t, (ts.filter fun u => decide (t - window < u ∧ u ≤ t)).length ≤ limit)
    (t : Int) :
    ((ts ++ [now]).filter fun u => decide (t - window < u ∧ u ≤ t)).length ≤ limit := by
  rw [List.filter_append, List.length_append]
  by_cases ht : now ≤ t
  · -- those of the window that ends at `t` are above the cutoff at `now`
    have hle : (ts.filter fun u => decide (t - window < u ∧ u ≤ t)).length ≤
        (ts.filter fun u => decide (now - window < u)).length := by
      apply List.Sublist.length_le
      apply List.monotone_filter_right
      intro u hu
      simp only [decide_eq_true_eq] at hu ⊢
      omega
    have hone := List.length_filter_le (fun u => decide (t - window < u ∧ u ≤ t)) [now]
    rw [List.length_singleton] at hone
    omega
  · rw [List.filter_cons_of_neg (by simp only [decide_eq_true_eq]; omega)]
    exact hbounded t

/-- A failure is recorded behind those of its key, in the cache and in all there were. -/
theorem Sound.stored_record (h : Sound f keys s) (key : Bytes) (now : Int) (k : Bytes) :
    stored (f.record s key now).hits k =
      if k = key then stored s.hits key ++ [now] else stored s.hits k := by
  refine (stored_add ((f.cache.find s.hits key).getD [] ++ [now]) k).trans ?_
  rw [getD_find f h.keyed h.few]
  rfl

theorem failures_record (f : Limiter) (s : State) (key : Bytes) (now : Int) (k : Bytes) :
    (f.record s key now).failures k =
      if k = key then s.failures key ++ [now] else s.failures k := by
  simp [Limiter.record, Function.update_apply]

theorem Sound.failed (h : Sound f keys s) {i : Nat} {now : Int} {c : KeyedSemaphore.Caller Bytes}
    (hi : s.stages[i]? = some .running) (hc : s.busy.callers[i]? = some c)
    (hclock : s.clock ≤ now) :
    Sound f keys { f.record s c.key now with stages := s.stages.set i .settled } := by
  have hkey := h.among c (List.mem_of_getElem? hc)
  have hstored := h.stored_record c.key now
  have hfailures := failures_record f s c.key now
  have hpast : ∀ k, ∀ t ∈ s.failures k, t ≤ now := fun k t ht => (h.past k t ht).trans hclock
  refine ⟨h.balanced, h.phases_set hi rfl, h.among, List.cons_subset.mpr ⟨hkey, h.keyed⟩,
    h.few, fun k => ?_, fun k t ht => ?_, fun k => ?_, fun k cut hcut => ?_,
    fun j d hj hd => ?_, fun k t => ?_⟩
  · rw [hfailures]
    split
    · refine List.pairwise_append.mpr ⟨h.sorted _, List.pairwise_singleton _ _, fun t ht u hu => ?_⟩
      rw [List.mem_singleton.mp hu]
      exact hpast _ t ht
    · exact h.sorted k
  · rw [hfailures] at ht
    split at ht
    · rcases List.mem_append.mp ht with ht | ht
      · exact hpast _ t ht
      · exact le_of_eq (List.mem_singleton.mp ht)
    · exact hpast k t ht
  · rw [hstored, hfailures]
    split
    · exact (h.sublist c.key).append (.refl _)
    · exact h.sublist k
  · have hcut' : s.clock - f.window ≤ cut := by
      have : now - f.window ≤ cut := hcut
      omega
    rw [hstored, hfailures]
    split
    · rw [List.filter_append, List.filter_append, h.complete _ cut hcut']
    · exact h.complete k cut hcut'
  · -- nobody else of the key is running
    obtain ⟨hne, hj⟩ := getElem?_of_set_running (by decide) hj
    have hother : d.key ≠ c.key := fun hk => hne
      (h.balanced.holding_unique hc hd hk (h.phase_eq hi hc) (h.phase_eq hj hd))
    rw [hfailures, if_neg hother]
    exact h.unspent_later hj hd hclock
  · rw [hfailures]
    split
    · exact window_concat (h.unspent_later hi hc hclock) (h.bounded c.key) t
    · exact h.bounded k t

/-- **Every action keeps it.** -/
theorem Sound.step {a : Action} (h : Sound f keys s) (hkeys : ∀ k ∈ a.key?, k ∈ keys)
    (hstep : f.step s a = some s') : Sound f keys s' := by
  cases stepped_of_step hstep with
  | enter hbusy => exact h.enter hbusy (hkeys _ rfl)
  | operate hbusy hmoves hstage => exact h.operate hbusy hmoves hstage
  | count hi hc hclock => exact h.count hi hc hclock
  | done hi _ _ => exact h.done hi
  | failed hi hc hclock => exact h.failed hi hc hclock

/-- **Every interleaving keeps it**, with fewer keys than the cache has room for. -/
theorem sound_run {clock : Int} {actions : List Action}
    (hrun : Machine.run f.step (.start clock) actions = some s)
    (hfew : (actions.filterMap Action.key?).dedup.length < maxFailureKeys) :
    Sound f (actions.filterMap Action.key?) s := by
  refine Machine.run_keeps
    (I := fun taken t => (∀ a ∈ taken, a ∈ actions) → Sound f (actions.filterMap Action.key?) t)
    hrun (fun _ => sound_start hfew clock) (fun taken t a t' ih hstep hsub => ?_) fun _ ha => ha
  have hmem : a ∈ actions := hsub a (by simp)
  refine (ih fun b hb => hsub b (List.mem_append_left _ hb)).step (fun k hk => ?_) hstep
  exact List.mem_filterMap.mpr ⟨a, hmem, hk⟩

end Sound

/-- The attempts of a key at a stage. -/
def State.at (s : State) (k : Bytes) (i : Nat) (stage : Stage) : Prop :=
  s.stages[i]? = some stage ∧ ∃ c, s.busy.callers[i]? = some c ∧ c.key = k

/-- **The throttle holds under concurrency.**  However attempts interleave: at most one
attempt of a key has begun and not freed its turn; at most `PerUserIP` failures of a key are
recorded in any window; and `busy` has a key exactly while an attempt of it waits in `Begin`
or runs until its `done` returns. -/
theorem failures_throttled {f : Limiter} {clock : Int} {actions : List Action} {s : State}
    (hrun : Machine.run f.step (.start clock) actions = some s)
    (hfew : (actions.filterMap Action.key?).dedup.length < maxFailureKeys) (k : Bytes) :
    (∀ i j stage stage', s.at k i stage → s.at k j stage' → stage.hasBegun = true →
        stage'.hasBegun = true → i = j) ∧
      (∀ t, ((s.failures k).filter fun u =>
        decide (t - f.window < u ∧ u ≤ t)).length ≤ f.perUserIP) ∧
      (s.busy.entry k ≠ none ↔
        ∃ i stage, s.at k i stage ∧ (stage.isWaiting = true ∨ stage.isRunning = true)) := by
  have h := sound_run hrun hfew
  refine ⟨?_, h.bounded k, ?_⟩
  · rintro i j stage stage' ⟨hi, c, hc, rfl⟩ ⟨hj, d, hd, hkey⟩ hstage hstage'
    have hphase : ∀ stage : Stage, stage.hasBegun = true → stage.phase = .holding := by
      intro stage h
      cases stage <;> first | rfl | cases h
    exact h.balanced.holding_unique hc hd hkey
      ((h.phase_eq hi hc).trans (hphase _ hstage)) ((h.phase_eq hj hd).trans (hphase _ hstage'))
  · -- an attempt is under way as long as it is counted
    have hphase : ∀ stage : Stage,
        (stage.isWaiting = true ∨ stage.isRunning = true) ↔ stage.phase ≠ .gone := by
      intro stage
      cases stage with
      | leaving inDone => cases inDone <;> decide
      | _ => decide
    have hlen : s.stages.length = s.busy.callers.length := by
      simpa using congrArg List.length h.phases
    rw [h.balanced.entry_ne_none_iff, KeyedSemaphore.State.counted, List.countP_pos_iff]
    constructor
    · rintro ⟨c, hc, hcount⟩
      obtain ⟨hkey, hlive⟩ := of_decide_eq_true hcount
      obtain ⟨i, hlt, rfl⟩ := List.mem_iff_getElem.mp hc
      have hi : s.stages[i]? = some s.stages[i] := List.getElem?_eq_getElem (by omega)
      have hci := List.getElem?_eq_getElem hlt
      refine ⟨i, s.stages[i], ⟨hi, _, hci, hkey⟩, (hphase _).mpr ?_⟩
      rwa [← h.phase_eq hi hci]
    · rintro ⟨i, stage, ⟨hi, c, hc, hkey⟩, hstage⟩
      refine ⟨c, List.mem_of_getElem? hc, decide_eq_true ⟨hkey, ?_⟩⟩
      rw [h.phase_eq hi hc]
      exact (hphase stage).mp hstage

/-- One failure each ten seconds, and a second attempt one second after a failure. -/
theorem failures_throttled_blocked :
    ∃ s, Machine.run (Limiter.step ⟨10, 1, Nat.one_pos, .roomy⟩) (.start 0)
        [.enter (lit "app") (lit "::1"), .send 0, .count 0 5, .done 0 true 6, .receive 0, .leave 0,
          .enter (lit "app") (lit "::1"), .send 1, .count 1 7] = some s ∧
      s.stages = [.over, .blocked] ∧
      ((s.failures (userIPKey (lit "app") (lit "::1"))).filter fun u =>
        decide (7 - 10 < u ∧ u ≤ 7)).length ≤ 1 :=
  ⟨_, rfl, by decide +kernel, (@failures_throttled ⟨10, 1, Nat.one_pos, .roomy⟩ 0
    [.enter (lit "app") (lit "::1"), .send 0, .count 0 5, .done 0 true 6, .receive 0, .leave 0,
      .enter (lit "app") (lit "::1"), .send 1, .count 1 7] _ rfl (by decide +kernel)
    (userIPKey (lit "app") (lit "::1"))).2.1 7⟩

end Sigillum.FailureLimiter
