import Mathlib.Algebra.Group.Int.Defs
import Mathlib.Data.Int.Order.Basic
import Mathlib.Logic.Function.Basic
import Mathlib.Order.Lattice
import Sigillum.ByteString
import Sigillum.Machine
import Sigillum.MemoryLimiter

/-! # The cache of OAuth tokens

`internal/oauth`: `Cache` hands out the token of a source until shortly before it
expires, and fetches the next one once for all callers.  Each function that takes
the mutex is one function here, of the fields and of the clock read under it.

`Tokens` is the cache at work: any number of calls of `Token`, the goroutines of
`run`, and `Invalidate`, interleaved at the locked sections, with `close(f.done)`
and the return of a caller that waits as steps of their own.
-/
namespace Sigillum
open Duration

namespace OAuth

def refreshMargin : Int := 5 * minute
def minValidity : Int := 30 * second
def failureBackoff : Int := 10 * second

structure Token where
  accessToken : Bytes
  expiry : Int
  deriving DecidableEq, Repr

/-- The zero `Token`. -/
def Token.zero : Token := ⟨[], 0⟩

/-- A failed token request, or any other error; the `RetryAfter` of the former. -/
structure FetchError where
  text : Bytes
  retryAfter : Option Int
  deriving DecidableEq, Repr

def retryAfterOf (err : FetchError) : Int := err.retryAfter.getD 0

/-- `Time.Sub`: the difference of two instants, cut to what a `Duration` holds. -/
def timeSub (a b : Int) : Int := max (-2 ^ 63) (min (2 ^ 63 - 1) (a - b))

/-- The fields under the mutex; `inflight` is the number of the fetch. -/
structure Cache where
  tok : Token
  refreshAt : Int
  inflight : Option Nat
  failErr : Option FetchError
  failUntil : Int
  deriving DecidableEq, Repr

/-- Where a call of `Token` is: it waits for a fetch, or has returned. -/
inductive Caller where
  | waiting (f : Nat)
  | returned (tok : Token) (err : Option FetchError)
  deriving DecidableEq, Repr

namespace Cache

def new : Cache := ⟨.zero, 0, none, none, 0⟩

def usable (c : Cache) (now : Int) : Bool :=
  decide (c.tok.accessToken ≠ []) && decide (now + minValidity < c.tok.expiry)

/-- The locked section of `Token`: the fields after it, whether it starts a fetch,
which is to have the number `next`, and where it leaves the caller. -/
def token (c : Cache) (now : Int) (next : Nat) : Cache × Bool × Caller :=
  if c.usable now && decide (now < c.refreshAt) then (c, false, .returned c.tok none)
  else if now < c.failUntil then
    (c, false, if c.usable now then .returned c.tok none else .returned .zero c.failErr)
  else
    match c.inflight with
    | some f => (c, false, if c.usable now then .returned c.tok none else .waiting f)
    | none => ({ c with inflight := some next }, true,
        if c.usable now then .returned c.tok none else .waiting next)

/-- `Invalidate`. -/
def invalidate (c : Cache) (tok : Token) : Cache :=
  if tok.accessToken ≠ [] ∧ tok.accessToken = c.tok.accessToken then
    { c with tok := .zero, refreshAt := 0 }
  else c

/-- The locked section of `run`, after the source has answered. -/
def complete (c : Cache) (now : Int) : Except FetchError Token → Cache
  | .ok tok => { c with
      tok := tok
      refreshAt := tok.expiry - min refreshMargin ((timeSub tok.expiry now).tdiv 2)
      failErr := none
      failUntil := 0
      inflight := none }
  | .error err => { c with
      failErr := some err
      failUntil := now + max failureBackoff (retryAfterOf err)
      inflight := none }

/-- A caller returns the cached token while it is usable; otherwise it returns the
error of the last fetch, or waits for the one in flight. -/
theorem token_caller (c : Cache) (now : Int) (next : Nat) :
    if c.usable now then (c.token now next).2.2 = .returned c.tok none
    else now < c.failUntil ∧ (c.token now next).2.2 = .returned .zero c.failErr ∨
      ∃ f, (c.token now next).1.inflight = some f ∧ (c.token now next).2.2 = .waiting f := by
  by_cases husable : c.usable now = true
  · simp only [token, husable, if_true, Bool.true_and]
    cases c.inflight <;> split <;> first | rfl | split <;> rfl
  · simp only [token, husable, Bool.false_and]
    by_cases hfail : now < c.failUntil
    · simp [hfail]
    · cases hinflight : c.inflight <;> simp [hfail, hinflight]

/-- A call that starts a fetch finds none in flight, and no failure to wait out; any
other call changes nothing. -/
theorem token_cache (c : Cache) (now : Int) (next : Nat) :
    if (c.token now next).2.1 then
      (c.token now next).1 = { c with inflight := some next } ∧ c.inflight = none ∧
        c.failUntil ≤ now
    else (c.token now next).1 = c := by
  unfold token
  split
  · rfl
  · split
    · rfl
    · rename_i hfail
      cases hinflight : c.inflight with
      | some f => rfl
      | none => exact ⟨rfl, rfl, not_lt.mp hfail⟩

end Cache

/-! ## The cache at work -/

/-- Where a fetch is: `run` is before its locked section, behind it, or has closed `done`. -/
inductive Phase where
  | running
  | completed (res : Except FetchError Token)
  | closed (res : Except FetchError Token)
  deriving DecidableEq, Repr

def Phase.result : Phase → Option (Except FetchError Token)
  | .running => none
  | .completed res | .closed res => some res

/-- The cache, the fetches by number, the calls of `Token` by number, and the clock. -/
structure Tokens where
  clock : Nat
  cache : Cache
  fetches : List Phase
  callers : Nat → Option Caller

inductive Action where
  | tick (d : Nat)
  | token (n : Nat)
  | complete (f : Nat) (res : Except FetchError Token)
  | close (f : Nat)
  | receive (n : Nat)
  | cancel (n : Nat) (err : FetchError)
  | invalidate (tok : Token)
  deriving DecidableEq, Repr

namespace Tokens

def start (clock : Nat) : Tokens := ⟨clock, .new, [], fun _ => none⟩

/-- What a fetch came to, once its locked section is through. -/
def result (s : Tokens) (f : Nat) : Option (Except FetchError Token) :=
  s.fetches[f]?.bind Phase.result

/-- The return from a fetch that has closed `done`. -/
def received : Except FetchError Token → Caller
  | .ok tok => .returned tok none
  | .error err => .returned .zero (some err)

def step (s : Tokens) : Action → Option Tokens
  | .tick d => some { s with clock := s.clock + d }
  | .token n =>
    if s.callers n = none then
      let res := s.cache.token s.clock s.fetches.length
      some { s with
        cache := res.1
        fetches := if res.2.1 then s.fetches ++ [.running] else s.fetches
        callers := Function.update s.callers n (some res.2.2) }
    else none
  | .complete f res =>
    if s.fetches[f]? = some .running then
      some { s with
        cache := s.cache.complete s.clock res
        fetches := s.fetches.set f (.completed res) }
    else none
  | .close f =>
    match s.fetches[f]? with
    | some (.completed res) => some { s with fetches := s.fetches.set f (.closed res) }
    | _ => none
  | .receive n =>
    match s.callers n with
    | some (.waiting f) =>
      match s.fetches[f]? with
      | some (.closed res) =>
        some { s with callers := Function.update s.callers n (some (received res)) }
      | _ => none
    | _ => none
  | .cancel n err =>
    match s.callers n with
    | some (.waiting _) =>
      some { s with callers := Function.update s.callers n (some (.returned .zero (some err))) }
    | _ => none
  | .invalidate tok => some { s with cache := s.cache.invalidate tok }

/-- The caller `n` is left at `c`. -/
def left (s : Tokens) (n : Nat) (c : Caller) : Tokens :=
  { s with callers := Function.update s.callers n (some c) }

/-- What each action does.  A call of `Token` finds nothing to fetch, or starts a fetch. -/
inductive Stepped (s : Tokens) : Action → Tokens → Prop
  | tick (d : Nat) : Stepped s (.tick d) { s with clock := s.clock + d }
  | asked {n : Nat} (hnone : s.callers n = none)
    (hcache : (s.cache.token s.clock s.fetches.length).1 = s.cache) :
    Stepped s (.token n) (s.left n (s.cache.token s.clock s.fetches.length).2.2)
  | started {n : Nat} (hnone : s.callers n = none)
    (hcache : (s.cache.token s.clock s.fetches.length).1 =
      { s.cache with inflight := some s.fetches.length })
    (hinflight : s.cache.inflight = none) (hfail : s.cache.failUntil ≤ s.clock) :
    Stepped s (.token n) { s.left n (s.cache.token s.clock s.fetches.length).2.2 with
      cache := { s.cache with inflight := some s.fetches.length }
      fetches := s.fetches ++ [.running] }
  | completed {f : Nat} (res : Except FetchError Token) (hrunning : s.fetches[f]? = some .running) :
    Stepped s (.complete f res) { s with
      cache := s.cache.complete s.clock res
      fetches := s.fetches.set f (.completed res) }
  | closed {f : Nat} {res : Except FetchError Token}
    (hcompleted : s.fetches[f]? = some (.completed res)) :
    Stepped s (.close f) { s with fetches := s.fetches.set f (.closed res) }
  | received {n f : Nat} {res : Except FetchError Token}
    (hwaiting : s.callers n = some (.waiting f)) (hclosed : s.fetches[f]? = some (.closed res)) :
    Stepped s (.receive n) (s.left n (received res))
  | cancelled {n f : Nat} (err : FetchError) (hwaiting : s.callers n = some (.waiting f)) :
    Stepped s (.cancel n err) (s.left n (.returned .zero (some err)))
  | kept (tok : Token) : Stepped s (.invalidate tok) s
  | dropped {tok : Token} : Stepped s (.invalidate tok)
      { s with cache := { s.cache with tok := .zero, refreshAt := 0 } }

theorem stepped_of_step {s s' : Tokens} {a : Action} (h : s.step a = some s') :
    Stepped s a s' := by
  cases a with
  | tick d =>
    obtain rfl := Option.some.inj h
    exact .tick d
  | token n =>
    simp only [step] at h
    split at h
    · rename_i hnone
      obtain rfl := Option.some.inj h
      have hcache := s.cache.token_cache s.clock s.fetches.length
      split at hcache
      · rename_i hstarted
        obtain ⟨hcache, hinflight, hfail⟩ := hcache
        rw [hcache, if_pos hstarted]
        exact .started hnone hcache hinflight hfail
      · rename_i hnot
        rw [hcache, if_neg hnot]
        exact .asked hnone hcache
    · cases h
  | complete f res =>
    simp only [step] at h
    split at h
    · rename_i hrunning
      obtain rfl := Option.some.inj h
      exact .completed res hrunning
    · cases h
  | close f =>
    simp only [step] at h
    split at h
    · rename_i res hcompleted
      obtain rfl := Option.some.inj h
      exact .closed hcompleted
    · cases h
  | receive n =>
    simp only [step] at h
    split at h
    · rename_i f hwaiting
      split at h
      · rename_i res hclosed
        obtain rfl := Option.some.inj h
        exact .received hwaiting hclosed
      · cases h
    · cases h
  | cancel n err =>
    simp only [step] at h
    split at h
    · rename_i f hwaiting
      obtain rfl := Option.some.inj h
      exact .cancelled err hwaiting
    · cases h
  | invalidate tok =>
    obtain rfl := Option.some.inj h
    simp only [Cache.invalidate]
    split
    · exact .dropped
    · exact .kept tok

/-! ### One fetch at a time -/

/-- The fetch in flight is the one that runs, and a failure to wait out has an error. -/
structure Inv (s : Tokens) : Prop where
  inflight : ∀ f, s.fetches[f]? = some .running ↔ s.cache.inflight = some f
  failure : s.cache.failErr = none → s.cache.failUntil = 0

theorem Inv.start (clock : Nat) : Inv (.start clock) :=
  ⟨fun _ => by simp [Tokens.start, Cache.new], fun _ => rfl⟩

theorem Inv.step {s s' : Tokens} {a : Action} (h : Inv s) (hstep : s.step a = some s') :
    Inv s' := by
  cases stepped_of_step hstep with
  | tick d => exact ⟨h.inflight, h.failure⟩
  | asked | received | cancelled | kept tok | dropped => exact ⟨h.inflight, h.failure⟩
  | started _ _ hnone _ =>
    -- the fetch gets the next number, which nothing else is in flight under
    refine ⟨fun f => ?_, h.failure⟩
    have hold := h.inflight f
    rw [hnone] at hold
    simp only [List.getElem?_append, List.getElem?_singleton]
    split
    · rename_i hlt
      simp only [hold, reduceCtorEq, Option.some.injEq, false_iff]
      omega
    · simp only [Option.some.injEq]
      split
      · simp only [true_iff]
        omega
      · simp only [reduceCtorEq, false_iff]
        omega
  | @completed f res hrunning =>
    -- the fetch was the one in flight
    have hinflight := (h.inflight f).mp hrunning
    have hnone : (s.cache.complete s.clock res).inflight = none := by cases res <;> rfl
    refine ⟨fun g => ?_, fun hfail => ?_⟩
    · rw [hnone, List.getElem?_set]
      split
      · split <;> simp
      · rename_i hne
        rw [h.inflight g, hinflight]
        simpa using hne
    · cases res with
      | ok tok => rfl
      | error err => cases hfail
  | closed hcompleted =>
    refine ⟨fun g => ?_, h.failure⟩
    rw [← h.inflight g, List.getElem?_set]
    split
    · rename_i he
      rw [← he, hcompleted]
      split <;> simp
    · rfl

theorem Inv.run {s s' : Tokens} {actions : List Action} (h : Inv s)
    (hrun : Machine.run Tokens.step s actions = some s') : Inv s' :=
  Machine.run_keeps (I := fun _ => Inv) hrun h fun _ _ _ _ h hstep => h.step hstep

/-! ### After a failure -/

/-- Until `bound` nothing is in flight and the failure is remembered. -/
def BackedOff (bound : Int) (s : Tokens) : Prop :=
  bound ≤ s.clock ∨ s.cache.failUntil = bound ∧ s.cache.inflight = none

theorem BackedOff.step {bound : Int} {s s' : Tokens} {a : Action} (hinv : Inv s)
    (h : BackedOff bound s) (hstep : s.step a = some s') : BackedOff bound s' := by
  cases stepped_of_step hstep with
  | tick d =>
    refine h.imp_left fun hle => ?_
    simp only [Int.natCast_add]
    omega
  | asked | closed | received | cancelled | kept tok | dropped => exact h
  | started _ _ _ hfail =>
    exact .inl (h.elim id fun hback => hback.1 ▸ hfail)
  | completed res hrunning =>
    refine h.imp_right fun ⟨_, hnone⟩ => ?_
    rw [(hinv.inflight _).mp hrunning] at hnone
    cases hnone

/-- A step that starts a fetch comes after what a failure is remembered for. -/
theorem BackedOff.le_clock {bound : Int} {s s' : Tokens} {a : Action} (h : BackedOff bound s)
    (hstep : s.step a = some s') (hstarts : s.fetches.length < s'.fetches.length) :
    bound ≤ s.clock := by
  cases stepped_of_step hstep with
  | started _ _ _ hfail => exact h.elim id fun hback => hback.1 ▸ hfail
  | completed | closed => simp at hstarts
  | tick d => exact absurd hstarts (lt_irrefl _)
  | asked | received | cancelled | kept tok | dropped => exact absurd hstarts (lt_irrefl _)

theorem backs_off {s s₁ s₂ s₃ : Tokens} {f : Nat} {err : FetchError} {actions : List Action}
    {a : Action} (hinv : Inv s) (hfail : s.step (.complete f (.error err)) = some s₁)
    (hrun : Machine.run step s₁ actions = some s₂) (hstep : s₂.step a = some s₃)
    (hstarts : s₂.fetches.length < s₃.fetches.length) :
    s.clock + max failureBackoff (retryAfterOf err) ≤ s₂.clock := by
  have hinit : BackedOff (s.clock + max failureBackoff (retryAfterOf err)) s₁ := by
    cases stepped_of_step hfail
    exact .inr ⟨rfl, rfl⟩
  have hrest := Machine.run_keeps (I := fun _ s => Inv s ∧ BackedOff _ s) hrun
    ⟨hinv.step hfail, hinit⟩ fun _ _ _ _ h hstep => ⟨h.1.step hstep, h.2.step h.1 hstep⟩
  exact hrest.2.le_clock hstep hstarts

/-! ### While a token is usable -/

/-- A caller that has returned stays so. -/
theorem returned_step {s s' : Tokens} {a : Action} {n : Nat} {tok : Token}
    {err : Option FetchError} (h : s.callers n = some (.returned tok err))
    (hstep : s.step a = some s') : s'.callers n = some (.returned tok err) := by
  -- only callers that are new or wait are touched
  have hupdate : ∀ (m : Nat) (c : Caller),
      (s.callers m = none ∨ ∃ f, s.callers m = some (.waiting f)) →
      Function.update s.callers m (some c) n = some (.returned tok err) := by
    intro m c hm
    rw [Function.update_of_ne, h]
    rintro rfl
    rw [h] at hm
    simp at hm
  cases stepped_of_step hstep with
  | tick d => exact h
  | completed | closed | kept tok | dropped => exact h
  | asked hnone | started hnone => exact hupdate _ _ (.inl hnone)
  | received hwaiting | cancelled _ hwaiting => exact hupdate _ _ (.inr ⟨_, hwaiting⟩)

theorem usable_returned {s s₁ s₂ : Tokens} {n : Nat} {actions : List Action}
    (husable : s.cache.usable s.clock = true) (hcall : s.step (.token n) = some s₁)
    (hrun : Machine.run step s₁ actions = some s₂) :
    s₂.callers n = some (.returned s.cache.tok none) := by
  refine Machine.run_keeps (I := fun _ s' => s'.callers n = some (.returned s.cache.tok none))
    hrun ?_ fun _ _ _ _ h hstep => returned_step h hstep
  have hcaller := s.cache.token_caller s.clock s.fetches.length
  rw [if_pos husable] at hcaller
  cases stepped_of_step hcall with
  | asked | started => simp only [left, Function.update_self, hcaller]

/-! ### After `Invalidate` -/

/-- A fetch that produced the access token of `tok` completed. -/
def Refetched (tok : Token) (done : List Action) : Prop :=
  ∃ f tok', .complete f (.ok tok') ∈ done ∧ tok'.accessToken = tok.accessToken

theorem Refetched.concat {tok : Token} {done : List Action} (h : Refetched tok done)
    (a : Action) : Refetched tok (done ++ [a]) := by
  obtain ⟨f, tok', hmem, htok⟩ := h
  exact ⟨f, tok', List.mem_append_left _ hmem, htok⟩

section StepEffects
variable {s s' : Tokens} {a : Action}

/-- The cached token is kept, dropped, or the one a fetch just produced. -/
theorem tok_step (hstep : s.step a = some s') :
    s'.cache.tok = s.cache.tok ∨ s'.cache.tok = .zero ∨
      ∃ f tok, a = .complete f (.ok tok) ∧ s'.cache.tok = tok := by
  cases stepped_of_step hstep with
  | tick d => exact .inl rfl
  | asked | started | closed | received | cancelled | kept tok => exact .inl rfl
  | completed res =>
    cases res with
    | ok tok => exact .inr (.inr ⟨_, tok, rfl, rfl⟩)
    | error err => exact .inl rfl
  | dropped => exact .inr (.inl rfl)

/-- What fetches came to changes only as one completes. -/
theorem result_step (hstep : s.step a = some s') :
    (∀ g, s'.result g = s.result g) ∨ ∃ f res, a = .complete f res ∧ s.result f = none ∧
      ∀ g, s'.result g = if g = f then some res else s.result g := by
  cases stepped_of_step hstep with
  | tick d => exact .inl fun _ => rfl
  | asked | received | cancelled | kept tok | dropped => exact .inl fun _ => rfl
  | started =>
    refine .inl fun g => ?_
    rw [result, result, List.getElem?_append]
    split
    · rfl
    · rename_i hge
      rw [List.getElem?_eq_none (not_lt.mp hge), List.getElem?_singleton]
      split <;> rfl
  | @completed f res hrunning =>
    refine .inr ⟨f, res, rfl, by rw [result, hrunning]; rfl, fun g => ?_⟩
    have hlt := (List.getElem?_eq_some_iff.mp hrunning).1
    rw [result, List.getElem?_set]
    by_cases hg : f = g
    · subst hg
      simp [hlt, Phase.result]
    · simp [hg, Ne.symm hg, result]
  | @closed f res hcompleted =>
    have hlt := (List.getElem?_eq_some_iff.mp hcompleted).1
    refine .inl fun g => ?_
    rw [result, result, List.getElem?_set]
    by_cases hg : f = g
    · subst hg
      rw [hcompleted, if_pos rfl, if_pos hlt]
      rfl
    · rw [if_neg hg]

/-- One caller at a time moves: a new one through its locked section, or one that
waits to its return. -/
theorem callers_step (hstep : s.step a = some s') :
    s'.callers = s.callers ∧ (∀ n, a ≠ .token n) ∨
    ∃ n c, s'.callers = Function.update s.callers n (some c) ∧
      (a = .token n ∧ s.callers n = none ∧
          c = (s.cache.token s.clock s.fetches.length).2.2 ∨
        (∀ m, a ≠ .token m) ∧ ∃ f, s.callers n = some (.waiting f) ∧
          ((∃ res, s.result f = some res ∧ c = received res) ∨
            ∃ err, c = .returned .zero (some err))) := by
  cases stepped_of_step hstep with
  | tick d => exact .inl ⟨rfl, nofun⟩
  | completed | closed | kept tok | dropped => exact .inl ⟨rfl, nofun⟩
  | asked hnone | started hnone => exact .inr ⟨_, _, rfl, .inl ⟨rfl, hnone, rfl⟩⟩
  | received hwaiting hclosed =>
    refine .inr ⟨_, _, rfl, .inr ⟨nofun, _, hwaiting, .inl ⟨_, ?_, rfl⟩⟩⟩
    rw [result, hclosed]
    rfl
  | cancelled err hwaiting =>
    exact .inr ⟨_, _, rfl, .inr ⟨nofun, _, hwaiting, .inr ⟨err, rfl⟩⟩⟩

end StepEffects

/-- What holds since `tok` was invalidated in `s₀`, after the actions `done`. -/
structure Dropped (s₀ : Tokens) (tok : Token) (done : List Action) (s : Tokens) : Prop where
  results : ∀ f res, s₀.result f = some res → s.result f = some res
  earlier : ∀ n, s.callers n = none → s₀.callers n = none
  called : ∀ n, .token n ∈ done → s₀.callers n = none
  cached : s.cache.tok.accessToken = tok.accessToken → tok.accessToken ≠ [] → Refetched tok done
  fetched : ∀ f tok', s.result f = some (.ok tok') → s₀.result f = none →
    tok'.accessToken = tok.accessToken → Refetched tok done
  waiting : ∀ n f, s₀.callers n = none → s.callers n = some (.waiting f) → s₀.result f = none
  returned : ∀ n tok', s₀.callers n = none → s.callers n = some (.returned tok' none) →
    tok'.accessToken = tok.accessToken → Refetched tok done

theorem Dropped.init {s s₀ : Tokens} {tok : Token} (h : s.step (.invalidate tok) = some s₀) :
    Dropped s₀ tok [] s₀ where
  results _ _ h := h
  earlier _ h := h
  called _ h := absurd h List.not_mem_nil
  cached hsame hne := by
    obtain rfl := Option.some.inj h
    simp only [Cache.invalidate] at hsame
    split at hsame
    · exact absurd hsame.symm hne
    · rename_i hother
      exact absurd ⟨hne, hsame.symm⟩ hother
  fetched f tok' h h₀ := by rw [h₀] at h; cases h
  waiting n f h₀ h := by rw [h₀] at h; cases h
  returned n tok' h₀ h := by rw [h₀] at h; cases h

/-- Where the locked section of a call returns a token, the token is usable. -/
theorem usable_of_token {s : Tokens} {tok : Token} (hinv : Inv s)
    (h : (s.cache.token s.clock s.fetches.length).2.2 = .returned tok none) :
    s.cache.usable s.clock = true ∧ tok = s.cache.tok := by
  have hcaller := s.cache.token_caller s.clock s.fetches.length
  split at hcaller
  · rename_i husable
    rw [hcaller] at h
    exact ⟨husable, (Caller.returned.inj h).1.symm⟩
  · rcases hcaller with ⟨hfail, hreturned⟩ | ⟨f, -, hwaiting⟩
    · -- a failure to wait out has an error, so this is not a token
      rw [hreturned] at h
      rw [hinv.failure (Caller.returned.inj h).2] at hfail
      exact absurd hfail (not_lt.mpr (Int.natCast_nonneg _))
    · rw [hwaiting] at h
      cases h

/-- A fetch that a call is told to wait for runs, or is about to: it has no result yet. -/
theorem result_of_token_waiting {s : Tokens} {f : Nat} (hinv : Inv s)
    (h : (s.cache.token s.clock s.fetches.length).2.2 = .waiting f) : s.result f = none := by
  have hcaller := s.cache.token_caller s.clock s.fetches.length
  split at hcaller
  · rw [hcaller] at h
    cases h
  · rcases hcaller with ⟨-, hreturned⟩ | ⟨f', hinflight, hwaiting⟩
    · rw [hreturned] at h
      cases h
    · rw [hwaiting] at h
      obtain rfl := Caller.waiting.inj h
      have hcache := s.cache.token_cache s.clock s.fetches.length
      split at hcache
      · rw [hcache.1] at hinflight
        obtain rfl := Option.some.inj hinflight
        rw [result, List.getElem?_eq_none (le_refl _)]
        rfl
      · rw [hcache] at hinflight
        rw [result, (hinv.inflight f').mpr hinflight]
        rfl

section Dropped
variable {s₀ s s' : Tokens} {tok : Token} {done : List Action} {a : Action}

/-- Where a call that starts after `Invalidate` is left by its locked section. -/
theorem Dropped.caller (hinv : Inv s) (h : Dropped s₀ tok done s) :
    (∀ f, (s.cache.token s.clock s.fetches.length).2.2 = .waiting f → s₀.result f = none) ∧
    ∀ tok', (s.cache.token s.clock s.fetches.length).2.2 = .returned tok' none →
      tok'.accessToken = tok.accessToken → Refetched tok done := by
  refine ⟨fun f hwaiting => ?_, fun tok' hreturned hsame => ?_⟩
  · by_contra hsome
    obtain ⟨res, hres⟩ := Option.ne_none_iff_exists'.mp hsome
    have hnone := result_of_token_waiting hinv hwaiting
    rw [h.results f res hres] at hnone
    cases hnone
  · obtain ⟨husable, rfl⟩ := usable_of_token hinv hreturned
    refine h.cached hsame fun hempty => ?_
    simp [Cache.usable, hsame, hempty] at husable

theorem Dropped.results_step (h : Dropped s₀ tok done s) (hstep : s.step a = some s') (f : Nat)
    (res : Except FetchError Token) (hres : s₀.result f = some res) : s'.result f = some res := by
  have hold := h.results f res hres
  rcases result_step hstep with hsame | ⟨g, res', -, hnone, hset⟩
  · rw [hsame, hold]
  · rw [hset, if_neg, hold]
    rintro rfl
    rw [hnone] at hold
    cases hold

theorem Dropped.fetched_step (h : Dropped s₀ tok done s) (hstep : s.step a = some s') (f : Nat)
    (tok' : Token) (hf : s'.result f = some (.ok tok')) (h₀ : s₀.result f = none)
    (hsame : tok'.accessToken = tok.accessToken) : Refetched tok (done ++ [a]) := by
  rcases result_step hstep with hres | ⟨g, res, ha, -, hset⟩
  · rw [hres] at hf
    exact (h.fetched f tok' hf h₀ hsame).concat a
  · rw [hset] at hf
    split at hf
    · obtain rfl := Option.some.inj hf
      exact ⟨g, tok', ha ▸ List.mem_append_right _ List.mem_cons_self, hsame⟩
    · exact (h.fetched f tok' hf h₀ hsame).concat a

theorem Dropped.cached_step (h : Dropped s₀ tok done s) (hstep : s.step a = some s')
    (hsame : s'.cache.tok.accessToken = tok.accessToken) (hne : tok.accessToken ≠ []) :
    Refetched tok (done ++ [a]) := by
  rcases tok_step hstep with htok | htok | ⟨f, tok', ha, htok⟩
  · rw [htok] at hsame
    exact (h.cached hsame hne).concat a
  · rw [htok] at hsame
    exact absurd hsame.symm hne
  · rw [htok] at hsame
    exact ⟨f, tok', ha ▸ List.mem_append_right _ List.mem_cons_self, hsame⟩

theorem Dropped.step (hinv : Inv s) (h : Dropped s₀ tok done s) (hstep : s.step a = some s') :
    Dropped s₀ tok (done ++ [a]) s' := by
  have hresult := h.results_step hstep
  have hfetched := h.fetched_step hstep
  have hcached := h.cached_step hstep
  rcases callers_step hstep with ⟨hcallers, ha⟩ | ⟨n, c, hcallers, hmove⟩
  · refine ⟨hresult, ?_, fun n hn => ?_, hcached, hfetched, ?_, ?_⟩
    · rw [hcallers]
      exact h.earlier
    · rcases List.mem_append.mp hn with hold | hlast
      · exact h.called n hold
      · exact absurd (List.mem_singleton.mp hlast).symm (ha n)
    · rw [hcallers]
      exact h.waiting
    · rw [hcallers]
      exact fun n tok' h₀ hn hsame => (h.returned n tok' h₀ hn hsame).concat a
  · -- what becomes of the caller that moves
    have hmoved : s₀.callers n = none → (∀ f, c = .waiting f → s₀.result f = none) ∧
        ∀ tok', c = .returned tok' none → tok'.accessToken = tok.accessToken →
          Refetched tok (done ++ [a]) := by
      intro h₀
      rcases hmove with ⟨-, -, rfl⟩ | ⟨-, f, hwaiting, ⟨res, hres, rfl⟩ | ⟨err, rfl⟩⟩
      · obtain ⟨hwait, hreturn⟩ := h.caller hinv
        exact ⟨hwait, fun tok' hc hsame => (hreturn tok' hc hsame).concat a⟩
      · cases res with
        | error err => exact ⟨nofun, nofun⟩
        | ok tok'' =>
          refine ⟨nofun, fun tok' hc hsame => ?_⟩
          obtain ⟨rfl, -⟩ := Caller.returned.inj hc
          exact (h.fetched f tok'' hres (h.waiting n f h₀ hwaiting) hsame).concat a
      · exact ⟨nofun, nofun⟩
    refine ⟨hresult, fun m hm => ?_, fun m hm => ?_, hcached, hfetched, fun m f h₀ hm => ?_,
      fun m tok' h₀ hm hsame => ?_⟩
    · rw [hcallers, Function.update_apply] at hm
      split at hm
      · cases hm
      · exact h.earlier m hm
    · rcases List.mem_append.mp hm with hold | hlast
      · exact h.called m hold
      · rcases hmove with ⟨rfl, hnone, -⟩ | ⟨hno, -⟩
        · obtain rfl := Action.token.inj (List.mem_singleton.mp hlast)
          exact h.earlier m hnone
        · exact absurd (List.mem_singleton.mp hlast).symm (hno m)
    · rw [hcallers, Function.update_apply] at hm
      split at hm
      · rename_i he
        subst he
        exact (hmoved h₀).1 f (Option.some.inj hm)
      · exact h.waiting m f h₀ hm
    · rw [hcallers, Function.update_apply] at hm
      split at hm
      · rename_i he
        subst he
        exact (hmoved h₀).2 tok' (Option.some.inj hm) hsame
      · exact (h.returned m tok' h₀ hm hsame).concat a

end Dropped

theorem invalidated_refetched {s s₁ s₂ : Tokens} {tok tok' : Token} {actions : List Action}
    {n : Nat} (hinv : Inv s) (hdrop : s.step (.invalidate tok) = some s₁)
    (hrun : Machine.run step s₁ actions = some s₂) (hcall : .token n ∈ actions)
    (hreturned : s₂.callers n = some (.returned tok' none))
    (hsame : tok'.accessToken = tok.accessToken) : Refetched tok actions := by
  have hdropped := (Machine.run_keeps (I := fun done s => Inv s ∧ Dropped s₁ tok done s) hrun
    ⟨hinv.step hdrop, .init hdrop⟩
    fun _ _ _ _ h hstep => ⟨h.1.step hstep, h.2.step h.1 hstep⟩).2
  exact hdropped.returned n tok' (hdropped.called n hcall) hreturned hsame

end Tokens

/-- **The token cache is safe.**  In every interleaving of calls of `Token` and
`Invalidate` with the completion of fetches, from an empty cache:

* at most one fetch is in flight;
* after a fetch fails, no fetch starts before the backoff or its `Retry-After` is over;
* a call made while the cached token is usable returns it;
* `Invalidate` of another token than the cached one changes nothing;
* a call made after `Invalidate` returns the access token that was dropped only if
  a fetch that completed in between or since produced it again. -/
theorem token_cache_safe (clock : Nat) (actions : List Action) (s : Tokens)
    (hs : Machine.run Tokens.step (.start clock) actions = some s) :
    (∀ f g : Nat, s.fetches[f]? = some .running → s.fetches[g]? = some .running → f = g) ∧
    (∀ f err s₁ later s₂ a s₃, s.step (.complete f (.error err)) = some s₁ →
      Machine.run Tokens.step s₁ later = some s₂ → s₂.step a = some s₃ →
      s₂.fetches.length < s₃.fetches.length →
      s.clock + max failureBackoff (retryAfterOf err) ≤ s₂.clock) ∧
    (∀ n s₁ later s₂, s.cache.usable s.clock = true → s.step (.token n) = some s₁ →
      Machine.run Tokens.step s₁ later = some s₂ →
      s₂.callers n = some (.returned s.cache.tok none)) ∧
    (∀ tok, tok.accessToken ≠ s.cache.tok.accessToken →
      s.step (.invalidate tok) = some s) ∧
    (∀ tok s₁ later s₂ n tok', s.step (.invalidate tok) = some s₁ →
      Machine.run Tokens.step s₁ later = some s₂ → .token n ∈ later →
      s₂.callers n = some (.returned tok' none) → tok'.accessToken = tok.accessToken →
      ∃ f tok'', .complete f (.ok tok'') ∈ later ∧ tok''.accessToken = tok.accessToken) := by
  have hinv : Tokens.Inv s := (Tokens.Inv.start clock).run hs
  refine ⟨fun f g hf hg => ?_, fun f err s₁ later s₂ a s₃ => Tokens.backs_off hinv,
    fun n s₁ later s₂ => Tokens.usable_returned, fun tok hne => ?_,
    fun tok s₁ later s₂ n tok' => Tokens.invalidated_refetched hinv⟩
  · rw [hinv.inflight] at hf hg
    exact Option.some.inj (hf.symm.trans hg)
  · rw [Tokens.step, Cache.invalidate, if_neg fun h => hne h.2]

/-- A first call fetches a token that lives for an hour, and waits for it. -/
def fetchedActions : List Action :=
  [.token 0, .complete 0 (.ok ⟨Bytes.lit "a", hour⟩), .close 0, .receive 0]

theorem token_cache_safe_fetchedActions :
    ∃ s s₁, Machine.run Tokens.step (.start 0) fetchedActions = some s ∧
      s.step (.token 1) = some s₁ ∧
      s₁.callers 1 = some (.returned ⟨Bytes.lit "a", hour⟩ none) :=
  ⟨_, _, rfl, rfl, (token_cache_safe 0 fetchedActions _ rfl).2.2.1 1 _ [] _
    (by decide +kernel) rfl rfl⟩

end OAuth
end Sigillum
