import Sigillum.TokenCache

/-! # How long a token is still valid

`Token` is to return a token that is valid for at least `minValidity`.  A call looks at the
cached token before it returns it, and so does one that finds a fetch under way.  A call
that has to wait for the fetch returns what comes of it without a look: how long such a
token is valid is up to the provider and to how long the call was held up.

So a step hands out a token that is not valid for long enough only as a waiting call
receives one (`handsOut_cases`).  The fetch a call waits for is the first one to complete
since the call was made (`Waits`), which makes it a matter of the actions of a run: what
lifetime the source gives with the token, and how long the call is then held up
(`InTime`).
-/
namespace Sigillum
open Duration

namespace OAuth
namespace Tokens

/-- The call `n` returns the token in this step. -/
def HandsOut (s : Tokens) (a : Action) (n : Nat) (tok : Token) : Prop :=
  ∃ s', s.step a = some s' ∧ s.callers n ≠ some (.returned tok none) ∧
    s'.callers n = some (.returned tok none)

/-- The step lets the call `n`, which waits, take the token its fetch came to. -/
def Receives (s : Tokens) (a : Action) (n : Nat) (tok : Token) : Prop :=
  a = .receive n ∧ ∃ f, s.callers n = some (.waiting f) ∧
    s.fetches[f]? = some (.closed (.ok tok))

/-- The time that passes in these actions. -/
def elapsed : List Action → Nat
  | [] => 0
  | .tick d :: actions => d + elapsed actions
  | _ :: actions => elapsed actions

/-- A fetch completes. -/
def completes : Action → Bool
  | .complete _ _ => true
  | _ => false

/-- The call `n` was made, and no fetch has completed since. -/
def Awaits (n : Nat) (upTo : List Action) : Prop :=
  ∃ called waited, upTo = called ++ .token n :: waited ∧ ∀ a ∈ waited, completes a = false

/-- Each token is still valid, as the source gives it, for more than `minValidity` and the
time until a call that awaits it takes it. -/
def InTime (clock : Nat) (actions : List Action) : Prop :=
  ∀ upTo f tok held n after,
    actions = upTo ++ .complete f (.ok tok) :: (held ++ .receive n :: after) → Awaits n upTo →
    minValidity + elapsed held < tok.expiry - (clock + elapsed upTo)

section Steps
variable {s s' : Tokens} {a : Action} {n : Nat} {tok : Token}

/-- **How a token is handed out**: from the cache, or from a fetch to a call that waits. -/
theorem handsOut_cases (hinv : Inv s) (h : s.HandsOut a n tok) :
    (a = .token n ∧ s.cache.usable s.clock = true ∧ tok = s.cache.tok) ∨
      s.Receives a n tok := by
  obtain ⟨s', hstep, hnew, hreturned⟩ := h
  -- the call that returns is the one whose state the step sets
  have hupdate : ∀ (m : Nat) (c : Caller),
      Function.update s.callers m (some c) n = some (.returned tok none) →
        n = m ∧ c = .returned tok none := by
    intro m c hm
    by_cases hne : n = m
    · subst hne
      rw [Function.update_self] at hm
      exact ⟨rfl, Option.some.inj hm⟩
    · rw [Function.update_of_ne hne] at hm
      exact absurd hm hnew
  cases stepped_of_step hstep with
  | asked | started =>
    obtain ⟨rfl, hc⟩ := hupdate _ _ hreturned
    exact .inl ⟨rfl, usable_of_token hinv hc⟩
  | @received m f res hwaiting hclosed =>
    obtain ⟨rfl, hc⟩ := hupdate m _ hreturned
    cases res with
    | ok tok' =>
      obtain ⟨rfl, -⟩ := Caller.returned.inj hc
      exact .inr ⟨rfl, f, hwaiting, hclosed⟩
    | error err => cases hc
  | cancelled => cases (hupdate _ _ hreturned).2
  | tick d => exact absurd hreturned hnew
  | completed | closed | kept tok | dropped => exact absurd hreturned hnew

theorem Receives.handsOut (h : s.Receives a n tok) : s.HandsOut a n tok := by
  obtain ⟨rfl, f, hwaiting, hclosed⟩ := h
  refine ⟨{ s with callers := Function.update s.callers n (some (.returned tok none)) }, ?_, ?_,
    Function.update_self ..⟩
  · rw [step, hwaiting]
    dsimp only
    rw [hclosed]
    rfl
  · rw [hwaiting]
    exact fun h => by cases Option.some.inj h

/-- Whom a step leaves waiting: who waited before, or whom it told to. -/
theorem waiting_step {f : Nat} (hstep : s.step a = some s')
    (h : s'.callers n = some (.waiting f)) : s.callers n = some (.waiting f) ∨
      a = .token n ∧ (s.cache.token s.clock s.fetches.length).2.2 = .waiting f := by
  rcases callers_step hstep with ⟨hcallers, -⟩ | ⟨m, c, hcallers, hmove⟩
  · exact .inl (hcallers ▸ h)
  · rw [hcallers, Function.update_apply] at h
    split at h
    · rename_i heq
      subst heq
      obtain rfl := Option.some.inj h
      rcases hmove with ⟨ha, -, hc⟩ | ⟨-, -, -, ⟨res, -, hc⟩ | ⟨err, hc⟩⟩
      · exact .inr ⟨ha, hc.symm⟩
      · cases res <;> cases hc
      · cases hc
    · exact .inl h

/-- A fetch is in flight until it completes. -/
theorem inflight_step {f : Nat} (hinv : Inv s) (hstep : s.step a = some s')
    (h : s.cache.inflight = some f) :
    completes a = false ∧ s'.cache.inflight = some f ∨ s'.result f ≠ none := by
  cases stepped_of_step hstep with
  | tick d => exact .inl ⟨rfl, h⟩
  | asked | closed | received | cancelled | kept tok | dropped => exact .inl ⟨rfl, h⟩
  | started _ _ hnone =>
    rw [hnone] at h
    cases h
  | completed res hrunning =>
    have hlt := (List.getElem?_eq_some_iff.mp hrunning).1
    rw [hinv.inflight, h] at hrunning
    obtain rfl := Option.some.inj hrunning
    exact .inr (by simp [result, hlt, Phase.result])

theorem clock_step (hstep : s.step a = some s') : s'.clock = s.clock + elapsed [a] := by
  cases stepped_of_step hstep <;> rfl

end Steps

/-! ## Who waits for what -/

theorem elapsed_append (l l' : List Action) : elapsed (l ++ l') = elapsed l + elapsed l' := by
  induction l with
  | nil => exact (Nat.zero_add _).symm
  | cons a l ih =>
    cases a with
    | tick d => rw [List.cons_append, elapsed, elapsed, ih, Nat.add_assoc]
    | token n | complete f res | close f | receive n | cancel n err | invalidate tok => exact ih

theorem Awaits.concat {n : Nat} {upTo : List Action} {a : Action} (h : Awaits n upTo)
    (ha : completes a = false) : Awaits n (upTo ++ [a]) := by
  obtain ⟨called, waited, rfl, hwaited⟩ := h
  refine ⟨called, waited ++ [a], by simp, fun b hb => ?_⟩
  rcases List.mem_append.mp hb with hb | hb
  · exact hwaited b hb
  · rw [List.mem_singleton.mp hb, ha]

/-- What the actions `done` say of the calls that wait after them: whose fetch is still to
complete, and whose has. -/
structure Waits (clock : Nat) (done : List Action) (s : Tokens) : Prop where
  clock : s.clock = clock + elapsed done
  calls : ∀ n, done.count (.token n) = if s.callers n = none then 0 else 1
  running : ∀ n f, s.callers n = some (.waiting f) → s.result f = none →
    s.cache.inflight = some f ∧ Awaits n done
  completed : ∀ n f res, s.callers n = some (.waiting f) → s.result f = some res →
    ∃ upTo held, done = upTo ++ .complete f res :: held ∧ Awaits n upTo

section Waits
variable {clock : Nat} {done : List Action} {s s' : Tokens} {a : Action}

theorem Waits.start (clock : Nat) : Waits clock [] (.start clock) where
  clock := rfl
  calls _ := rfl
  running n f h := by cases h
  completed n f res h := by cases h

/-- Each call is made once. -/
theorem Waits.calls_step (h : Waits clock done s) (hstep : s.step a = some s') (n : Nat) :
    (done ++ [a]).count (.token n) = if s'.callers n = none then 0 else 1 := by
  rw [List.count_append, List.count_singleton, h.calls n]
  rcases callers_step hstep with ⟨hcallers, ha⟩ | ⟨m, c, hcallers, hmove⟩
  · rw [hcallers, if_neg (c := (a == .token n) = true) (by simpa using ha n), Nat.add_zero]
  · rw [hcallers, Function.update_apply]
    rcases hmove with ⟨rfl, hnone, -⟩ | ⟨ha, f, hwaiting, -⟩
    · by_cases hn : n = m
      · subst hn
        simp [hnone]
      · simp [hn, Ne.symm hn]
    · rw [if_neg (c := (a == .token n) = true) (by simpa using ha n), Nat.add_zero]
      by_cases hn : n = m
      · subst hn
        simp [hwaiting]
      · simp [hn]

/-- A call that is told to wait finds a fetch in flight, or starts one. -/
theorem inflight_of_token_waiting {n f : Nat} (hstep : s.step (.token n) = some s')
    (h : (s.cache.token s.clock s.fetches.length).2.2 = .waiting f) :
    s'.cache.inflight = some f := by
  have hcaller := s.cache.token_caller s.clock s.fetches.length
  split at hcaller
  · rw [hcaller] at h
    cases h
  · rcases hcaller with ⟨-, hreturned⟩ | ⟨g, hinflight, hwaiting⟩
    · rw [hreturned] at h
      cases h
    · rw [hwaiting] at h
      obtain rfl := Caller.waiting.inj h
      cases stepped_of_step hstep with
      | asked _ hcache | started _ hcache => rwa [hcache] at hinflight

theorem Waits.running_step (hinv : Inv s) (h : Waits clock done s) (hstep : s.step a = some s')
    {n f : Nat} (hwaiting : s'.callers n = some (.waiting f)) (hnone : s'.result f = none) :
    s'.cache.inflight = some f ∧ Awaits n (done ++ [a]) := by
  rcases waiting_step hstep hwaiting with hold | ⟨rfl, htold⟩
  · have hres : s.result f = none := by
      rcases result_step hstep with hsame | ⟨g, res, -, -, hset⟩
      · rw [← hsame, hnone]
      · rw [hset] at hnone
        split at hnone
        · cases hnone
        · exact hnone
    obtain ⟨hinflight, hawaits⟩ := h.running n f hold hres
    rcases inflight_step hinv hstep hinflight with ⟨ha, hinflight'⟩ | hsome
    · exact ⟨hinflight', hawaits.concat ha⟩
    · exact absurd hnone hsome
  · exact ⟨inflight_of_token_waiting hstep htold, done, [], rfl, by simp⟩

theorem Waits.completed_step (hinv : Inv s) (h : Waits clock done s) (hstep : s.step a = some s')
    {n f : Nat} {res : Except FetchError Token} (hwaiting : s'.callers n = some (.waiting f))
    (hsome : s'.result f = some res) :
    ∃ upTo held, done ++ [a] = upTo ++ .complete f res :: held ∧ Awaits n upTo := by
  have hlater : ∀ {res}, s.callers n = some (.waiting f) → s.result f = some res →
      ∃ upTo held, done ++ [a] = upTo ++ .complete f res :: held ∧ Awaits n upTo := by
    intro res hold hres
    obtain ⟨upTo, held, rfl, hawaits⟩ := h.completed n f res hold hres
    exact ⟨upTo, held ++ [a], by simp, hawaits⟩
  rcases waiting_step hstep hwaiting with hold | ⟨rfl, htold⟩
  · rcases result_step hstep with hsame | ⟨g, res', rfl, hnone, hset⟩
    · exact hlater hold (hsame f ▸ hsome)
    · rw [hset] at hsome
      split at hsome
      · -- the fetch completes in this step, and the call has awaited it up to here
        rename_i heq
        subst heq
        obtain rfl := Option.some.inj hsome
        exact ⟨done, [], rfl, (h.running n f hold hnone).2⟩
      · exact hlater hold hsome
  · rcases result_step hstep with hsame | ⟨g, res', ha, -, -⟩
    · rw [hsame, result_of_token_waiting hinv htold] at hsome
      cases hsome
    · cases ha

theorem Waits.step (hinv : Inv s) (h : Waits clock done s) (hstep : s.step a = some s') :
    Waits clock (done ++ [a]) s' where
  clock := by rw [clock_step hstep, elapsed_append, h.clock, Nat.add_assoc]
  calls := h.calls_step hstep
  running _ _ := h.running_step hinv hstep
  completed _ _ _ := h.completed_step hinv hstep

end Waits

theorem Waits.run {clock : Nat} {done : List Action} {s : Tokens}
    (h : Machine.run Tokens.step (.start clock) done = some s) : Inv s ∧ Waits clock done s :=
  Machine.run_keeps (I := fun done s => Inv s ∧ Waits clock done s) h
    ⟨Inv.start clock, Waits.start clock⟩
    fun _ _ _ _ hkept hstep => ⟨hkept.1.step hstep, hkept.2.step hkept.1 hstep⟩

/-- The fetch a call awaits is told by the actions. -/
theorem Awaits.unique {n f g : Nat} {res res' : Except FetchError Token}
    {upTo held upTo' held' : List Action}
    (honce : (upTo ++ .complete f res :: held).count (.token n) ≤ 1)
    (h : Awaits n upTo) (h' : Awaits n upTo')
    (heq : upTo ++ .complete f res :: held = upTo' ++ .complete g res' :: held') : res = res' := by
  obtain ⟨called, waited, rfl, hwaited⟩ := h
  obtain ⟨called', waited', rfl, hwaited'⟩ := h'
  simp only [List.append_assoc, List.cons_append] at honce heq
  rw [List.count_append, List.count_cons_self] at honce
  obtain ⟨-, -, hrest⟩ := (List.append_cons_inj_of_notMem
    (List.count_eq_zero.mp (by omega)) (List.count_eq_zero.mp (by omega))).mp heq
  -- both go on to the first fetch that completes
  have hfirst : ∀ {w l : List Action} {c : Action}, (∀ a ∈ w, completes a = false) →
      completes c = true → (w ++ c :: l).find? completes = some c := by
    intro w l c hw hc
    rw [List.find?_append, List.find?_eq_none.mpr fun a ha => by simp [hw a ha]]
    simp [hc]
  have hfind := congrArg (List.find? completes) hrest
  rw [hfirst hwaited rfl, hfirst hwaited' rfl] at hfind
  exact (Action.complete.inj (Option.some.inj hfind)).2

end Tokens

/-- **When the tokens handed out are valid for long enough.**  In a whole run, every token
that is handed out is valid for more than `minValidity` exactly if the lifetime a token
comes with, as the source gives it, is longer than that by more than the time for which
each call that awaits it is then held up. -/
theorem handed_out_valid_iff (clock : Nat) (actions : List Action) (s : Tokens)
    (hs : Machine.run Tokens.step (.start clock) actions = some s) :
    (∀ before a after s₀ n tok, actions = before ++ a :: after →
      Machine.run Tokens.step (.start clock) before = some s₀ → s₀.HandsOut a n tok →
      s₀.clock + minValidity < tok.expiry) ↔ Tokens.InTime clock actions := by
  constructor
  · intro hvalid upTo f tok held n after hactions hawaits
    have hsplit : actions = (upTo ++ .complete f (.ok tok) :: held) ++ .receive n :: after := by
      rw [hactions, List.append_assoc, List.cons_append]
    rw [hsplit] at hs
    obtain ⟨s₀, s₁, hbefore, hreceive, -⟩ := Machine.run_append_cons.mp hs
    obtain ⟨-, hwaits⟩ := Tokens.Waits.run hbefore
    obtain ⟨g, res, hwaiting, hclosed⟩ : ∃ g res, s₀.callers n = some (.waiting g) ∧
        s₀.fetches[g]? = some (.closed res) := by
      cases Tokens.stepped_of_step hreceive with
      | received hwaiting hclosed => exact ⟨_, _, hwaiting, hclosed⟩
    obtain ⟨upTo', held', heq, hawaits'⟩ :=
      hwaits.completed n g res hwaiting (by rw [Tokens.result, hclosed]; rfl)
    have honce := hwaits.calls n
    rw [hwaiting, if_neg (Option.some_ne_none _)] at honce
    obtain rfl := hawaits.unique (Nat.le_of_eq honce) hawaits' heq
    have hlong := hvalid _ _ after s₀ n tok hsplit hbefore
      (Tokens.Receives.handsOut ⟨rfl, g, hwaiting, hclosed⟩)
    rw [hwaits.clock, Tokens.elapsed_append] at hlong
    simp only [Tokens.elapsed, Int.natCast_add] at hlong
    omega
  · intro htime before a after s₀ n tok hactions hbefore hhands
    obtain ⟨hinv, hwaits⟩ := Tokens.Waits.run hbefore
    rcases Tokens.handsOut_cases hinv hhands with ⟨-, husable, rfl⟩ | ⟨rfl, f, hwaiting, hclosed⟩
    · rw [Cache.usable, Bool.and_eq_true, decide_eq_true_eq, decide_eq_true_eq] at husable
      exact husable.2
    · obtain ⟨upTo, held, rfl, hawaits⟩ :=
        hwaits.completed n f (.ok tok) hwaiting (by rw [Tokens.result, hclosed]; rfl)
      have hlong := htime upTo f tok held n after (by simpa using hactions) hawaits
      rw [hwaits.clock, Tokens.elapsed_append]
      simp only [Tokens.elapsed, Int.natCast_add]
      omega

/-- One call starts a fetch and another joins it; the token is given for `lifetime`, and
the second call is held up for five seconds. -/
def waitingActions (lifetime : Int) : List Action :=
  [.token 0, .tick 1000000000, .token 1, .complete 0 (.ok ⟨Bytes.lit "a", lifetime⟩), .close 0,
    .receive 0, .tick 5000000000, .receive 1]

theorem handed_out_valid_iff_hour :
    ∃ s, Machine.run Tokens.step (.start 0) (waitingActions hour) = some s ∧
      s.callers 1 = some (.returned ⟨Bytes.lit "a", hour⟩ none) ∧
      ∀ before a after s₀ n tok, waitingActions hour = before ++ a :: after →
        Machine.run Tokens.step (.start 0) before = some s₀ → s₀.HandsOut a n tok →
        s₀.clock + minValidity < tok.expiry := by
  refine ⟨_, rfl, rfl, (handed_out_valid_iff 0 (waitingActions hour) _ rfl).mpr ?_⟩
  intro upTo f tok held n after hactions hawaits
  have hmem : .complete f (.ok tok) ∈ waitingActions hour :=
    hactions ▸ List.mem_append_right _ List.mem_cons_self
  obtain ⟨rfl, rfl⟩ : f = 0 ∧ tok = ⟨Bytes.lit "a", hour⟩ := by simpa [waitingActions] using hmem
  have hsplit : waitingActions hour = [Action.token 0, .tick 1000000000, .token 1] ++
      .complete 0 (.ok ⟨Bytes.lit "a", hour⟩) ::
        [Action.close 0, .receive 0, .tick 5000000000, .receive 1] := rfl
  obtain ⟨rfl, -, hheld⟩ := (List.append_cons_inj_of_notMem (by decide) (by decide)).mp
    (hsplit.symm.trans hactions)
  have helapsed := congrArg Tokens.elapsed hheld
  rw [Tokens.elapsed_append] at helapsed
  simp only [Tokens.elapsed, minValidity, second, hour, minute] at helapsed ⊢
  omega

/-- A token that lives for ten seconds is handed out. -/
theorem tenSeconds_handed_out :
    ∃ s, Machine.run Tokens.step (.start 0) [.token 0,
        .complete 0 (.ok ⟨Bytes.lit "a", 10 * second⟩), .close 0] = some s ∧
      s.HandsOut (.receive 0) 0 ⟨Bytes.lit "a", 10 * second⟩ ∧
      ¬ s.clock + minValidity < 10 * second :=
  ⟨_, rfl, ⟨_, rfl, by decide, rfl⟩, by decide⟩

end OAuth
end Sigillum
