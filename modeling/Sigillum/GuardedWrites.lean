import Sigillum.CredentialCluster
import Sigillum.GuardChecker
import Sigillum.TokenChain

/-! # No Secret without a verified guard

Checks of the guard, reconciles of `MailCredential` objects and `Ensure` of the token
broker run at once, in any order.  Every Secret they write is written after the guard's
verdict was read in the same call and the last conclusive check before that had found
the guard in place.

Each program asks first (`reconcile_admitted`, `ensure_guarded`).  What the answer means
is `GuardChecker.ok_checks_iff`, and a log of all that happened ties the two together.
-/
namespace Sigillum
open Runes Bytes Interaction

/-! ## The reconciler asks first -/

namespace Controller

/-- The calls that write a Secret. -/
def Call.writesSecret : Call → Bool
  | .createSecret _ | .patchSecret _ => true
  | .get | .apiGet | .getServiceAccount _ _ | .guardOK | .generatePassword | .statusUpdate _
  | .contextAlive => false

/-- What the guard was found to be. -/
def guardFound : Event Call Call.Answer → Option Bool
  | ⟨.guardOK, (ok, _)⟩ => some ok
  | _ => none

/-- A Secret is written only where the guard was found in place. -/
def Admitted (t : Trace Call Call.Answer) (c : Call) : Prop :=
  c.writesSecret = true → ∃ e ∈ t, guardFound e = some true

/-- Whatever the answers are. -/
abbrev AnyAnswer (_ : Event Call Call.Answer) : Prop := True

/-- A program in which every Secret is written after the guard was found in place. -/
abbrev Admits {α : Type} (p : Prog Call Call.Answer α) (t : Trace Call Call.Answer) : Prop :=
  p.Keeps AnyAnswer Admitted (fun _ _ => True) t

section Walk
variable {L : CredentialLibraries} {r : Reconciler} {mc : MailCredential} {now : Int}
  {t : Trace Call Call.Answer}

theorem admitted_of_not_writes {c : Call} (h : c.writesSecret = false) : Admitted t c := by
  intro hwrites
  rw [h] at hwrites
  cases hwrites

/-- What writes no Secret needs no guard. -/
theorem admits_of_only {α : Type} {p : Prog Call Call.Answer α}
    (h : p.Only fun c => c.writesSecret = false) : Admits p t :=
  (h.keeps (fun _ _ => admitted_of_not_writes) t).mono fun _ _ _ => trivial

theorem retryUpdate_only : (retryUpdate mc).Only fun c => c.writesSecret = false := by
  refine Prog.Only.call rfl fun read => ?_
  cases read with
  | error err => trivial
  | ok latest =>
    dsimp only
    split
    · trivial
    · exact Prog.only_perform.mpr rfl

theorem retryOnError_only (steps : Nat) :
    (retryOnError mc steps).Only fun c => c.writesSecret = false := by
  induction steps with
  | zero =>
    refine retryUpdate_only.bind fun failed => ?_
    cases failed with
    | none => trivial
    | some err => exact Prog.Only.call rfl fun _ => trivial
  | succ steps ih =>
    refine retryUpdate_only.bind fun failed => ?_
    cases failed with
    | none => trivial
    | some err =>
      refine Prog.Only.call rfl fun alive => ?_
      split
      · exact ih
      · trivial

theorem updateChanged_only {status : MailCredentialStatus} {secretWritten : Bool} :
    (updateChanged mc status secretWritten).Only fun c => c.writesSecret = false := by
  unfold updateChanged
  split
  · refine Prog.Only.call rfl fun failed => ?_
    cases failed with
    | none => trivial
    | some err =>
      dsimp only
      split
      · exact retryOnError_only 5
      · trivial
  · trivial

theorem finish_only {d : Draft} {secretWritten : Bool} {retErr : Option Bytes}
    {requeueAfter : Int} :
    (finish r mc now d secretWritten retErr requeueAfter).Only fun c => c.writesSecret = false := by
  refine Prog.Only.bind ?_ fun guard => updateChanged_only.bind fun failed => ?_
  · unfold guardVerdict
    split
    · exact Prog.Only.call rfl fun _ => trivial
    · trivial
  · cases failed <;> cases retErr <;> trivial

/-- `writeSecret` is called where the guard was found in place. -/
theorem writeSecret_admitted {u password : Bytes} (h : ∃ e ∈ t, guardFound e = some true) :
    Admits (writeSecret r mc u password) t := by
  refine Prog.keeps_call.mpr ⟨fun _ => h, fun created _ => ?_⟩
  cases created with
  | none => trivial
  | some err =>
    dsimp only
    split
    · trivial
    · refine Prog.keeps_call.mpr ⟨fun _ => ?_, fun patched _ => ?_⟩
      · obtain ⟨e, he, hfound⟩ := h
        exact ⟨e, List.mem_append_left _ he, hfound⟩
      · cases patched with
        | none => trivial
        | some err =>
          dsimp only
          split <;> trivial

theorem rotate_admitted {u : Bytes} {why : Option Trigger} : Admits (rotate r mc u why) t := by
  unfold rotate
  split
  · trivial
  refine Prog.keeps_call.mpr ⟨admitted_of_not_writes rfl, fun found _ => ?_⟩
  obtain ⟨ok, msg⟩ := found
  dsimp only
  split
  · trivial
  cases ok with
  | false => trivial
  | true =>
    rw [if_neg (by decide)]
    refine Prog.keeps_call.mpr ⟨admitted_of_not_writes rfl, fun random _ => ?_⟩
    cases random with
    | error err => trivial
    | ok password =>
      refine Prog.keeps_bind.mpr ((writeSecret_admitted ?_).mono fun _ _ _ => trivial)
      exact ⟨⟨.guardOK, (true, msg)⟩, by simp, rfl⟩

theorem reconcileGenerated_admitted {d : Draft} : Admits (reconcileGenerated L r mc now d) t := by
  refine Prog.keeps_bind.mpr (rotate_admitted.mono fun _ outcome _ => ?_)
  cases outcome with
  | error err => trivial
  | ok outcome => exact admits_of_only finish_only

theorem reconcileObject_admitted : Admits (reconcileObject L r mc now) t := by
  unfold reconcileObject
  dsimp only
  split
  · exact admits_of_only finish_only
  refine Prog.keeps_call.mpr ⟨admitted_of_not_writes rfl, fun missing _ => ?_⟩
  cases missing with
  | some err =>
    dsimp only
    split
    · exact admits_of_only finish_only
    · trivial
  | none =>
    dsimp only
    split
    · exact reconcileGenerated_admitted
    · exact admits_of_only finish_only

/-- **`Reconcile` writes a Secret only where it has found the guard in place.** -/
theorem reconcile_admitted : Admits (reconcile L r now) t := by
  refine Prog.keeps_call.mpr ⟨admitted_of_not_writes rfl, fun got _ => ?_⟩
  cases got with
  | error err => trivial
  | ok cached =>
    dsimp only
    split
    · refine Prog.keeps_call.mpr ⟨admitted_of_not_writes rfl, fun read _ => ?_⟩
      cases read with
      | error err => trivial
      | ok fresh => exact reconcileObject_admitted
    · exact reconcileObject_admitted

end Walk
end Controller

/-! ## Checks, reconciles and the broker at once -/

namespace GuardedWrites

/-- What is running: a reconcile, or an `Ensure` with whatever is in memory. -/
inductive Work where
  | reconcile (r : Controller.Reconciler) (now : Int)
  | ensure (d : Broker.DelegatedBackend) (now : Int) (memory : Option Broker.BrokerState)

abbrev Call := Controller.Call ⊕ Broker.Call

abbrev Answer : Call → Type := Sum.elim Controller.Call.Answer Broker.Call.Answer

abbrev Result := Except Bytes Int ⊕ (Broker.BrokerResult × Broker.BrokerState)

def Work.program (L : TokenLibraries) : Work → Prog Call Answer Result
  | .reconcile r now => (Controller.reconcile L.toCredentialLibraries r now).inl
  | .ensure d now memory => (Broker.ensure L d now memory).inr

/-- The calls that write a Secret. -/
def writesSecret : Call → Bool
  | .inl c => c.writesSecret
  | .inr c => c.writes

/-- What the guard answers. -/
def guardAnswer : Event Call Answer → Option (Bool × Bytes)
  | ⟨.inl .guardOK, a⟩ => some a
  | ⟨.inr .guardOK, a⟩ => some a
  | _ => none

/-- What the guard was found to be. -/
def guardFound (e : Event Call Answer) : Option Bool := (guardAnswer e).map Prod.fst

/-- What happens: a check of the guard ends with a result, or a program of the pool, given
by its number, makes a call. -/
inductive Entry where
  | checked (result : Option GuardError)
  | called (n : Nat) (e : Event Call Answer)

/-- The checks of a log. -/
def results (log : List Entry) : List (Option GuardError) :=
  log.filterMap fun
    | .checked result => some result
    | .called _ _ => none

/-- A call, and the checks that end before it.  The guard answers with its verdict at that
time, or as a checker that is nil does; nothing is said about other answers. -/
def serve (n : Nat) (log : List Entry) (c : Call) (a : Answer c) (log' : List Entry) : Prop :=
  ∃ done : List (Option GuardError), log' = log ++ done.map .checked ++ [.called n ⟨c, a⟩] ∧
    ∀ answer, guardAnswer ⟨c, a⟩ = some answer → answer = GuardChecker.ok none ∨
      answer = GuardChecker.ok (some (.checks (results (log ++ done.map .checked))))

/-- Program `n` has read the verdict when the last conclusive check had found the guard in
place. -/
def Verified (log : List Entry) (n : Nat) : Prop :=
  ∃ before e after, log = before ++ .called n e :: after ∧ guardFound e = some true ∧
    (GuardChecker.conclusive (results before)).getLast? = some none

/-- Every Secret of a log was written by a program that had read such a verdict. -/
def Backed (log : List Entry) : Prop :=
  ∀ earlier n e later, log = earlier ++ .called n e :: later → writesSecret e.1 = true →
    Verified earlier n

section Log
variable {log : List Entry} {n : Nat}

theorem Verified.append (h : Verified log n) (later : List Entry) : Verified (log ++ later) n := by
  obtain ⟨before, e, after, rfl, hfound, hlast⟩ := h
  exact ⟨before, e, after ++ later, by simp, hfound, hlast⟩

theorem backed_concat {entry : Entry} (h : Backed log)
    (hlast : ∀ n e, entry = .called n e → writesSecret e.1 = true → Verified log n) :
    Backed (log ++ [entry]) := by
  intro earlier n e later heq hwrites
  -- the write is the last entry, or lies in `log`
  rcases List.eq_nil_or_concat later with rfl | ⟨init, last, rfl⟩
  · obtain ⟨rfl, hentry⟩ := List.append_inj' heq rfl
    exact hlast n e (List.head_eq_of_cons_eq hentry) hwrites
  · rw [List.concat_eq_append, ← List.cons_append, ← List.append_assoc] at heq
    exact h earlier n e init (List.append_inj' heq rfl).1 hwrites

theorem Backed.checks (h : Backed log) (done : List (Option GuardError)) :
    Backed (log ++ done.map .checked) := by
  induction done using List.reverseRecOn with
  | nil => simpa using h
  | append_singleton done result ih =>
    rw [List.map_append, ← List.append_assoc]
    exact backed_concat ih fun _ _ hentry => by cases hentry

end Log

/-! ## Every interleaving -/

section Pool
variable {L : TokenLibraries}

/-- What a program may do next. -/
def Asks (t : Trace Call Answer) (c : Call) : Prop :=
  writesSecret c = true → ∃ e ∈ t, guardFound e = some true

/-- Whatever the answers are. -/
abbrev AnyAnswer (_ : Event Call Answer) : Prop := True

theorem guardFound_inl (e : Event Controller.Call Controller.Call.Answer) :
    guardFound e.inl = Controller.guardFound e := by
  obtain ⟨c, a⟩ := e
  cases c <;> rfl

theorem guardFound_inr (e : Event Broker.Call Broker.Call.Answer) :
    guardFound e.inr = Broker.guardFound e := by
  obtain ⟨c, a⟩ := e
  cases c <;> rfl

/-- Both kinds of program ask first. -/
theorem program_asks (work : Work) :
    (work.program L).Keeps AnyAnswer Asks (fun _ _ => True) [] := by
  cases work with
  | reconcile r now =>
    refine Prog.Keeps.inl (t := []) (Controller.reconcile_admitted.weaken fun t c h hwrites => ?_)
    obtain ⟨e, he, hfound⟩ := h hwrites
    exact ⟨e.inl, List.mem_map_of_mem he, (guardFound_inl e).trans hfound⟩
  | ensure d now memory =>
    refine Prog.Keeps.inr (t := []) ((Broker.ensure_guarded memory).weaken fun t c h hwrites => ?_)
    have hallowed : Broker.Allowed t := by
      cases c <;> first | exact h | cases hwrites
    obtain ⟨e, he, hfound⟩ := hallowed
    exact ⟨e.inr, List.mem_map_of_mem he, (guardFound_inr e).trans hfound⟩

/-- What is known of a log and of what each program has done. -/
structure Known (log : List Entry) (ts : List (Trace Call Answer)) : Prop where
  backed : Backed log
  verified : ∀ n t, ts[n]? = some t → (∃ e ∈ t, guardFound e = some true) → Verified log n

/-- **Each call keeps it so.** -/
theorem Known.call {before after : List (Trace Call Answer)} {t : Trace Call Answer}
    {log log' : List Entry} {c : Call} {a : Answer c} (h : Known log (before ++ t :: after))
    (hasks : Asks t c) (hserve : serve before.length log c a log') :
    Known log' (before ++ (t ++ [⟨c, a⟩]) :: after) := by
  obtain ⟨done, rfl, hanswer⟩ := hserve
  have hself : ∀ {t' : Trace Call Answer}, (before ++ t' :: after)[before.length]? = some t' := by
    simp
  constructor
  · refine backed_concat (h.backed.checks done) ?_
    rintro n e ⟨⟩ hwrites
    exact (h.verified _ t hself (hasks hwrites)).append _
  · intro n t' ht' hfound
    rw [List.append_assoc]
    by_cases hn : n = before.length
    · subst hn
      obtain rfl := Option.some.inj (hself.symm.trans ht')
      obtain ⟨e, he, hfound⟩ := hfound
      rcases List.mem_append.mp he with hold | hnew
      · exact (h.verified _ t hself ⟨e, hold, hfound⟩).append _
      · -- the verdict is read now
        obtain rfl := List.mem_singleton.mp hnew
        obtain ⟨answer, hans, hok⟩ := Option.map_eq_some_iff.mp hfound
        rcases hanswer answer hans with rfl | rfl
        · cases hok
        · refine ⟨log ++ done.map .checked, ⟨c, a⟩, [], by simp, hfound, ?_⟩
          exact (GuardChecker.ok_checks_iff _).mp hok
    · have hother : (before ++ t :: after)[n]? = some t' := (getElem?_of_ne_length hn).trans ht'
      exact (h.verified n t' hother hfound).append _

/-- **No Secret is written without a verified guard.**  In every interleaving, a Secret is
written by a reconcile or an `Ensure` that has read the verdict when the last conclusive
check had found the guard in place; and a lookup that could not be completed changes no
verdict. -/
theorem secrets_guarded (L : TokenLibraries) (pool : Pool (List Entry) Work Call Answer Result)
    (h : Pool.ReachesBy serve (Work.program L) [] pool) :
    Backed pool.shared ∧
      ∀ results ≠ [], ∀ err : GuardError, err.definitive = false →
        GuardChecker.ok (some (.checks (results ++ [some err]))) =
          GuardChecker.ok (some (.checks results)) := by
  constructor
  · have hknown := h.keeps (J := Known) (P := AnyAnswer) (G := fun _ => Asks)
      (Q := fun _ _ _ => True) ⟨?_, ?_⟩ ?_ ?_ program_asks
    · exact hknown.1.backed
    · simp [Backed]
    · simp
    · intro log ts hts
      refine ⟨hts.backed, fun n t ht hfound => ?_⟩
      rcases Nat.lt_or_ge n ts.length with hlt | hge
      · rw [List.getElem?_append_left hlt] at ht
        exact hts.verified n t ht hfound
      · -- the program that has just started has not read anything
        rw [List.getElem?_append_right hge, List.getElem?_singleton] at ht
        split at ht
        · obtain rfl := Option.some.inj ht
          obtain ⟨e, he, -⟩ := hfound
          cases he
        · cases ht
    · exact fun _ _ _ _ _ _ _ _ hts hasks hserve => ⟨hts.call hasks hserve, trivial⟩
  · intro results hresults err herr
    rw [GuardChecker.checks_of_not_definitive hresults herr]

end Pool

/-! ## A reconcile and an `Ensure` after a check -/

/-- Answers that grant everything but what the guard forbids. -/
def reply (verdict : Bool × Bytes) : (c : Call) → Answer c
  | .inl .get | .inl .apiGet => .ok Controller.newCluster.object
  | .inl (.getServiceAccount _ _) => none
  | .inl .guardOK => verdict
  | .inl .generatePassword => .ok (lit "s3cr3t")
  | .inl (.createSecret _) | .inl (.patchSecret _) | .inl (.statusUpdate _) => none
  | .inl .contextAlive => true
  | .inr (.getSecret _ _) => .error ⟨.notFound, lit "not found"⟩
  | .inr .guardOK => verdict
  | .inr (.post _ _) => .ok (⟨lit "access", 3 * Duration.hour⟩, lit "r1")
  | .inr (.createSecret _) | .inr (.patchSecret _) => none

/-- A check finds the guard in place before the first call. -/
def answering (n : Nat) (log : List Entry) (c : Call) : Answer c × List Entry :=
  let done := if results log = [] then [none] else []
  let found := log ++ done.map .checked
  let a := reply (GuardChecker.ok (some (.checks (results found)))) c
  (a, found ++ [.called n ⟨c, a⟩])

theorem serve_answering (n : Nat) (log : List Entry) (c : Call) :
    serve n log c (answering n log c).1 (answering n log c).2 := by
  refine ⟨if results log = [] then [none] else [], rfl, fun answer hanswer => .inr ?_⟩
  rcases c with c | c <;> cases c <;> first | exact (Option.some.inj hanswer).symm | cases hanswer

/-- The log of a reconcile, then an `Ensure`. -/
def writersLog : List Entry :=
  let first := ((Work.reconcile Controller.openReconciler 0).program .plain).run (answering 0) [] []
  (((Work.ensure Broker.outlook 0 none).program .plain).run (answering 1) first.1 []).1

/-- The programs that wrote a Secret. -/
def writers (log : List Entry) : List Nat :=
  log.filterMap fun
    | .called n e => if writesSecret e.1 then some n else none
    | .checked _ => none

theorem secrets_guarded_both : writers writersLog = [0, 1] ∧ Backed writersLog := by
  refine ⟨by decide +kernel, ?_⟩
  have hstart : Pool.ReachesBy serve (Work.program .plain) [] ⟨[], []⟩ := .refl
  have hfirst := hstart.run (serve_answering 0) (.reconcile Controller.openReconciler 0)
  have hsecond := hfirst.run (serve_answering 1) (.ensure Broker.outlook 0 none)
  exact (secrets_guarded .plain _ hsecond).1

end GuardedWrites
end Sigillum
