import Mathlib.Logic.Relation

/-! # Programs and what they call

A program is a tree: it ends with a result, or makes a call and goes on with the
answer.  Nothing is said about who answers, so a statement about every path of
the tree holds for every behaviour of what is outside the program.

* `Prog.Keeps` is the rule of pre- and postconditions: what each call of a
  program may rely on having happened before it, and what holds at the end.
* `Prog.Ran` is the traces a program can leave behind, with their results.
* `Served` has something with a state answer the calls of a trace.
* `Pool` runs any number of programs at once over something shared, one call at
  a time in any order.  `Pool.Reaches.keeps` carries what each program keeps on
  its own to every state of the pool, and `Pool.ReachesBy.keeps` does so where it
  matters which program calls.
-/
namespace Interaction

/-- A program with calls `C`, answered in `A`, and a result in `α`. -/
inductive Prog (C : Type) (A : C → Type) (α : Type) where
  | pure (a : α)
  | call (c : C) (next : A c → Prog C A α)

/-- A call together with its answer. -/
abbrev Event (C : Type) (A : C → Type) := (c : C) × A c

/-- What a program has done so far, oldest first. -/
abbrev Trace (C : Type) (A : C → Type) := List (Event C A)

variable {C : Type} {A : C → Type} {α β : Type}

namespace Prog

def bind : Prog C A α → (α → Prog C A β) → Prog C A β
  | .pure a, f => f a
  | .call c next, f => .call c fun a => (next a).bind f

instance : Monad (Prog C A) where
  pure := .pure
  bind := .bind

/-- One call, whose answer is the result. -/
def perform (c : C) : Prog C A (A c) := .call c .pure

/-! ## Pre- and postconditions -/

/-- Started after the trace `t` and as long as answers meet `P`, each call meets
`G` after what was done before it, and the result meets `Q`. -/
def Keeps (P : Event C A → Prop) (G : Trace C A → C → Prop) (Q : Trace C A → α → Prop) :
    Prog C A α → Trace C A → Prop
  | .pure a, t => Q t a
  | .call c next, t => G t c ∧ ∀ a, P ⟨c, a⟩ → (next a).Keeps P G Q (t ++ [⟨c, a⟩])

section Rules
variable {P : Event C A → Prop} {G : Trace C A → C → Prop}

@[simp] theorem keeps_pure {Q : Trace C A → α → Prop} {a : α} {t : Trace C A} :
    (Pure.pure a : Prog C A α).Keeps P G Q t ↔ Q t a := Iff.rfl

/-- Sequencing: the first program establishes what the second starts from. -/
@[simp] theorem keeps_bind {p : Prog C A α} {f : α → Prog C A β} {Q : Trace C A → β → Prop}
    {t : Trace C A} :
    (p >>= f).Keeps P G Q t ↔ p.Keeps P G (fun t' a => (f a).Keeps P G Q t') t := by
  induction p generalizing t with
  | pure a => rfl
  | call c next ih =>
    constructor
    · rintro ⟨hcall, hnext⟩
      exact ⟨hcall, fun a ha => (ih a).mp (hnext a ha)⟩
    · rintro ⟨hcall, hnext⟩
      exact ⟨hcall, fun a ha => (ih a).mpr (hnext a ha)⟩

@[simp] theorem keeps_perform {c : C} {Q : Trace C A → A c → Prop} {t : Trace C A} :
    (perform c : Prog C A (A c)).Keeps P G Q t ↔
      G t c ∧ ∀ a, P ⟨c, a⟩ → Q (t ++ [⟨c, a⟩]) a := Iff.rfl

/-- A call, and what follows its answer. -/
theorem keeps_call {c : C} {f : A c → Prog C A β} {Q : Trace C A → β → Prop} {t : Trace C A} :
    (perform c >>= f).Keeps P G Q t ↔
      G t c ∧ ∀ a, P ⟨c, a⟩ → (f a).Keeps P G Q (t ++ [⟨c, a⟩]) := Iff.rfl

/-- Consequence: a weaker postcondition. -/
theorem Keeps.mono {p : Prog C A α} {Q Q' : Trace C A → α → Prop} {t : Trace C A}
    (h : p.Keeps P G Q t) (hQ : ∀ t' a, Q t' a → Q' t' a) : p.Keeps P G Q' t := by
  induction p generalizing t with
  | pure a => exact hQ t a h
  | call c next ih => exact ⟨h.1, fun a ha => ih a (h.2 a ha)⟩

/-- Consequence: less is asked of the calls. -/
theorem Keeps.weaken {p : Prog C A α} {G' : Trace C A → C → Prop} {Q : Trace C A → α → Prop}
    {t : Trace C A} (h : p.Keeps P G Q t) (hG : ∀ t' c, G t' c → G' t' c) : p.Keeps P G' Q t := by
  induction p generalizing t with
  | pure a => exact h
  | call c next ih => exact ⟨hG t c h.1, fun a ha => ih a (h.2 a ha)⟩

/-- Every call of the program is in `S`, whatever it is answered. -/
def Only (S : C → Prop) : Prog C A α → Prop
  | .pure _ => True
  | .call c next => S c ∧ ∀ a, (next a).Only S

@[simp] theorem only_pure {S : C → Prop} {a : α} : (Pure.pure a : Prog C A α).Only S := trivial

@[simp] theorem only_perform {S : C → Prop} {c : C} :
    (perform c : Prog C A (A c)).Only S ↔ S c := and_iff_left fun _ => trivial

theorem Only.bind {S : C → Prop} {p : Prog C A α} {f : α → Prog C A β} (hp : p.Only S)
    (hf : ∀ a, (f a).Only S) : (p >>= f).Only S := by
  induction p with
  | pure a => exact hf a
  | call c next ih => exact ⟨hp.1, fun a => ih a (hp.2 a)⟩

theorem Only.call {S : C → Prop} {c : C} {f : A c → Prog C A β} (hc : S c)
    (hf : ∀ a, (f a).Only S) : (perform c >>= f).Only S := ⟨hc, hf⟩

theorem Only.mono {S S' : C → Prop} {p : Prog C A α} (hp : p.Only S) (h : ∀ c, S c → S' c) :
    p.Only S' := by
  induction p with
  | pure a => trivial
  | call c next ih => exact ⟨h c hp.1, fun a => ih a (hp.2 a)⟩

/-- What a program with calls in `S` adds to a trace. -/
theorem Only.keeps {S : C → Prop} {p : Prog C A α} (hp : p.Only S) (hG : ∀ t c, S c → G t c)
    (t : Trace C A) :
    p.Keeps P G (fun t' _ => ∃ new, t' = t ++ new ∧ ∀ e ∈ new, S e.1) t := by
  -- the events added so far are carried along
  have hadd : ∀ new : Trace C A, (∀ e ∈ new, S e.1) →
      p.Keeps P G (fun t' _ => ∃ new, t' = t ++ new ∧ ∀ e ∈ new, S e.1) (t ++ new) := by
    induction p with
    | pure a => exact fun new hnew => ⟨new, rfl, hnew⟩
    | call c next ih =>
      refine fun new hnew => ⟨hG _ _ hp.1, fun a _ => ?_⟩
      rw [List.append_assoc]
      refine ih a (hp.2 a) _ fun e he => ?_
      rcases List.mem_append.mp he with hold | hlast
      · exact hnew e hold
      · obtain rfl := List.mem_singleton.mp hlast
        exact hp.1
  simpa using hadd [] nofun

/-- Every result of the program is in `R`, whatever its calls are answered. -/
def Returns (R : α → Prop) : Prog C A α → Prop
  | .pure a => R a
  | .call _ next => ∀ a, (next a).Returns R

theorem Returns.bind {R : β → Prop} {p : Prog C A α} {f : α → Prog C A β}
    (hf : ∀ a, (f a).Returns R) : (p >>= f).Returns R := by
  induction p with
  | pure a => exact hf a
  | call c next ih => exact ih

/-- The results of a program add to what it keeps. -/
theorem Keeps.and_returns {p : Prog C A α} {Q : Trace C A → α → Prop} {R : α → Prop}
    {t : Trace C A} (h : p.Keeps P G Q t) (hR : p.Returns R) :
    p.Keeps P G (fun t' a => Q t' a ∧ R a) t := by
  induction p generalizing t with
  | pure a => exact ⟨h, hR⟩
  | call c next ih => exact ⟨h.1, fun a ha => ih a (h.2 a ha) (hR a)⟩

end Rules

/-- Run a program to its end with answers computed from a state. -/
def run {σ : Type} (answer : σ → (c : C) → A c × σ) : Prog C A α → σ → Trace C A →
    σ × Trace C A × α
  | .pure a, s, t => (s, t, a)
  | .call c next, s, t =>
    (next (answer s c).1).run answer (answer s c).2 (t ++ [⟨c, (answer s c).1⟩])

/-- The first so many calls of a run, and what is left of the program. -/
def runFor {σ : Type} (answer : σ → (c : C) → A c × σ) : Nat → Prog C A α → σ → Trace C A →
    σ × Trace C A × Prog C A α
  | k + 1, .call c next, s, t =>
    (next (answer s c).1).runFor answer k (answer s c).2 (t ++ [⟨c, (answer s c).1⟩])
  | _, p, s, t => (s, t, p)

/-- The program can make the calls of a trace, with its answers, and end with a result. -/
inductive Ran : Prog C A α → Trace C A → α → Prop
  | pure (a : α) : Ran (.pure a) [] a
  | call (c : C) (next : A c → Prog C A α) (x : A c) {t : Trace C A} {a : α}
    (h : Ran (next x) t a) : Ran (.call c next) (⟨c, x⟩ :: t) a

@[simp] theorem ran_pure {a b : α} {t : Trace C A} :
    Ran (Pure.pure a : Prog C A α) t b ↔ t = [] ∧ b = a := by
  constructor
  · intro h
    cases h
    exact ⟨rfl, rfl⟩
  · rintro ⟨rfl, rfl⟩
    exact .pure _

@[simp] theorem ran_perform {c : C} {t : Trace C A} {x : A c} :
    Ran (perform c : Prog C A (A c)) t x ↔ t = [⟨c, x⟩] := by
  constructor
  · intro h
    cases h with
    | call _ _ _ h =>
      cases h
      rfl
  · rintro rfl
    exact .call c _ x (.pure x)

/-- The first program comes to its end, and then the second. -/
theorem ran_bind {p : Prog C A α} {f : α → Prog C A β} {t : Trace C A} {b : β} :
    Ran (p >>= f) t b ↔ ∃ t₁ a t₂, t = t₁ ++ t₂ ∧ Ran p t₁ a ∧ Ran (f a) t₂ b := by
  induction p generalizing t with
  | pure a =>
    constructor
    · exact fun h => ⟨[], a, t, rfl, .pure a, h⟩
    · rintro ⟨t₁, a', t₂, rfl, hp, hf⟩
      cases hp
      exact hf
  | call c next ih =>
    constructor
    · intro h
      cases h with
      | call _ _ x h =>
        obtain ⟨t₁, a, t₂, rfl, hp, hf⟩ := (ih x).mp h
        exact ⟨⟨c, x⟩ :: t₁, a, t₂, rfl, .call c next x hp, hf⟩
    · rintro ⟨t₁, a, t₂, rfl, hp, hf⟩
      cases hp with
      | call _ _ x hp => exact .call c _ x ((ih x).mpr ⟨_, a, t₂, rfl, hp, hf⟩)

/-- A call, and what follows its answer. -/
theorem ran_call {c : C} {f : A c → Prog C A β} {t : Trace C A} {b : β} :
    Ran (perform c >>= f) t b ↔ ∃ a t', t = [⟨c, a⟩] ++ t' ∧ Ran (f a) t' b := by
  constructor
  · intro h
    cases h with
    | call _ _ a h => exact ⟨a, _, rfl, h⟩
  · rintro ⟨a, t', rfl, h⟩
    exact .call c _ a h

theorem Ran.only {S : C → Prop} {p : Prog C A α} {t : Trace C A} {a : α} (h : Ran p t a)
    (hp : p.Only S) : ∀ e ∈ t, S e.1 := by
  induction h with
  | pure a => exact nofun
  | call c next x _ ih =>
    intro e he
    rcases List.mem_cons.mp he with rfl | he
    · exact hp.1
    · exact ih (hp.2 x) e he

end Prog

/-- Every event of a trace has an answer in `P`, and its call met `G` at its time. -/
def Meets (P : Event C A → Prop) (G : Trace C A → C → Prop) (t : Trace C A) : Prop :=
  ∀ earlier later e, t = earlier ++ e :: later → G earlier e.1 ∧ P e

section Meets
variable {P : Event C A → Prop} {G : Trace C A → C → Prop} {t : Trace C A} {e : Event C A}

theorem meets_nil : Meets P G ([] : Trace C A) :=
  fun earlier _ _ he => absurd he.symm (by simp)

theorem meets_concat : Meets P G (t ++ [e]) ↔ Meets P G t ∧ G t e.1 ∧ P e := by
  constructor
  · intro h
    refine ⟨fun earlier later e' he => ?_, h t [] e rfl⟩
    exact h earlier (later ++ [e]) e' (by rw [he, List.append_assoc, List.cons_append])
  · rintro ⟨ht, hlast⟩ earlier later e' he
    -- the event is the last one, or lies in `t`
    rcases List.eq_nil_or_concat later with rfl | ⟨init, last, rfl⟩
    · obtain ⟨rfl, hcons⟩ := List.append_inj' he rfl
      obtain rfl := List.head_eq_of_cons_eq hcons
      exact hlast
    · rw [List.concat_eq_append, ← List.cons_append, ← List.append_assoc] at he
      exact ht earlier init e' (List.append_inj' he rfl).1

theorem meets_cons :
    Meets P G (e :: t) ↔ (G [] e.1 ∧ P e) ∧ Meets P (fun t' => G (e :: t')) t := by
  constructor
  · intro h
    refine ⟨h [] t e rfl, fun earlier later e' he => h (e :: earlier) later e' ?_⟩
    rw [he, List.cons_append]
  · rintro ⟨hhead, htail⟩ earlier later e' he
    cases earlier with
    | nil =>
      obtain rfl := List.head_eq_of_cons_eq he
      exact hhead
    | cons e₁ earlier =>
      obtain ⟨rfl, ht⟩ := List.cons.inj he
      exact htail earlier later e' ht

theorem meets_append {t' : Trace C A} :
    Meets P G (t ++ t') ↔ Meets P G t ∧ Meets P (fun t₁ => G (t ++ t₁)) t' := by
  induction t generalizing G with
  | nil => simp [meets_nil]
  | cons e t ih => simp only [List.cons_append, meets_cons, ih, and_assoc]

/-- What a program keeps holds of every way it can run. -/
theorem Prog.Ran.keeps {p : Prog C A α} {a : α} {Q : Trace C A → α → Prop} (h : p.Ran t a)
    (hp : p.Keeps P G Q []) (hP : ∀ e ∈ t, P e) : Meets P G t ∧ Q t a := by
  -- generalised over what was done before
  have hfrom : ∀ t₀, Meets P G t₀ → p.Keeps P G Q t₀ → Meets P G (t₀ ++ t) ∧ Q (t₀ ++ t) a := by
    clear hp
    induction h with
    | pure a =>
      intro t₀ hmeets hp
      rw [List.append_nil]
      exact ⟨hmeets, hp⟩
    | call c next x _ ih =>
      rintro t₀ hmeets ⟨hcall, hnext⟩
      have hx : P ⟨c, x⟩ := hP _ List.mem_cons_self
      have hrest := ih (fun e he => hP e (List.mem_cons_of_mem _ he)) (t₀ ++ [⟨c, x⟩])
        (meets_concat.mpr ⟨hmeets, hcall, hx⟩) (hnext x hx)
      simpa using hrest
  simpa using hfrom [] meets_nil hp

end Meets

/-! ## One program after another -/

/-- `serve` answers the calls of a trace in turn. -/
inductive Served {σ : Type} (serve : σ → (c : C) → A c → σ → Prop) : σ → Trace C A → σ → Prop
  | nil (s : σ) : Served serve s [] s
  | cons {s s₁ s' : σ} {c : C} {a : A c} {t : Trace C A} (h : serve s c a s₁)
    (rest : Served serve s₁ t s') : Served serve s (⟨c, a⟩ :: t) s'

section Served
variable {σ : Type} {serve : σ → (c : C) → A c → σ → Prop} {s s' : σ}

theorem served_nil : Served serve s [] s' ↔ s' = s := by
  constructor
  · intro h
    cases h
    rfl
  · rintro rfl
    exact .nil _

theorem served_cons {e : Event C A} {t : Trace C A} :
    Served serve s (e :: t) s' ↔ ∃ s₁, serve s e.1 e.2 s₁ ∧ Served serve s₁ t s' := by
  constructor
  · intro h
    cases h with
    | cons hcall rest => exact ⟨_, hcall, rest⟩
  · rintro ⟨s₁, hcall, rest⟩
    exact .cons hcall rest

/-- What every call that meets `G` keeps of a state and of what was done holds at the end
of a trace. -/
theorem Served.keeps {P : Event C A → Prop} {G : Trace C A → C → Prop} {t : Trace C A}
    {J : σ → Trace C A → Prop} (h : Served serve s t s') (hmeets : Meets P G t) (hinit : J s [])
    (hserve : ∀ s t c a s', J s t → G t c → serve s c a s' → J s' (t ++ [⟨c, a⟩])) : J s' t := by
  -- generalised over what was done before
  have hfrom : ∀ t₀, Meets P G (t₀ ++ t) → J s t₀ → J s' (t₀ ++ t) := by
    clear hmeets hinit
    induction h with
    | nil s =>
      intro t₀ _ hJ
      rwa [List.append_nil]
    | @cons s s₁ s' c a t hcall _ ih =>
      intro t₀ hmeets hJ
      have hG := (hmeets t₀ t ⟨c, a⟩ rfl).1
      have happend : t₀ ++ ⟨c, a⟩ :: t = (t₀ ++ [⟨c, a⟩]) ++ t := by
        rw [List.append_assoc, List.singleton_append]
      rw [happend] at hmeets ⊢
      exact ih _ hmeets (hserve s t₀ c a s₁ hJ hG hcall)
  exact hfrom [] hmeets hinit

/-- What a run with answers that `serve` allows adds to a trace. -/
theorem run_new (serve : σ → (c : C) → A c → σ → Prop) (answer : σ → (c : C) → A c × σ)
    (hanswer : ∀ s c, serve s c (answer s c).1 (answer s c).2) (p : Prog C A α) (s : σ)
    (t : Trace C A) : ∃ new, (p.run answer s t).2.1 = t ++ new ∧
      p.Ran new (p.run answer s t).2.2 ∧ Served serve s new (p.run answer s t).1 := by
  induction p generalizing s t with
  | pure a => exact ⟨[], (List.append_nil t).symm, .pure a, .nil s⟩
  | call c next ih =>
    obtain ⟨new, hnew, hran, hserved⟩ :=
      ih (answer s c).1 (answer s c).2 (t ++ [⟨c, (answer s c).1⟩])
    refine ⟨⟨c, (answer s c).1⟩ :: new, ?_, .call c next _ hran, .cons (hanswer s c) hserved⟩
    rw [Prog.run, hnew, List.append_assoc]
    rfl

theorem served_run {answer : σ → (c : C) → A c × σ}
    (hanswer : ∀ s c, serve s c (answer s c).1 (answer s c).2) (p : Prog C A α) (s : σ) :
    Served serve s (p.run answer s []).2.1 (p.run answer s []).1 := by
  obtain ⟨new, hnew, -, hserved⟩ := run_new serve answer hanswer p s []
  rw [hnew]
  exact hserved

theorem Prog.ran_run (answer : σ → (c : C) → A c × σ) (p : Prog C A α) (s : σ) :
    p.Ran (p.run answer s []).2.1 (p.run answer s []).2.2 := by
  obtain ⟨new, hnew, hran, -⟩ :=
    run_new (fun _ _ _ _ => True) answer (fun _ _ => trivial) p s []
  rw [hnew]
  exact hran

end Served

/-! ## Many programs at once -/

/-- A program under way: its input, what it has done and what is left of it. -/
structure Thread (ι : Type) (C : Type) (A : C → Type) (α : Type) where
  input : ι
  done : Trace C A
  rest : Prog C A α

/-- Programs under way, and what they share. -/
structure Pool (σ ι : Type) (C : Type) (A : C → Type) (α : Type) where
  shared : σ
  threads : List (Thread ι C A α)

namespace Pool

variable {σ ι : Type} {program : ι → Prog C A α}

/-- One step: a program starts, or one under way makes its next call, which `serve`
answers; `serve` is told which program calls: its number in the pool. -/
inductive Step (serve : Nat → σ → (c : C) → A c → σ → Prop) (program : ι → Prog C A α) :
    Pool σ ι C A α → Pool σ ι C A α → Prop
  | start (s : σ) (ths : List (Thread ι C A α)) (i : ι) :
    Step serve program ⟨s, ths⟩ ⟨s, ths ++ [⟨i, [], program i⟩]⟩
  | call {s s' : σ} (before after : List (Thread ι C A α)) (i : ι) (t : Trace C A) {c : C}
    (next : A c → Prog C A α) {a : A c} (h : serve before.length s c a s') :
    Step serve program ⟨s, before ++ ⟨i, t, .call c next⟩ :: after⟩
      ⟨s', before ++ ⟨i, t ++ [⟨c, a⟩], next a⟩ :: after⟩

/-- The states a pool that starts empty gets to. -/
def ReachesBy (serve : Nat → σ → (c : C) → A c → σ → Prop) (program : ι → Prog C A α) (s : σ)
    (pool : Pool σ ι C A α) : Prop :=
  Relation.ReflTransGen (Step serve program) ⟨s, []⟩ pool

/-- The same, where it does not matter which program calls. -/
def Reaches (serve : σ → (c : C) → A c → σ → Prop) (program : ι → Prog C A α) (s : σ)
    (pool : Pool σ ι C A α) : Prop :=
  ReachesBy (fun _ => serve) program s pool

/-- What each program of the pool has done, by number. -/
def traces (pool : Pool σ ι C A α) : List (Trace C A) := pool.threads.map Thread.done

/-- Where an invariant of what is shared and of what the programs have done makes
answers meet `P`, and is kept by calls that meet `G`, every program of the pool does
what it does on its own. -/
theorem ReachesBy.keeps {serve : Nat → σ → (c : C) → A c → σ → Prop} {s : σ}
    {pool : Pool σ ι C A α} {J : σ → List (Trace C A) → Prop} {P : Event C A → Prop}
    {G : ι → Trace C A → C → Prop} {Q : ι → Trace C A → α → Prop}
    (hreach : ReachesBy serve program s pool) (hinit : J s [])
    (hstart : ∀ s ts, J s ts → J s (ts ++ [[]]))
    (hserve : ∀ i before t after s c a s', J s (before ++ t :: after) → G i t c →
      serve before.length s c a s' → J s' (before ++ (t ++ [⟨c, a⟩]) :: after) ∧ P ⟨c, a⟩)
    (hprogram : ∀ i, (program i).Keeps P (G i) (Q i) []) :
    J pool.shared pool.traces ∧ ∀ th ∈ pool.threads,
      Meets P (G th.input) th.done ∧ th.rest.Keeps P (G th.input) (Q th.input) th.done := by
  induction hreach with
  | refl => exact ⟨hinit, nofun⟩
  | tail _ hstep ih =>
    obtain ⟨hJ, hths⟩ := ih
    cases hstep with
    | start s ths i =>
      refine ⟨?_, fun th hth => ?_⟩
      · simpa [traces] using hstart s _ hJ
      · rcases List.mem_append.mp hth with hold | hnew
        · exact hths th hold
        · obtain rfl := List.mem_singleton.mp hnew
          exact ⟨meets_nil, hprogram i⟩
    | call before after i t next hs =>
      obtain ⟨hmeets, hcall, hnext⟩ := hths _ (List.mem_append_right _ List.mem_cons_self)
      rw [traces, List.map_append, List.map_cons] at hJ
      rw [← List.length_map (f := Thread.done)] at hs
      obtain ⟨hJ', hP⟩ := hserve i _ t _ _ _ _ _ hJ hcall hs
      refine ⟨by simpa [traces] using hJ', fun th hth => ?_⟩
      rcases List.mem_append.mp hth with hbefore | hrest
      · exact hths th (List.mem_append_left _ hbefore)
      · rcases List.mem_cons.mp hrest with rfl | hafter
        · exact ⟨meets_concat.mpr ⟨hmeets, hcall, hP⟩, hnext _ hP⟩
        · exact hths th (List.mem_append_right _ (List.mem_cons_of_mem _ hafter))

/-- The same for an invariant of what is shared alone. -/
theorem Reaches.keeps {serve : σ → (c : C) → A c → σ → Prop} {s : σ} {pool : Pool σ ι C A α}
    {I : σ → Prop} {P : Event C A → Prop} {G : ι → Trace C A → C → Prop}
    {Q : ι → Trace C A → α → Prop} (hreach : Reaches serve program s pool) (hinit : I s)
    (hserve : ∀ i t s c a s', I s → G i t c → serve s c a s' → I s' ∧ P ⟨c, a⟩)
    (hprogram : ∀ i, (program i).Keeps P (G i) (Q i) []) :
    I pool.shared ∧ ∀ th ∈ pool.threads,
      Meets P (G th.input) th.done ∧ th.rest.Keeps P (G th.input) (Q th.input) th.done :=
  ReachesBy.keeps (J := fun s _ => I s) hreach hinit (fun _ _ h => h)
    (fun i _ t _ s c a s' hI hG hs => hserve i t s c a s' hI hG hs) hprogram

section Undisturbed
variable {serve : Nat → σ → (c : C) → A c → σ → Prop} {s s₁ : σ}
  (before after : List (Thread ι C A α)) {i : ι} {t : Trace C A} {p : Prog C A α}
  {answer : σ → (c : C) → A c × σ}

/-- A program under way can make its next calls, undisturbed. -/
theorem ReachesBy.advance
    (hanswer : ∀ s c, serve before.length s c (answer s c).1 (answer s c).2) (k : Nat)
    (hreach : ReachesBy serve program s ⟨s₁, before ++ ⟨i, t, p⟩ :: after⟩) :
    ReachesBy serve program s ⟨(p.runFor answer k s₁ t).1,
      before ++ ⟨i, (p.runFor answer k s₁ t).2.1, (p.runFor answer k s₁ t).2.2⟩ :: after⟩ := by
  induction k generalizing s₁ t p with
  | zero => cases p <;> exact hreach
  | succ k ih =>
    cases p with
    | pure a => exact hreach
    | call c next => exact ih (hreach.tail (.call before after i t next (hanswer s₁ c)))

/-- And those to its end. -/
theorem ReachesBy.finish
    (hanswer : ∀ s c, serve before.length s c (answer s c).1 (answer s c).2)
    (hreach : ReachesBy serve program s ⟨s₁, before ++ ⟨i, t, p⟩ :: after⟩) :
    ReachesBy serve program s ⟨(p.run answer s₁ t).1,
      before ++ ⟨i, (p.run answer s₁ t).2.1, .pure (p.run answer s₁ t).2.2⟩ :: after⟩ := by
  induction p generalizing s₁ t with
  | pure a => exact hreach
  | call c next ih => exact ih _ (hreach.tail (.call before after i t next (hanswer s₁ c)))

end Undisturbed

/-- A program the pool has just started can run to its end, undisturbed. -/
theorem ReachesBy.run {serve : Nat → σ → (c : C) → A c → σ → Prop} {s s₁ : σ}
    {ths : List (Thread ι C A α)} {answer : σ → (c : C) → A c × σ}
    (hanswer : ∀ s c, serve ths.length s c (answer s c).1 (answer s c).2)
    (hreach : ReachesBy serve program s ⟨s₁, ths⟩) (i : ι) :
    ReachesBy serve program s ⟨((program i).run answer s₁ []).1,
      ths ++ [⟨i, ((program i).run answer s₁ []).2.1,
        .pure ((program i).run answer s₁ []).2.2⟩]⟩ :=
  ReachesBy.finish ths [] hanswer (hreach.tail (.start s₁ ths i))

end Pool

/-! ## Programs of two kinds -/

section Sum
variable {C₁ C₂ : Type} {A₁ : C₁ → Type} {A₂ : C₂ → Type} {α₁ α₂ : Type}

/-- A program of the first kind among those of two. -/
def Prog.inl : Prog C₁ A₁ α₁ → Prog (C₁ ⊕ C₂) (Sum.elim A₁ A₂) (α₁ ⊕ α₂)
  | .pure a => .pure (.inl a)
  | .call c next => .call (.inl c) fun a => (next a).inl

/-- A program of the second kind among those of two. -/
def Prog.inr : Prog C₂ A₂ α₂ → Prog (C₁ ⊕ C₂) (Sum.elim A₁ A₂) (α₁ ⊕ α₂)
  | .pure a => .pure (.inr a)
  | .call c next => .call (.inr c) fun a => (next a).inr

def Event.inl (e : Event C₁ A₁) : Event (C₁ ⊕ C₂) (Sum.elim A₁ A₂) := ⟨.inl e.1, e.2⟩

def Event.inr (e : Event C₂ A₂) : Event (C₁ ⊕ C₂) (Sum.elim A₁ A₂) := ⟨.inr e.1, e.2⟩

variable {P : Event (C₁ ⊕ C₂) (Sum.elim A₁ A₂) → Prop}
  {G : Trace (C₁ ⊕ C₂) (Sum.elim A₁ A₂) → C₁ ⊕ C₂ → Prop}
  {Q : Trace (C₁ ⊕ C₂) (Sum.elim A₁ A₂) → α₁ ⊕ α₂ → Prop}

/-- What a program keeps on its own it keeps among others. -/
theorem Prog.Keeps.inl {p : Prog C₁ A₁ α₁} {t : Trace C₁ A₁}
    (h : p.Keeps (fun e => P e.inl) (fun t c => G (t.map Event.inl) (.inl c))
      (fun t a => Q (t.map Event.inl) (.inl a)) t) :
    p.inl.Keeps P G Q (t.map Event.inl) := by
  induction p generalizing t with
  | pure a => exact h
  | call c next ih =>
    refine ⟨h.1, fun a ha => ?_⟩
    have hnext := ih a (h.2 a ha)
    rwa [List.map_append] at hnext

theorem Prog.Keeps.inr {p : Prog C₂ A₂ α₂} {t : Trace C₂ A₂}
    (h : p.Keeps (fun e => P e.inr) (fun t c => G (t.map Event.inr) (.inr c))
      (fun t a => Q (t.map Event.inr) (.inr a)) t) :
    p.inr.Keeps P G Q (t.map Event.inr) := by
  induction p generalizing t with
  | pure a => exact h
  | call c next ih =>
    refine ⟨h.1, fun a ha => ?_⟩
    have hnext := ih a (h.2 a ha)
    rwa [List.map_append] at hnext

end Sum

/-! ## What each program has done -/

/-- What one program has done does not change what the others have. -/
theorem getElem?_of_ne_length {before after : List β} {x y : β} {n : Nat}
    (h : n ≠ before.length) : (before ++ x :: after)[n]? = (before ++ y :: after)[n]? := by
  rcases Nat.lt_or_gt_of_ne h with hlt | hgt
  · rw [List.getElem?_append_left hlt, List.getElem?_append_left hlt]
  · obtain ⟨m, rfl⟩ := Nat.exists_eq_add_of_lt hgt
    rw [List.getElem?_append_right (by omega), List.getElem?_append_right (by omega),
      show before.length + m + 1 - before.length = m + 1 by omega]
    rfl

/-- Program `n` has made a call in `S`. -/
def Did (S : C → Prop) (ts : List (Trace C A)) (n : Nat) : Prop :=
  ∃ t, ts[n]? = some t ∧ ∃ e ∈ t, S e.1

namespace Did
variable {S : C → Prop} {ts before after : List (Trace C A)} {t : Trace C A} {e : Event C A}
  {n : Nat}

theorem start (h : Did S ts n) : Did S (ts ++ [[]]) n := by
  obtain ⟨t, ht, he⟩ := h
  exact ⟨t, List.getElem?_append_left (List.getElem?_eq_some_iff.mp ht).1 ▸ ht, he⟩

/-- The program that calls has made the call. -/
theorem last (h : S e.1) : Did S (before ++ (t ++ [e]) :: after) before.length :=
  ⟨t ++ [e], by simp, e, List.mem_append_right t List.mem_cons_self, h⟩

theorem caller (h : Did S (before ++ t :: after) before.length) : ∃ e ∈ t, S e.1 := by
  obtain ⟨t', ht', he⟩ := h
  obtain rfl : t = t' := by simpa using ht'
  exact he

theorem call (h : Did S (before ++ t :: after) n) :
    Did S (before ++ (t ++ [e]) :: after) n := by
  obtain ⟨t', ht', e', he', hS⟩ := h
  by_cases hn : n = before.length
  · subst hn
    obtain rfl : t = t' := by simpa using ht'
    exact ⟨t ++ [e], by simp, e', List.mem_append_left _ he', hS⟩
  · exact ⟨t', (getElem?_of_ne_length hn).trans ht', e', he', hS⟩

end Did
end Interaction
