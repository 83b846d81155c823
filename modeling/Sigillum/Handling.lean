import Sigillum.Interaction

/-! # Programs as parts of others

A program can be part of one with more calls (`Prog.lift`).  `Prog.Returns` has its rules for
sequencing and for runs, and `Prog.Only.keeps_invariant` is for the calls that leave alone what
an invariant is about.
-/
namespace Interaction

variable {C C' : Type} {A : C → Type} {A' : C' → Type} {α : Type}

/-! ## A program as part of another -/

section Lift
variable {f : C → C'}

/-- The program with its calls among those of another, which are answered alike. -/
def Prog.lift (f : C → C') : Prog C (fun c => A' (f c)) α → Prog C' A' α
  | .pure a => .pure a
  | .call c next => .call (f c) fun a => (next a).lift f

theorem Prog.only_lift {S : C' → Prop} (hf : ∀ c, S (f c)) (p : Prog C (fun c => A' (f c)) α) :
    (p.lift f).Only S := by
  induction p with
  | pure a => trivial
  | call c next ih => exact ⟨hf c, ih⟩

end Lift

/-! ## Results -/

theorem Prog.Returns.mono {R R' : α → Prop} {p : Prog C A α} (h : p.Returns R)
    (hR : ∀ a, R a → R' a) : p.Returns R' := by
  induction p with
  | pure a => exact hR a h
  | call c next ih => exact fun a => ih a (h a)

/-- The second program starts from a result of the first. -/
theorem Prog.Returns.seq {β : Type} {R : α → Prop} {R' : β → Prop} {p : Prog C A α}
    {f : α → Prog C A β} (hp : p.Returns R) (hf : ∀ a, R a → (f a).Returns R') :
    (p >>= f).Returns R' := by
  induction p with
  | pure a => exact hf a hp
  | call c next ih => exact fun a => ih a (hp a)

theorem Prog.Ran.returns {R : α → Prop} {p : Prog C A α} {t : Trace C A} {a : α}
    (h : p.Ran t a) (hp : p.Returns R) : R a := by
  induction h with
  | pure a => exact hp
  | call c next x _ ih => exact ih (hp x)

/-! ## Invariants of what was done -/

/-- A program with calls in `S` keeps an invariant that these keep. -/
theorem Prog.Only.keeps_invariant {S : C → Prop} {P : Event C A → Prop}
    {G : Trace C A → C → Prop} {I : Trace C A → Prop} {p : Prog C A α} (hp : p.Only S)
    (hG : ∀ t c, I t → S c → G t c) (hI : ∀ t e, I t → S e.1 → I (t ++ [e])) {t : Trace C A}
    (ht : I t) : p.Keeps P G (fun t' _ => I t') t := by
  induction p generalizing t with
  | pure a => exact ht
  | call c next ih =>
    exact ⟨hG t c ht hp.1, fun a _ => ih a (hp.2 a) (hI t ⟨c, a⟩ ht hp.1)⟩

end Interaction
