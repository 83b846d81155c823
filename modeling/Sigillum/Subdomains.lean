import Mathlib.Data.List.Chain
import Sigillum.ByteString

/-! # DNS subdomains

The names of RFC 1123 as Kubernetes has them: labels of lower-case letters, digits and
hyphens, with no hyphen at their ends, and dots between them.

`isSubdomain` is given by the labels.  For names that are cut and put together, what may
follow what is easier to work with (`forall_isLabel_iff`).
-/
namespace Subdomains
open Bytes

def isAlnum (c : UInt8) : Bool := (97 ≤ c && c ≤ 122) || (48 ≤ c && c ≤ 57)

/-- `[a-z0-9]([-a-z0-9]*[a-z0-9])?`. -/
def isLabel (l : Bytes) : Bool :=
  isAlnum (l.headD 46) && isAlnum (l.getLastD 46) && l.all fun c => isAlnum c || c == 45

/-- Labels with dots between them, 253 bytes at most. -/
def isSubdomain (s : Bytes) : Bool := (s.splitOn 46).all isLabel && s.length ≤ 253

/-- Whether `b` may follow `a` in a name; the beginning counts as a dot. -/
def Follows (a b : UInt8) : Prop :=
  isAlnum b = true ∨ b = 45 ∧ a ≠ 46 ∨ b = 46 ∧ isAlnum a = true

theorem follows_dot {a : UInt8} : Follows a 46 ↔ isAlnum a = true := by
  have hdot : isAlnum 46 = false := by decide
  simp [Follows, hdot]

theorem dot_follows {b : UInt8} : Follows 46 b ↔ isAlnum b = true := by
  have hdot : isAlnum 46 = false := by decide
  simp [Follows, hdot]

/-- The bytes of names. -/
theorem byte_of_isChain {a : UInt8} {s : Bytes} (h : (a :: s).IsChain Follows) :
    ∀ b ∈ s, isAlnum b = true ∨ b = 45 ∨ b = 46 := by
  induction s generalizing a with
  | nil => exact fun _ hb => absurd hb List.not_mem_nil
  | cons c s ih =>
    obtain ⟨hhead, htail⟩ := List.isChain_cons_cons.mp h
    refine List.forall_mem_cons.mpr ⟨?_, ih htail⟩
    rcases hhead with halnum | ⟨hhyphen, -⟩ | ⟨hdot, -⟩
    · exact .inl halnum
    · exact .inr (.inl hhyphen)
    · exact .inr (.inr hdot)

/-- Letters, digits and hyphens may stand behind anything but a dot. -/
theorem isChain_of_bytes {a : UInt8} {s : Bytes} (ha : a ≠ 46)
    (hs : ∀ c ∈ s, isAlnum c = true ∨ c = 45) : (a :: s).IsChain Follows := by
  induction s generalizing a with
  | nil => exact List.isChain_singleton a
  | cons c s ih =>
    obtain ⟨hc, hs⟩ := List.forall_mem_cons.mp hs
    have hne : c ≠ 46 := by
      rintro rfl
      exact absurd hc (by decide)
    refine List.isChain_cons_cons.mpr ⟨?_, ih hne hs⟩
    rcases hc with halnum | hhyphen
    · exact .inl halnum
    · exact .inr (.inl ⟨hhyphen, ha⟩)

theorem isLabel_iff {l : Bytes} (hl : 46 ∉ l) :
    isLabel l = true ↔ (46 :: l).IsChain Follows ∧ isAlnum (l.getLastD 46) = true := by
  cases l with
  | nil => exact iff_of_false (by decide) (fun h => absurd h.2 (by decide))
  | cons b l =>
    rw [isLabel, List.isChain_cons_cons, dot_follows, Bool.and_eq_true, Bool.and_eq_true,
      List.all_eq_true, List.headD_cons]
    constructor
    · rintro ⟨⟨hfirst, hlast⟩, hbytes⟩
      refine ⟨⟨hfirst, isChain_of_bytes (fun hb => hl (hb ▸ List.mem_cons_self)) ?_⟩, hlast⟩
      intro c hc
      simpa using hbytes c (List.mem_cons_of_mem b hc)
    · rintro ⟨⟨hfirst, hchain⟩, hlast⟩
      refine ⟨⟨hfirst, hlast⟩, List.forall_mem_cons.mpr ⟨by simp [hfirst], fun c hc => ?_⟩⟩
      rcases byte_of_isChain hchain c hc with halnum | hhyphen | hdot
      · simp [halnum]
      · simp [hhyphen]
      · exact absurd (List.mem_cons_of_mem b hc) (hdot ▸ hl)

/-- Names are put together where the second may follow the first. -/
theorem isChain_append_iff {a : UInt8} {s t : Bytes} :
    (a :: (s ++ t)).IsChain Follows ↔ (a :: s).IsChain Follows ∧ t.IsChain Follows ∧
      ∀ b ∈ t.head?, Follows (s.getLastD a) b := by
  rw [← List.cons_append, List.isChain_append, List.getLast?_cons, List.getLastD_eq_getLast?]
  simp

/-- **Labels by their neighbours**: a name is cut into labels if each byte may follow the
one before it and the last is a letter or a digit. -/
theorem forall_isLabel_iff (s : Bytes) : (∀ l ∈ s.splitOn 46, isLabel l = true) ↔
    (46 :: s).IsChain Follows ∧ isAlnum (s.getLastD 46) = true := by
  induction hn : s.length using Nat.strong_induction_on generalizing s with
  | _ n ih =>
    cases hcut : cut 46 s with
    | none =>
      have hdot := cut_eq_none.mp hcut
      rw [List.splitOn_eq_singleton hdot, List.forall_mem_singleton, isLabel_iff hdot]
    | some p =>
      obtain ⟨l, t⟩ := p
      obtain ⟨rfl, hl⟩ := cut_eq_some.mp hcut
      have hlt : t.length < n := by
        rw [← hn, List.length_append, List.length_cons]
        omega
      -- what is behind the dot is a name of its own
      have hlast : (l ++ 46 :: t).getLastD 46 = t.getLastD 46 := by
        rw [List.getLastD_eq_getLast?, List.getLast?_append_cons, List.getLast?_cons]
        simp [List.getLastD_eq_getLast?]
      rw [List.splitOn_append_cons_self, List.splitOn_eq_singleton hl, List.singleton_append,
        List.forall_mem_cons, isLabel_iff hl, ih t.length hlt t rfl, isChain_append_iff, hlast]
      simp only [List.head?_cons, Option.mem_some_iff, forall_eq', follows_dot]
      tauto

/-- The first byte of a name. -/
theorem isAlnum_head {s : Bytes} (h : (46 :: s).IsChain Follows) :
    ∀ b ∈ s.head?, isAlnum b = true := by
  cases s with
  | nil => simp
  | cons b s => simpa using dot_follows.mp (List.isChain_cons_cons.mp h).1

theorem isSubdomain_iff {s : Bytes} : isSubdomain s = true ↔
    (46 :: s).IsChain Follows ∧ isAlnum (s.getLastD 46) = true ∧ s.length ≤ 253 := by
  rw [isSubdomain, Bool.and_eq_true, List.all_eq_true, forall_isLabel_iff, decide_eq_true_iff,
    and_assoc]

end Subdomains
