import Mathlib.Algebra.Group.Nat.Defs
import Sigillum.ByteString

/-! # UTF-8 and case

The code points of a byte string, read the way Go's `range` reads them: a byte
that starts no valid sequence is one `U+FFFD`.  Over them stand lower-casing,
comparison under case folding and trimming of white space.

The Unicode data are a parameter, `Unicode`: which letters have a lower case
depends on their version, while what the fields promise about ASCII is the same
in all of them.

The one fact the rest rests on is `runes_append`: an ASCII byte always starts a
code point of its own, so a string may be read in parts that are cut there.
-/
namespace Runes

/-- `utf8.RuneError`, read for a byte that is not part of valid UTF-8. -/
def runeError : Nat := 0xFFFD

/-- A continuation byte. -/
def isTail (b : UInt8) : Bool := 0x80 ≤ b && b ≤ 0xBF

/-- The first two bytes of a three-byte sequence. -/
def isLead3 (b0 b1 : UInt8) : Bool :=
  (b0 == 0xE0 && 0xA0 ≤ b1 && b1 ≤ 0xBF) || (0xE1 ≤ b0 && b0 ≤ 0xEC && isTail b1) ||
    (b0 == 0xED && 0x80 ≤ b1 && b1 ≤ 0x9F) || (0xEE ≤ b0 && b0 ≤ 0xEF && isTail b1)

/-- The first two bytes of a four-byte sequence. -/
def isLead4 (b0 b1 : UInt8) : Bool :=
  (b0 == 0xF0 && 0x90 ≤ b1 && b1 ≤ 0xBF) || (0xF1 ≤ b0 && b0 ≤ 0xF3 && isTail b1) ||
    (b0 == 0xF4 && 0x80 ≤ b1 && b1 ≤ 0x8F)

/-- `utf8.DecodeRuneInString`: the first code point and its width in bytes. -/
def decodeRune : Bytes → Nat × Nat
  | [] => (runeError, 0)
  | b0 :: s1 =>
    if b0 < 0x80 then (b0.toNat, 1)
    else match s1 with
    | [] => (runeError, 1)
    | b1 :: s2 =>
      if 0xC2 ≤ b0 && b0 ≤ 0xDF && isTail b1 then
        ((b0.toNat - 0xC0) * 64 + (b1.toNat - 0x80), 2)
      else match s2 with
      | [] => (runeError, 1)
      | b2 :: s3 =>
        if isLead3 b0 b1 && isTail b2 then
          ((b0.toNat - 0xE0) * 4096 + (b1.toNat - 0x80) * 64 + (b2.toNat - 0x80), 3)
        else match s3 with
        | [] => (runeError, 1)
        | b3 :: _ =>
          if isLead4 b0 b1 && isTail b2 && isTail b3 then
            ((b0.toNat - 0xF0) * 262144 + (b1.toNat - 0x80) * 4096 + (b2.toNat - 0x80) * 64 +
              (b3.toNat - 0x80), 4)
          else (runeError, 1)

/-- The code points from the `skip`-th byte on. -/
def runesFrom : Nat → Bytes → List Nat
  | _, [] => []
  | 0, b :: s => (decodeRune (b :: s)).1 :: runesFrom ((decodeRune (b :: s)).2 - 1) s
  | skip + 1, _ :: s => runesFrom skip s

/-- The code points of a string, as `for _, r := range s` yields them. -/
def runes (s : Bytes) : List Nat := runesFrom 0 s

/-- Whether the bytes from the `skip`-th on are valid UTF-8. -/
def validFrom : Nat → Bytes → Bool
  | _, [] => true
  | 0, b :: s =>
    decodeRune (b :: s) != (runeError, 1) && validFrom ((decodeRune (b :: s)).2 - 1) s
  | skip + 1, _ :: s => validFrom skip s

/-- `utf8.ValidString`. -/
def validString (s : Bytes) : Bool := validFrom 0 s

/-- `utf8.AppendRune`: the encoding of a code point, of `U+FFFD` for one that has none. -/
def encodeRune (r : Nat) : Bytes :=
  if r < 0x80 then [UInt8.ofNat r]
  else if r < 0x800 then [UInt8.ofNat (0xC0 + r / 64), UInt8.ofNat (0x80 + r % 64)]
  else if 0x10FFFF < r ∨ (0xD800 ≤ r ∧ r ≤ 0xDFFF) then [0xEF, 0xBF, 0xBD]
  else if r < 0x10000 then
    [UInt8.ofNat (0xE0 + r / 4096), UInt8.ofNat (0x80 + r / 64 % 64), UInt8.ofNat (0x80 + r % 64)]
  else
    [UInt8.ofNat (0xF0 + r / 262144), UInt8.ofNat (0x80 + r / 4096 % 64),
      UInt8.ofNat (0x80 + r / 64 % 64), UInt8.ofNat (0x80 + r % 64)]

/-! ## Reading -/

theorem decodeRune_width_pos {s : Bytes} (h : s ≠ []) : 0 < (decodeRune s).2 := by
  fun_cases decodeRune s
  · exact absurd rfl h
  all_goals simp

theorem decodeRune_width_le (s : Bytes) : (decodeRune s).2 ≤ s.length := by
  fun_cases decodeRune s <;> simp

theorem decodeRune_ascii {b : UInt8} (h : b < 0x80) (s : Bytes) :
    decodeRune (b :: s) = (b.toNat, 1) := by
  simp [decodeRune, h]

theorem runesFrom_eq (skip : Nat) (s : Bytes) : runesFrom skip s = runes (s.drop skip) := by
  induction skip generalizing s with
  | zero => rfl
  | succ skip ih =>
    cases s with
    | nil => rfl
    | cons b s => exact ih s

theorem runes_cons (b : UInt8) (s : Bytes) :
    runes (b :: s) =
      (decodeRune (b :: s)).1 :: runes ((b :: s).drop (decodeRune (b :: s)).2) := by
  have hpos := decodeRune_width_pos (List.cons_ne_nil b s)
  obtain ⟨w, hw⟩ : ∃ w, (decodeRune (b :: s)).2 = w + 1 := ⟨_, (Nat.sub_add_cancel hpos).symm⟩
  rw [runes, runesFrom, runesFrom_eq, hw]
  rfl

theorem validFrom_eq (skip : Nat) (s : Bytes) : validFrom skip s = validString (s.drop skip) := by
  induction skip generalizing s with
  | zero => rfl
  | succ skip ih =>
    cases s with
    | nil => rfl
    | cons b s => exact ih s

theorem validString_cons (b : UInt8) (s : Bytes) :
    validString (b :: s) = true ↔ decodeRune (b :: s) ≠ (runeError, 1) ∧
      validString ((b :: s).drop (decodeRune (b :: s)).2) = true := by
  have hpos := decodeRune_width_pos (List.cons_ne_nil b s)
  obtain ⟨w, hw⟩ : ∃ w, (decodeRune (b :: s)).2 = w + 1 := ⟨_, (Nat.sub_add_cancel hpos).symm⟩
  rw [validString, validFrom, validFrom_eq, hw, Bool.and_eq_true, bne_iff_ne]
  rfl

/-- A valid sequence is read the same whatever follows it. -/
theorem decodeRune_take_append {b : UInt8} {s : Bytes}
    (h : decodeRune (b :: s) ≠ (runeError, 1)) (u : Bytes) :
    decodeRune ((b :: s).take (decodeRune (b :: s)).2 ++ u) = decodeRune (b :: s) := by
  revert h
  generalize hs : b :: s = t
  fun_cases decodeRune t
  case case1 => cases hs
  case case2 b0 s1 hb => exact fun _ => decodeRune_ascii hb u
  case case4 b0 hb b1 s2 hcond =>
    intro _
    simp only [List.take_succ_cons, List.take_zero, List.cons_append, List.nil_append, decodeRune]
    rw [if_neg hb, if_pos hcond]
  case case6 b0 hb b1 hnot b2 s3 hcond =>
    intro _
    simp only [List.take_succ_cons, List.take_zero, List.cons_append, List.nil_append, decodeRune]
    rw [if_neg hb, if_neg hnot, if_pos hcond]
  case case8 b0 hb b1 hnot b2 hnot' b3 s4 hcond =>
    intro _
    simp only [List.take_succ_cons, List.take_zero, List.cons_append, List.nil_append, decodeRune]
    rw [if_neg hb, if_neg hnot, if_neg hnot', if_pos hcond]
  all_goals exact fun h => absurd rfl h

theorem runes_cons_ascii {b : UInt8} (h : b < 0x80) (s : Bytes) :
    runes (b :: s) = b.toNat :: runes s := by
  rw [runes_cons, decodeRune_ascii h]
  rfl

/-- The string is empty or starts with an ASCII byte. -/
def AsciiHead (s : Bytes) : Prop := ∀ b ∈ s.head?, b < 0x80

/-- An ASCII byte is part of no longer sequence. -/
theorem decodeRune_append {b : UInt8} {s t : Bytes} (ht : AsciiHead t) :
    decodeRune (b :: s ++ t) = decodeRune (b :: s) := by
  cases t with
  | nil => rw [List.append_nil]
  | cons c t =>
    have hc : c < 0x80 := ht c rfl
    have htail : isTail c = false := by
      unfold isTail
      grind
    have hlead3 : isLead3 b c = false := by
      unfold isLead3
      grind
    have hlead4 : isLead4 b c = false := by
      unfold isLead4
      grind
    rcases s with _ | ⟨b1, _ | ⟨b2, _ | ⟨b3, s⟩⟩⟩
    · simp only [List.cons_append, List.nil_append, decodeRune, htail, hlead3, hlead4]
      rcases t with _ | ⟨d, _ | ⟨e, t⟩⟩ <;> simp
    · simp only [List.cons_append, List.nil_append, decodeRune, htail]
      rcases t with _ | ⟨d, t⟩ <;> simp
    · simp only [List.cons_append, List.nil_append, decodeRune, htail]
      simp
    · simp only [List.cons_append, decodeRune]

/-- Induction over the code points of a string. -/
@[elab_as_elim]
theorem runes_induction {P : Bytes → Prop} (nil : P [])
    (cons : ∀ b s, P ((b :: s).drop (decodeRune (b :: s)).2) → P (b :: s)) (s : Bytes) : P s := by
  induction hn : s.length using Nat.strong_induction_on generalizing s with
  | _ n ih =>
    cases s with
    | nil => exact nil
    | cons b s =>
      have hpos := decodeRune_width_pos (List.cons_ne_nil b s)
      exact cons b s (ih _ (by rw [List.length_drop, ← hn, List.length_cons]; omega) _ rfl)

/-- **A string may be read in parts cut before an ASCII byte.** -/
theorem runes_append (s : Bytes) {t : Bytes} (ht : AsciiHead t) :
    runes (s ++ t) = runes s ++ runes t := by
  induction s using runes_induction with
  | nil => rfl
  | cons b s ih =>
    rw [List.cons_append, runes_cons, runes_cons, ← List.cons_append, decodeRune_append ht,
      List.drop_append_of_le_length (decodeRune_width_le (b :: s)), List.cons_append, ih]

/-! ## Writing back -/

theorem isTail_bounds {b : UInt8} (h : isTail b = true) : 0x80 ≤ b.toNat ∧ b.toNat ≤ 0xBF := by
  simp only [isTail, Bool.and_eq_true, decide_eq_true_eq, UInt8.le_iff_toNat_le] at h
  exact h

theorem isLead3_bounds {b0 b1 : UInt8} (h : isLead3 b0 b1 = true) :
    (0xE0 ≤ b0.toNat ∧ b0.toNat ≤ 0xEF) ∧ (0x80 ≤ b1.toNat ∧ b1.toNat ≤ 0xBF) ∧
      (b0.toNat = 0xE0 → 0xA0 ≤ b1.toNat) ∧ (b0.toNat = 0xED → b1.toNat ≤ 0x9F) := by
  simp only [isLead3, isTail, Bool.or_eq_true, Bool.and_eq_true, decide_eq_true_eq, beq_iff_eq,
    UInt8.le_iff_toNat_le, ← UInt8.toNat_inj, UInt8.reduceToNat] at h
  omega

theorem isLead4_bounds {b0 b1 : UInt8} (h : isLead4 b0 b1 = true) :
    (0xF0 ≤ b0.toNat ∧ b0.toNat ≤ 0xF4) ∧ (0x80 ≤ b1.toNat ∧ b1.toNat ≤ 0xBF) ∧
      (b0.toNat = 0xF0 → 0x90 ≤ b1.toNat) ∧ (b0.toNat = 0xF4 → b1.toNat ≤ 0x8F) := by
  simp only [isLead4, isTail, Bool.or_eq_true, Bool.and_eq_true, decide_eq_true_eq, beq_iff_eq,
    UInt8.le_iff_toNat_le, ← UInt8.toNat_inj, UInt8.reduceToNat] at h
  omega

/-- What reading one code point can do: an ASCII byte, a valid longer sequence
that encoding gives back, or an invalid byte. -/
theorem decodeRune_cases (b : UInt8) (s : Bytes) :
    (b < 0x80 ∧ decodeRune (b :: s) = (b.toNat, 1)) ∨
      (0x80 ≤ (decodeRune (b :: s)).1 ∧
        encodeRune (decodeRune (b :: s)).1 = (b :: s).take (decodeRune (b :: s)).2) ∨
      decodeRune (b :: s) = (runeError, 1) := by
  have hofNat : ∀ (n : Nat) (b : UInt8), n = b.toNat → UInt8.ofNat n = b := by
    rintro n b rfl
    exact UInt8.ofNat_toNat
  generalize hs : b :: s = t
  fun_cases decodeRune t
  case case1 => cases hs
  case case2 b0 s1 hb =>
    obtain ⟨rfl, -⟩ := List.cons.inj hs
    exact Or.inl ⟨hb, rfl⟩
  case case4 b0 hb b1 s2 hcond =>
    simp only [isTail, Bool.and_eq_true, decide_eq_true_eq, UInt8.le_iff_toNat_le,
      UInt8.reduceToNat] at hcond
    refine Or.inr (Or.inl ⟨by simp only; omega, ?_⟩)
    simp only [encodeRune, List.take_succ_cons, List.take_zero]
    rw [if_neg (by omega), if_pos (by omega), hofNat _ b0 (by omega), hofNat _ b1 (by omega)]
  case case6 b0 hb b1 hnot b2 s3 hcond =>
    obtain ⟨hlead, htail⟩ := Bool.and_eq_true_iff.mp hcond
    obtain ⟨h0, h1, hE0, hED⟩ := isLead3_bounds hlead
    have h2 := isTail_bounds htail
    refine Or.inr (Or.inl ⟨by simp only; omega, ?_⟩)
    simp only [encodeRune, List.take_succ_cons, List.take_zero]
    rw [if_neg (by omega), if_neg (by omega), if_neg (by omega), if_pos (by omega),
      hofNat _ b0 (by omega), hofNat _ b1 (by omega), hofNat _ b2 (by omega)]
  case case8 b0 hb b1 hnot b2 hnot' b3 s4 hcond =>
    simp only [Bool.and_eq_true] at hcond
    obtain ⟨⟨hlead, htail⟩, htail'⟩ := hcond
    obtain ⟨h0, h1, hF0, hF4⟩ := isLead4_bounds hlead
    have h2 := isTail_bounds htail
    have h3 := isTail_bounds htail'
    refine Or.inr (Or.inl ⟨by simp only; omega, ?_⟩)
    simp only [encodeRune, List.take_succ_cons, List.take_zero]
    rw [if_neg (by omega), if_neg (by omega), if_neg (by omega), if_neg (by omega),
      hofNat _ b0 (by omega), hofNat _ b1 (by omega), hofNat _ b2 (by omega),
      hofNat _ b3 (by omega)]
  all_goals exact Or.inr (Or.inr rfl)

/-- Reading and encoding again changes a string only where it is not UTF-8. -/
theorem flatMap_encodeRune_runes {s : Bytes} (h : ∀ r ∈ runes s, r ≠ runeError) :
    (runes s).flatMap encodeRune = s := by
  induction s using runes_induction with
  | nil => rfl
  | cons b s ih =>
    rw [runes_cons, List.forall_mem_cons] at h
    have hfirst : encodeRune (decodeRune (b :: s)).1 = (b :: s).take (decodeRune (b :: s)).2 := by
      rcases decodeRune_cases b s with ⟨hb, he⟩ | ⟨-, he⟩ | he
      · have hlt : b.toNat < 0x80 := hb
        simp [he, encodeRune, hlt]
      · exact he
      · exact absurd (congrArg Prod.fst he) h.1
    rw [runes_cons, List.flatMap_cons, ih h.2, hfirst, List.take_append_drop]

theorem encodeRune_ascii {b : UInt8} (h : b < 0x80) : encodeRune b.toNat = [b] := by
  have hlt : b.toNat < 0x80 := h
  simp [encodeRune, hlt]

theorem encodeRune_ne_nil (r : Nat) : encodeRune r ≠ [] := by
  unfold encodeRune
  repeat' split
  all_goals exact List.cons_ne_nil _ _

/-- Only an ASCII code point has an ASCII byte in its encoding. -/
theorem eq_of_mem_encodeRune {r : Nat} {b : UInt8} (hb : b < 0x80) (h : b ∈ encodeRune r) :
    r = b.toNat := by
  have hlt : b.toNat < 0x80 := hb
  have hmod : ∀ n, (0x80 ≤ n ∧ n < 0x100) → b ≠ UInt8.ofNat n := by
    rintro n hn rfl
    rw [UInt8.toNat_ofNat'] at hlt
    omega
  unfold encodeRune at h
  split at h
  · have hr := List.mem_singleton.mp h
    rw [hr, UInt8.toNat_ofNat']
    omega
  · suffices hno : b ∉ _ from absurd h hno
    repeat' split
    all_goals simp only [List.mem_cons, List.not_mem_nil, or_false, not_or]
    · exact ⟨hmod _ (by omega), hmod _ (by omega)⟩
    · exact ⟨hmod 0xEF (by omega), hmod 0xBF (by omega), hmod 0xBD (by omega)⟩
    · exact ⟨hmod _ (by omega), hmod _ (by omega), hmod _ (by omega)⟩
    · exact ⟨hmod _ (by omega), hmod _ (by omega), hmod _ (by omega), hmod _ (by omega)⟩

/-- An ASCII code point that was read is a byte of the string. -/
theorem mem_of_mem_runes {b : UInt8} (hb : b < 0x80) {s : Bytes} (h : b.toNat ∈ runes s) :
    b ∈ s := by
  induction s using runes_induction with
  | nil => cases h
  | cons c s ih =>
    have hlt : b.toNat < 0x80 := hb
    rw [runes_cons] at h
    rcases List.mem_cons.mp h with h | h
    · rcases decodeRune_cases c s with ⟨-, he⟩ | ⟨hge, -⟩ | he
      · rw [he] at h
        exact List.mem_cons.mpr (Or.inl (UInt8.toNat_inj.mp h))
      · omega
      · rw [he] at h
        simp only [runeError] at h
        omega
    · exact List.mem_of_mem_drop (ih h)

/-! ## Case -/

/-- What the Unicode data say about code points, in any of their versions. -/
structure Unicode where
  /-- The simple lower case of a code point. -/
  lower : Nat → Nat
  /-- A representative of the code points that are equal under simple case folding. -/
  fold : Nat → Nat
  /-- `strconv.IsPrint`, outside ASCII. -/
  isPrint : Nat → Bool
  lower_ascii : ∀ b : UInt8, b < 0x80 → lower b.toNat = (Bytes.lowerByte b).toNat
  fold_ascii : ∀ b : UInt8, b < 0x80 → fold b.toNat = (Bytes.lowerByte b).toNat
  /-- Two letters outside ASCII have an ASCII lower case: dotted capital I and the Kelvin sign. -/
  ascii_of_lower : ∀ r, lower r < 0x80 → r < 0x80 ∨ r = 0x130 ∨ r = 0x212A
  lower_dottedI : lower 0x130 = 105
  lower_kelvin : lower 0x212A = 107
  /-- Two letters outside ASCII fold with ASCII ones: long s and the Kelvin sign. -/
  ascii_of_fold : ∀ r, fold r < 0x80 → r < 0x80 ∨ r = 0x17F ∨ r = 0x212A
  fold_longS : fold 0x17F = 115
  fold_kelvin : fold 0x212A = 107

namespace Unicode
variable (U : Unicode)

/-- `strings.ToLower`.  A byte that is not UTF-8 becomes `U+FFFD`. -/
def toLower (s : Bytes) : Bytes := (runes s).flatMap fun r => encodeRune (U.lower r)

/-- `strings.EqualFold`. -/
def equalFold (s t : Bytes) : Bool := decide ((runes s).map U.fold = (runes t).map U.fold)

variable {U}

theorem exists_byte {r : Nat} (h : r < 0x80) : ∃ b : UInt8, b < 0x80 ∧ r = b.toNat := by
  have hr : (UInt8.ofNat r).toNat = r := UInt8.toNat_ofNat_of_lt (Nat.lt_trans h (by decide))
  exact ⟨UInt8.ofNat r, show (UInt8.ofNat r).toNat < 0x80 by omega, hr.symm⟩

theorem lowerByte_lt {b : UInt8} (h : b < 0x80) : Bytes.lowerByte b < 0x80 := by
  unfold Bytes.lowerByte
  grind

theorem toNat_lowerByte (b : UInt8) :
    (Bytes.lowerByte b).toNat =
      if 65 ≤ b.toNat ∧ b.toNat ≤ 90 then b.toNat + 32 else b.toNat := by
  have hiff : (65 ≤ b ∧ b ≤ 90) ↔ (65 ≤ b.toNat ∧ b.toNat ≤ 90) := by
    simp only [UInt8.le_iff_toNat_le]
    rfl
  unfold Bytes.lowerByte
  split
  · rename_i hupper
    have hle := (hiff.mp hupper).2
    rw [if_pos (hiff.mp hupper), UInt8.toNat_add, show (32 : UInt8).toNat = 32 from rfl]
    omega
  · rename_i hother
    rw [if_neg fun h => hother (hiff.mpr h)]

theorem toLower_append (s : Bytes) {t : Bytes} (ht : AsciiHead t) :
    U.toLower (s ++ t) = U.toLower s ++ U.toLower t := by
  rw [toLower, runes_append s ht, List.flatMap_append]
  rfl

theorem toLower_cons {b : UInt8} (h : b < 0x80) (s : Bytes) :
    U.toLower (b :: s) = Bytes.lowerByte b :: U.toLower s := by
  rw [toLower, runes_cons_ascii h, List.flatMap_cons, U.lower_ascii b h,
    encodeRune_ascii (lowerByte_lt h)]
  rfl

theorem toLower_append_cons {b : UInt8} (hb : b < 0x80) (s t : Bytes) :
    U.toLower (s ++ b :: t) = U.toLower s ++ Bytes.lowerByte b :: U.toLower t := by
  have hhead : AsciiHead (b :: t) := by
    rintro c hc
    obtain rfl := Option.some.inj hc
    exact hb
  rw [toLower_append s hhead, toLower_cons hb]

theorem toLower_of_ascii {s : Bytes} (h : ∀ b ∈ s, b < 0x80) :
    U.toLower s = Bytes.asciiLower s := by
  induction s with
  | nil => rfl
  | cons b s ih =>
    rw [toLower_cons (h b List.mem_cons_self), ih fun c hc => h c (List.mem_cons_of_mem _ hc)]
    rfl

/-- Lower-casing introduces no ASCII byte other than a lower-case letter. -/
theorem mem_of_mem_toLower {s : Bytes} {c : UInt8} (hc : c < 0x80) (hletter : ¬ (97 ≤ c ∧ c ≤ 122))
    (h : c ∈ U.toLower s) : c ∈ s := by
  obtain ⟨r, hr, hmem⟩ := List.mem_flatMap.mp h
  have hlower : U.lower r = c.toNat := eq_of_mem_encodeRune hc hmem
  have hlt : c.toNat < 0x80 := hc
  rcases U.ascii_of_lower r (by omega) with hascii | rfl | rfl
  · obtain ⟨b, hb, rfl⟩ := exists_byte hascii
    rw [U.lower_ascii b hb, UInt8.toNat_inj] at hlower
    have hbc : b = c := by
      unfold Bytes.lowerByte at hlower
      grind
    exact hbc ▸ mem_of_mem_runes hb hr
  · rw [U.lower_dottedI, ← UInt8.toNat_ofNat_of_lt (n := 105) (by decide),
      UInt8.toNat_inj] at hlower
    grind
  · rw [U.lower_kelvin, ← UInt8.toNat_ofNat_of_lt (n := 107) (by decide), UInt8.toNat_inj] at hlower
    grind

theorem runes_of_ascii {s : Bytes} (h : ∀ b ∈ s, b < 0x80) : runes s = s.map UInt8.toNat := by
  induction s with
  | nil => rfl
  | cons b s ih =>
    rw [runes_cons_ascii (h b List.mem_cons_self), ih fun c hc => h c (List.mem_cons_of_mem _ hc)]
    rfl

/-- Where both the lower case and the folding of a code point are ASCII, they are the same. -/
theorem lower_eq_fold {r : Nat} (hlower : U.lower r < 0x80) (hfold : U.fold r < 0x80) :
    U.lower r = U.fold r := by
  rcases U.ascii_of_lower r hlower with hascii | rfl | rfl
  · obtain ⟨b, hb, rfl⟩ := exists_byte hascii
    rw [U.lower_ascii b hb, U.fold_ascii b hb]
  · rcases U.ascii_of_fold _ hfold with h | h | h <;> omega
  · rw [U.lower_kelvin, U.fold_kelvin]

/-- A string with an ASCII lower case that folds to an ASCII string lower-cases to it too. -/
theorem toLower_eq_of_equalFold {s t : Bytes} (hs : ∀ b ∈ U.toLower s, b < 0x80)
    (ht : ∀ b ∈ t, b < 0x80) (h : U.equalFold s t = true) :
    U.toLower s = Bytes.asciiLower t := by
  have general : ∀ (rs : List Nat) (t : Bytes),
      (∀ b ∈ rs.flatMap (fun r => encodeRune (U.lower r)), b < 0x80) → (∀ b ∈ t, b < 0x80) →
      rs.map U.fold = (t.map UInt8.toNat).map U.fold →
      rs.flatMap (fun r => encodeRune (U.lower r)) = t.map Bytes.lowerByte := by
    intro rs
    induction rs with
    | nil =>
      intro t _ _ he
      rw [List.map_nil, eq_comm, List.map_map, List.map_eq_nil_iff] at he
      rw [he]
      rfl
    | cons r rs ih =>
      intro t hlow ht he
      cases t with
      | nil => cases he
      | cons b t =>
        obtain ⟨hhead, htail⟩ := List.cons.inj he
        have hb := ht b List.mem_cons_self
        rw [U.fold_ascii b hb] at hhead
        have hfold : U.fold r < 0x80 := hhead ▸ lowerByte_lt hb
        -- Were the lower case not ASCII, neither would its encoding be.
        have hlower : U.lower r < 0x80 := by
          by_contra hge
          obtain ⟨c, hc⟩ : ∃ c, c ∈ encodeRune (U.lower r) :=
            List.exists_mem_of_ne_nil _ (encodeRune_ne_nil _)
          have hclt := hlow c (by
            rw [List.flatMap_cons]
            exact List.mem_append_left _ hc)
          exact hge (eq_of_mem_encodeRune hclt hc ▸ hclt)
        rw [List.flatMap_cons, List.map_cons, lower_eq_fold hlower hfold, hhead,
          encodeRune_ascii (lowerByte_lt hb),
          ih t (fun c hc => hlow c (by rw [List.flatMap_cons]; exact List.mem_append_right _ hc))
            (fun c hc => ht c (List.mem_cons_of_mem _ hc)) htail]
        rfl
  refine general (runes s) t hs ht ?_
  rw [← runes_of_ascii ht]
  exact of_decide_eq_true h

theorem asciiLower_ascii {s : Bytes} (hs : ∀ b ∈ s, b < 0x80) :
    ∀ b ∈ Bytes.asciiLower s, b < 0x80 := by
  intro b hb
  obtain ⟨c, hc, rfl⟩ := List.mem_map.mp hb
  exact lowerByte_lt (hs c hc)

theorem map_fold_of_ascii {s : Bytes} (hs : ∀ b ∈ s, b < 0x80) :
    (runes s).map U.fold = (Bytes.asciiLower s).map UInt8.toNat := by
  rw [runes_of_ascii hs, Bytes.asciiLower, List.map_map, List.map_map]
  exact List.map_congr_left fun b hb => U.fold_ascii b (hs b hb)

/-- Strings equal up to ASCII case fold alike. -/
theorem equalFold_of_asciiLower {s t : Bytes} (ht : ∀ b ∈ t, b < 0x80)
    (h : Bytes.asciiLower s = Bytes.asciiLower t) : U.equalFold s t = true := by
  have hs : ∀ b ∈ s, b < 0x80 := by
    intro b hb
    have hmem : Bytes.lowerByte b ∈ Bytes.asciiLower t := h ▸ List.mem_map_of_mem hb
    obtain ⟨c, hc, he⟩ := List.mem_map.mp hmem
    have hlt := lowerByte_lt (ht c hc)
    rw [he] at hlt
    unfold Bytes.lowerByte at hlt
    grind
  exact decide_eq_true (by rw [map_fold_of_ascii hs, map_fold_of_ascii ht, h])

/-- A letter in lower case if it is ASCII; a long s is an s, and the Kelvin sign a k. -/
def plainLetter (r : Nat) : Nat :=
  if r = 0x17F then 115 else if r = 0x212A then 107 else if 65 ≤ r ∧ r ≤ 90 then r + 32 else r

theorem fold_eq_iff {r n : Nat} (hn : n < 0x80) : U.fold r = n ↔ plainLetter r = n := by
  have hascii : ∀ b : UInt8, b < 0x80 → U.fold b.toNat = plainLetter b.toNat := by
    intro b hb
    have hlt : b.toNat < 0x80 := hb
    rw [U.fold_ascii b hb, toNat_lowerByte, plainLetter]
    grind
  have hsame : (r < 0x80 ∨ r = 0x17F ∨ r = 0x212A) → U.fold r = plainLetter r := by
    rintro (h | rfl | rfl)
    · obtain ⟨b, hb, rfl⟩ := exists_byte h
      exact hascii b hb
    · exact U.fold_longS
    · exact U.fold_kelvin
  constructor
  · rintro rfl
    exact (hsame (U.ascii_of_fold r hn)).symm
  · rintro rfl
    refine hsame ?_
    unfold plainLetter at hn
    split at hn
    · exact .inr (.inl ‹_›)
    · split at hn
      · exact .inr (.inr ‹_›)
      · split at hn <;> exact .inl (by omega)

/-- What folds like an ASCII string is spelled like it. -/
theorem equalFold_iff {s t : Bytes} (ht : ∀ b ∈ t, b < 0x80) :
    U.equalFold s t = true ↔
      (runes s).map plainLetter = (Bytes.asciiLower t).map UInt8.toNat := by
  have hmap : ∀ (rs : List Nat) (l : Bytes), (∀ b ∈ l, b < 0x80) →
      (rs.map U.fold = l.map UInt8.toNat ↔ rs.map plainLetter = l.map UInt8.toNat) := by
    intro rs
    induction rs with
    | nil => exact fun l _ => Iff.rfl
    | cons r rs ih =>
      intro l hl
      cases l with
      | nil => simp
      | cons b l =>
        rw [List.forall_mem_cons] at hl
        rw [List.map_cons, List.map_cons, List.map_cons, List.cons.injEq, List.cons.injEq,
          fold_eq_iff (show b.toNat < 0x80 from hl.1), ih l hl.2]
  rw [equalFold, decide_eq_true_iff, map_fold_of_ascii ht, hmap]
  exact asciiLower_ascii ht

/-- The case pairs of ASCII and Latin-1, with the letters that pair with ASCII. -/
def latin1 : Unicode where
  lower r :=
    if r = 0x130 then 105 else if r = 0x212A then 107
    else if (65 ≤ r ∧ r ≤ 90) ∨ (0xC0 ≤ r ∧ r ≤ 0xDE ∧ r ≠ 0xD7) then r + 32 else r
  fold r :=
    if r = 0x17F then 115 else if r = 0x212A then 107
    else if (65 ≤ r ∧ r ≤ 90) ∨ (0xC0 ≤ r ∧ r ≤ 0xDE ∧ r ≠ 0xD7) then r + 32 else r
  isPrint r := decide (0xA1 ≤ r ∧ r ≠ 0xAD)
  lower_ascii b hb := by
    rw [toNat_lowerByte]
    have hlt : b.toNat < 0x80 := hb
    grind
  fold_ascii b hb := by
    rw [toNat_lowerByte]
    have hlt : b.toNat < 0x80 := hb
    grind
  ascii_of_lower r h := by grind
  lower_dottedI := by decide
  lower_kelvin := by decide
  ascii_of_fold r h := by grind
  fold_longS := by decide
  fold_kelvin := by decide

end Unicode

/-! ## Quoting -/

/-- The last `n` hexadecimal digits of a number. -/
def hex (n : Nat) (r : Nat) : Bytes :=
  (List.range n).reverse.map fun i =>
    let d := r / 16 ^ i % 16
    UInt8.ofNat (if d < 10 then 48 + d else 87 + d)

/-- A code point inside quotes of the kind `q`, as `strconv` escapes it. -/
def escapeRune (U : Unicode) (q r : Nat) : Bytes :=
  if r = q ∨ r = 92 then 92 :: encodeRune r
  else if (0x20 ≤ r ∧ r < 0x7F) ∨ (0x80 ≤ r ∧ U.isPrint r) then encodeRune r
  else if r = 7 then Bytes.lit "\\a"
  else if r = 8 then Bytes.lit "\\b"
  else if r = 12 then Bytes.lit "\\f"
  else if r = 10 then Bytes.lit "\\n"
  else if r = 13 then Bytes.lit "\\r"
  else if r = 9 then Bytes.lit "\\t"
  else if r = 11 then Bytes.lit "\\v"
  else if r < 0x20 ∨ r = 0x7F then Bytes.lit "\\x" ++ hex 2 r
  else if r < 0x10000 then Bytes.lit "\\u" ++ hex 4 r
  else Bytes.lit "\\U" ++ hex 8 r

def quoteFrom (U : Unicode) : Nat → Bytes → Bytes
  | _, [] => []
  | 0, b :: s =>
    let p := decodeRune (b :: s)
    (if p = (runeError, 1) then Bytes.lit "\\x" ++ hex 2 b.toNat else escapeRune U 34 p.1) ++
      quoteFrom U (p.2 - 1) s
  | skip + 1, _ :: s => quoteFrom U skip s

/-- The verb `%q` for a string. -/
def quote (U : Unicode) (s : Bytes) : Bytes := [34] ++ quoteFrom U 0 s ++ [34]

/-- The verb `%q` for a byte. -/
def quoteByte (U : Unicode) (b : UInt8) : Bytes := [39] ++ escapeRune U 39 b.toNat ++ [39]

/-! ## White space -/

/-- The code points of `unicode.IsSpace`, encoded. -/
def spaces : List Bytes :=
  [[9], [10], [11], [12], [13], [32], [0xC2, 0x85], [0xC2, 0xA0], [0xE1, 0x9A, 0x80],
    [0xE2, 0x80, 0x80], [0xE2, 0x80, 0x81], [0xE2, 0x80, 0x82], [0xE2, 0x80, 0x83],
    [0xE2, 0x80, 0x84], [0xE2, 0x80, 0x85], [0xE2, 0x80, 0x86], [0xE2, 0x80, 0x87],
    [0xE2, 0x80, 0x88], [0xE2, 0x80, 0x89], [0xE2, 0x80, 0x8A], [0xE2, 0x80, 0xA8],
    [0xE2, 0x80, 0xA9], [0xE2, 0x80, 0xAF], [0xE2, 0x81, 0x9F], [0xE3, 0x80, 0x80]]

/-- Drop leading `words` as long as there is one, at most `n` times. -/
def stripWords (words : List Bytes) : Nat → Bytes → Bytes
  | 0, s => s
  | n + 1, s =>
    match words.find? (fun w => w.isPrefixOf s) with
    | some w => stripWords words n (s.drop w.length)
    | none => s

/-- `strings.TrimSpace`. -/
def trimSpace (s : Bytes) : Bytes :=
  let t := stripWords spaces s.length s
  (stripWords (spaces.map List.reverse) t.length t.reverse).reverse

theorem stripWords_eq_self {words : List Bytes} {s : Bytes} (h : ∀ w ∈ words, ¬ w <+: s) (n : Nat) :
    stripWords words n s = s := by
  cases n with
  | zero => rfl
  | succ n =>
    have hnone : words.find? (fun w => w.isPrefixOf s) = none := by
      rw [List.find?_eq_none]
      intro w hw
      rw [List.isPrefixOf_iff_prefix]
      exact h w hw
    rw [stripWords, hnone]

theorem stripWords_suffix (words : List Bytes) (n : Nat) (s : Bytes) :
    stripWords words n s <:+ s := by
  induction n generalizing s with
  | zero => exact List.suffix_rfl
  | succ n ih =>
    rw [stripWords]
    split
    · exact (ih _).trans (List.drop_suffix _ _)
    · exact List.suffix_rfl

theorem mem_of_mem_trimSpace {s : Bytes} {c : UInt8} (h : c ∈ trimSpace s) : c ∈ s := by
  have hrev := (stripWords_suffix _ _ _).subset (List.mem_reverse.mp h)
  exact (stripWords_suffix _ _ _).subset (List.mem_reverse.mp hrev)

/-- Words without the byte `c` are stripped only before its first occurrence. -/
theorem stripWords_append {words : List Bytes} {c : UInt8} (hc : ∀ w ∈ words, c ∉ w) (n : Nat)
    (a b : Bytes) : ∃ a', stripWords words n (a ++ c :: b) = a' ++ c :: b ∧ a' <:+ a := by
  induction n generalizing a with
  | zero => exact ⟨a, rfl, List.suffix_rfl⟩
  | succ n ih =>
    rw [stripWords]
    split
    · rename_i w hfind
      obtain ⟨t, ht⟩ : w <+: a ++ c :: b := by
        have hfound := List.find?_some hfind
        exact List.isPrefixOf_iff_prefix.mp hfound
      obtain ⟨a₁, rfl, -⟩ :=
        Bytes.append_eq_append_cons ht (hc w (List.mem_of_find?_eq_some hfind))
      rw [List.append_assoc, List.drop_left]
      obtain ⟨a', he, hsuf⟩ := ih a₁
      exact ⟨a', he, hsuf.trans (List.suffix_append _ _)⟩
    · exact ⟨a, rfl, List.suffix_rfl⟩

/-- Trimming around a byte `c` that no space contains, in a string that ends in no space. -/
theorem trimSpace_append {c : UInt8} (hc : ∀ w ∈ spaces, c ∉ w) {a b : Bytes}
    (hend : ∀ w ∈ spaces, ¬ w <:+ a ++ c :: b) :
    ∃ a', trimSpace (a ++ c :: b) = a' ++ c :: b ∧ a' <:+ a := by
  obtain ⟨a', he, hsuf⟩ := stripWords_append hc (a ++ c :: b).length a b
  refine ⟨a', ?_, hsuf⟩
  rw [trimSpace, he, stripWords_eq_self, List.reverse_reverse]
  intro w hw hpre
  obtain ⟨v, hv, rfl⟩ := List.mem_map.mp hw
  rw [List.reverse_prefix] at hpre
  obtain ⟨p, rfl⟩ := hsuf
  rw [List.append_assoc] at hend
  exact hend v hv (hpre.trans (List.suffix_append _ _))

/-- White space and nothing else. -/
def IsWhite (w : Bytes) : Prop := ∃ ws : List Bytes, (∀ v ∈ ws, v ∈ spaces) ∧ w = ws.flatten

/-- The string does not start with white space. -/
def StartsDark (s : Bytes) : Prop := ∀ v ∈ spaces, ¬ v <+: s

theorem spaces_ne_nil : ∀ v ∈ spaces, v ≠ [] := by decide

/-- No space is the beginning of another. -/
theorem eq_of_prefix_spaces {s v w : Bytes} (hv : v ∈ spaces) (hw : w ∈ spaces) (hvs : v <+: s)
    (hws : w <+: s) : v = w := by
  have hfree : ∀ v ∈ spaces, ∀ w ∈ spaces, v <+: w → v = w := by decide
  rcases List.prefix_or_prefix_of_prefix hvs hws with h | h
  · exact hfree v hv w hw h
  · exact (hfree w hw v hv h).symm

/-- What is stripped is white space, and all there is in front. -/
theorem stripWords_spaces {n : Nat} {s : Bytes} (hn : s.length ≤ n) :
    ∃ w, IsWhite w ∧ s = w ++ stripWords spaces n s ∧ StartsDark (stripWords spaces n s) := by
  induction n generalizing s with
  | zero =>
    obtain rfl : s = [] := List.length_eq_zero_iff.mp (Nat.le_zero.mp hn)
    exact ⟨[], ⟨[], by simp, rfl⟩, rfl, fun v hv hpre =>
      spaces_ne_nil v hv (List.prefix_nil.mp hpre)⟩
  | succ n ih =>
    rw [stripWords]
    split
    · rename_i v hfind
      have hv := List.mem_of_find?_eq_some hfind
      obtain ⟨t, rfl⟩ : v <+: s := by
        have hfound := List.find?_some hfind
        exact List.isPrefixOf_iff_prefix.mp hfound
      have hpos := List.length_pos_of_ne_nil (spaces_ne_nil v hv)
      rw [List.length_append] at hn
      obtain ⟨w, ⟨ws, hws, rfl⟩, ht, hdark⟩ := ih (s := t) (by omega)
      rw [List.drop_left]
      exact ⟨v ++ ws.flatten, ⟨v :: ws, List.forall_mem_cons.mpr ⟨hv, hws⟩, rfl⟩,
        by rw [List.append_assoc, ← ht], hdark⟩
    · rename_i hnone
      refine ⟨[], ⟨[], by simp, rfl⟩, rfl, fun v hv hpre => ?_⟩
      exact List.find?_eq_none.mp hnone v hv (List.isPrefixOf_iff_prefix.mpr hpre)

theorem stripWords_white {ws : List Bytes} (hws : ∀ v ∈ ws, v ∈ spaces) {s : Bytes}
    (hs : StartsDark s) {n : Nat} (hn : ws.length ≤ n) :
    stripWords spaces n (ws.flatten ++ s) = s := by
  induction ws generalizing n with
  | nil => exact stripWords_eq_self hs n
  | cons v ws ih =>
    obtain ⟨hv, hws⟩ := List.forall_mem_cons.mp hws
    cases n with
    | zero => simp at hn
    | succ n =>
      rw [List.flatten_cons, List.append_assoc, stripWords]
      have hpre : v <+: v ++ (ws.flatten ++ s) := List.prefix_append _ _
      have hfind : spaces.find? (fun w => w.isPrefixOf (v ++ (ws.flatten ++ s))) = some v := by
        cases hf : spaces.find? (fun w => w.isPrefixOf (v ++ (ws.flatten ++ s))) with
        | none =>
          exact absurd (List.isPrefixOf_iff_prefix.mpr hpre) (List.find?_eq_none.mp hf v hv)
        | some w =>
          have hfound := List.find?_some hf
          rw [eq_of_prefix_spaces (List.mem_of_find?_eq_some hf) hv
            (List.isPrefixOf_iff_prefix.mp hfound) hpre]
      rw [hfind]
      simp only [List.drop_left]
      exact ih hws (Nat.le_of_succ_le_succ hn)

/-- A string that ends in no space is only stripped in front. -/
theorem trimSpace_eq_stripWords {s : Bytes} (hend : ∀ w ∈ spaces, ¬ w <:+ s) :
    trimSpace s = stripWords spaces s.length s := by
  obtain ⟨w, -, hs, -⟩ := stripWords_spaces (Nat.le_refl s.length)
  rw [trimSpace, stripWords_eq_self, List.reverse_reverse]
  intro v hv hpre
  obtain ⟨u, hu, rfl⟩ := List.mem_map.mp hv
  rw [List.reverse_prefix] at hpre
  exact hend u hu (hpre.trans ⟨w, hs.symm⟩)

theorem startsDark_trimSpace (s : Bytes) : StartsDark (trimSpace s) := by
  obtain ⟨w, -, -, hdark⟩ := stripWords_spaces (Nat.le_refl s.length)
  intro v hv hpre
  have hfront : trimSpace s <+: stripWords spaces s.length s := by
    rw [← List.reverse_suffix, trimSpace, List.reverse_reverse]
    exact stripWords_suffix _ _ _
  exact hdark v hv (hpre.trans hfront)

/-- **Trimming a string that ends in no space** removes the white space in front. -/
theorem trimSpace_spec {s : Bytes} (hend : ∀ w ∈ spaces, ¬ w <:+ s) :
    ∃ w, IsWhite w ∧ s = w ++ trimSpace s ∧ StartsDark (trimSpace s) := by
  rw [trimSpace_eq_stripWords hend]
  exact stripWords_spaces (Nat.le_refl _)

/-- And it is determined by that. -/
theorem trimSpace_white_append {w s : Bytes} (hw : IsWhite w) (hs : StartsDark s)
    (hend : ∀ v ∈ spaces, ¬ v <:+ w ++ s) : trimSpace (w ++ s) = s := by
  rw [trimSpace_eq_stripWords hend]
  obtain ⟨ws, hws, rfl⟩ := hw
  refine stripWords_white hws hs ?_
  have hlength : ws.length ≤ ws.flatten.length := by
    clear hend
    induction ws with
    | nil => exact Nat.le_refl _
    | cons v ws ih =>
      obtain ⟨hv, hws⟩ := List.forall_mem_cons.mp hws
      have hpos := List.length_pos_of_ne_nil (spaces_ne_nil v hv)
      have := ih hws
      simp only [List.flatten_cons, List.length_append, List.length_cons]
      omega
  rw [List.length_append]
  omega

/-! ## Encodings apart -/

/-- How long an encoding is, by its first byte. -/
def leadWidth (b : UInt8) : Nat := if b < 0x80 then 1 else if b < 0xE0 then 2 else
  if b < 0xF0 then 3 else 4

theorem length_encodeRune {r : Nat} {b : UInt8} (h : b ∈ (encodeRune r).head?) :
    (encodeRune r).length = leadWidth b := by
  have hofNat : ∀ n, n < 256 → (UInt8.ofNat n).toNat = n := fun n hn =>
    UInt8.toNat_ofNat_of_lt hn
  unfold leadWidth
  simp only [UInt8.lt_iff_toNat_lt, UInt8.reduceToNat]
  unfold encodeRune at h ⊢
  split at h
  · obtain rfl := Option.some.inj h
    have := hofNat r (by omega)
    rw [if_pos (by omega), if_pos (by omega)]
    rfl
  · rw [if_neg (by omega)]
    split at h
    · obtain rfl := Option.some.inj h
      have := hofNat (0xC0 + r / 64) (by omega)
      rw [if_pos (by omega), if_neg (by omega), if_pos (by omega)]
      rfl
    · rw [if_neg (by omega)]
      split at h
      · obtain rfl := Option.some.inj h
        rename_i hinvalid
        rw [if_pos hinvalid]
        rfl
      · rename_i hvalid
        rw [if_neg hvalid]
        split at h
        · obtain rfl := Option.some.inj h
          have := hofNat (0xE0 + r / 4096) (by omega)
          rw [if_pos (by omega), if_neg (by omega), if_neg (by omega), if_pos (by omega)]
          rfl
        · obtain rfl := Option.some.inj h
          have := hofNat (0xF0 + r / 262144) (by omega)
          rw [if_neg (by omega), if_neg (by omega), if_neg (by omega), if_neg (by omega)]
          rfl

/-- **Encodings read apart**: strings of them are equal only rune for rune. -/
theorem forall₂_of_flatMap_encodeRune {f : Nat → Nat} {rs ts : List Nat}
    (h : rs.flatMap (fun r => encodeRune (f r)) = ts.flatMap fun r => encodeRune (f r)) :
    List.Forall₂ (fun r t => encodeRune (f r) = encodeRune (f t)) rs ts := by
  induction rs generalizing ts with
  | nil =>
    cases ts with
    | nil => exact .nil
    | cons t ts =>
      rw [List.flatMap_nil, List.flatMap_cons, eq_comm, List.append_eq_nil_iff] at h
      exact absurd h.1 (encodeRune_ne_nil _)
  | cons r rs ih =>
    cases ts with
    | nil =>
      rw [List.flatMap_nil, List.flatMap_cons, List.append_eq_nil_iff] at h
      exact absurd h.1 (encodeRune_ne_nil _)
    | cons t ts =>
      rw [List.flatMap_cons, List.flatMap_cons] at h
      obtain ⟨b, x, hx⟩ := List.exists_cons_of_ne_nil (encodeRune_ne_nil (f r))
      obtain ⟨c, y, hy⟩ := List.exists_cons_of_ne_nil (encodeRune_ne_nil (f t))
      have hbc : b = c := by
        rw [hx, hy] at h
        exact (List.cons.inj h).1
      have hlength : (encodeRune (f r)).length = (encodeRune (f t)).length := by
        rw [length_encodeRune (b := b) (by rw [hx]; rfl), hbc,
          length_encodeRune (b := c) (by rw [hy]; rfl)]
      obtain ⟨hhead, htail⟩ := List.append_inj h hlength
      exact .cons hhead (ih htail)

/-! ## Lower case and folding -/

namespace Unicode
variable {U : Unicode}

/-- The places of the dotted capital I, whose lower case is ASCII and whose folding is not. -/
def dottedI (s : Bytes) : List Bool := (runes s).map (· == 0x130)

/-- Where the lower case of a string is ASCII, so is that of its runes. -/
theorem lower_lt {s : Bytes} (hs : ∀ b ∈ U.toLower s, b < 0x80) : ∀ r ∈ runes s,
    U.lower r < 0x80 := by
  intro r hr
  obtain ⟨c, hc⟩ := List.exists_mem_of_ne_nil _ (encodeRune_ne_nil (U.lower r))
  have hlt := hs c (List.mem_flatMap.mpr ⟨r, hr, hc⟩)
  exact eq_of_mem_encodeRune hlt hc ▸ hlt

/-- The lower case of an ASCII byte that was read. -/
theorem lowerByte_mem_toLower {s : Bytes} {b : UInt8} (hb : b < 0x80) (h : b.toNat ∈ runes s) :
    Bytes.lowerByte b ∈ U.toLower s := by
  refine List.mem_flatMap.mpr ⟨b.toNat, h, ?_⟩
  rw [U.lower_ascii b hb, encodeRune_ascii (lowerByte_lt hb)]
  exact List.mem_singleton_self _

theorem fold_of_lower {r : Nat} (hlower : U.lower r < 0x80) :
    if r = 0x130 then 0x80 ≤ U.fold r else U.fold r = U.lower r := by
  split
  · rename_i hr
    by_contra hfold
    rcases U.ascii_of_fold r (by omega) with h | h | h <;> omega
  · rcases U.ascii_of_lower r hlower with hascii | rfl | rfl
    · obtain ⟨b, hb, rfl⟩ := exists_byte hascii
      rw [U.lower_ascii b hb, U.fold_ascii b hb]
    · contradiction
    · rw [U.lower_kelvin, U.fold_kelvin]

/-- Runes with the same lower case in ASCII fold alike, except for the dotted capital I. -/
theorem fold_eq_fold_iff {r t : Nat} (hlower : U.lower r < 0x80) (hsame : U.lower r = U.lower t) :
    U.fold r = U.fold t ↔ (r == 0x130) = (t == 0x130) := by
  have hr := fold_of_lower hlower
  have ht := fold_of_lower (hsame ▸ hlower)
  by_cases hdr : r = 0x130 <;> by_cases hdt : t = 0x130
  · simp [hdr, hdt]
  · rw [if_pos hdr] at hr
    rw [if_neg hdt] at ht
    refine iff_of_false (by omega) ?_
    simp [hdr, hdt]
  · rw [if_neg hdr] at hr
    rw [if_pos hdt] at ht
    refine iff_of_false (by omega) ?_
    simp [hdr, hdt]
  · rw [if_neg hdr] at hr
    rw [if_neg hdt] at ht
    simp only [hr, ht, hsame, beq_eq_false_iff_ne.mpr hdr, beq_eq_false_iff_ne.mpr hdt]

/-- **Strings with the same lower case in ASCII fold alike** if they have the dotted
capital I at the same places. -/
theorem equalFold_iff_dottedI {s t : Bytes} (hs : ∀ b ∈ U.toLower s, b < 0x80)
    (hsame : U.toLower s = U.toLower t) :
    U.equalFold s t = true ↔ dottedI s = dottedI t := by
  have hrunes := lower_lt hs
  have halike := forall₂_of_flatMap_encodeRune hsame
  rw [equalFold, decide_eq_true_iff, dottedI, dottedI]
  generalize runes s = rs at hrunes halike ⊢
  generalize runes t = ts at halike ⊢
  induction halike with
  | nil => simp
  | @cons r t rs ts hhead _ ih =>
    have hr := hrunes r List.mem_cons_self
    -- the encoding of an ASCII rune is the rune
    obtain ⟨b, hb, hlower⟩ := exists_byte hr
    rw [hlower, encodeRune_ascii hb] at hhead
    have hmem : b ∈ encodeRune (U.lower t) := hhead ▸ List.mem_singleton_self b
    have ht : U.lower r = U.lower t := by rw [hlower, eq_of_mem_encodeRune hb hmem]
    have hrest := ih fun r' hr' => hrunes r' (List.mem_cons_of_mem _ hr')
    rw [List.map_cons, List.map_cons, List.map_cons, List.map_cons, List.cons.injEq,
      List.cons.injEq]
    exact and_congr (fold_eq_fold_iff hr ht) hrest

end Unicode
end Runes
