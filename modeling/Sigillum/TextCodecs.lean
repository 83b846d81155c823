import Sigillum.EncodedWords

/-! # Numerals, hexadecimal and unpadded Base64

Text forms of numbers and bytes, as Go's `strconv`, `encoding/hex` and
`encoding/base64` read and write them.  Reading is partial; what is read tells
which bytes the text is made of, and what was written is read back.
-/
namespace TextCodecs
open Bytes EncodedWords

/-! ## Decimal numerals -/

def isDigit (c : UInt8) : Bool := 48 ≤ c && c ≤ 57

/-- The value of a string of digits. -/
def decimal (s : Bytes) : Nat := s.foldl (fun n c => 10 * n + (c.toNat - 48)) 0

/-- `strconv.ParseUint` in base 10: nothing but digits, and a value of `bits` bits. -/
def parseUint (bits : Nat) (s : Bytes) : Option Nat :=
  if s ≠ [] ∧ s.all isDigit ∧ decimal s < 2 ^ bits then some (decimal s) else none

theorem isDigit_of_parseUint {bits n : Nat} {s : Bytes} (h : parseUint bits s = some n) :
    ∀ c ∈ s, isDigit c = true := by
  unfold parseUint at h
  split at h
  · rename_i hs
    exact List.all_eq_true.mp hs.2.1
  · cases h

theorem lt_of_parseUint {bits n : Nat} {s : Bytes} (h : parseUint bits s = some n) :
    n < 2 ^ bits := by
  unfold parseUint at h
  split at h
  · rename_i hs
    rw [← Option.some.inj h]
    exact hs.2.2
  · cases h

/-- A numeral is written in digits. -/
theorem isDigit_numeral (n : Nat) : ∀ c ∈ lit (toString n), isDigit c = true := by
  intro c hc
  rw [lit, Nat.toString_eq_repr, Nat.toList_repr] at hc
  obtain ⟨d, hd, rfl⟩ := List.mem_map.mp hc
  have hdigit := Nat.isDigit_of_mem_toDigits (by decide) (by decide) hd
  have hbounds : 48 ≤ d.toNat ∧ d.toNat ≤ 57 := Char.isDigit_iff_toNat.mp hdigit
  have htoNat : d.toUInt8.toNat = d.toNat := by
    change d.toNat % 256 = d.toNat
    omega
  simp only [isDigit, Bool.and_eq_true, decide_eq_true_eq, UInt8.le_iff_toNat_le, htoNat]
  exact hbounds

theorem decimal_numeral (n : Nat) : decimal (lit (toString n)) = n := by
  have hfold : ∀ (ds : List Char) (acc : Nat), (∀ d ∈ ds, d.isDigit = true) →
      (ds.map Char.toUInt8).foldl (fun n c => 10 * n + (c.toNat - 48)) acc =
        Nat.ofDigitChars 10 ds acc := by
    intro ds
    induction ds with
    | nil => exact fun _ _ => rfl
    | cons d ds ih =>
      intro acc hds
      obtain ⟨hd, hds⟩ := List.forall_mem_cons.mp hds
      have hbounds : 48 ≤ d.toNat ∧ d.toNat ≤ 57 := Char.isDigit_iff_toNat.mp hd
      have htoNat : d.toUInt8.toNat = d.toNat := by
        change d.toNat % 256 = d.toNat
        omega
      rw [List.map_cons, List.foldl_cons, ih _ hds, Nat.ofDigitChars_cons, htoNat]
      rfl
  rw [decimal, lit, Nat.toString_eq_repr, Nat.toList_repr,
    hfold _ _ fun d hd => Nat.isDigit_of_mem_toDigits (by decide) (by decide) hd]
  exact Nat.ofDigitChars_toDigits (by decide) (by decide)

/-- **A numeral is read back.** -/
theorem parseUint_numeral {bits n : Nat} (h : n < 2 ^ bits) :
    parseUint bits (lit (toString n)) = some n := by
  have hne : lit (toString n) ≠ [] := by
    rw [lit, Nat.toString_eq_repr, Nat.toList_repr, ne_eq, List.map_eq_nil_iff]
    exact Nat.toDigits_ne_nil
  have hdigits := List.all_eq_true.mpr (isDigit_numeral n)
  rw [parseUint, decimal_numeral, if_pos ⟨hne, hdigits, h⟩]

/-- `strconv.ParseInt` in base 10: a sign or none, and a value of `bits` bits. -/
def parseInt (bits : Nat) : Bytes → Option Int
  | 45 :: s => ((parseUint bits s).filter fun n => n ≤ 2 ^ (bits - 1)).map fun n => -(n : Int)
  | 43 :: s => ((parseUint bits s).filter fun n => n < 2 ^ (bits - 1)).map fun n => (n : Int)
  | s => ((parseUint bits s).filter fun n => n < 2 ^ (bits - 1)).map fun n => (n : Int)

/-! ## Hexadecimal -/

def lowerHex (d : Nat) : UInt8 := UInt8.ofNat (if d < 10 then 48 + d else 87 + d)

/-- `hex.EncodeToString`. -/
def hexEncode (s : Bytes) : Bytes :=
  s.flatMap fun c => [lowerHex (c.toNat / 16), lowerHex (c.toNat % 16)]

/-- `hex.DecodeString`, which also takes upper-case digits. -/
def hexDecode : Bytes → Option Bytes
  | [] => some []
  | [_] => none
  | h :: l :: s => do
    let c := (← fromHex h) * 16 + (← fromHex l)
    let rest ← hexDecode s
    some (c :: rest)

theorem fromHex_lowerHex {d : Nat} (h : d < 16) : fromHex (lowerHex d) = some (UInt8.ofNat d) := by
  have hall : ∀ d < 16, fromHex (lowerHex d) = some (UInt8.ofNat d) := by decide
  exact hall d h

theorem ofNat_halves (c : UInt8) :
    UInt8.ofNat (c.toNat / 16) * 16 + UInt8.ofNat (c.toNat % 16) = c := by
  have hlt := c.toNat_lt
  have hsixteen : (16 : UInt8).toNat = 16 := rfl
  apply UInt8.toNat_inj.mp
  simp only [UInt8.toNat_add, UInt8.toNat_mul, UInt8.toNat_ofNat', hsixteen]
  omega

@[simp] theorem hexDecode_hexEncode (s : Bytes) : hexDecode (hexEncode s) = some s := by
  induction s with
  | nil => rfl
  | cons c s ih =>
    have hlt := c.toNat_lt
    have hcons : hexEncode (c :: s) =
        lowerHex (c.toNat / 16) :: lowerHex (c.toNat % 16) :: hexEncode s := rfl
    rw [hcons, hexDecode, fromHex_lowerHex (by omega), fromHex_lowerHex (by omega), ih]
    simp [ofNat_halves]

@[simp] theorem length_hexEncode (s : Bytes) : (hexEncode s).length = 2 * s.length := by
  induction s with
  | nil => rfl
  | cons c s ih =>
    have hcons : hexEncode (c :: s) =
        lowerHex (c.toNat / 16) :: lowerHex (c.toNat % 16) :: hexEncode s := rfl
    simp only [hcons, List.length_cons, ih]
    omega

def isLowerHexDigit (c : UInt8) : Bool := (48 ≤ c && c ≤ 57) || (97 ≤ c && c ≤ 102)

theorem isLowerHexDigit_of_mem_hexEncode {s : Bytes} :
    ∀ c ∈ hexEncode s, isLowerHexDigit c = true := by
  have hdigit : ∀ d < 16, isLowerHexDigit (lowerHex d) = true := by decide
  intro c hc
  obtain ⟨b, -, hc⟩ := List.mem_flatMap.mp hc
  have hb := b.toNat_lt
  simp only [List.mem_cons, List.not_mem_nil, or_false] at hc
  rcases hc with rfl | rfl
  · exact hdigit _ (by omega)
  · exact hdigit _ (by omega)

theorem exists_lowerHex {c : UInt8} (h : isLowerHexDigit c = true) : ∃ d < 16, lowerHex d = c := by
  have hall : ∀ n < 256, isLowerHexDigit (UInt8.ofNat n) = true →
      ∃ d < 16, lowerHex d = UInt8.ofNat n := by decide +kernel
  have hc := hall c.toNat c.toNat_lt
  rw [UInt8.ofNat_toNat] at hc
  exact hc h

/-- Every even number of digits is the text of some bytes. -/
theorem exists_hexEncode {n : Nat} {digits : Bytes} (hlength : digits.length = 2 * n)
    (hdigits : ∀ c ∈ digits, isLowerHexDigit c = true) :
    ∃ s : Bytes, s.length = n ∧ hexEncode s = digits := by
  induction n generalizing digits with
  | zero => exact ⟨[], rfl, (List.eq_nil_of_length_eq_zero hlength).symm⟩
  | succ n ih =>
    obtain ⟨a, rest, rfl⟩ := List.exists_cons_of_length_eq_add_one hlength
    obtain ⟨b, rest, rfl⟩ := List.exists_cons_of_length_eq_add_one (l := rest) (n := 2 * n)
      (by simpa [Nat.mul_add] using hlength)
    obtain ⟨x, hx, rfl⟩ := exists_lowerHex (hdigits a (by simp))
    obtain ⟨y, hy, rfl⟩ := exists_lowerHex (hdigits b (by simp))
    have hrest : rest.length = 2 * n := by simpa [Nat.mul_add] using hlength
    obtain ⟨s, rfl, rfl⟩ := ih hrest fun c hc => hdigits c (by simp [hc])
    have hbyte : (UInt8.ofNat (x * 16 + y)).toNat = x * 16 + y := by
      rw [UInt8.toNat_ofNat']
      omega
    have hhigh : (x * 16 + y) / 16 = x := by omega
    have hlow : (x * 16 + y) % 16 = y := by omega
    refine ⟨UInt8.ofNat (x * 16 + y) :: s, rfl, ?_⟩
    rw [hexEncode, List.flatMap_cons, hbyte, hhigh, hlow]
    rfl

/-! ## Base64 -/

/-- `base64.RawStdEncoding.DecodeString`, which skips CR and LF. -/
def rawBase64Decode (s : Bytes) : Option Bytes :=
  base64Quanta false (s.filter fun c => c != 10 && c != 13)

/-- `base64.RawURLEncoding.DecodeString`: `-` and `_` stand for `+` and `/`, which are no
digits themselves. -/
def rawURLBase64Decode (s : Bytes) : Option Bytes :=
  rawBase64Decode (s.map fun c =>
    if c = 45 then 43 else if c = 95 then 47 else if c = 43 ∨ c = 47 then 0 else c)

theorem mem_base64Short {s out : Bytes} (h : base64Short s = some out) :
    ∀ c ∈ s, base64Value c ≠ none := by
  unfold base64Short at h
  split at h
  · simp only [Option.bind_eq_bind, Option.bind_eq_some_iff] at h
    obtain ⟨x, hx, y, hy, -⟩ := h
    simp [hx, hy]
  · simp only [Option.bind_eq_bind, Option.bind_eq_some_iff] at h
    obtain ⟨x, hx, y, hy, z, hz, -⟩ := h
    simp [hx, hy, hz]
  · cases h

theorem mem_base64Quanta {s out : Bytes} (h : base64Quanta false s = some out) :
    ∀ c ∈ s, base64Value c ≠ none := by
  fun_induction base64Quanta false s generalizing out with
  | case1 => exact nofun
  | case2 a b c d s hpad => cases hpad.1
  | case3 a b c d s _ ih =>
    simp only [Option.bind_eq_bind, Option.bind_eq_some_iff] at h
    obtain ⟨x, hx, y, hy, z, hz, w, hw, rest, hrest, -⟩ := h
    simpa [hx, hy, hz, hw] using ih hrest
  | case4 => contradiction
  | case5 s => exact mem_base64Short h

/-- What is decoded is made of the alphabet and line breaks. -/
theorem mem_rawBase64Decode {s out : Bytes} (h : rawBase64Decode s = some out) :
    ∀ c ∈ s, base64Value c ≠ none ∨ c = 10 ∨ c = 13 := by
  intro c hc
  by_cases hbreak : c = 10 ∨ c = 13
  · exact .inr hbreak
  · have hkept : c ∈ s.filter fun c => c != 10 && c != 13 := by
      rw [not_or] at hbreak
      simp [hc, hbreak]
    exact .inl (mem_base64Quanta h c hkept)

end TextCodecs
