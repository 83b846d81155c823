import Sigillum.TextCodecs
import Sigillum.WordEncoder

/-! # Transfer encodings

The two transfer encodings of RFC 2045, read back.

What Base64 writes is read back as it was (`base64Decode_encode`), and it may be
written in pieces of whole quanta (`encode_append`).

Quoted-printable text is decoded line by line: white space at the end of a line is
removed, an `=` at its end joins the line with the next, and `=XX` is a byte.
-/
namespace TransferEncodings
open Bytes EncodedWords TextCodecs WordEncoder

/-! ## Base64 -/

theorem base64Value_char {v : Nat} (h : v < 64) : base64Value (stdEncoding.char v) = some v := by
  have hall : ∀ v < 64, base64Value (stdEncoding.char v) = some v := by decide
  exact hall v h

theorem char_ne_pad {v : Nat} (h : v < 64) : stdEncoding.char v ≠ 61 := by
  have hall : ∀ v < 64, stdEncoding.char v ≠ 61 := by decide
  exact hall v h

theorem ofNat_eq {n : Nat} {b : UInt8} (h : n = b.toNat) : UInt8.ofNat n = b := by
  rw [h, UInt8.ofNat_toNat]

/-- **What Base64 writes is read back**, with padding or without. -/
theorem base64Quanta_encode {e : Encoding} (hchar : ∀ v, e.char v = stdEncoding.char v)
    (s : Bytes) : base64Quanta e.padded (e.encode s) = some s := by
  fun_induction Encoding.encode e s with
  | case1 => rfl
  | case2 a =>
    have ha := a.toNat_lt
    have hshort : base64Short [e.char (a.toNat / 4), e.char (a.toNat % 4 * 16)] = some [a] := by
      rw [base64Short, hchar, hchar, base64Value_char (by omega), base64Value_char (by omega)]
      simp only [Option.bind_eq_bind, Option.bind_some]
      rw [ofNat_eq (b := a) (by omega)]
    cases hpad : e.padded <;> simpa [Encoding.padding, hpad, base64Quanta] using hshort
  | case3 a b v =>
    have ha := a.toNat_lt
    have hb := b.toNat_lt
    have hv : v = a.toNat * 256 + b.toNat := rfl
    have hlast : e.char (v % 16 * 4) ≠ 61 := hchar _ ▸ char_ne_pad (by omega)
    have hshort : base64Short [e.char (v / 1024), e.char (v / 16 % 64), e.char (v % 16 * 4)] =
        some [a, b] := by
      rw [base64Short, hchar, hchar, hchar, base64Value_char (by omega),
        base64Value_char (by omega), base64Value_char (by omega)]
      simp only [Option.bind_eq_bind, Option.bind_some]
      rw [ofNat_eq (b := a) (by omega), ofNat_eq (b := b) (by omega)]
    cases hpad : e.padded <;> simpa [Encoding.padding, hpad, base64Quanta, hlast] using hshort
  | case4 a b c s v ih =>
    have ha := a.toNat_lt
    have hb := b.toNat_lt
    have hc := c.toNat_lt
    have hv : v = (a.toNat * 256 + b.toNat) * 256 + c.toNat := rfl
    have hlast : e.char (v % 64) ≠ 61 := hchar _ ▸ char_ne_pad (by omega)
    rw [base64Quanta, if_neg fun hpad => hlast hpad.2.1, hchar, hchar, hchar, hchar,
      base64Value_char (by omega), base64Value_char (by omega), base64Value_char (by omega),
      base64Value_char (by omega), ih]
    simp only [Option.bind_eq_bind, Option.bind_some]
    rw [ofNat_eq (b := a) (by omega), ofNat_eq (b := b) (by omega), ofNat_eq (b := c) (by omega)]

/-- What is written has no line breaks to skip. -/
theorem filter_encode {e : Encoding} (h62 : isText e.c62 = true) (h63 : isText e.c63 = true)
    (s : Bytes) : (e.encode s).filter (fun c => c != 10 && c != 13) = e.encode s := by
  rw [List.filter_eq_self]
  intro c hc
  have hbreak := unbroken_of_isText (Encoding.isText_encode h62 h63 s) c hc
  simp [hbreak]

theorem base64Decode_encode (s : Bytes) : base64Decode (stdEncoding.encode s) = some s := by
  rw [base64Decode, filter_encode (by decide) (by decide)]
  exact base64Quanta_encode (fun _ => rfl) s

theorem rawBase64Decode_encode (s : Bytes) :
    rawBase64Decode (rawStdEncoding.encode s) = some s := by
  rw [rawBase64Decode, filter_encode (by decide) (by decide)]
  exact base64Quanta_encode (e := rawStdEncoding) (fun _ => rfl) s

/-- Whole quanta may be encoded apart. -/
theorem encode_append {e : Encoding} {s : Bytes} (h : s.length % 3 = 0) (t : Bytes) :
    e.encode (s ++ t) = e.encode s ++ e.encode t := by
  fun_induction Encoding.encode e s with
  | case1 => rfl
  | case2 a => simp at h
  | case3 a b v => simp at h
  | case4 a b c s v ih =>
    simp only [List.length_cons] at h
    simp only [List.cons_append, Encoding.encode]
    rw [ih (by omega)]

theorem length_stdEncode (s : Bytes) :
    (stdEncoding.encode s).length = (s.length + 2) / 3 * 4 := by
  have hpadding : ∀ n, (stdEncoding.padding n).length = n := fun n => List.length_replicate
  fun_induction Encoding.encode stdEncoding s with
  | case1 => rfl
  | case2 a => simp [hpadding]
  | case3 a b v => simp [hpadding]
  | case4 a b c s v ih =>
    simp only [List.length_cons, ih]
    omega

theorem length_base64Short {s t : Bytes} (h : base64Short s = some t) : t.length ≤ s.length := by
  unfold base64Short at h
  split at h
  · simp only [Option.bind_eq_bind, Option.bind_eq_some_iff] at h
    obtain ⟨x, -, y, -, ht⟩ := h
    simp [← Option.some.inj ht]
  · simp only [Option.bind_eq_bind, Option.bind_eq_some_iff] at h
    obtain ⟨x, -, y, -, z, -, ht⟩ := h
    simp [← Option.some.inj ht]
  · cases h

theorem length_base64Quanta {padded : Bool} {s t : Bytes} (h : base64Quanta padded s = some t) :
    t.length ≤ s.length := by
  fun_induction base64Quanta padded s generalizing t with
  | case1 => exact (Option.some.inj h) ▸ Nat.le_refl _
  | case2 a b c d s _ =>
    refine (length_base64Short h).trans ?_
    split <;> simp
  | case3 a b c d s _ ih =>
    simp only [Option.bind_eq_bind, Option.bind_eq_some_iff] at h
    obtain ⟨x, -, y, -, z, -, w, -, rest, hrest, ht⟩ := h
    have hle := ih hrest
    rw [← Option.some.inj ht]
    simp only [List.length_cons]
    omega
  | case4 => cases h
  | case5 => exact length_base64Short h

/-- Decoding does not make a text longer. -/
theorem length_base64Decode {s t : Bytes} (h : base64Decode s = some t) : t.length ≤ s.length :=
  (length_base64Quanta h).trans (List.length_filter_le _ _)

/-! ## Quoted-printable -/

/-- The bytes of a line. -/
def quotedText : Bytes → Option Bytes
  | [] => some []
  | 61 :: h :: l :: s => do
    let c := (← fromHex h) * 16 + (← fromHex l)
    let rest ← quotedText s
    some (c :: rest)
  | 61 :: _ => none
  | c :: s => (quotedText s).map (c :: ·)

theorem length_quotedText {s t : Bytes} (h : quotedText s = some t) : t.length ≤ s.length := by
  fun_induction quotedText s generalizing t with
  | case1 => exact (Option.some.inj h) ▸ Nat.le_refl _
  | case2 hi lo s ih =>
    simp only [Option.bind_eq_bind, Option.bind_eq_some_iff] at h
    obtain ⟨x, -, y, -, rest, hrest, ht⟩ := h
    have hle := ih hrest
    rw [← Option.some.inj ht]
    simp only [List.length_cons]
    omega
  | case3 => cases h
  | case4 c s _ _ ih =>
    obtain ⟨rest, hrest, ht⟩ := Option.map_eq_some_iff.mp h
    have hle := ih hrest
    rw [← ht]
    simp only [List.length_cons]
    omega

/-- A line without the white space at its end: its bytes, and whether it is joined
with the next one. -/
def quotedLine (line : Bytes) : Option (Bytes × Bool) :=
  let line := line.rdropWhile isWSP
  if line.getLast? = some 61 then (quotedText line.dropLast).map (·, true)
  else (quotedText line).map (·, false)

/-- The text of lines, of which some are joined with the next. -/
def joinLines : List (Bytes × Bool) → Bytes
  | [] => []
  | [line] => line.1
  | line :: lines => line.1 ++ (if line.2 then [] else [13, 10]) ++ joinLines lines

/-- Quoted-printable text, given by its lines. -/
def quotedDecode (lines : List Bytes) : Option Bytes := (lines.mapM quotedLine).map joinLines

end TransferEncodings
