import Sigillum.LineLimits

/-! # File names of attachments

`contentDispositionValue` writes a file name once or twice: quoted, with `_` for what is
not printable ASCII, and if that changed anything also as RFC 5987 has it, in bytes of
which all but a few are percent-encoded.

A reader takes the quoted form up to the first quote that is not escaped (`readQuoted`)
and decodes the other (`percentDecode`).  `filename_survives` says what it gets.
-/
namespace Sigillum
open Runes Bytes HeaderBlock WordEncoder EncodedWords TextCodecs

/-! ## Reading -/

/-- The text of a quoted string, from behind its opening quote, and what follows its
closing quote; a backslash quotes the character behind it. -/
def readQuoted : Bytes → Option (Bytes × Bytes)
  | [] => none
  | 34 :: rest => some ([], rest)
  | [92] => none
  | 92 :: c :: rest => (readQuoted rest).map fun r => (c :: r.1, r.2)
  | c :: rest => (readQuoted rest).map fun r => (c :: r.1, r.2)

/-- Percent-encoded bytes. -/
def percentDecode : Bytes → Option Bytes
  | [] => some []
  | 37 :: h :: l :: s => do
    let c := (← fromHex h) * 16 + (← fromHex l)
    let rest ← percentDecode s
    some (c :: rest)
  | 37 :: _ => none
  | c :: s => (percentDecode s).map (c :: ·)

/-- A name with `_` for each rune that is not printable ASCII. -/
def printableName (name : Bytes) : Bytes :=
  (runes name).flatMap fun r => if 32 ≤ r ∧ r ≤ 126 then encodeRune r else lit "_"

/-- What a content disposition says of a file name. -/
structure CarriesName (disp name value : Bytes) : Prop where
  printable : ∀ c ∈ value, 32 ≤ c ∧ c ≤ 126
  quoted : ∃ text rest, value = disp ++ lit "; filename=\"" ++ text ∧
    readQuoted text = some (printableName name, rest) ∧
    (isASCII name = true → rest = [] ∧ printableName name = name) ∧
    (isASCII name = false → ∃ ext, rest = lit "; filename*=UTF-8''" ++ ext ∧
      (∀ c ∈ ext, isAttrChar c = true ∨ c = 37) ∧ percentDecode ext = some name)

/-! ## The quoted form -/

theorem asciiFilenameFallback_eq (name : Bytes) :
    asciiFilenameFallback name = printableName name := by
  unfold asciiFilenameFallback printableName
  induction runes name with
  | nil => rfl
  | cons r rs ih =>
    rw [List.map_cons, List.flatMap_cons, ih]
    by_cases hprintable : 32 ≤ r ∧ r ≤ 126
    · have hascii : r < 0x80 := by omega
      rw [if_pos hprintable, if_pos hprintable, encodeRune, if_pos hascii]
      rfl
    · rw [if_neg hprintable, if_neg hprintable]
      rfl

theorem printable_printableName (name : Bytes) : ∀ c ∈ printableName name, 32 ≤ c ∧ c ≤ 126 := by
  have hbyte : ∀ r < 127, 32 ≤ r → 32 ≤ UInt8.ofNat r ∧ UInt8.ofNat r ≤ 126 := by decide
  rw [← asciiFilenameFallback_eq]
  refine List.forall_mem_map.mpr fun r _ => ?_
  split
  · exact hbyte r (by omega) (by omega)
  · decide

/-- A printable name is written as it is. -/
theorem printableName_of_isASCII {name : Bytes} (h : isASCII name = true) :
    printableName name = name := by
  have hbytes : ∀ c ∈ name, 32 ≤ c ∧ c ≤ 126 := by
    intro c hc
    have hall := List.all_eq_true.mp h c hc
    rwa [Bool.and_eq_true, decide_eq_true_eq, decide_eq_true_eq] at hall
  have hascii : ∀ c ∈ name, c < 0x80 := fun c hc =>
    UInt8.lt_of_le_of_lt (hbytes c hc).2 (by decide)
  rw [← asciiFilenameFallback_eq, asciiFilenameFallback, Unicode.runes_of_ascii hascii,
    List.map_map]
  refine (List.map_congr_left fun c hc => ?_).trans (List.map_id name)
  have hc : 32 ≤ c.toNat ∧ c.toNat ≤ 126 := hbytes c hc
  rw [Function.comp_apply, if_pos hc, UInt8.ofNat_toNat]
  rfl

theorem readQuoted_cons {c : UInt8} (hquote : c ≠ 34) (hescape : c ≠ 92) (s : Bytes) :
    readQuoted (c :: s) = (readQuoted s).map fun r => (c :: r.1, r.2) := by
  rw [readQuoted]
  · exact fun h => hquote h
  · exact fun h _ => hescape h
  · exact fun _ _ h _ => hescape h

/-- **A quoted name ends at its own closing quote.** -/
theorem readQuoted_escaped (s rest : Bytes) :
    readQuoted ((s.flatMap fun c => if c = 92 ∨ c = 34 then [92, c] else [c]) ++ 34 :: rest) =
      some (s, rest) := by
  induction s with
  | nil => rfl
  | cons c s ih =>
    rw [List.flatMap_cons, List.append_assoc]
    by_cases hspecial : c = 92 ∨ c = 34
    · rw [if_pos hspecial, List.cons_append, List.singleton_append, readQuoted, ih]
      rfl
    · rw [if_neg hspecial]
      rw [not_or] at hspecial
      rw [List.singleton_append, readQuoted_cons hspecial.2 hspecial.1, ih]
      rfl

/-! ## The encoded form -/

/-- A byte of the encoded form, as it is written. -/
def attrByte (c : UInt8) : Bytes := if isAttrChar c then [c] else 37 :: hexByte c

theorem rfc5987Encode_eq (s : Bytes) : rfc5987Encode s = s.flatMap attrByte := by
  unfold rfc5987Encode
  congr 1
  funext c
  unfold attrByte isAttrChar
  simp only [decide_eq_true_eq]

theorem isAttrChar_attrByte (c : UInt8) : ∀ d ∈ attrByte c, isAttrChar d = true ∨ d = 37 := by
  have hhex : ∀ d < 16, isAttrChar (upperHex d) = true := by decide
  have hlt := c.toNat_lt
  unfold attrByte
  split
  · rename_i hplain
    exact List.forall_mem_singleton.mpr (.inl hplain)
  · have hdiv := hhex (c.toNat / 16) (by omega)
    have hmod := hhex (c.toNat % 16) (by omega)
    refine List.forall_mem_cons.mpr ⟨.inr rfl, List.forall_mem_cons.mpr ⟨.inl hdiv, ?_⟩⟩
    exact List.forall_mem_singleton.mpr (.inl hmod)

theorem printable_of_isAttrChar {c : UInt8} (h : isAttrChar c = true ∨ c = 37) :
    32 ≤ c ∧ c ≤ 126 := by
  have hall : ∀ n < 256, isAttrChar (UInt8.ofNat n) = true →
      32 ≤ UInt8.ofNat n ∧ UInt8.ofNat n ≤ 126 := by decide +kernel
  rcases h with hattr | rfl
  · have hc := hall c.toNat c.toNat_lt
    rw [UInt8.ofNat_toNat] at hc
    exact hc hattr
  · decide

/-- A byte is read back in front of any text. -/
theorem percentDecode_append (c : UInt8) (s : Bytes) :
    percentDecode (attrByte c ++ s) = (percentDecode s).map (c :: ·) := by
  have hlt := c.toNat_lt
  unfold attrByte
  split
  · rename_i hplain
    have hne : c ≠ 37 := by
      rintro rfl
      exact absurd hplain (by decide)
    rw [List.singleton_append, percentDecode]
    · exact fun _ _ _ h _ => hne h
    · exact fun h => hne h
  · simp only [hexByte, List.cons_append, List.nil_append, percentDecode]
    rw [fromHex_upperHex (by omega), fromHex_upperHex (by omega)]
    simp only [Option.bind_eq_bind, Option.bind_some, ofNat_halves]
    cases percentDecode s <;> rfl

theorem percentDecode_rfc5987Encode (s : Bytes) : percentDecode (rfc5987Encode s) = some s := by
  rw [rfc5987Encode_eq]
  induction s with
  | nil => rfl
  | cons c s ih => rw [List.flatMap_cons, percentDecode_append, ih, Option.map_some]

/-! ## Both forms -/

theorem printable_contentDispositionValue {disp : Bytes} (h : ∀ c ∈ disp, 32 ≤ c ∧ c ≤ 126)
    (name : Bytes) : ∀ c ∈ contentDispositionValue disp name, 32 ≤ c ∧ c ≤ 126 := by
  have hescape : ∀ b : UInt8, 32 ≤ b ∧ b ≤ 126 →
      ∀ c ∈ (if b = 92 ∨ b = 34 then [92, b] else [b]), 32 ≤ c ∧ c ≤ 126 := by
    intro b hb
    split
    · exact List.forall_mem_cons.mpr ⟨by decide, List.forall_mem_singleton.mpr hb⟩
    · exact List.forall_mem_singleton.mpr hb
  have hescaped : ∀ c ∈ (printableName name).flatMap
      fun c => if c = 92 ∨ c = 34 then [92, c] else [c], 32 ≤ c ∧ c ≤ 126 := by
    intro c hc
    obtain ⟨b, hb, hc⟩ := List.mem_flatMap.mp hc
    exact hescape b (printable_printableName name b hb) c hc
  rw [contentDispositionValue, asciiFilenameFallback_eq]
  refine List.forall_mem_append.mpr ⟨?_, ?_⟩
  · simp only [List.forall_mem_append]
    exact ⟨⟨⟨h, by decide⟩, hescaped⟩, by decide⟩
  · split
    · exact List.forall_mem_nil _
    · refine List.forall_mem_append.mpr ⟨by decide, fun c hc => ?_⟩
      rw [rfc5987Encode_eq] at hc
      obtain ⟨b, -, hc⟩ := List.mem_flatMap.mp hc
      exact printable_of_isAttrChar (isAttrChar_attrByte b c hc)

/-- **File names survive the header.**  Whatever the bytes of a name are, both forms of it
are read back: the quoted one with `_` for what is not printable, which is nothing in a
printable name, and the encoded one as it was. -/
theorem filename_survives (disp name : Bytes)
    (hdisp : disp = lit "attachment" ∨ disp = lit "inline") :
    CarriesName disp name (contentDispositionValue disp name) := by
  have hprintable : ∀ c ∈ disp, 32 ≤ c ∧ c ≤ 126 := by
    rcases hdisp with rfl | rfl <;> decide
  refine ⟨printable_contentDispositionValue hprintable name, ?_⟩
  have hquote : lit "\"" = [34] := by decide
  refine ⟨_, _, ?_, readQuoted_escaped (printableName name)
    (if isASCII name then [] else lit "; filename*=UTF-8''" ++ rfc5987Encode name), ?_, ?_⟩
  · rw [contentDispositionValue, asciiFilenameFallback_eq, hquote]
    simp only [List.append_assoc, List.singleton_append]
  · intro hascii
    exact ⟨if_pos hascii, printableName_of_isASCII hascii⟩
  · intro hother
    refine ⟨rfc5987Encode name, if_neg (Bool.eq_false_iff.mp hother), fun c hc => ?_,
      percentDecode_rfc5987Encode name⟩
    rw [rfc5987Encode_eq] at hc
    obtain ⟨b, -, hc⟩ := List.mem_flatMap.mp hc
    exact isAttrChar_attrByte b c hc

/-- A name with a quote, a percent sign and a letter outside ASCII. -/
theorem filename_survives_quotes :
    CarriesName (lit "attachment") (lit "50%\"." ++ [0xC3, 0xA9])
      (contentDispositionValue (lit "attachment") (lit "50%\"." ++ [0xC3, 0xA9])) :=
  filename_survives (lit "attachment") (lit "50%\"." ++ [0xC3, 0xA9]) (.inl rfl)

end Sigillum
