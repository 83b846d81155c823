import Sigillum.Runes

/-! # Writing encoded-words

Base64, and the RFC 2047 encoded-words of Go's `mime.WordEncoder` for UTF-8: text
that is not printable ASCII becomes words of at most 75 characters, none of which
ends inside a code point, with a space between them.  Whatever goes in, what comes
out is text of one line (`isText_qEncode`, `isText_bEncode`).
-/
namespace WordEncoder
open Bytes Runes

/-! ## Base64 -/

/-- `base64.Encoding`: the last two characters of the alphabet, and whether the
output is padded. -/
structure Encoding where
  c62 : UInt8
  c63 : UInt8
  padded : Bool
  deriving DecidableEq, Repr

def stdEncoding : Encoding := ⟨43, 47, true⟩
def rawStdEncoding : Encoding := ⟨43, 47, false⟩
def rawURLEncoding : Encoding := ⟨45, 95, false⟩

namespace Encoding
variable (e : Encoding)

/-- The character for six bits. -/
def char (v : Nat) : UInt8 :=
  if v < 26 then UInt8.ofNat (65 + v)
  else if v < 52 then UInt8.ofNat (71 + v)
  else if v < 62 then UInt8.ofNat (v - 4)
  else if v = 62 then e.c62
  else e.c63

def padding (n : Nat) : Bytes := if e.padded then List.replicate n 61 else []

/-- `EncodeToString`. -/
def encode : Bytes → Bytes
  | [] => []
  | [a] => [e.char (a.toNat / 4), e.char (a.toNat % 4 * 16)] ++ e.padding 2
  | [a, b] =>
    let v := a.toNat * 256 + b.toNat
    [e.char (v / 1024), e.char (v / 16 % 64), e.char (v % 16 * 4)] ++ e.padding 1
  | a :: b :: c :: s =>
    let v := (a.toNat * 256 + b.toNat) * 256 + c.toNat
    e.char (v / 262144) :: e.char (v / 4096 % 64) :: e.char (v / 64 % 64) :: e.char (v % 64) ::
      encode s

variable {e}

theorem isText_char (h62 : isText e.c62 = true) (h63 : isText e.c63 = true) (v : Nat) :
    isText (e.char v) = true := by
  have hupper : ∀ v < 26, isText (UInt8.ofNat (65 + v)) = true := by decide
  have hlower : ∀ v < 52, 26 ≤ v → isText (UInt8.ofNat (71 + v)) = true := by decide
  have hdigit : ∀ v < 62, 52 ≤ v → isText (UInt8.ofNat (v - 4)) = true := by decide
  unfold char
  split
  · exact hupper v (by assumption)
  · split
    · exact hlower v (by assumption) (by omega)
    · split
      · exact hdigit v (by assumption) (by omega)
      · split
        · exact h62
        · exact h63

theorem isText_padding (n : Nat) : ∀ c ∈ e.padding n, isText c = true := by
  intro c hc
  unfold padding at hc
  split at hc
  · rw [List.eq_of_mem_replicate hc]
    decide
  · cases hc

theorem isText_encode (h62 : isText e.c62 = true) (h63 : isText e.c63 = true) (s : Bytes) :
    ∀ c ∈ e.encode s, isText c = true := by
  have hchar := isText_char h62 h63
  fun_induction encode e s with
  | case1 => nofun
  | case2 a => simpa [or_imp, forall_and, hchar] using isText_padding 2
  | case3 a b v => simpa [or_imp, forall_and, hchar] using isText_padding 1
  | case4 a b c s v ih => simpa [or_imp, forall_and, hchar] using ih

end Encoding

/-- The upper-case digit of a number below 16. -/
def upperHex (d : Nat) : UInt8 := UInt8.ofNat (if d < 10 then 48 + d else 55 + d)

/-- A byte as two upper-case digits. -/
def hexByte (c : UInt8) : Bytes := [upperHex (c.toNat / 16), upperHex (c.toNat % 16)]

theorem isText_hexByte (c : UInt8) : ∀ d ∈ hexByte c, isText d = true := by
  have hhex : ∀ d < 16, isText (upperHex d) = true := by decide
  have hlt := c.toNat_lt
  have hdiv := hhex (c.toNat / 16) (by omega)
  have hmod := hhex (c.toNat % 16) (by omega)
  simp [hexByte, hdiv, hmod]

/-! ## Words -/

/-- `maxContentLen`: what a word of 75 characters has room for. -/
def maxContentLen : Nat := 63

/-- `maxBase64Len`: the bytes whose Base64 fits into a word. -/
def maxBase64Len : Nat := maxContentLen / 4 * 3

/-- The start of a word. -/
def openWord (encoding : UInt8) : Bytes := lit "=?utf-8?" ++ [encoding, 63]

def closeWord : Bytes := lit "?="

/-- `splitWord`: the end of a word and the start of another. -/
def splitWord (encoding : UInt8) : Bytes := closeWord ++ [32] ++ openWord encoding

/-- `needsEncoding`, for each byte: those of a code point outside ASCII are too. -/
def needsEncoding (s : Bytes) : Bool := s.any fun c => !isText c

/-- Whether a byte stands for itself in a Q-encoded word, or is a space. -/
def isQPlain (c : UInt8) : Bool := 32 ≤ c && c ≤ 126 && c != 61 && c != 63 && c != 95

/-- `writeQString`, for one byte. -/
def qByte (c : UInt8) : Bytes :=
  if c = 32 then [95] else if isQPlain c then [c] else 61 :: hexByte c

/-- How many bytes are encoded together, which must not be split between words. -/
def qRuneLen (c : UInt8) (s : Bytes) : Nat := if isQPlain c then 1 else (decodeRune (c :: s)).2

/-- How long they get. -/
def qEncodedLen (c : UInt8) (s : Bytes) : Nat := if isQPlain c then 1 else 3 * qRuneLen c s

theorem qRuneLen_pos (c : UInt8) (s : Bytes) : 0 < qRuneLen c s := by
  unfold qRuneLen
  split
  · exact Nat.one_pos
  · exact decodeRune_width_pos (List.cons_ne_nil _ _)

/-- The loop of `qEncode`; the current word holds `currentLen` characters. -/
def qEncodeFrom (currentLen : Nat) : Bytes → Bytes
  | [] => []
  | c :: s =>
    let encoded := ((c :: s).take (qRuneLen c s)).flatMap qByte
    if maxContentLen < currentLen + qEncodedLen c s then
      splitWord 113 ++ encoded ++ qEncodeFrom (qEncodedLen c s) ((c :: s).drop (qRuneLen c s))
    else
      encoded ++ qEncodeFrom (currentLen + qEncodedLen c s) ((c :: s).drop (qRuneLen c s))
termination_by s => s.length
decreasing_by
  all_goals
    have hpos := qRuneLen_pos c s
    simp only [List.length_drop, List.length_cons]
    omega

/-- `mime.QEncoding.Encode("utf-8", s)`. -/
def qEncode (s : Bytes) : Bytes :=
  if needsEncoding s then openWord 113 ++ qEncodeFrom 0 s ++ closeWord else s

/-- The loop of `bEncode`; `pending` is not written yet. -/
def bEncodeFrom (pending : Bytes) : Bytes → Bytes
  | [] => stdEncoding.encode pending
  | c :: s =>
    let n := (decodeRune (c :: s)).2
    if pending.length + n ≤ maxBase64Len then
      bEncodeFrom (pending ++ (c :: s).take n) ((c :: s).drop n)
    else
      stdEncoding.encode pending ++ splitWord 98 ++
        bEncodeFrom ((c :: s).take n) ((c :: s).drop n)
termination_by s => s.length
decreasing_by
  all_goals
    have hpos := decodeRune_width_pos (List.cons_ne_nil c s)
    simp only [List.length_drop, List.length_cons]
    omega

/-- `mime.BEncoding.Encode("utf-8", s)`. -/
def bEncode (s : Bytes) : Bytes :=
  if needsEncoding s then
    openWord 98 ++
      (if (s.length + 2) / 3 * 4 ≤ maxContentLen then stdEncoding.encode s else bEncodeFrom [] s) ++
      closeWord
  else s

/-! ## Text of one line -/

theorem isText_stdEncode (s : Bytes) : ∀ c ∈ stdEncoding.encode s, isText c = true :=
  Encoding.isText_encode (by decide) (by decide) s

theorem isText_of_not_needsEncoding {s : Bytes} (h : ¬ needsEncoding s = true) :
    ∀ c ∈ s, isText c = true := by
  simpa [needsEncoding] using h

theorem isText_qByte (c : UInt8) : ∀ d ∈ qByte c, isText d = true := by
  unfold qByte
  split
  · decide
  · split
    · rename_i hplain
      intro d hd
      rw [List.mem_singleton.mp hd]
      unfold isQPlain at hplain
      unfold isText
      grind
    · exact List.forall_mem_cons.mpr ⟨by decide, isText_hexByte c⟩

theorem isText_qBytes (s : Bytes) : ∀ c ∈ s.flatMap qByte, isText c = true := by
  intro c hc
  obtain ⟨b, -, hb⟩ := List.mem_flatMap.mp hc
  exact isText_qByte b c hb

theorem isText_qEncodeFrom (currentLen : Nat) (s : Bytes) :
    ∀ c ∈ qEncodeFrom currentLen s, isText c = true := by
  have hsplit : ∀ c ∈ splitWord 113, isText c = true := by decide
  fun_induction qEncodeFrom currentLen s with
  | case1 => nofun
  | case2 currentLen c s encoded hfull ih =>
    simp only [List.forall_mem_append]
    exact ⟨⟨hsplit, isText_qBytes _⟩, ih⟩
  | case3 currentLen c s encoded hroom ih =>
    simp only [List.forall_mem_append]
    exact ⟨isText_qBytes _, ih⟩

theorem isText_qEncode (s : Bytes) : ∀ c ∈ qEncode s, isText c = true := by
  unfold qEncode
  split
  · simp only [List.forall_mem_append]
    exact ⟨⟨by decide, isText_qEncodeFrom 0 s⟩, by decide⟩
  · rename_i hplain
    exact isText_of_not_needsEncoding hplain

theorem isText_bEncodeFrom (pending s : Bytes) : ∀ c ∈ bEncodeFrom pending s, isText c = true := by
  have hsplit : ∀ c ∈ splitWord 98, isText c = true := by decide
  fun_induction bEncodeFrom pending s with
  | case1 pending => exact isText_stdEncode pending
  | case2 pending c s n hroom ih => exact ih
  | case3 pending c s n hfull ih =>
    simp only [List.forall_mem_append]
    exact ⟨⟨isText_stdEncode pending, hsplit⟩, ih⟩

theorem isText_bEncode (s : Bytes) : ∀ c ∈ bEncode s, isText c = true := by
  unfold bEncode
  split
  · simp only [List.forall_mem_append]
    refine ⟨⟨by decide, ?_⟩, by decide⟩
    split
    · exact isText_stdEncode s
    · exact isText_bEncodeFrom [] s
  · rename_i hplain
    exact isText_of_not_needsEncoding hplain

end WordEncoder
