import Sigillum.EncodedWords
import Sigillum.Libraries

/-! # Address headers

`ValidateAddressHeader` in `internal/policy/address.go`: a header with `n`
addresses may show no more than `n` at signs, so that no display name or comment
passes for an address.  At signs are counted after decoding encoded-words with
their content passed through, whatever their charset.

What a reader is shown depends on what its charsets make of the content.  All
that is assumed of them is that those the decoder does not refuse leave ASCII
alone (`Charsets`).
-/
namespace Sigillum
open Bytes Runes EncodedWords

/-- The at signs of a UTF-8 text: `@`, and U+FF20 and U+FE6B, which look like it. -/
def atSigns (s : Bytes) : Nat :=
  s.count 64 + occurrences [0xEF, 0xBC, 0xA0] s + occurrences [0xEF, 0xB9, 0xAB] s

section Validate
variable (L : Libraries)

/-- How the charsets start in which `@` is not the byte 0x40. -/
def refusedCharsets : List Bytes :=
  [lit "utf-7", lit "utf7", lit "utf-16", lit "utf16", lit "utf-32", lit "utf32", lit "ucs",
    lit "unicode"]

/-- The `CharsetReader` of `wordDecoder`. -/
def charsetReader (charset content : Bytes) : Except Err Bytes :=
  if refusedCharsets.any fun p => p.isPrefixOf (L.unicode.toLower charset) then
    .error (.new (lit "charset " ++ quote L.unicode charset ++
      lit " is not accepted in address headers"))
  else .ok content

/-- A charset whose words `wordDecoder` does not decode, whatever they hold. -/
def isRefused (charset : Bytes) : Bool :=
  match convert L.unicode (charsetReader L) charset [] with
  | .error _ => true
  | .ok _ => false

def errNameContainsAt : Err := .new (lit "display names and comments must not contain '@'")

/-- `ValidateAddressHeader`. -/
def validateAddressHeader (raw : Bytes) (n : Nat) : Option Err :=
  match decodeHeader (convert L.unicode (charsetReader L)) raw with
  | .error err => some (.new (lit "cannot decode header: " ++ err.text))
  | .ok decoded => if n < atSigns decoded then some errNameContainsAt else none

end Validate

/-! ## What is shown -/

/-- What charsets make of the content of encoded-words: code points, and ASCII as it is
in all but the refused ones. -/
structure Charsets (L : Libraries) where
  decode : Bytes → Bytes → List Nat
  decode_ascii : ∀ charset content, isRefused L charset = false → (∀ c ∈ content, c < 0x80) →
    decode charset content = content.map UInt8.toNat

/-- A code point that shows as an at sign. -/
def isAtSign (r : Nat) : Bool := r == 0x40 || r == 0xFF20 || r == 0xFE6B

/-- How many at signs a header shows, its encoded-words decoded. -/
def shown {L : Libraries} (D : Charsets L) : List Segment → Nat
  | [] => 0
  | .text s :: segs => atSigns s + shown D segs
  | .word _ charset content :: segs =>
    (D.decode charset content).countP isAtSign + shown D segs

theorem atSigns_append (a b : Bytes) : atSigns a + atSigns b ≤ atSigns (a ++ b) := by
  have h₁ := occurrences_append [0xEF, 0xBC, 0xA0] a b
  have h₂ := occurrences_append [0xEF, 0xB9, 0xAB] a b
  unfold atSigns
  rw [List.count_append]
  omega

theorem atSigns_of_notMem {s : Bytes} (h : 0xEF ∉ s) : atSigns s = s.count 64 := by
  rw [atSigns, occurrences_eq_zero h, occurrences_eq_zero h, Nat.add_zero]

theorem atSigns_of_white {s : Bytes} (h : hasNonWhitespace s = false) : atSigns s = 0 := by
  have hwhite : ∀ c ∈ s, c = 32 ∨ c = 9 ∨ c = 10 ∨ c = 13 := by
    intro c hc
    have hc := List.any_eq_false.mp h c hc
    simp only [Bool.not_eq_true, Bool.not_eq_false', Bool.or_eq_true, beq_iff_eq] at hc
    exact or_assoc.mp (or_assoc.mp hc)
  have hlead : 0xEF ∉ s := fun hc => absurd (hwhite _ hc) (by decide)
  have hat : 64 ∉ s := fun hc => absurd (hwhite _ hc) (by decide)
  rw [atSigns_of_notMem hlead]
  exact List.count_eq_zero.mpr hat

theorem charsetReader_eq_ok {L : Libraries} {charset content text : Bytes}
    (h : charsetReader L charset content = .ok text) : text = content := by
  unfold charsetReader at h
  split at h
  · cases h
  · exact (Except.ok.inj h).symm

/-- What a charset is refused for is its name alone. -/
theorem isRefused_of_convert {L : Libraries} {charset content text : Bytes}
    (h : convert L.unicode (charsetReader L) charset content = .ok text) :
    isRefused L charset = false := by
  unfold isRefused
  unfold convert charsetReader at h ⊢
  split_ifs at h ⊢
  · rfl
  · rfl
  · rfl
  · rfl

section Shown
variable {L : Libraries}

/-- ASCII content shows the at signs it has. -/
theorem countP_isAtSign_ascii {D : Charsets L} {charset content : Bytes}
    (haccepted : isRefused L charset = false) (hascii : ∀ c ∈ content, c < 0x80) :
    (D.decode charset content).countP isAtSign = content.count 64 := by
  rw [D.decode_ascii charset content haccepted hascii, List.countP_map]
  refine List.countP_congr fun c hc => ?_
  have hlt : c.toNat < 0x80 := hascii c hc
  have hat : c.toNat = 0x40 ↔ c = 64 := ⟨fun h => UInt8.toNat_inj.mp h, fun h => by rw [h]; rfl⟩
  simp only [Function.comp_apply, isAtSign, Bool.or_eq_true, beq_iff_eq, hat]
  constructor
  · rintro ((h | h) | h)
    · exact h
    · omega
    · omega
  · exact fun h => .inl (.inl h)

theorem textWeight_le_shown (D : Charsets L) (segs : List Segment) :
    textWeight atSigns segs ≤ shown D segs := by
  induction segs with
  | nil => exact Nat.le_refl 0
  | cons seg segs ih =>
    cases seg with
    | text s =>
      rw [textWeight, shown]
      omega
    | word seen charset content =>
      rw [textWeight, shown]
      omega

/-- Besides the literal text a header shows each of its words. -/
theorem textWeight_add_le_shown {D : Charsets L} {segs : List Segment} {seen : Bool}
    {charset content : Bytes} (h : .word seen charset content ∈ segs) :
    textWeight atSigns segs + (D.decode charset content).countP isAtSign ≤ shown D segs := by
  induction segs with
  | nil => cases h
  | cons seg segs ih =>
    rcases List.mem_cons.mp h with rfl | h
    · have hle := textWeight_le_shown D segs
      rw [textWeight, shown]
      omega
    · have hle := ih h
      cases seg with
      | text s =>
        rw [textWeight, shown]
        omega
      | word seen charset content =>
        rw [textWeight, shown]
        omega

theorem shown_eq_textWeight {D : Charsets L} {segs : List Segment}
    (h : ∀ seen charset content, .word seen charset content ∈ segs →
      (D.decode charset content).countP isAtSign = 0) : shown D segs = textWeight atSigns segs := by
  induction segs with
  | nil => rfl
  | cons seg segs ih =>
    have hrest := ih fun seen charset content hmem =>
      h seen charset content (List.mem_cons_of_mem _ hmem)
    cases seg with
    | text s => rw [shown, textWeight, hrest]
    | word seen charset content =>
      rw [shown, textWeight, hrest, h seen charset content List.mem_cons_self, Nat.zero_add]

end Shown

theorem textWeight_mono {μ ν : Bytes → Nat} (h : ∀ s, μ s ≤ ν s) (segs : List Segment) :
    textWeight μ segs ≤ textWeight ν segs := by
  induction segs with
  | nil => exact Nat.le_refl 0
  | cons seg segs ih =>
    cases seg with
    | text s =>
      have hs := h s
      rw [textWeight, textWeight]
      omega
    | word seen charset content => exact ih

/-! ## What the check achieves -/

/-- Charsets that show an at sign for whatever is refused or not ASCII. -/
def Charsets.deceptive (L : Libraries) : Charsets L where
  decode charset content :=
    if isRefused L charset = false ∧ ∀ c ∈ content, c < 0x80 then content.map UInt8.toNat
    else [0x40]
  decode_ascii _ _ haccepted hascii := if_pos ⟨haccepted, hascii⟩

theorem Charsets.deceptive_shows {L : Libraries} {charset content : Bytes}
    (h : ((Charsets.deceptive L).decode charset content).countP isAtSign = 0) :
    isRefused L charset = false ∧ ∀ c ∈ content, c < 0x80 := by
  by_contra hnot
  have hshows : (Charsets.deceptive L).decode charset content = [0x40] := if_neg hnot
  rw [hshows] at h
  cases h

/-- An accepted header shows nothing more in its literal text, and in the words the
decoder comes to as far as they are ASCII; none of those is in a refused charset. -/
theorem validateAddressHeader_eq_none {L : Libraries} {raw : Bytes} {n : Nat}
    (h : validateAddressHeader L raw n = none) :
    textWeight atSigns (segments raw) ≤ n ∧
      ∀ charset content, .word true charset content ∈ segments raw →
        isRefused L charset = false ∧ ((∀ c ∈ content, c < 0x80) →
          textWeight atSigns (segments raw) + content.count 64 ≤ n) := by
  unfold validateAddressHeader at h
  split at h
  · cases h
  · rename_i decoded hdecoded
    split at h
    · cases h
    · rename_i hats
      obtain ⟨htext, hwords⟩ :=
        decodeFrom_le atSigns_append (fun s hs => atSigns_of_white hs) hdecoded
      refine ⟨htext.trans (Nat.not_lt.mp hats), fun charset content hmem => ?_⟩
      obtain ⟨text, hconvert, hle⟩ := hwords charset content hmem
      refine ⟨isRefused_of_convert hconvert, fun hascii => ?_⟩
      obtain rfl := convert_ascii hascii (fun cs text htext => charsetReader_eq_ok htext) hconvert
      have hlead : 0xEF ∉ text := fun hc => absurd (hascii _ hc) (by decide)
      rw [atSigns_of_notMem hlead] at hle
      exact hle.trans (Nat.not_lt.mp hats)

/-- **Which accepted headers show nothing but their addresses.**  Let a header with
`n` addresses, each with its at sign in the literal text, be accepted.  It shows no
other at sign, whatever the charsets, exactly if its encoded-words hold only ASCII
and those the decoder never comes to hold no `@` and are in no refused charset. -/
theorem shows_only_addresses_iff (L : Libraries) (raw : Bytes) (n : Nat)
    (hvalid : validateAddressHeader L raw n = none)
    (haddresses : n ≤ textWeight (fun s => s.count 64) (segments raw)) :
    (∀ D : Charsets L, shown D (segments raw) = n) ↔
      ∀ seen charset content, .word seen charset content ∈ segments raw →
        (∀ c ∈ content, c < 0x80) ∧
          (seen = false → isRefused L charset = false ∧ 64 ∉ content) := by
  obtain ⟨htext, hwords⟩ := validateAddressHeader_eq_none hvalid
  have hle : n ≤ textWeight atSigns (segments raw) :=
    haddresses.trans (textWeight_mono (fun s => by unfold atSigns; omega) _)
  constructor
  · intro hshown seen charset content hmem
    have hword := textWeight_add_le_shown (D := .deceptive L) hmem
    rw [hshown (.deceptive L)] at hword
    have hnone : ((Charsets.deceptive L).decode charset content).countP isAtSign = 0 := by omega
    obtain ⟨haccepted, hascii⟩ := Charsets.deceptive_shows hnone
    rw [countP_isAtSign_ascii haccepted hascii] at hnone
    exact ⟨hascii, fun _ => ⟨haccepted, List.count_eq_zero.mp hnone⟩⟩
  · intro hplain D
    rw [shown_eq_textWeight]
    · omega
    · intro seen charset content hmem
      obtain ⟨hascii, hunseen⟩ := hplain seen charset content hmem
      cases seen with
      | true =>
        obtain ⟨haccepted, hword⟩ := hwords charset content hmem
        rw [countP_isAtSign_ascii haccepted hascii]
        have hword := hword hascii
        omega
      | false =>
        obtain ⟨haccepted, hat⟩ := hunseen rfl
        rw [countP_isAtSign_ascii haccepted hascii]
        exact List.count_eq_zero.mpr hat

/-- A name in plain ASCII words, one of them behind a `=?` that is no word. -/
def bobHeader : Bytes := lit "=?utf-8?q?Bob_B=2E?= =?x =?koi8-r?q?Jr?= <bob@example.com>"

theorem shows_only_addresses_bob :
    validateAddressHeader .plain bobHeader 1 = none ∧
      ∀ D : Charsets .plain, shown D (segments bobHeader) = 1 :=
  ⟨by decide +kernel, (shows_only_addresses_iff .plain bobHeader 1 (by decide +kernel)
    (by decide +kernel)).mpr fun seen charset content hmem => by
      have hsegs : segments bobHeader = [.text [], .word true (lit "utf-8") (lit "Bob B."),
        .text (lit " =?"), .text (lit "x "), .word false (lit "koi8-r") (lit "Jr"),
        .text (lit " <bob@example.com>")] := by decide +kernel
      rw [hsegs] at hmem
      simp only [List.mem_cons, List.not_mem_nil, or_false, reduceCtorEq, false_or,
        Segment.word.injEq] at hmem
      rcases hmem with ⟨rfl, rfl, rfl⟩ | ⟨rfl, rfl, rfl⟩
      · exact ⟨by decide, fun hseen => Bool.noConfusion hseen⟩
      · exact ⟨by decide, fun _ => ⟨by decide +kernel, by decide⟩⟩⟩

/-- A name that is one fullwidth at sign in Shift_JIS. -/
def fullwidthHeader : Bytes := lit "=?shift_jis?B?gZc=?= <noreply@example.com>"

/-- Shift_JIS, as far as that name needs it. -/
def shiftJIS : Charsets .plain where
  decode _ content := if content = [0x81, 0x97] then [0xFF20] else content.map UInt8.toNat
  decode_ascii _ content _ hascii := by
    rw [if_neg]
    rintro rfl
    exact absurd (hascii 0x81 List.mem_cons_self) (by decide)

/-- The name is accepted with one address, whose at sign is in the literal text,
and shows a second one. -/
theorem fullwidthHeader_shows_two :
    validateAddressHeader .plain fullwidthHeader 1 = none ∧
      1 ≤ textWeight (fun s => s.count 64) (segments fullwidthHeader) ∧
      shown shiftJIS (segments fullwidthHeader) = 2 := by
  decide +kernel

end Sigillum
