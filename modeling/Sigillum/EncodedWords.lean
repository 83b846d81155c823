import Sigillum.Runes

/-! # Encoded words

RFC 2047 encoded-words, `=?charset?encoding?text?=`, as Go's `mime.WordDecoder`
decodes them: Base64 or Q gives the content, in bytes of the charset, and what a
charset makes of the content is left to the caller.

`decodeFrom` is the decoder, which gives up at the first `=?` it cannot read as
the start of a word.  `segmentsFrom` is the same text taken apart into literal
text and all the words there are, those the decoder never comes to included.
`decodeFrom_le` compares the two by any measure that concatenation does not
lower, such as how often a character occurs.
-/
namespace EncodedWords
open Bytes Runes

/-! ## Transfer encodings -/

/-- The six bits a character of the Base64 alphabet stands for. -/
def base64Value (c : UInt8) : Option Nat :=
  if 65 ≤ c ∧ c ≤ 90 then some (c.toNat - 65)
  else if 97 ≤ c ∧ c ≤ 122 then some (c.toNat - 71)
  else if 48 ≤ c ∧ c ≤ 57 then some (c.toNat + 4)
  else if c = 43 then some 62
  else if c = 47 then some 63
  else none

/-- The bytes of a last group of two or three characters. -/
def base64Short : Bytes → Option Bytes
  | [a, b] => do
    let v := (← base64Value a) * 64 + (← base64Value b)
    some [UInt8.ofNat (v / 16)]
  | [a, b, c] => do
    let v := ((← base64Value a) * 64 + (← base64Value b)) * 64 + (← base64Value c)
    some [UInt8.ofNat (v / 1024), UInt8.ofNat (v / 4 % 256)]
  | _ => none

/-- Groups of four characters, the last of which may be cut short: with padding in its place,
or without. -/
def base64Quanta (padded : Bool) : Bytes → Option Bytes
  | [] => some []
  | a :: b :: c :: d :: s =>
    if padded = true ∧ d = 61 ∧ s = [] then base64Short (if c = 61 then [a, b] else [a, b, c])
    else do
      let v := (((← base64Value a) * 64 + (← base64Value b)) * 64 + (← base64Value c)) * 64 +
        (← base64Value d)
      let rest ← base64Quanta padded s
      some (UInt8.ofNat (v / 65536) :: UInt8.ofNat (v / 256 % 256) :: UInt8.ofNat (v % 256) :: rest)
  | s => if padded then none else base64Short s

/-- `base64.StdEncoding.DecodeString`, which skips CR and LF. -/
def base64Decode (s : Bytes) : Option Bytes :=
  base64Quanta true (s.filter fun c => c != 10 && c != 13)

def fromHex (c : UInt8) : Option UInt8 :=
  if 48 ≤ c ∧ c ≤ 57 then some (c - 48)
  else if 65 ≤ c ∧ c ≤ 70 then some (c - 55)
  else if 97 ≤ c ∧ c ≤ 102 then some (c - 87)
  else none

/-- `qDecode`. -/
def qDecode : Bytes → Option Bytes
  | [] => some []
  | 95 :: s => (qDecode s).map (32 :: ·)
  | 61 :: h :: l :: s => do
    let c := (← fromHex h) * 16 + (← fromHex l)
    let rest ← qDecode s
    some (c :: rest)
  | 61 :: _ => none
  | c :: s =>
    if (32 ≤ c ∧ c ≤ 126) ∨ c = 10 ∨ c = 13 ∨ c = 9 then (qDecode s).map (c :: ·) else none

/-- `decode`: the content of a word. -/
def decodeText (encoding : UInt8) (text : Bytes) : Option Bytes :=
  if encoding = 66 ∨ encoding = 98 then base64Decode text
  else if encoding = 81 ∨ encoding = 113 then qDecode text
  else none

/-! ## Words -/

/-- What stands after a `=?`. -/
inductive Attempt where
  /-- Nothing like a word. -/
  | stop
  /-- The form of a word, with a text that does not decode. -/
  | skip
  | word (charset content rest : Bytes)
  deriving DecidableEq, Repr

def attempt (after : Bytes) : Attempt :=
  match cut 63 after with
  | none => .stop
  | some (charset, r) =>
    if r.length < 4 then .stop
    else match r with
    | encoding :: 63 :: r =>
      match cutPair 63 61 r with
      | none => .stop
      | some (text, rest) =>
        match decodeText encoding text with
        | none => .skip
        | some content => .word charset content rest
    | _ => .stop

/-- A word ends before the rest begins. -/
theorem attempt_eq_word {after charset content rest : Bytes}
    (h : attempt after = .word charset content rest) :
    ∃ word, word ≠ [] ∧ after = word ++ rest := by
  unfold attempt at h
  split at h
  · cases h
  · rename_i charset' r hcut
    rw [(cut_eq_some.mp hcut).1]
    split at h
    · cases h
    · split at h
      · rename_i encoding r' _
        split at h
        · cases h
        · rename_i text rest' hpair
          split at h
          · cases h
          · obtain ⟨-, -, rfl⟩ := Attempt.word.inj h
            rw [cutPair_eq_some hpair]
            exact ⟨charset' ++ 63 :: encoding :: 63 :: (text ++ [63, 61]), by simp, by simp⟩
      · cases h

theorem length_lt_of_attempt {after charset content rest : Bytes}
    (h : attempt after = .word charset content rest) : rest.length < after.length := by
  obtain ⟨word, hne, rfl⟩ := attempt_eq_word h
  have hpos := List.length_pos_iff.mpr hne
  rw [List.length_append]
  omega

theorem length_lt_of_cutPair {a b : UInt8} {s before after : Bytes}
    (h : cutPair a b s = some (before, after)) : after.length < s.length := by
  rw [cutPair_eq_some h]
  simp only [List.length_append, List.length_cons]
  omega

/-- `hasNonWhitespace`. -/
def hasNonWhitespace (s : Bytes) : Bool :=
  s.any fun c => !(c == 32 || c == 9 || c == 10 || c == 13)

/-- `WordDecoder.convert`; charsets it does not know go to `charsetReader`, in lower case. -/
def convert {ε : Type} (U : Unicode) (charsetReader : Bytes → Bytes → Except ε Bytes)
    (charset content : Bytes) : Except ε Bytes :=
  if U.equalFold (lit "utf-8") charset then .ok content
  else if U.equalFold (lit "iso-8859-1") charset then
    .ok (content.flatMap fun c => encodeRune c.toNat)
  else if U.equalFold (lit "us-ascii") charset then
    .ok (content.flatMap fun c => if c < 0x80 then [c] else encodeRune runeError)
  else charsetReader (U.toLower charset) content

/-- ASCII stays as it is, if it does in the charsets left to the caller. -/
theorem convert_ascii {ε : Type} {U : Unicode} {charsetReader : Bytes → Bytes → Except ε Bytes}
    {charset content text : Bytes} (hascii : ∀ c ∈ content, c < 0x80)
    (hreader : ∀ cs text, charsetReader cs content = .ok text → text = content)
    (h : convert U charsetReader charset content = .ok text) : text = content := by
  have hbytes : ∀ f : UInt8 → Bytes, (∀ c, c < 0x80 → f c = [c]) → content.flatMap f = content := by
    intro f hf
    rw [List.flatMap_congr fun c hc => hf c (hascii c hc)]
    exact List.flatMap_singleton' content
  unfold convert at h
  split at h
  · exact (Except.ok.inj h).symm
  · split at h
    · rw [← Except.ok.inj h, hbytes _ fun c hc => encodeRune_ascii hc]
    · split at h
      · rw [← Except.ok.inj h, hbytes _ fun c hc => if_pos hc]
      · exact hreader _ _ h

section Decode
variable {ε : Type} (conv : Bytes → Bytes → Except ε Bytes)

/-- The loop of `DecodeHeader`; white space between two words is dropped. -/
def decodeFrom (betweenWords : Bool) (header : Bytes) : Except ε Bytes :=
  match _hcut : cutPair 61 63 header with
  | none => .ok header
  | some (before, after) =>
    match hword : attempt after with
    | .stop => .ok header
    | .skip => (decodeFrom false after).map fun d => before ++ 61 :: 63 :: d
    | .word charset content rest =>
      match conv charset content with
      | .error e => .error e
      | .ok text => (decodeFrom true rest).map fun d =>
        (if !betweenWords || hasNonWhitespace before then before else []) ++ text ++ d
termination_by header.length
decreasing_by
  · exact length_lt_of_cutPair _hcut
  · exact (length_lt_of_attempt hword).trans (length_lt_of_cutPair _hcut)

/-- `WordDecoder.DecodeHeader`. -/
def decodeHeader (header : Bytes) : Except ε Bytes := decodeFrom conv false header

end Decode

/-- Literal text, or a word; `seen` if the decoder comes to it. -/
inductive Segment where
  | text (s : Bytes)
  | word (seen : Bool) (charset content : Bytes)
  deriving DecidableEq, Repr

/-- A text taken apart into its words and what is around them. -/
def segmentsFrom (seen : Bool) (header : Bytes) : List Segment :=
  match _hcut : cutPair 61 63 header with
  | none => [.text header]
  | some (before, after) =>
    match hword : attempt after with
    | .stop => .text (before ++ [61, 63]) :: segmentsFrom false after
    | .skip => .text (before ++ [61, 63]) :: segmentsFrom seen after
    | .word charset content rest =>
      .text before :: .word seen charset content :: segmentsFrom seen rest
termination_by header.length
decreasing_by
  · exact length_lt_of_cutPair _hcut
  · exact length_lt_of_cutPair _hcut
  · exact (length_lt_of_attempt hword).trans (length_lt_of_cutPair _hcut)

def segments (header : Bytes) : List Segment := segmentsFrom true header

/-! ## Measuring what is decoded -/

/-- The measure of the literal text. -/
def textWeight (μ : Bytes → Nat) : List Segment → Nat
  | [] => 0
  | .text s :: segs => μ s + textWeight μ segs
  | .word _ _ _ :: segs => textWeight μ segs

section Weight
variable {ε : Type} {conv : Bytes → Bytes → Except ε Bytes} {μ : Bytes → Nat}

theorem textWeight_le (hμ : ∀ a b, μ a + μ b ≤ μ (a ++ b)) (seen : Bool) (header : Bytes) :
    textWeight μ (segmentsFrom seen header) ≤ μ header := by
  fun_induction segmentsFrom seen header with
  | case1 seen header hcut => exact Nat.le_refl _
  | case2 seen header before after hcut hstop ih | case3 seen header before after hcut hskip ih =>
    have hsplit : header = (before ++ [61, 63]) ++ after := by simp [cutPair_eq_some hcut]
    have hle := hμ (before ++ [61, 63]) after
    rw [← hsplit] at hle
    rw [textWeight]
    omega
  | case4 seen header before after hcut charset content rest hword ih =>
    obtain ⟨word, -, hafter⟩ := attempt_eq_word hword
    have hsplit : header = before ++ (61 :: 63 :: word ++ rest) := by
      simp [cutPair_eq_some hcut, hafter]
    have hle := hμ before (61 :: 63 :: word ++ rest)
    have hle' := hμ (61 :: 63 :: word) rest
    rw [← hsplit] at hle
    rw [textWeight, textWeight]
    omega

section Equations
variable {seen : Bool} {header before after : Bytes}

theorem segmentsFrom_none (hcut : cutPair 61 63 header = none) :
    segmentsFrom seen header = [.text header] := by
  rw [segmentsFrom]
  split
  · rfl
  · rename_i h
    rw [hcut] at h
    cases h

theorem segmentsFrom_some (hcut : cutPair 61 63 header = some (before, after)) :
    segmentsFrom seen header = match attempt after with
      | .stop => .text (before ++ [61, 63]) :: segmentsFrom false after
      | .skip => .text (before ++ [61, 63]) :: segmentsFrom seen after
      | .word charset content rest =>
        .text before :: .word seen charset content :: segmentsFrom seen rest := by
  rw [segmentsFrom]
  split
  · rename_i h
    rw [hcut] at h
    cases h
  · rename_i h
    rw [hcut] at h
    obtain ⟨rfl, rfl⟩ := Prod.mk.inj (Option.some.inj h)
    split <;> rename_i h' <;> rw [h']

/-- Once the decoder has given up it comes to no word. -/
theorem not_mem_segmentsFrom {charset content : Bytes} (hseen : seen = false) :
    .word true charset content ∉ segmentsFrom seen header := by
  fun_induction segmentsFrom seen header with
  | case1 seen header hcut => simp
  | case2 seen header before after hcut hstop ih => simpa using ih rfl
  | case3 seen header before after hcut hskip ih => simpa using ih hseen
  | case4 seen header before after hcut charset content rest hword ih =>
    simpa [hseen] using ih hseen

end Equations

/-- The literal text and any one word the decoder comes to are in what it returns. -/
theorem decodeFrom_le (hμ : ∀ a b, μ a + μ b ≤ μ (a ++ b))
    (hwhite : ∀ s, hasNonWhitespace s = false → μ s = 0) {betweenWords : Bool}
    {header decoded : Bytes} (h : decodeFrom conv betweenWords header = .ok decoded) :
    textWeight μ (segmentsFrom true header) ≤ μ decoded ∧
      ∀ charset content, .word true charset content ∈ segmentsFrom true header →
        ∃ text, conv charset content = .ok text ∧
          textWeight μ (segmentsFrom true header) + μ text ≤ μ decoded := by
  fun_induction decodeFrom conv betweenWords header generalizing decoded with
  | case1 between header hcut =>
    obtain rfl := Except.ok.inj h
    rw [segmentsFrom_none hcut]
    exact ⟨Nat.le_refl _, fun charset content hmem => by simp at hmem⟩
  | case2 between header before after hcut hstop =>
    obtain rfl := Except.ok.inj h
    refine ⟨textWeight_le hμ true _, fun charset content hmem => ?_⟩
    rw [segmentsFrom_some hcut, hstop] at hmem
    exact absurd hmem (by simpa using not_mem_segmentsFrom rfl)
  | case3 between header before after hcut hskip ih =>
    cases hrest : decodeFrom conv false after with
    | error e =>
      rw [hrest] at h
      cases h
    | ok rest =>
      rw [hrest] at h
      obtain rfl := Except.ok.inj h
      obtain ⟨htext, hwords⟩ := ih hrest
      have hle := hμ (before ++ [61, 63]) rest
      rw [List.append_assoc] at hle
      rw [segmentsFrom_some hcut, hskip]
      refine ⟨?_, fun charset content hmem => ?_⟩
      · exact (Nat.add_le_add_left htext _).trans hle
      · obtain ⟨text, hconv, hword⟩ := hwords charset content (by simpa using hmem)
        refine ⟨text, hconv, ?_⟩
        rw [textWeight, Nat.add_assoc]
        exact (Nat.add_le_add_left hword _).trans hle
  | case4 between header before after hcut charset content rest hword e hconv => cases h
  | case5 between header before after hcut charset content rest hword text hconv ih =>
    cases hrest : decodeFrom conv true rest with
    | error e =>
      rw [hrest] at h
      cases h
    | ok d =>
      rw [hrest] at h
      obtain rfl := Except.ok.inj h
      obtain ⟨htext, hwords⟩ := ih hrest
      -- what is dropped in front of the word is white space
      have hbefore : μ (if !between || hasNonWhitespace before then before else []) = μ before := by
        split
        · rfl
        · rename_i hdrop
          simp only [Bool.or_eq_true, not_or, Bool.not_eq_true] at hdrop
          rw [hwhite before hdrop.2, hwhite [] rfl]
      have hle := hμ (if !between || hasNonWhitespace before then before else []) (text ++ d)
      have hle' := hμ text d
      rw [hbefore, ← List.append_assoc] at hle
      rw [segmentsFrom_some hcut, hword]
      dsimp only
      refine ⟨?_, fun charset' content' hmem => ?_⟩
      · rw [textWeight, textWeight]
        omega
      · rw [textWeight, textWeight]
        rcases List.mem_cons.mp (List.mem_of_ne_of_mem (by simp) hmem) with heq | hmem
        · obtain ⟨-, rfl, rfl⟩ := Segment.word.inj heq
          exact ⟨text, hconv, by omega⟩
        · obtain ⟨text', hconv', hword'⟩ := hwords charset' content' hmem
          exact ⟨text', hconv', by omega⟩

end Weight
end EncodedWords
