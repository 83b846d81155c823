import Sigillum.HeaderFields

/-! # The lines of header fields

What the loop at the end of `AssembleMessage` looks at: the lines a field is folded
into, and how long they get.  A field can be folded only at the spaces of its value, so
that it fits exactly if each of its tokens does, the first of them behind the name
(`longestLine_foldHeaderLine_le_iff`).

Encoded-words are short tokens, and a display name is written so that it has no long
ones.  That leaves the addresses themselves, which are tokens of any length
(`fitsFrom_formatAddressList`).
-/
namespace Sigillum
open Runes Bytes HeaderBlock WordEncoder

/-! ## Splitting into lines -/

theorem splitLines_nil : splitLines [] = [[]] := by
  rw [splitLines]
  rfl

theorem splitLines_unbroken {line : Bytes} (h : Unbroken line) : splitLines line = [line] := by
  rw [splitLines]
  split
  · rfl
  · rename_i a b hcut
    have hcr : 13 ∈ line := by
      rw [cutPair_eq_some hcut]
      simp
    exact absurd rfl (h 13 hcr).1

/-- A line break is one wherever it stands: none can begin before it. -/
theorem splitLines_crlf (s t : Bytes) :
    splitLines (s ++ 13 :: 10 :: t) = splitLines s ++ splitLines t := by
  induction hn : s.length using Nat.strong_induction_on generalizing s with
  | _ n ih =>
    have hcut := cutPair_append (show (13 : UInt8) ≠ 10 by decide) s t
    rw [splitLines, splitLines.eq_def s]
    cases hfirst : cutPair 13 10 s with
    | none =>
      rw [hfirst] at hcut
      split
      · rename_i hnone
        rw [hcut] at hnone
        cases hnone
      · rename_i line rest hsome
        rw [hcut] at hsome
        obtain ⟨rfl, rfl⟩ := Prod.mk.inj (Option.some.inj hsome)
        rfl
    | some p =>
      obtain ⟨line, rest⟩ := p
      rw [hfirst] at hcut
      have hlength : rest.length < n := by
        rw [← hn, cutPair_eq_some hfirst, List.length_append, List.length_cons, List.length_cons]
        omega
      split
      · rename_i hnone
        rw [hcut] at hnone
        cases hnone
      · rename_i line' rest' hsome
        rw [hcut] at hsome
        obtain ⟨rfl, rfl⟩ := Prod.mk.inj (Option.some.inj hsome)
        exact congrArg (line :: ·) (ih _ hlength rest rfl)

theorem splitLines_line {line : Bytes} (h : Unbroken line) (rest : Bytes) :
    splitLines (line ++ 13 :: 10 :: rest) = line :: splitLines rest := by
  rw [splitLines_crlf, splitLines_unbroken h, List.singleton_append]

theorem splitLines_lines {lines : List Bytes} (h : ∀ l ∈ lines, Unbroken l) (rest : Bytes) :
    splitLines (lines.flatMap (· ++ [13, 10]) ++ rest) = lines ++ splitLines rest := by
  induction lines with
  | nil => rfl
  | cons l lines ih =>
    obtain ⟨hl, hlines⟩ := List.forall_mem_cons.mp h
    rw [List.flatMap_cons, List.append_assoc, List.append_assoc, List.cons_append, List.cons_append,
      List.nil_append, splitLines_line hl, ih hlines, List.cons_append]

theorem splitLines_intercalate {lines : List Bytes} (hne : lines ≠ [])
    (h : ∀ l ∈ lines, Unbroken l) : splitLines (List.intercalate [13, 10] lines) = lines := by
  induction lines with
  | nil => exact absurd rfl hne
  | cons l lines ih =>
    obtain ⟨hl, hlines⟩ := List.forall_mem_cons.mp h
    cases lines with
    | nil => rw [List.intercalate_singleton, splitLines_unbroken hl]
    | cons l' lines =>
      rw [List.intercalate_cons_cons, List.append_assoc]
      exact (splitLines_line hl _).trans (congrArg (l :: ·) (ih (List.cons_ne_nil _ _) hlines))

theorem unbroken_fieldLines {key value : Bytes} (hkey : Unbroken key) (hvalue : Unbroken value) :
    ∀ l ∈ fieldLines key value, Unbroken l := by
  obtain ⟨first, more, heq, htext, -, -⟩ := fieldLines_eq key value
  have hunbroken : Unbroken (first ++ more.flatten) := by
    rw [htext, unbroken_append, unbroken_append]
    exact ⟨⟨hkey, by decide⟩, hvalue⟩
  rw [unbroken_append] at hunbroken
  rw [heq]
  refine List.forall_mem_cons.mpr ⟨hunbroken.1, fun l hl c hc => ?_⟩
  exact hunbroken.2 c (List.mem_flatten.mpr ⟨l, hl, hc⟩)

/-! ## Longest parts -/

theorem longest_le_iff {parts : List Bytes} {n : Nat} :
    longest parts ≤ n ↔ ∀ part ∈ parts, part.length ≤ n := by
  have hfold : ∀ (parts : List Bytes) (m : Nat),
      parts.foldl (fun n part => if n < part.length then part.length else n) m ≤ n ↔
        m ≤ n ∧ ∀ part ∈ parts, part.length ≤ n := by
    intro parts
    induction parts with
    | nil => simp
    | cons part parts ih =>
      intro m
      rw [List.foldl_cons, ih, List.forall_mem_cons, ← and_assoc]
      refine and_congr_left' ?_
      split
      · omega
      · omega
  rw [longest, hfold]
  exact and_iff_right (Nat.zero_le n)

section Lines
variable {s t : Bytes} {n : Nat}

theorem longestLine_crlf_le_iff :
    longestLine (s ++ 13 :: 10 :: t) ≤ n ↔ longestLine s ≤ n ∧ longestLine t ≤ n := by
  rw [longestLine, splitLines_crlf, longest_le_iff, List.forall_mem_append, ← longest_le_iff,
    ← longest_le_iff]
  exact Iff.rfl

theorem longestLine_le_iff_of_unbroken (h : Unbroken s) : longestLine s ≤ n ↔ s.length ≤ n := by
  rw [longestLine, splitLines_unbroken h, longest_le_iff]
  exact List.forall_mem_singleton

theorem longestLine_nil : longestLine [] = 0 := by
  rw [longestLine, splitLines_nil]
  rfl

theorem longestLine_blank_le_iff : longestLine (13 :: 10 :: t) ≤ n ↔ longestLine t ≤ n := by
  have hcrlf := longestLine_crlf_le_iff (s := []) (t := t) (n := n)
  rwa [longestLine_nil, and_iff_right (Nat.zero_le n)] at hcrlf

/-- What ends in a line break does not share a line with what follows. -/
theorem longestLine_append_le_iff (h : [13, 10] <:+ s) :
    longestLine (s ++ t) ≤ n ↔ longestLine s ≤ n ∧ longestLine t ≤ n := by
  obtain ⟨s, rfl⟩ := h
  rw [List.append_assoc, List.cons_append, List.cons_append, List.nil_append,
    longestLine_crlf_le_iff, longestLine_crlf_le_iff, longestLine_nil, and_assoc]
  exact and_congr_right fun _ => (and_iff_right (Nat.zero_le n)).symm

/-- The lines that end in a line break, if nothing is left behind the last. -/
theorem forall_dropLast_splitLines (h : [13, 10] <:+ s) :
    (∀ l ∈ (splitLines s).dropLast, l.length ≤ n) ↔ longestLine s ≤ n := by
  obtain ⟨s, rfl⟩ := h
  rw [longestLine_crlf_le_iff, longestLine_nil, and_iff_left (Nat.zero_le n), splitLines_crlf,
    splitLines_nil, List.dropLast_concat, longestLine, longest_le_iff]

end Lines

section Tokens
variable {s t : Bytes} {n : Nat}

theorem longestToken_append_le_iff :
    longestToken (s ++ 32 :: t) ≤ n ↔ longestToken s ≤ n ∧ longestToken t ≤ n := by
  rw [longestToken, List.splitOn_append_cons_self, longest_le_iff, List.forall_mem_append,
    ← longest_le_iff, ← longest_le_iff]
  exact Iff.rfl

theorem longestToken_le_iff_of_notMem (h : 32 ∉ s) : longestToken s ≤ n ↔ s.length ≤ n := by
  rw [longestToken, List.splitOn_eq_singleton h, longest_le_iff]
  exact List.forall_mem_singleton

theorem longestToken_le_length (s : Bytes) : longestToken s ≤ s.length := by
  refine longest_le_iff.mpr fun tok htok => ?_
  have hle := length_le_intercalate [32] htok
  rwa [List.intercalate_splitOn] at hle

end Tokens

/-! ## Fields that fit -/

/-- The tokens of a value fit into lines, the first of them into what `room` there is. -/
def FitsFrom (room : Nat) (value : Bytes) : Prop :=
  match value.splitOn 32 with
  | [] => True
  | tok :: toks => tok.length ≤ room ∧ ∀ t ∈ toks, t.length < maxHeaderLine

theorem foldedLines_le_iff (cur : Bytes) (toks : List Bytes) :
    (∀ l ∈ foldedLines cur toks, l.length ≤ maxHeaderLine) ↔
      cur.length ≤ maxHeaderLine ∧ ∀ t ∈ toks, t.length < maxHeaderLine := by
  induction toks generalizing cur with
  | nil => simp [foldedLines]
  | cons tok toks ih =>
    have hmax : foldHeaderMax < maxHeaderLine := by decide
    rw [foldedLines, List.forall_mem_cons]
    split
    · rw [List.forall_mem_cons, ih, List.length_append, List.length_singleton, Nat.add_comm,
        Nat.succ_le_iff]
    · -- what is joined stays below the length that is aimed for
      rw [ih, List.length_append, List.length_append, List.length_singleton, ← and_assoc]
      refine and_congr_left' ?_
      omega

/-- The lines of a field, and nothing behind the last of them. -/
theorem splitLines_foldHeaderLine {key value : Bytes} (hkey : Unbroken key)
    (hvalue : Unbroken value) :
    splitLines (foldHeaderLine key value) = fieldLines key value ++ [[]] := by
  rw [foldHeaderLine_eq, ← List.append_nil (List.flatMap _ _),
    splitLines_lines (unbroken_fieldLines hkey hvalue), splitLines_nil]

theorem crlf_suffix_foldHeaderLine (key value : Bytes) : [13, 10] <:+ foldHeaderLine key value := by
  obtain ⟨first, more, heq, -⟩ := fieldLines_eq key value
  obtain ⟨init, last, hlast⟩ :=
    (List.eq_nil_or_concat (first :: more)).resolve_left (List.cons_ne_nil _ _)
  rw [foldHeaderLine_eq, heq, hlast, List.concat_eq_append, List.flatMap_append,
    List.flatMap_singleton, ← List.append_assoc]
  exact List.suffix_append _ _

/-- **Which fields can be folded.** -/
theorem longestLine_foldHeaderLine_le_iff {key value : Bytes} {room : Nat} (hkey : Unbroken key)
    (hvalue : Unbroken value) (hroom : key.length + 2 + room = maxHeaderLine) :
    longestLine (foldHeaderLine key value) ≤ maxHeaderLine ↔ FitsFrom room value := by
  rw [longestLine, splitLines_foldHeaderLine hkey hvalue, longest_le_iff, List.forall_mem_append,
    List.forall_mem_singleton,
    and_iff_left (show ([] : Bytes).length ≤ _ from Nat.zero_le _)]
  unfold fieldLines FitsFrom
  obtain ⟨tok, toks, hsplit⟩ := List.exists_cons_of_ne_nil (List.splitOn_ne_nil 32 value)
  rw [hsplit]
  dsimp only
  rw [foldedLines_le_iff, List.length_append, List.length_append]
  refine and_congr_left' ?_
  simp only [List.length_cons, List.length_nil]
  omega

section Fits
variable {s t : Bytes} {room : Nat}

theorem fitsFrom_append : FitsFrom room (s ++ 32 :: t) ↔
    FitsFrom room s ∧ FitsFrom (maxHeaderLine - 1) t := by
  have hpos : 0 < maxHeaderLine := by decide
  unfold FitsFrom
  rw [List.splitOn_append_cons_self]
  obtain ⟨tok, toks, hs⟩ := List.exists_cons_of_ne_nil (List.splitOn_ne_nil 32 s)
  obtain ⟨tok', toks', ht⟩ := List.exists_cons_of_ne_nil (List.splitOn_ne_nil 32 t)
  rw [hs, ht]
  simp only [List.cons_append, List.forall_mem_append, List.forall_mem_cons]
  constructor
  · rintro ⟨htok, htoks, htok', htoks'⟩
    exact ⟨⟨htok, htoks⟩, by omega, htoks'⟩
  · rintro ⟨⟨htok, htoks⟩, htok', htoks'⟩
    exact ⟨htok, htoks, by omega, htoks'⟩

theorem fitsFrom_iff_of_notMem (h : 32 ∉ s) : FitsFrom room s ↔ s.length ≤ room := by
  unfold FitsFrom
  rw [List.splitOn_eq_singleton h]
  exact and_iff_left nofun

theorem fitsFrom_of_longestToken (h : longestToken s ≤ room) (hroom : room < maxHeaderLine) :
    FitsFrom room s := by
  have htoks := longest_le_iff.mp h
  unfold FitsFrom
  split
  · trivial
  · rename_i tok toks hsplit
    rw [hsplit, List.forall_mem_cons] at htoks
    exact ⟨htoks.1, fun t ht => (htoks.2 t ht).trans_lt hroom⟩

end Fits

theorem fits_of_longestToken {key value : Bytes} (hkey : Unbroken key) (hvalue : Unbroken value)
    (h : key.length + 2 + longestToken value ≤ maxHeaderLine) :
    longestLine (foldHeaderLine key value) ≤ maxHeaderLine := by
  have hroom : key.length + 2 + (maxHeaderLine - (key.length + 2)) = maxHeaderLine := by omega
  refine (longestLine_foldHeaderLine_le_iff hkey hvalue hroom).mpr ?_
  exact fitsFrom_of_longestToken (by omega) (by omega)

/-! ## Encoded-words -/

theorem length_encode_le (e : Encoding) (s : Bytes) :
    (e.encode s).length ≤ (s.length + 2) / 3 * 4 := by
  have hpadding : ∀ n, (e.padding n).length ≤ n := by
    intro n
    unfold Encoding.padding
    split
    · rw [List.length_replicate]
    · exact Nat.zero_le n
  fun_induction Encoding.encode e s with
  | case1 => exact Nat.zero_le _
  | case2 a =>
    have hle := hpadding 2
    simp only [List.length_append, List.length_cons, List.length_nil]
    omega
  | case3 a b v =>
    have hle := hpadding 1
    simp only [List.length_append, List.length_cons, List.length_nil]
    omega
  | case4 a b c s v ih =>
    simp only [List.length_cons]
    omega

theorem space_notMem_encode {e : Encoding} (h62 : e.c62 ≠ 32) (h63 : e.c63 ≠ 32) (s : Bytes) :
    32 ∉ e.encode s := by
  have hchar : ∀ v, e.char v ≠ 32 := by
    have hupper : ∀ v < 26, UInt8.ofNat (65 + v) ≠ 32 := by decide
    have hlower : ∀ v < 52, UInt8.ofNat (71 + v) ≠ 32 := by decide
    have hdigit : ∀ v < 62, 52 ≤ v → UInt8.ofNat (v - 4) ≠ 32 := by decide
    intro v
    unfold Encoding.char
    split
    · exact hupper v (by assumption)
    · split
      · exact hlower v (by assumption)
      · split
        · exact hdigit v (by assumption) (by omega)
        · split
          · exact h62
          · exact h63
  have hpadding : ∀ n, 32 ∉ e.padding n := by
    intro n hmem
    unfold Encoding.padding at hmem
    split at hmem
    · exact absurd (List.eq_of_mem_replicate hmem) (by decide)
    · cases hmem
  fun_induction Encoding.encode e s with
  | case1 => exact List.not_mem_nil
  | case2 a => simp [(hchar _).symm, hpadding]
  | case3 a b v => simp [(hchar _).symm, hpadding]
  | case4 a b c s v ih => simp [(hchar _).symm, ih]

/-- A word around Base64 has no space in it. -/
theorem longestToken_word {s : Bytes} {n : Nat} (h : s.length ≤ 45) (hn : 72 ≤ n) :
    longestToken (openWord 98 ++ stdEncoding.encode s ++ closeWord) ≤ n := by
  have hopen : 32 ∉ openWord 98 ∧ (openWord 98).length = 10 := by decide
  have hclose : 32 ∉ closeWord ∧ closeWord.length = 2 := by decide
  have hspace : 32 ∉ openWord 98 ++ stdEncoding.encode s ++ closeWord := by
    rw [List.mem_append, List.mem_append, not_or, not_or]
    exact ⟨⟨hopen.1, space_notMem_encode (by decide) (by decide) s⟩, hclose.1⟩
  have hlen := length_encode_le stdEncoding s
  rw [longestToken_le_iff_of_notMem hspace, List.length_append, List.length_append, hopen.2,
    hclose.2]
  omega

theorem decodeRune_width_le_four (s : Bytes) : (decodeRune s).2 ≤ 4 := by
  fun_cases decodeRune s <;> simp

theorem chunkFrom_le {n : Nat} (s : Bytes) (h : n ≤ 45) : chunkFrom n s ≤ 45 := by
  fun_induction chunkFrom n s with
  | case1 n => exact h
  | case2 n c s size hfull => exact h
  | case3 n c s size hroom ih =>
    have hwidth : size ≤ 4 := decodeRune_width_le_four (c :: s)
    exact ih (by omega)

theorem longestToken_forceEncodedWords (s : Bytes) : longestToken (forceEncodedWords s) ≤ 72 := by
  unfold forceEncodedWords
  fun_induction forcedWords s with
  | case1 => decide
  | case2 c s n ih =>
    have hchunk : ((c :: s).take n).length ≤ 45 := by
      rw [List.length_take]
      exact (Nat.min_le_left _ _).trans (chunkFrom_le (c :: s) (Nat.zero_le _))
    have hword : longestToken (lit "=?utf-8?b?" ++ stdEncoding.encode ((c :: s).take n) ++
      lit "?=") ≤ 72 := longestToken_word hchunk (Nat.le_refl _)
    cases hrest : forcedWords ((c :: s).drop n) with
    | nil => rwa [List.intercalate_singleton]
    | cons w ws =>
      rw [hrest] at ih
      rw [List.intercalate_cons_cons, List.append_assoc _ [32], List.singleton_append,
        longestToken_append_le_iff]
      exact ⟨hword, ih⟩

theorem longestToken_bEncodeFrom {pending : Bytes} (s : Bytes) (h : pending.length ≤ 45) :
    longestToken (openWord 98 ++ bEncodeFrom pending s ++ closeWord) ≤ 75 := by
  have hmax : maxBase64Len = 45 := by decide
  fun_induction bEncodeFrom pending s with
  | case1 pending => exact longestToken_word h (by decide)
  | case2 pending c s n hroom ih =>
    refine ih ?_
    rw [List.length_append, List.length_take]
    omega
  | case3 pending c s n hfull ih =>
    have hwidth : n ≤ 4 := decodeRune_width_le_four (c :: s)
    have hsplit : openWord 98 ++ (stdEncoding.encode pending ++ splitWord 98 ++
        bEncodeFrom ((c :: s).take n) ((c :: s).drop n)) ++ closeWord =
      (openWord 98 ++ stdEncoding.encode pending ++ closeWord) ++
        32 :: (openWord 98 ++ bEncodeFrom ((c :: s).take n) ((c :: s).drop n) ++ closeWord) := by
      simp [splitWord]
    rw [hsplit, longestToken_append_le_iff]
    refine ⟨longestToken_word h (by decide), ih ?_⟩
    rw [List.length_take]
    omega

theorem longestToken_bEncode {s : Bytes} (h : needsEncoding s = true) :
    longestToken (bEncode s) ≤ 75 := by
  unfold bEncode
  rw [if_pos h]
  split
  · rename_i hshort
    unfold maxContentLen at hshort
    exact longestToken_word (by omega) (by decide)
  · exact longestToken_bEncodeFrom s (Nat.zero_le _)

/-! ## Addresses -/

section Addresses
variable {a : Address} {localPart domain : Bytes}

theorem IsMailbox.space_notMem {addr : Bytes} (h : IsMailbox addr localPart domain) :
    32 ∉ addr := by
  rw [h.eq, List.mem_append, List.mem_cons]
  rintro (hc | hc | hc)
  · exact absurd (h.localPart_bytes _ hc) (by decide)
  · exact absurd hc (by decide)
  · exact absurd (h.domain.bytes hc) (by decide)

/-- A display name is written as a phrase without long tokens. -/
theorem formatAddress_named (h : IsMailbox a.address localPart domain) (hname : a.name ≠ []) :
    ∃ phrase, longestToken phrase ≤ maxFoldableToken ∧
      formatAddress a = phrase ++ 32 :: (lit "<" ++ a.address ++ lit ">") := by
  have hspace : lit " <" = [32] ++ lit "<" := by decide
  unfold formatAddress
  rw [if_neg hname, hspace]
  split
  · rename_i hbytes
    refine ⟨bEncode a.name, (longestToken_bEncode ?_).trans (by decide), by simp⟩
    -- a byte that is neither printable nor a tab is no text
    obtain ⟨c, hc, hbad⟩ := List.any_eq_true.mp hbytes
    refine List.any_eq_true.mpr ⟨c, hc, ?_⟩
    unfold isText
    grind
  · split
    · exact ⟨forceEncodedWords a.name,
        (longestToken_forceEncodedWords a.name).trans (by decide), by simp⟩
    · rename_i hlong
      have hstring : ∃ phrase, addressString a =
          phrase ++ 32 :: (lit "<" ++ a.address ++ lit ">") := by
        unfold addressString
        rw [if_neg hname, angleAddr_eq h]
        split
        · exact ⟨quoteString a.name, by simp⟩
        · split
          · exact ⟨bEncode a.name, by simp⟩
          · exact ⟨qEncode a.name, by simp⟩
      obtain ⟨phrase, hphrase⟩ := hstring
      rw [Nat.not_lt, hphrase, longestToken_append_le_iff] at hlong
      exact ⟨phrase, hlong.1, hphrase⟩

/-- The length of the token an address is written in: with a display name it stands in angle
brackets. -/
def addressToken (a : Address) : Nat :=
  if a.name = [] then a.address.length else a.address.length + 2

/-- The addresses of a list fit into lines, with commas behind all but the last, if the first
line has `room` for a token.  Behind a display name an address starts a line if it has to. -/
def addressesFit (room : Nat) : List Address → Bool
  | [] => true
  | a :: rest =>
    decide (addressToken a + (if rest = [] then 0 else 1) ≤
      (if a.name = [] then room else maxHeaderLine - 1)) && addressesFit (maxHeaderLine - 1) rest

theorem fitsFrom_formatAddress (h : IsMailbox a.address localPart domain) {room : Nat}
    (hroom : maxFoldableToken ≤ room) (hmax : room < maxHeaderLine) (rest : Bytes)
    (hrest : 32 ∉ rest) :
    FitsFrom room (formatAddress a ++ rest) ↔
      addressToken a + rest.length ≤ if a.name = [] then room else maxHeaderLine - 1 := by
  have hangle : ∀ c ∈ [lit "<", lit ">"], 32 ∉ c := by decide
  by_cases hname : a.name = []
  · have hbare : formatAddress a = a.address := if_pos hname
    have hspace : 32 ∉ a.address ++ rest := by
      rw [List.mem_append, not_or]
      exact ⟨h.space_notMem, hrest⟩
    rw [hbare, fitsFrom_iff_of_notMem hspace, if_pos hname, addressToken, if_pos hname,
      List.length_append]
  · obtain ⟨phrase, hphrase, heq⟩ := formatAddress_named h hname
    have hspace : 32 ∉ lit "<" ++ a.address ++ lit ">" ++ rest := by
      simp only [List.mem_append, not_or]
      exact ⟨⟨⟨by decide, h.space_notMem⟩, by decide⟩, hrest⟩
    have hlen : (lit "<" ++ a.address ++ lit ">" ++ rest).length =
        a.address.length + 2 + rest.length := by
      have hlit : (lit "<").length = 1 ∧ (lit ">").length = 1 := by decide
      rw [List.length_append, List.length_append, List.length_append, hlit.1, hlit.2]
      omega
    rw [heq, List.append_assoc, List.cons_append, fitsFrom_append, fitsFrom_iff_of_notMem hspace,
      hlen, if_neg hname, addressToken, if_neg hname]
    exact and_iff_right (fitsFrom_of_longestToken (hphrase.trans hroom) hmax)

/-- **Which lists of addresses can be folded.** -/
theorem fitsFrom_formatAddressList {addrs : List Address}
    (h : ∀ a ∈ addrs, ∃ localPart domain, IsMailbox a.address localPart domain) {room : Nat}
    (hroom : maxFoldableToken ≤ room) (hmax : room < maxHeaderLine) :
    FitsFrom room (formatAddressList addrs) ↔ addressesFit room addrs = true := by
  have hcomma : lit ", " = [44, 32] := by decide
  unfold formatAddressList
  rw [hcomma]
  induction addrs generalizing room with
  | nil => exact iff_of_true ((fitsFrom_iff_of_notMem List.not_mem_nil).mpr (Nat.zero_le _)) rfl
  | cons a addrs ih =>
    obtain ⟨⟨localPart, domain, ha⟩, haddrs⟩ := List.forall_mem_cons.mp h
    rw [addressesFit, Bool.and_eq_true, decide_eq_true_eq]
    cases addrs with
    | nil =>
      have hfits := fitsFrom_formatAddress ha hroom hmax [] (List.not_mem_nil)
      rw [List.append_nil] at hfits
      rw [List.map_singleton, List.intercalate_singleton, hfits, if_pos rfl, List.length_nil]
      exact (and_iff_left rfl).symm
    | cons b addrs =>
      have hfits := fitsFrom_formatAddress ha hroom hmax [44] (by decide)
      have hrest : FitsFrom (maxHeaderLine - 1) _ ↔ _ := ih haddrs (by decide) (by decide)
      rw [List.length_singleton] at hfits
      rw [if_neg (List.cons_ne_nil _ _), ← hrest, ← hfits, ← fitsFrom_append, List.map_cons,
        List.map_cons, List.intercalate_cons_cons, List.append_assoc, List.append_assoc]
      rfl

end Addresses

end Sigillum
