import Sigillum.Assembly
import Sigillum.HeaderLines
import Sigillum.TransferEncodings

/-! # The lines of attachments

`writeAttachment` sends the content through a Base64 encoder that writes up to 1024
characters at a time to a `lineBreakWriter`, which starts a new line after every 76
of them.  `Write` has a value receiver, so that each write starts to count at column
0 while the text goes on where the last one left off.

Nothing of the content is lost (`base64Decode_splitLines`).  Lines stay within 76
characters only for certain lengths of the content (`attachment_lines_iff`).
-/
namespace Sigillum
open Runes Bytes HeaderBlock WordEncoder EncodedWords TransferEncodings

/-! ## Writes and lines -/

/-- One write: lines of 76 characters, and what is left of the text. -/
theorem lineBreakWrite_eq (w : Bytes) :
    ∃ (lines : List Bytes) (last : Bytes),
      lineBreakWrite w = lines.flatMap (· ++ [13, 10]) ++ last ∧
      lines.flatten ++ last = w ∧ (∀ l ∈ lines, l.length = 76) ∧
      (if w.length ≤ 76 then lines = [] else
        lines ≠ [] ∧ last.length = (w.length - 1) % 76 + 1) := by
  induction hn : w.length using Nat.strong_induction_on generalizing w with
  | _ n ih =>
    by_cases hw : w = []
    · subst hw
      refine ⟨[], [], ?_, rfl, by simp, by rw [if_pos (by rw [← hn]; exact Nat.zero_le _)]⟩
      rw [lineBreakWrite, lineBreakFrom, if_pos rfl]
      rfl
    · have hwrite : lineBreakWrite w =
          w.take 76 ++ lineBreakFrom (w.take 76).length (w.drop 76) := by
        rw [lineBreakWrite, lineBreakFrom, if_neg hw]
        simp
      by_cases hshort : w.length ≤ 76
      · refine ⟨[], w, ?_, rfl, by simp, by rw [if_pos (by omega)]⟩
        rw [hwrite, List.drop_of_length_le hshort, lineBreakFrom, if_pos rfl,
          List.take_of_length_le hshort]
        simp
      · -- The line is full, and the rest goes on as if at the start of one.
        have htake : (w.take 76).length = 76 := by
          rw [List.length_take]
          omega
        have hdrop : w.drop 76 ≠ [] := by
          rw [ne_eq, List.drop_eq_nil_iff]
          omega
        have hnext : lineBreakFrom 76 (w.drop 76) = [13, 10] ++ lineBreakWrite (w.drop 76) := by
          have hbreak : lit "\r\n" = [13, 10] := by decide
          rw [lineBreakWrite, lineBreakFrom, if_neg hdrop, lineBreakFrom, if_neg hdrop]
          simp [hbreak]
        obtain ⟨lines, last, heq, hflat, hlines, hrest⟩ :=
          ih _ (by rw [List.length_drop]; omega) (w.drop 76) rfl
        have hlength : (w.drop 76).length = n - 76 := by rw [List.length_drop, hn]
        refine ⟨w.take 76 :: lines, last, ?_, ?_, ?_, ?_⟩
        · rw [hwrite, htake, hnext, heq]
          simp
        · rw [List.flatten_cons, List.append_assoc, hflat, List.take_append_drop]
        · exact List.forall_mem_cons.mpr ⟨htake, hlines⟩
        · rw [if_neg (by omega)]
          refine ⟨List.cons_ne_nil _ _, ?_⟩
          rw [hlength] at hrest
          split at hrest
          · rw [hrest, List.flatten_nil, List.nil_append] at hflat
            rw [hflat, hlength]
            omega
          · rw [hrest.2]
            omega

/-- The writes of these lengths, the first at column `col`, make no line longer than
`limit`: a short write goes on with the line, a longer one puts 76 characters on it
and starts others. -/
def Wraps (limit : Nat) : Nat → List Nat → Prop
  | col, [] => col ≤ limit
  | col, len :: rest =>
    if len ≤ 76 then Wraps limit (col + len) rest
    else col + 76 ≤ limit ∧ Wraps limit ((len - 1) % 76 + 1) rest

/-- The lines of several writes after a line that is `last` so far: together they are
what was written, and their lengths depend on those of the writes. -/
theorem splitLines_writes {limit : Nat} (hlimit : 76 ≤ limit) {writes : List Bytes}
    (hwrites : ∀ w ∈ writes, Unbroken w) {last : Bytes} (hlast : Unbroken last) :
    (splitLines (last ++ writes.flatMap lineBreakWrite)).flatten = last ++ writes.flatten ∧
      ((∀ l ∈ splitLines (last ++ writes.flatMap lineBreakWrite), l.length ≤ limit) ↔
        Wraps limit last.length (writes.map List.length)) := by
  induction writes generalizing last with
  | nil =>
    rw [List.flatMap_nil, List.append_nil, splitLines_unbroken hlast]
    simp [Wraps]
  | cons w writes ih =>
    obtain ⟨hw, hrest⟩ := List.forall_mem_cons.mp hwrites
    obtain ⟨lines, fin, heq, hflat, hlines, hcases⟩ := lineBreakWrite_eq w
    rw [← hflat, unbroken_append] at hw
    obtain ⟨hunbroken, hfin⟩ := hw
    rw [List.flatMap_cons, heq, List.map_cons, Wraps]
    split at hcases
    · -- a short write has no break, wherever on the line it starts
      rename_i hshort
      subst hcases
      obtain rfl : fin = w := hflat
      rw [if_pos hshort, List.flatMap_nil, List.nil_append, ← List.append_assoc]
      have h := ih hrest (unbroken_append.mpr ⟨hlast, hfin⟩)
      rw [List.length_append] at h
      exact ⟨by rw [h.1, List.flatten_cons, List.append_assoc], h.2⟩
    · rename_i hlong
      obtain ⟨hne, hlength⟩ := hcases
      obtain ⟨line, lines, rfl⟩ := List.exists_cons_of_ne_nil hne
      obtain ⟨hline, hlines⟩ := List.forall_mem_cons.mp hlines
      have hfirst : Unbroken (last ++ line) := by
        rw [List.flatten_cons, unbroken_append] at hunbroken
        exact unbroken_append.mpr ⟨hlast, hunbroken.1⟩
      have hmore : ∀ l ∈ lines, Unbroken l := fun l hl c hc =>
        hunbroken c (List.mem_flatten.mpr ⟨l, List.mem_cons_of_mem _ hl, hc⟩)
      have htext : last ++ ((line :: lines).flatMap (· ++ [13, 10]) ++ fin ++
          writes.flatMap lineBreakWrite) = (last ++ line) ++ 13 :: 10 ::
            (lines.flatMap (· ++ [13, 10]) ++ (fin ++ writes.flatMap lineBreakWrite)) := by simp
      obtain ⟨hflatten, hiff⟩ := ih hrest hfin
      rw [htext, splitLines_line hfirst, splitLines_lines hmore, if_neg hlong]
      constructor
      · rw [List.flatten_cons, List.flatten_append, hflatten, List.flatten_cons, ← hflat]
        simp
      · rw [List.forall_mem_cons, List.forall_mem_append, hiff, hlength, List.length_append, hline]
        exact and_congr_right fun _ => and_iff_right fun l hl => (hlines l hl).symm ▸ hlimit

/-! ## The writes of the encoder -/

/-- They are the encoding of the content, in pieces. -/
theorem flatten_base64Writes (p : Bytes) : (base64Writes p).flatten = stdEncoding.encode p := by
  induction hn : p.length using Nat.strong_induction_on generalizing p with
  | _ n ih =>
    rw [base64Writes]
    split
    · split
      · rename_i hnil
        rw [hnil]
        rfl
      · simp
    · generalize hk : (if p.length < 768 then p.length - p.length % 3 else 768) = k
      have hquanta : k % 3 = 0 ∧ 0 < k ∧ k ≤ p.length := by
        split at hk <;> omega
      have hlength : (p.take k).length = k := by
        rw [List.length_take]
        omega
      rw [List.flatten_cons, ih _ (by rw [List.length_drop]; omega) _ rfl,
        ← encode_append (by rw [hlength]; exact hquanta.1), List.take_append_drop]

theorem unbroken_base64Writes (p : Bytes) : ∀ w ∈ base64Writes p, Unbroken w := by
  intro w hw c hc
  have hmem : c ∈ stdEncoding.encode p := by
    rw [← flatten_base64Writes]
    exact List.mem_flatten.mpr ⟨w, hw, hc⟩
  exact unbroken_of_isText (isText_stdEncode p) c hmem

section Lengths
variable {p : Bytes}

theorem lengths_of_lt_three (h : p.length < 3) :
    (base64Writes p).map List.length = if p.length = 0 then [] else [4] := by
  rw [base64Writes, if_pos h]
  cases p with
  | nil => rfl
  | cons c p =>
    rw [List.length_cons] at h ⊢
    rw [if_neg (List.cons_ne_nil _ _), if_neg (by omega), List.map_singleton, length_stdEncode,
      List.length_cons]
    congr 1
    omega

/-- Less than a full buffer: whole quanta, and what is left on `Close`. -/
theorem lengths_of_lt_full (hmin : 3 ≤ p.length) (h : p.length < 768) :
    (base64Writes p).map List.length =
      p.length / 3 * 4 :: if p.length % 3 = 0 then [] else [4] := by
  have hrest : (p.drop (p.length - p.length % 3)).length = p.length % 3 := by
    rw [List.length_drop]
    omega
  rw [base64Writes, if_neg (by omega)]
  dsimp only
  rw [if_pos h, List.map_cons, lengths_of_lt_three (by rw [hrest]; omega), hrest, length_stdEncode,
    List.length_take]
  congr 1
  omega

/-- A full buffer, and what the rest is written in. -/
theorem lengths_of_full (h : 768 ≤ p.length) :
    (base64Writes p).map List.length = 1024 :: (base64Writes (p.drop 768)).map List.length := by
  rw [base64Writes, if_neg (by omega)]
  dsimp only
  rw [if_neg (by omega), List.map_cons, length_stdEncode, List.length_take]
  congr 1
  omega

end Lengths

/-- The lengths of a content whose lines are not too long. -/
def FitsColumns (n : Nat) : Prop := n ≤ 798 ∧ (n < 57 ∨ (n % 57 ≠ 1 ∧ n % 57 ≠ 2))

instance (n : Nat) : Decidable (FitsColumns n) := inferInstanceAs (Decidable (_ ∧ _))

section Columns
variable {col : Nat} {p : Bytes}

theorem wraps_of_lt_three (h : p.length < 3) (hcol : col ≤ 36) :
    Wraps 76 col ((base64Writes p).map List.length) := by
  rw [lengths_of_lt_three h]
  split
  · exact hcol.trans (by decide)
  · rw [Wraps, if_pos (by decide), Wraps]
    omega

/-- Whole quanta and the rest of a content that is less than a buffer. -/
theorem wraps_of_lt_full (hmin : 3 ≤ p.length) (h : p.length < 768) :
    Wraps 76 col ((base64Writes p).map List.length) ↔
      if p.length < 60 then col + (p.length + 2) / 3 * 4 ≤ 76
      else col = 0 ∧ p.length % 57 ≠ 1 ∧ p.length % 57 ≠ 2 := by
  have hlast : ∀ c, Wraps 76 c [4] ↔ c + 4 ≤ 76 := fun c => by
    rw [Wraps, if_pos (by decide), Wraps]
  rw [lengths_of_lt_full hmin h, Wraps]
  by_cases hquanta : p.length % 3 = 0
  · rw [if_pos hquanta, Wraps, Wraps]
    split <;> split <;> omega
  · rw [if_neg hquanta, hlast, hlast]
    split <;> split <;> omega

/-- After a full buffer a line is at column 36, which leaves room for 40 characters. -/
theorem wraps_after_full : Wraps 76 36 ((base64Writes p).map List.length) ↔ p.length ≤ 30 := by
  rcases Nat.lt_or_ge p.length 3 with hshort | hmin
  · exact iff_of_true (wraps_of_lt_three hshort (Nat.le_refl 36)) (by omega)
  · rcases Nat.lt_or_ge p.length 768 with hlt | hfull
    · rw [wraps_of_lt_full hmin hlt]
      split <;> omega
    · rw [lengths_of_full hfull, Wraps, if_neg (by decide)]
      exact iff_of_false (fun h => absurd h.1 (by decide)) (by omega)

theorem wraps_base64Writes :
    Wraps 76 0 ((base64Writes p).map List.length) ↔ FitsColumns p.length := by
  unfold FitsColumns
  -- no quantum, whole quanta in one write, or a full buffer first
  rcases Nat.lt_or_ge p.length 3 with hshort | hmin
  · exact iff_of_true (wraps_of_lt_three hshort (Nat.zero_le 36)) (by omega)
  · rcases Nat.lt_or_ge p.length 768 with hlt | hfull
    · rw [wraps_of_lt_full hmin hlt]
      split <;> omega
    · have hrest := wraps_after_full (p := p.drop 768)
      rw [List.length_drop] at hrest
      rw [lengths_of_full hfull, Wraps, if_neg (by decide), show (1024 - 1) % 76 + 1 = 36 from rfl,
        hrest]
      omega

/-- Where lines do get longer, it is by what is left of a buffer and by the last quantum. -/
theorem wraps_of_le (hcol : col ≤ 76) : Wraps 156 col ((base64Writes p).map List.length) := by
  induction hn : p.length using Nat.strong_induction_on generalizing p col with
  | _ n ih =>
    have hlast : ∀ c, Wraps 156 c (if p.length % 3 = 0 then [] else [4]) ↔
        if p.length % 3 = 0 then c ≤ 156 else c + 4 ≤ 156 := by
      intro c
      split <;> simp [Wraps]
    rcases Nat.lt_or_ge p.length 3 with hshort | hmin
    · rw [lengths_of_lt_three hshort]
      split
      · exact hcol.trans (by decide)
      · rw [Wraps, if_pos (by decide), Wraps]
        omega
    · rcases Nat.lt_or_ge p.length 768 with hlt | hfull
      · rw [lengths_of_lt_full hmin hlt, Wraps, hlast, hlast]
        split <;> split <;> omega
      · rw [lengths_of_full hfull, Wraps, if_neg (by decide)]
        exact ⟨by omega, ih _ (by rw [List.length_drop]; omega) (by decide) rfl⟩

end Columns

/-! ## Attachments -/

/-- Without its line breaks a body decodes to the content, of any length. -/
theorem base64Decode_splitLines (content : Bytes) :
    base64Decode (splitLines ((base64Writes content).flatMap lineBreakWrite)).flatten =
      some content := by
  have h := (splitLines_writes (Nat.le_refl 76) (unbroken_base64Writes content) unbroken_nil).1
  rw [List.nil_append, List.nil_append, flatten_base64Writes] at h
  rw [h, base64Decode_encode]

theorem lines_le_iff (content : Bytes) :
    (∀ l ∈ splitLines ((base64Writes content).flatMap lineBreakWrite), l.length ≤ 76) ↔
      FitsColumns content.length := by
  have h := (splitLines_writes (Nat.le_refl 76) (unbroken_base64Writes content) unbroken_nil).2
  rw [List.nil_append] at h
  exact h.trans wraps_base64Writes

/-- No line is much longer than that. -/
theorem lines_le (content : Bytes) :
    ∀ l ∈ splitLines ((base64Writes content).flatMap lineBreakWrite), l.length ≤ 156 := by
  have hlimit : 76 ≤ 156 := by decide
  have h := (splitLines_writes hlimit (unbroken_base64Writes content) unbroken_nil).2
  rw [List.nil_append] at h
  exact h.mpr (wraps_of_le (Nat.zero_le 76))

/-- **Which attachments keep to 76 columns.**  The lines of an attachment have at most
76 characters and decode to its content exactly if the content has at most 798 bytes,
and not one or two more than a positive multiple of 57. -/
theorem attachment_lines_iff (L : Libraries) (a : Attachment) (p : Part)
    (h : writeAttachment L a = .ok p) :
    ((∀ l ∈ splitLines p.body, l.length ≤ 76) ∧
        base64Decode (splitLines p.body).flatten = some a.content) ↔
      FitsColumns a.content.length := by
  rw [(writeAttachment_sets h).1, lines_le_iff]
  exact and_iff_left (base64Decode_splitLines a.content)

/-- An attachment of `n` bytes without a name. -/
def zeros (n : Nat) : Attachment where
  filename := []
  contentType := []
  disposition := []
  contentID := []
  content := List.replicate n 0

/-- The part it becomes. -/
def zerosPart (n : Nat) : Part where
  header := ((MIMEHeader.empty.set (lit "Content-Type") (lit "application/octet-stream")).set
    (lit "Content-Disposition") (lit "attachment")).set (lit "Content-Transfer-Encoding")
    (lit "base64")
  body := (base64Writes (zeros n).content).flatMap lineBreakWrite

theorem attachment_lines_iff_threeLines :
    writeAttachment .plain (zeros 130) = .ok (zerosPart 130) ∧
      (splitLines (zerosPart 130).body).map List.length = [76, 76, 24] ∧
      (∀ l ∈ splitLines (zerosPart 130).body, l.length ≤ 76) ∧
      base64Decode (splitLines (zerosPart 130).body).flatten = some (zeros 130).content :=
  ⟨rfl, by decide +kernel,
    (attachment_lines_iff .plain (zeros 130) (zerosPart 130) rfl).mpr (by decide +kernel)⟩

/-- With one byte more than a line holds, the last four characters go on the same line. -/
theorem zeros_58_overlong :
    writeAttachment .plain (zeros 58) = .ok (zerosPart 58) ∧
      ∃ l ∈ splitLines (zerosPart 58).body, 76 < l.length := by
  refine ⟨rfl, ?_⟩
  by_contra hnone
  have hfits := (lines_le_iff (zeros 58).content).mp fun l hl =>
    Nat.le_of_not_lt fun hlt => hnone ⟨l, hl, hlt⟩
  exact absurd hfits (by decide)

end Sigillum
