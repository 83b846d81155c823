import Sigillum.FoldedFields
import Sigillum.MessageLines

/-! # Lines of white space in a header

`foldHeaderLine` splits a value at every space and breaks the line before the token that
would take it beyond 78 octets.  Between two adjacent spaces, and behind a space at the
end, that token is empty: it gets a line of its own unless the next one still fits behind
it, and the line has nothing but white space on it (`folded_lines_visible_iff`).

A reader that ends the header at such a line loses the fields below it
(`assembled_headerLines_iff`).  Where the lines break depends on lengths only, so the
fields this happens to are described by counting columns.
-/
namespace Sigillum
open Runes Bytes HeaderBlock WordEncoder

/-- What a reader takes for white space: some bytes, the space among them and the colon
not. -/
structure WhiteSpace where
  contains : UInt8 → Bool
  space : contains 32 = true
  colon : contains 58 = false

namespace WhiteSpace

/-- Spaces and tabs. -/
def spaceOrTab : WhiteSpace := ⟨fun c => c == 32 || c == 9, rfl, rfl⟩

variable (w : WhiteSpace)

/-- Whether a line looks empty. -/
def blank (line : Bytes) : Bool := line.all w.contains

/-- The header for a reader that ends it at the first line that looks empty. -/
def headerLines (text : Bytes) : List Bytes := (splitLines text).takeWhile fun l => !w.blank l

theorem blank_append (l l' : Bytes) :
    w.blank (l ++ l') = true ↔ w.blank l = true ∧ w.blank l' = true := by
  rw [blank, List.all_append, Bool.and_eq_true]
  rfl

theorem blank_space : w.blank [32] = true := by
  rw [blank, List.all_cons, w.space]
  rfl

theorem not_blank_of_mem {line : Bytes} (h : 58 ∈ line) : ¬ w.blank line = true := by
  intro hblank
  have hcolon := List.all_eq_true.mp hblank 58 h
  rw [w.colon] at hcolon
  cases hcolon

end WhiteSpace

/-! ## Columns -/

/-- The column behind a token on a line filled up to `col`, or on a line of its own if it
does not fit there. -/
def nextColumn (col : Nat) (tok : Bytes) : Nat :=
  if foldHeaderMax < col + 1 + tok.length then 1 + tok.length else col + 1 + tok.length

/-- The column behind all the tokens. -/
def columnAfter (col : Nat) (toks : List Bytes) : Nat := toks.foldl nextColumn col

/-- The octets that tokens take on one line, with a space before each. -/
def lineWidth (toks : List Bytes) : Nat := (toks.flatMap ([32] ++ ·)).length

/-- A line filled up to `col` gets only white space for the rest: white tokens, up to the end
of the value or to a token that does not fit. -/
def TrailsOff (w : WhiteSpace) (col : Nat) (toks : List Bytes) : Prop :=
  ∃ run rest, toks = run ++ rest ∧ (∀ tok ∈ run, w.blank tok = true) ∧
    ∀ next ∈ rest.head?, foldHeaderMax < col + lineWidth run + 1 + next.length

/-- Among the tokens behind column `col` is a white one that does not fit on the line it
comes to, and nothing but white space joins it on the next. -/
def Strands (w : WhiteSpace) (col : Nat) (toks : List Bytes) : Prop :=
  ∃ before tok rest, toks = before ++ tok :: rest ∧
    foldHeaderMax < columnAfter col before + 1 + tok.length ∧ w.blank tok = true ∧
    TrailsOff w (1 + tok.length) rest

/-- White space of the value is left on a line of its own. -/
def StrandsWhite (w : WhiteSpace) (key value : Bytes) : Prop :=
  ∃ first toks, value.splitOn 32 = first :: toks ∧
    Strands w (key.length + 2 + first.length) toks

section Columns
variable {w : WhiteSpace} {col : Nat} {tok : Bytes} {toks : List Bytes}

theorem lineWidth_cons (tok : Bytes) (toks : List Bytes) :
    lineWidth (tok :: toks) = 1 + tok.length + lineWidth toks := by
  rw [lineWidth, List.flatMap_cons, List.length_append, List.length_append,
    List.length_singleton, lineWidth]

theorem trailsOff_nil : TrailsOff w col [] := ⟨[], [], rfl, by simp, by simp⟩

theorem trailsOff_of_long (h : foldHeaderMax < col + 1 + tok.length) :
    TrailsOff w col (tok :: toks) := by
  refine ⟨[], tok :: toks, rfl, by simp, fun next hnext => ?_⟩
  obtain rfl : tok = next := Option.some.inj hnext
  exact h

/-- A token that fits has to be white itself. -/
theorem trailsOff_cons_iff (h : ¬ foldHeaderMax < col + 1 + tok.length) :
    TrailsOff w col (tok :: toks) ↔
      w.blank tok = true ∧ TrailsOff w (col + 1 + tok.length) toks := by
  constructor
  · rintro ⟨run, rest, heq, hwhite, hend⟩
    cases run with
    | nil =>
      rw [List.nil_append] at heq
      subst heq
      exact absurd (hend tok rfl) h
    | cons tok' run =>
      obtain ⟨rfl, rfl⟩ := List.cons.inj heq
      obtain ⟨htok, hrun⟩ := List.forall_mem_cons.mp hwhite
      refine ⟨htok, run, rest, rfl, hrun, fun next hnext => ?_⟩
      have hlong := hend next hnext
      rw [lineWidth_cons] at hlong
      omega
  · rintro ⟨htok, run, rest, rfl, hrun, hend⟩
    refine ⟨tok :: run, rest, rfl, List.forall_mem_cons.mpr ⟨htok, hrun⟩, fun next hnext => ?_⟩
    have hlong := hend next hnext
    rw [lineWidth_cons]
    omega

theorem not_strands_nil : ¬ Strands w col [] := by
  rintro ⟨before, tok, rest, heq, -⟩
  cases before <;> cases heq

/-- The white line starts with the first token or behind it. -/
theorem strands_cons_iff :
    Strands w col (tok :: toks) ↔
      (foldHeaderMax < col + 1 + tok.length ∧ w.blank tok = true ∧
        TrailsOff w (1 + tok.length) toks) ∨ Strands w (nextColumn col tok) toks := by
  constructor
  · rintro ⟨before, tok', rest, heq, hlong, hwhite, hrest⟩
    cases before with
    | nil =>
      obtain ⟨rfl, rfl⟩ := List.cons.inj heq
      exact .inl ⟨hlong, hwhite, hrest⟩
    | cons tok₁ before =>
      obtain ⟨rfl, rfl⟩ := List.cons.inj heq
      exact .inr ⟨before, tok', rest, rfl, hlong, hwhite, hrest⟩
  · rintro (⟨hlong, hwhite, hrest⟩ | ⟨before, tok', rest, rfl, hlong, hwhite, hrest⟩)
    · exact ⟨[], tok, toks, rfl, hlong, hwhite, hrest⟩
    · exact ⟨tok :: before, tok', rest, rfl, hlong, hwhite, hrest⟩

end Columns

/-! ## The lines of a field -/

section Lines
variable {w : WhiteSpace} {cur first : Bytes} {toks more : List Bytes}

/-- The line being filled ends up white if it is so far and gets nothing else. -/
theorem blank_first_iff (h : foldedLines cur toks = first :: more) :
    w.blank first = true ↔ w.blank cur = true ∧ TrailsOff w cur.length toks := by
  induction toks generalizing cur with
  | nil =>
    obtain ⟨rfl, -⟩ := List.cons.inj h
    exact (and_iff_left trailsOff_nil).symm
  | cons tok toks ih =>
    rw [foldedLines] at h
    by_cases hlong : foldHeaderMax < cur.length + 1 + tok.length
    · rw [if_pos hlong] at h
      obtain ⟨rfl, -⟩ := List.cons.inj h
      exact (and_iff_left (trailsOff_of_long hlong)).symm
    · rw [if_neg hlong] at h
      rw [ih h, trailsOff_cons_iff hlong, w.blank_append, w.blank_append, List.length_append,
        List.length_append, List.length_singleton, and_iff_left w.blank_space, and_assoc]

/-- The lines after it: the columns follow the lengths of the lines. -/
theorem exists_blank_more_iff (h : foldedLines cur toks = first :: more) :
    (∃ l ∈ more, w.blank l = true) ↔ Strands w cur.length toks := by
  induction toks generalizing cur first more with
  | nil =>
    obtain ⟨-, rfl⟩ := List.cons.inj h
    exact iff_of_false (by simp) not_strands_nil
  | cons tok toks ih =>
    rw [foldedLines] at h
    rw [strands_cons_iff, nextColumn]
    by_cases hlong : foldHeaderMax < cur.length + 1 + tok.length
    · -- the token starts the next line, which may be white itself or be followed by one
      rw [if_pos hlong] at h
      obtain ⟨-, rfl⟩ := List.cons.inj h
      obtain ⟨first', more', heq, -, -, -⟩ := foldedLines_eq ([32] ++ tok) toks
      have hlength : ([32] ++ tok).length = 1 + tok.length := by
        rw [List.length_append, List.length_singleton]
      have hwhite := blank_first_iff (w := w) heq
      have hmore := ih heq
      rw [hlength] at hwhite hmore
      rw [w.blank_append, and_iff_right w.blank_space] at hwhite
      rw [heq, List.exists_mem_cons_iff, hwhite, hmore, if_pos hlong, and_iff_right hlong]
    · rw [if_neg hlong] at h
      have hmore := ih h
      rw [List.length_append, List.length_append, List.length_singleton] at hmore
      rw [hmore, if_neg hlong]
      exact (or_iff_right fun hfirst => hlong hfirst.1).symm

variable {key value : Bytes}

/-- **A field has a white line** exactly if white space of its value is stranded. -/
theorem exists_blank_fieldLines_iff :
    (∃ l ∈ fieldLines key value, w.blank l = true) ↔ StrandsWhite w key value := by
  obtain ⟨tok, toks, hsplit⟩ := List.exists_cons_of_ne_nil (List.splitOn_ne_nil 32 value)
  obtain ⟨first, more, heq, -, ⟨t, hfirst⟩, -⟩ := foldedLines_eq (key ++ [58, 32] ++ tok) toks
  have hlines : fieldLines key value = first :: more := by
    unfold fieldLines
    rw [hsplit]
    exact heq
  have hlength : (key ++ [58, 32] ++ tok).length = key.length + 2 + tok.length := by
    rw [List.length_append, List.length_append]
    rfl
  have hvisible : ¬ w.blank first = true := w.not_blank_of_mem (by rw [← hfirst]; simp)
  have hmore := exists_blank_more_iff (w := w) heq
  rw [hlength] at hmore
  rw [hlines, List.exists_mem_cons_iff, or_iff_right hvisible, hmore]
  constructor
  · intro h
    exact ⟨tok, toks, hsplit, h⟩
  · rintro ⟨tok', toks', hsplit', h⟩
    obtain ⟨rfl, rfl⟩ := List.cons.inj (hsplit.symm.trans hsplit')
    exact h

theorem forall_fieldLines_iff :
    (∀ l ∈ fieldLines key value, ¬ w.blank l = true) ↔ ¬ StrandsWhite w key value := by
  rw [← exists_blank_fieldLines_iff]
  simp

/-- Single spaces between words are never stranded. -/
theorem not_strandsWhite_of_words (h : ∀ tok ∈ (value.splitOn 32).tail, ¬ w.blank tok = true) :
    ¬ StrandsWhite w key value := by
  rintro ⟨first, toks, hsplit, before, tok, rest, rfl, -, hwhite, -⟩
  rw [hsplit, List.tail_cons] at h
  exact h tok (by simp) hwhite

end Lines

/-! ## Reading the header -/

section Reading
variable {w : WhiteSpace}

/-- What the assembly writes for a field, as a reader sees it. -/
structure Visible (w : WhiteSpace) (key value : Bytes) : Prop where
  /-- No line looks empty; what stands behind the last line break is no line of the field. -/
  lines : ∀ l ∈ (splitLines (foldHeaderLine key value)).dropLast, ¬ w.blank l = true
  /-- Whatever follows, the header does not end within the field. -/
  read : ∀ text, (splitLines (foldHeaderLine key value)).dropLast <+:
    w.headerLines (foldHeaderLine key value ++ text)

/-- Lines are read to the end, and beyond, if none of them looks empty. -/
theorem prefix_takeWhile_iff (lines after : List Bytes) :
    lines <+: ((lines ++ after).takeWhile fun l => !w.blank l) ↔
      ∀ l ∈ lines, ¬ w.blank l = true := by
  constructor
  · intro h l hl
    have hread := List.mem_takeWhile_imp (h.subset hl)
    simpa using hread
  · intro h
    rw [List.takeWhile_append_of_pos (by simpa using h)]
    exact List.prefix_append _ _

theorem headerLines_field {key value : Bytes} (hkey : Unbroken key) (hvalue : Unbroken value)
    (text : Bytes) :
    w.headerLines (foldHeaderLine key value ++ text) =
      (fieldLines key value ++ splitLines text).takeWhile fun l => !w.blank l := by
  rw [WhiteSpace.headerLines, foldHeaderLine_eq,
    splitLines_lines (unbroken_fieldLines hkey hvalue)]

/-- **The header is read as it was written** exactly if no field strands white space. -/
theorem headerLines_sentText_iff {hdr : MIMEHeader} (body : Bytes)
    (hfields : ∀ f ∈ hdr.entries, IsName f.1 ∧ Unbroken f.2) :
    w.headerLines (sentText hdr body) = wireLines (sentText hdr body) ↔
      ∀ f ∈ hdr.entries, ¬ StrandsWhite w f.1 f.2 := by
  have hblocks : ∀ f ∈ hdr.sorted, IsBlock f.1 (fieldLines f.1 f.2) := by
    intro f hf
    obtain ⟨hname, hvalue⟩ := hfields f (MIMEHeader.mem_sorted.mp hf)
    exact isBlock_fieldLines hname hvalue
  have hlines : (∀ l ∈ hdr.sorted.flatMap fun f => fieldLines f.1 f.2, ¬ w.blank l = true) ↔
      ∀ f ∈ hdr.entries, ¬ StrandsWhite w f.1 f.2 := by
    simp only [List.forall_mem_flatMap, forall_fieldLines_iff, MIMEHeader.mem_sorted]
  rw [sentText_eq, wireLines_blocks hblocks, WhiteSpace.headerLines, splitLines_blocks hblocks,
    ← hlines]
  constructor
  · intro h
    refine (prefix_takeWhile_iff _ ([] :: splitLines body)).mp ?_
    rw [h]
  · intro h
    -- the empty line behind the header looks empty to every reader
    have hempty : w.blank [] = true := List.all_nil
    rw [List.takeWhile_append_of_pos (by simpa using h),
      List.takeWhile_cons_of_neg (by simp [hempty]), List.append_nil]

/-- For an assembled message: what such a reader gets depends on the fields it was given. -/
theorem assembled_headerLines_iff {L : Libraries} {e : Entropy} {msg : Message}
    {heloDomain out id : Bytes} (hmsg : msg.WellAddressed) (hid : msg.messageID ≠ [])
    (hunbroken : Unbroken msg.messageID)
    (h : assembleMessage L e msg heloDomain = .ok (out, id)) :
    ∃ hdr, Headed L e msg hdr ∧
      (w.headerLines out = wireLines out ↔ ∀ f ∈ hdr.entries, ¬ StrandsWhite w f.1 f.2) := by
  obtain ⟨-, -, custom, hdr, body, hstages, rfl, -⟩ := (assembleMessage_eq_ok_iff hid).mp h
  have hheaded := headed_of_assembleBody hstages.headers hstages.described
  exact ⟨hdr, hheaded, headerLines_sentText_iff body (hheaded.entry hunbroken hmsg)⟩

/-- **When folding leaves a line of white space.**  For every name the caller may use and
every value without line breaks, no line of the folded field looks empty, and no reader
takes one for the end of the header, exactly if no white token is pushed to a line where
nothing else joins it. -/
theorem folded_lines_visible_iff (L : Libraries) (w : WhiteSpace) (key value : Bytes)
    (hkey : validateHeaderKey L key = .ok ()) (hvalue : Unbroken value) :
    Visible w key value ↔ ¬ StrandsWhite w key value := by
  have hunbroken := (validateHeaderKey_eq_ok_iff.mp hkey).unbroken
  have hlines : (splitLines (foldHeaderLine key value)).dropLast = fieldLines key value := by
    rw [splitLines_foldHeaderLine hunbroken hvalue, List.dropLast_concat]
  rw [← forall_fieldLines_iff]
  constructor
  · intro h
    have hvisible := h.lines
    rw [hlines] at hvisible
    exact hvisible
  · intro h
    constructor
    · rw [hlines]
      exact h
    · intro text
      rw [hlines, headerLines_field hunbroken hvalue]
      exact (prefix_takeWhile_iff _ _).mpr h

end Reading

theorem folded_lines_visible_iff_longNote :
    (fieldLines (lit "X-Note") longNote).length = 2 ∧
      Visible .spaceOrTab (lit "X-Note") longNote :=
  ⟨by decide +kernel, (folded_lines_visible_iff .plain .spaceOrTab (lit "X-Note") longNote
    (by decide) (by decide +kernel)).mpr (not_strandsWhite_of_words (by decide +kernel))⟩

/-- A subject that fills its line to the last column, with a space behind it. -/
def fullSubject : Bytes := List.replicate 69 97 ++ [32]

theorem fullSubject_strands :
    (∀ L, validateHeaderKey L (lit "Subject") = .ok ()) ∧ Unbroken fullSubject ∧
      97 ∈ fullSubject ∧ subjectField fullSubject = fullSubject ∧
      (∀ L, writeField L (lit "Subject", fullSubject) =
        .ok (foldHeaderLine (lit "Subject") fullSubject)) ∧
      lit " " ∈ (splitLines (foldHeaderLine (lit "Subject") fullSubject)).dropLast ∧
      (∀ text, WhiteSpace.spaceOrTab.headerLines
        (foldHeaderLine (lit "Subject") fullSubject ++ text) =
          [lit "Subject: " ++ List.replicate 69 97]) ∧
      ¬ Visible .spaceOrTab (lit "Subject") fullSubject := by
  have hname : Unbroken (lit "Subject") := by decide
  have hvalue : Unbroken fullSubject := by decide
  have hsubject : subjectField fullSubject = fullSubject := by decide +kernel
  have hlines : fieldLines (lit "Subject") fullSubject =
      [lit "Subject: " ++ List.replicate 69 97, lit " "] := by decide +kernel
  have hwhite : lit " " ∈ (splitLines (foldHeaderLine (lit "Subject") fullSubject)).dropLast := by
    rw [splitLines_foldHeaderLine hname hvalue, List.dropLast_concat, hlines]
    exact List.mem_cons_of_mem _ List.mem_cons_self
  refine ⟨fun L => rfl, hvalue, by decide, hsubject, fun L => ?_, hwhite, fun text => ?_,
    fun h => ?_⟩
  · have hwritten := writeField_subjectField L fullSubject
    rw [hsubject] at hwritten
    exact hwritten
  · have hseen : WhiteSpace.spaceOrTab.blank (lit "Subject: " ++ List.replicate 69 97) = false ∧
        WhiteSpace.spaceOrTab.blank (lit " ") = true := by decide
    rw [headerLines_field hname hvalue, hlines, List.cons_append, List.cons_append,
      List.takeWhile_cons, List.takeWhile_cons, hseen.1, hseen.2]
    rfl
  · exact h.lines _ hwhite (by decide)

end Sigillum
