import Mathlib.Order.Lattice
import Sigillum.AssembledHeader

/-! # Folded fields

`foldHeaderLine` breaks a field at spaces only, keeping them, and only where the line
would grow beyond 78 octets.  So a field is read back from its lines, and a line is
longer than that only if there is no place to break it (`foldHeaderLine_folds`).

For the Subject the assembly turns to encoded-words when a token is too long for any
line, so that it always passes the check of the line length.
-/
namespace Sigillum
open Runes Bytes HeaderBlock WordEncoder

/-- What a folded field looks like. -/
structure Folds (key value text : Bytes) : Prop where
  ends : lit "\r\n" <:+ text
  /-- Without its line breaks the text is the field. -/
  lossless : (splitLines text).flatten = key ++ lit ": " ++ value
  /-- The lines: longer than aimed for only with a single token on them. -/
  lines : ∃ first more, splitLines text = first :: more ++ [[]] ∧
    (∀ l ∈ more, lit " " <+: l) ∧
    (foldHeaderMax < first.length → ∃ tok, 32 ∉ tok ∧ first = key ++ lit ": " ++ tok) ∧
    (∀ l ∈ more, foldHeaderMax < l.length → ∃ tok, 32 ∉ tok ∧ l = lit " " ++ tok)
  bounded : ∀ l ∈ splitLines text,
    l.length ≤ max foldHeaderMax (key.length + 2 + longestToken value)

/-- A token joins a line only if the line stays short; a longer line is the one it was
before, or a token of its own. -/
theorem foldedLines_long (cur : Bytes) (toks : List Bytes) :
    ∃ first more, foldedLines cur toks = first :: more ∧
      (foldHeaderMax < first.length → first = cur) ∧
      ∀ l ∈ more, foldHeaderMax < l.length → ∃ tok ∈ toks, l = [32] ++ tok := by
  induction toks generalizing cur with
  | nil => exact ⟨cur, [], rfl, fun _ => rfl, List.forall_mem_nil _⟩
  | cons tok toks ih =>
    rw [foldedLines]
    split
    · -- the line is broken, and a new one begins with the token
      obtain ⟨first, more, heq, hfirst, hmore⟩ := ih ([32] ++ tok)
      refine ⟨cur, first :: more, by rw [heq], fun _ => rfl, ?_⟩
      refine List.forall_mem_cons.mpr ⟨fun hlong => ?_, fun l hl hlong => ?_⟩
      · exact ⟨tok, List.mem_cons_self, hfirst hlong⟩
      · obtain ⟨tok', htok', hl⟩ := hmore l hl hlong
        exact ⟨tok', List.mem_cons_of_mem _ htok', hl⟩
    · rename_i hroom
      obtain ⟨first, more, heq, hfirst, hmore⟩ := ih (cur ++ [32] ++ tok)
      refine ⟨first, more, heq, fun hlong => ?_, fun l hl hlong => ?_⟩
      · -- the line with the token on it is not long
        have hlength := congrArg List.length (hfirst hlong)
        simp only [List.length_append, List.length_singleton] at hlength
        omega
      · obtain ⟨tok', htok', hl⟩ := hmore l hl hlong
        exact ⟨tok', List.mem_cons_of_mem _ htok', hl⟩

theorem fieldLines_long (key value : Bytes) :
    ∃ first more, fieldLines key value = first :: more ∧
      (foldHeaderMax < first.length →
        ∃ tok ∈ value.splitOn 32, first = key ++ [58, 32] ++ tok) ∧
      ∀ l ∈ more, foldHeaderMax < l.length → ∃ tok ∈ value.splitOn 32, l = [32] ++ tok := by
  obtain ⟨tok, toks, hsplit⟩ := List.exists_cons_of_ne_nil (List.splitOn_ne_nil 32 value)
  obtain ⟨first, more, heq, hfirst, hmore⟩ := foldedLines_long (key ++ [58, 32] ++ tok) toks
  refine ⟨first, more, ?_, fun hlong => ?_, fun l hl hlong => ?_⟩
  · unfold fieldLines
    rw [hsplit]
    exact heq
  · exact ⟨tok, hsplit ▸ List.mem_cons_self, hfirst hlong⟩
  · obtain ⟨tok', htok', hl⟩ := hmore l hl hlong
    exact ⟨tok', hsplit ▸ List.mem_cons_of_mem _ htok', hl⟩

theorem length_le_longestToken {value tok : Bytes} (h : tok ∈ value.splitOn 32) :
    tok.length ≤ longestToken value :=
  longest_le_iff.mp (Nat.le_refl (longestToken value)) tok h

section Fields
variable {key value : Bytes}

theorem length_fieldLines (key value : Bytes) :
    ∀ l ∈ fieldLines key value,
      l.length ≤ max foldHeaderMax (key.length + 2 + longestToken value) := by
  obtain ⟨first, more, heq, hfirst, hmore⟩ := fieldLines_long key value
  rw [heq]
  refine List.forall_mem_cons.mpr ⟨?_, fun l hl => ?_⟩
  · rcases Nat.lt_or_ge foldHeaderMax first.length with hlong | hshort
    · obtain ⟨tok, htok, rfl⟩ := hfirst hlong
      have hle := length_le_longestToken htok
      refine Nat.le_trans ?_ (Nat.le_max_right _ _)
      simp only [List.length_append, List.length_cons, List.length_nil]
      omega
    · exact Nat.le_trans hshort (Nat.le_max_left _ _)
  · rcases Nat.lt_or_ge foldHeaderMax l.length with hlong | hshort
    · obtain ⟨tok, htok, rfl⟩ := hmore l hl hlong
      have hle := length_le_longestToken htok
      refine Nat.le_trans ?_ (Nat.le_max_right _ _)
      simp only [List.length_append, List.length_singleton]
      omega
    · exact Nat.le_trans hshort (Nat.le_max_left _ _)

theorem folds_foldHeaderLine (hkey : Unbroken key) (hvalue : Unbroken value) :
    Folds key value (foldHeaderLine key value) := by
  have hcolon : lit ": " = [58, 32] := by decide
  have hspace : lit " " = [32] := by decide
  have hbreak : lit "\r\n" = [13, 10] := by decide
  have hsplit := splitLines_foldHeaderLine hkey hvalue
  obtain ⟨first, more, heq, htext, -, hmore⟩ := fieldLines_eq key value
  constructor
  · exact hbreak ▸ crlf_suffix_foldHeaderLine key value
  · rw [hsplit, heq, List.flatten_append, List.flatten_cons, htext, hcolon]
    simp
  · obtain ⟨first', more', heq', hfirst, hlong⟩ := fieldLines_long key value
    obtain ⟨rfl, rfl⟩ := List.cons.inj (heq.symm.trans heq')
    rw [hsplit, heq, hcolon, hspace]
    refine ⟨first, more, rfl, hmore, fun h => ?_, fun l hl h => ?_⟩
    · obtain ⟨tok, htok, he⟩ := hfirst h
      exact ⟨tok, notMem_of_mem_splitOn htok, he⟩
    · obtain ⟨tok, htok, he⟩ := hlong l hl h
      exact ⟨tok, notMem_of_mem_splitOn htok, he⟩
  · rw [hsplit]
    exact List.forall_mem_append.mpr ⟨length_fieldLines key value,
      List.forall_mem_singleton.mpr (Nat.zero_le _)⟩

end Fields

/-- The Subject of any message passes the check of the line length. -/
theorem writeField_subjectField (L : Libraries) (subject : Bytes) :
    writeField L (lit "Subject", subjectField subject) =
      .ok (foldHeaderLine (lit "Subject") (subjectField subject)) := by
  have htoken := longestToken_subjectField subject
  have hname : Unbroken (lit "Subject") ∧
      (lit "Subject").length + 2 + maxFoldableToken ≤ maxHeaderLine := by decide
  have hfits := fits_of_longestToken hname.1 (unbroken_subjectField subject)
    (Nat.le_trans (Nat.add_le_add_left htoken _) hname.2)
  exact if_neg (Nat.not_lt.mpr hfits)

/-- **Folding is lossless and bounded**, and the Subject of any message can be folded. -/
theorem foldHeaderLine_folds (L : Libraries) (key value : Bytes) (hkey : Unbroken key)
    (hvalue : Unbroken value) :
    Folds key value (foldHeaderLine key value) ∧
      ∀ subject, writeField L (lit "Subject", subjectField subject) =
        .ok (foldHeaderLine (lit "Subject") (subjectField subject)) :=
  ⟨folds_foldHeaderLine hkey hvalue, writeField_subjectField L⟩

/-- A value of twenty words, too long for one line. -/
def longNote : Bytes := List.intercalate [32] (List.replicate 20 (lit "twelve"))

theorem foldHeaderLine_folds_longNote :
    (fieldLines (lit "X-Note") longNote).length = 2 ∧
      Folds (lit "X-Note") longNote (foldHeaderLine (lit "X-Note") longNote) :=
  ⟨by decide +kernel,
    (foldHeaderLine_folds .plain (lit "X-Note") longNote (by decide) (by decide +kernel)).1⟩

end Sigillum
