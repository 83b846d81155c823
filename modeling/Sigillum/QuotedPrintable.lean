import Sigillum.Assembly
import Sigillum.HeaderLines
import Sigillum.TransferEncodings

/-! # Quoted-printable bodies

What `writeQuotedPrintable` writes, and what RFC 2045 makes of it.

The output is taken apart into the lines the function writes, each with the bytes of
the body it stands for and whether a soft break ends it (`physicalLines`).  A decoder
gets back those bytes, but for spaces at the end of a line without a soft break: the
function leaves them as they are, and a decoder removes them.  So a body survives
exactly if none of its lines ends in a space (`quotedPrintable_decodes_iff`).
-/
namespace Sigillum
open Runes Bytes HeaderBlock WordEncoder EncodedWords TransferEncodings

/-- A byte as `writeQuotedPrintable` writes it. -/
def quotedByte (c : UInt8) : Bytes := if c = 61 ∨ c < 32 ∨ 126 < c then 61 :: hexByte c else [c]

/-- The lines of the output from column `col` on: the bytes each stands for, and
whether a soft break ends it. -/
def physicalLines (col : Nat) : Bytes → List (Bytes × Bool)
  | [] => [([], false)]
  | c :: s =>
    if c = 10 then ([], false) :: physicalLines 0 s
    else if c = 13 then physicalLines col s
    else if 75 < col + (quotedByte c).length then
      ([], true) :: (physicalLines (quotedByte c).length s).modifyHead fun l => (c :: l.1, l.2)
    else (physicalLines (col + (quotedByte c).length) s).modifyHead fun l => (c :: l.1, l.2)

/-- A line as it is written. -/
def renderLine (l : Bytes × Bool) : Bytes := l.1.flatMap quotedByte ++ if l.2 then [61] else []

/-- What is left of a line: soft breaks keep the spaces before them. -/
def strippedLine (l : Bytes × Bool) : Bytes × Bool :=
  if l.2 then l else (l.1.rdropWhile (· == 32), false)

/-- A text without its CRs, each LF a CRLF. -/
def crlfText (s : Bytes) : Bytes :=
  (s.filter (· != 13)).flatMap fun c => if c = 10 then [13, 10] else [c]

/-! ## Bytes -/

section Bytes
variable {c : UInt8}

theorem length_quotedByte (c : UInt8) :
    0 < (quotedByte c).length ∧ (quotedByte c).length ≤ 3 := by
  unfold quotedByte
  split <;> simp [hexByte]

theorem isPrintable_quotedByte (c : UInt8) : ∀ d ∈ quotedByte c, 32 ≤ d ∧ d ≤ 126 := by
  have hhex : ∀ d < 16, 32 ≤ upperHex d ∧ upperHex d ≤ 126 := by decide
  have hlt := c.toNat_lt
  unfold quotedByte
  split
  · have hdiv := hhex (c.toNat / 16) (by omega)
    have hmod := hhex (c.toNat % 16) (by omega)
    simp only [hexByte, List.forall_mem_cons]
    exact ⟨by decide, hdiv, hmod, List.forall_mem_nil _⟩
  · rename_i hplain
    simp only [not_or, UInt8.not_lt] at hplain
    exact List.forall_mem_singleton.mpr hplain.2

theorem unbroken_of_printable {s : Bytes} (h : ∀ c ∈ s, 32 ≤ c ∧ c ≤ 126) : Unbroken s := by
  refine unbroken_of_isText fun c hc => ?_
  simp [isText, h c hc]

theorem fromHex_upperHex {d : Nat} (h : d < 16) : fromHex (upperHex d) = some (UInt8.ofNat d) := by
  have hall : ∀ d < 16, fromHex (upperHex d) = some (UInt8.ofNat d) := by decide
  exact hall d h

/-- A byte that is written is read back in front of any text. -/
theorem quotedText_append (c : UInt8) (s : Bytes) :
    quotedText (quotedByte c ++ s) = (quotedText s).map (c :: ·) := by
  have hlt := c.toNat_lt
  unfold quotedByte
  split
  · have hhalves : UInt8.ofNat (c.toNat / 16) * 16 + UInt8.ofNat (c.toNat % 16) = c := by
      apply UInt8.toNat_inj.mp
      simp only [UInt8.toNat_add, UInt8.toNat_mul, UInt8.toNat_ofNat', UInt8.reduceToNat]
      omega
    simp only [hexByte, List.cons_append, List.nil_append, quotedText]
    rw [fromHex_upperHex (by omega), fromHex_upperHex (by omega)]
    simp only [Option.bind_eq_bind, Option.bind_some, hhalves]
    cases quotedText s <;> rfl
  · rename_i hplain
    have hne : c ≠ 61 := fun h => hplain (Or.inl h)
    rw [List.singleton_append, quotedText]
    · exact fun _ _ _ h _ => hne h
    · exact fun h => hne h

theorem quotedText_flatMap (g : Bytes) : quotedText (g.flatMap quotedByte) = some g := by
  induction g with
  | nil => rfl
  | cons c g ih => rw [List.flatMap_cons, quotedText_append, ih, Option.map_some]

/-- The last character of a byte is the byte itself or a digit. -/
theorem getLast_quotedByte (c : UInt8) :
    ∃ x, (quotedByte c).getLast? = some x ∧ x ≠ 61 ∧ (isWSP x = true ↔ c = 32) := by
  have hlt := c.toNat_lt
  unfold quotedByte
  split
  · rename_i hquoted
    have hhex : ∀ d < 16, upperHex d ≠ 61 ∧ isWSP (upperHex d) = false := by decide
    have hmod := hhex (c.toNat % 16) (by omega)
    refine ⟨upperHex (c.toNat % 16), rfl, hmod.1, ?_⟩
    rw [hmod.2]
    refine iff_of_false Bool.false_ne_true ?_
    rintro rfl
    exact absurd hquoted (by decide)
  · rename_i hplain
    simp only [not_or, UInt8.not_lt] at hplain
    refine ⟨c, rfl, hplain.1, ?_⟩
    have htab : c ≠ 9 := by
      rintro rfl
      exact absurd hplain.2.1 (by decide)
    simp [isWSP, htab]

end Bytes

/-! ## One line -/

theorem rdropWhile_flatMap (g : Bytes) :
    (g.flatMap quotedByte).rdropWhile isWSP = (g.rdropWhile (· == 32)).flatMap quotedByte := by
  induction g using List.reverseRecOn with
  | nil => rfl
  | append_singleton g c ih =>
    obtain ⟨x, hx, -, hspace⟩ := getLast_quotedByte c
    rw [List.flatMap_append, List.flatMap_singleton]
    by_cases hc : c = 32
    · subst hc
      rw [show quotedByte 32 = [32] from rfl, List.rdropWhile_concat_pos _ _ _ (by decide), ih,
        List.rdropWhile_concat_pos _ _ _ (by decide)]
    · rw [List.rdropWhile_concat_neg _ _ _ (by simpa using hc), List.flatMap_append,
        List.flatMap_singleton]
      -- no other byte is written as white space, so the end of the line stays
      obtain ⟨init, hinit⟩ : ∃ init, quotedByte c = init ++ [x] :=
        (List.singleton_suffix_iff_getLast?_eq_some.mpr hx).imp fun _ h => h.symm
      rw [hinit, ← List.append_assoc,
        List.rdropWhile_concat_neg _ _ _ (fun hwsp => hc (hspace.mp hwsp))]

theorem getLast_flatMap_ne (g : Bytes) : (g.flatMap quotedByte).getLast? ≠ some 61 := by
  rcases List.eq_nil_or_concat g with rfl | ⟨init, c, rfl⟩
  · exact fun h => by cases h
  · obtain ⟨x, hx, hne, -⟩ := getLast_quotedByte c
    have hcons : quotedByte c ≠ [] := List.length_pos_iff.mp (length_quotedByte c).1
    rw [List.concat_eq_append, List.flatMap_append, List.flatMap_singleton,
      List.getLast?_append_of_ne_nil _ hcons, hx]
    exact fun h => hne (Option.some.inj h)

/-- **A line is read back without the spaces at its end.** -/
theorem quotedLine_renderLine (l : Bytes × Bool) :
    quotedLine (renderLine l) = some (strippedLine l) := by
  obtain ⟨g, soft⟩ := l
  cases soft with
  | true =>
    have hkeep : (g.flatMap quotedByte ++ [61]).rdropWhile isWSP = g.flatMap quotedByte ++ [61] :=
      List.rdropWhile_concat_neg _ _ _ (by decide)
    simp only [renderLine, quotedLine, if_true, hkeep, List.getLast?_concat, List.dropLast_concat,
      quotedText_flatMap, Option.map_some, strippedLine]
  | false =>
    simp only [renderLine, quotedLine, Bool.false_eq_true, if_false, List.append_nil,
      rdropWhile_flatMap, if_neg (getLast_flatMap_ne _), quotedText_flatMap, Option.map_some,
      strippedLine]

/-! ## All lines -/

theorem physicalLines_ne_nil (col : Nat) (s : Bytes) : physicalLines col s ≠ [] := by
  induction s generalizing col with
  | nil => exact List.cons_ne_nil _ _
  | cons c s ih =>
    rw [physicalLines]
    split
    · exact List.cons_ne_nil _ _
    · split
      · exact ih col
      · split
        · exact List.cons_ne_nil _ _
        · rw [ne_eq, List.modifyHead_eq_nil_iff]
          exact ih _

/-- The lines from a column on, the first of which is still to be completed. -/
theorem physicalLines_eq_cons (col : Nat) (s : Bytes) :
    ∃ l ls, physicalLines col s = l :: ls :=
  List.exists_cons_of_ne_nil (physicalLines_ne_nil col s)

theorem renderLine_cons (c : UInt8) (l : Bytes × Bool) :
    renderLine (c :: l.1, l.2) = quotedByte c ++ renderLine l := by
  simp [renderLine]

theorem quotedPrintableFrom_eq (col : Nat) (s : Bytes) :
    quotedPrintableFrom col s =
      List.intercalate [13, 10] ((physicalLines col s).map renderLine) := by
  have hbreak : lit "\r\n" = [13, 10] := by decide
  have hsoft : lit "=\r\n" = [61] ++ [13, 10] := by decide
  induction s generalizing col with
  | nil => rfl
  | cons c s ih =>
    rw [quotedPrintableFrom, physicalLines]
    split
    · obtain ⟨l, ls, hl⟩ := physicalLines_eq_cons 0 s
      rw [ih, hl, List.map_cons, List.map_cons, List.map_cons, List.intercalate_cons_cons, hbreak]
      rfl
    · split
      · exact ih col
      · change (if 75 < col + (quotedByte c).length then
          lit "=\r\n" ++ quotedByte c ++ quotedPrintableFrom (quotedByte c).length s
          else quotedByte c ++ quotedPrintableFrom (col + (quotedByte c).length) s) = _
        split
        · -- a soft break, and the byte begins the next line
          obtain ⟨l, ls, hl⟩ := physicalLines_eq_cons (quotedByte c).length s
          rw [ih, hl, hsoft, List.modifyHead_cons, List.map_cons, List.map_cons, List.map_cons,
            List.intercalate_cons_cons, renderLine_cons, intercalate_eq_flatMap,
            intercalate_eq_flatMap]
          simp [renderLine]
        · obtain ⟨l, ls, hl⟩ := physicalLines_eq_cons (col + (quotedByte c).length) s
          rw [ih, hl, List.modifyHead_cons, List.map_cons, List.map_cons, renderLine_cons,
            intercalate_eq_flatMap, intercalate_eq_flatMap, List.append_assoc]

theorem isPrintable_renderLine (l : Bytes × Bool) : ∀ c ∈ renderLine l, 32 ≤ c ∧ c ≤ 126 := by
  unfold renderLine
  refine List.forall_mem_append.mpr ⟨fun c hc => ?_, ?_⟩
  · obtain ⟨b, -, hb⟩ := List.mem_flatMap.mp hc
    exact isPrintable_quotedByte b c hb
  · split <;> decide

/-- The lines a reader finds are those that were written. -/
theorem splitLines_writeQuotedPrintable (s : Bytes) :
    splitLines (writeQuotedPrintable s) = (physicalLines 0 s).map renderLine := by
  rw [writeQuotedPrintable, quotedPrintableFrom_eq, splitLines_intercalate]
  · rw [ne_eq, List.map_eq_nil_iff]
    exact physicalLines_ne_nil 0 s
  · intro l hl
    obtain ⟨l', -, rfl⟩ := List.mem_map.mp hl
    exact unbroken_of_printable (isPrintable_renderLine l')

/-- From column `col` the first line has room up to 76, and so has every other. -/
theorem length_physicalLines {col : Nat} (hcol : col ≤ 75) (s : Bytes) {l : Bytes × Bool}
    {ls : List (Bytes × Bool)} (h : physicalLines col s = l :: ls) :
    col + (renderLine l).length ≤ 76 ∧ ∀ l' ∈ ls, (renderLine l').length ≤ 76 := by
  induction s generalizing col l ls with
  | nil =>
    obtain ⟨rfl, rfl⟩ := List.cons.inj h
    exact ⟨by simp [renderLine]; omega, List.forall_mem_nil _⟩
  | cons c s ih =>
    have hlen := length_quotedByte c
    rw [physicalLines] at h
    split at h
    · obtain ⟨rfl, rfl⟩ := List.cons.inj h
      obtain ⟨l', ls', hl'⟩ := physicalLines_eq_cons 0 s
      obtain ⟨hfirst, hrest⟩ := ih (Nat.zero_le _) hl'
      rw [hl']
      exact ⟨by simp [renderLine]; omega, List.forall_mem_cons.mpr ⟨by omega, hrest⟩⟩
    · split at h
      · exact ih hcol h
      · split at h
        · obtain ⟨rfl, rfl⟩ := List.cons.inj h
          obtain ⟨l', ls', hl'⟩ := physicalLines_eq_cons (quotedByte c).length s
          obtain ⟨hfirst, hrest⟩ := ih (by omega) hl'
          rw [hl', List.modifyHead_cons, List.forall_mem_cons, renderLine_cons, List.length_append]
          exact ⟨by simp [renderLine]; omega, hfirst, hrest⟩
        · obtain ⟨l', ls', hl'⟩ := physicalLines_eq_cons (col + (quotedByte c).length) s
          obtain ⟨hfirst, hrest⟩ := ih (by omega) hl'
          rw [hl', List.modifyHead_cons] at h
          obtain ⟨rfl, rfl⟩ := List.cons.inj h
          rw [renderLine_cons, List.length_append]
          exact ⟨by omega, hrest⟩

/-- **The lines of a body** are short, and printable. -/
theorem lines_writeQuotedPrintable (s : Bytes) :
    ∀ l ∈ splitLines (writeQuotedPrintable s), l.length ≤ 76 ∧ ∀ c ∈ l, 32 ≤ c ∧ c ≤ 126 := by
  intro l hl
  rw [splitLines_writeQuotedPrintable] at hl
  obtain ⟨l', hl', rfl⟩ := List.mem_map.mp hl
  refine ⟨?_, isPrintable_renderLine l'⟩
  obtain ⟨first, rest, hcons⟩ := physicalLines_eq_cons 0 s
  obtain ⟨hfirst, hrest⟩ := length_physicalLines (Nat.zero_le _) s hcons
  rw [hcons] at hl'
  rcases List.mem_cons.mp hl' with rfl | hl'
  · omega
  · exact hrest l' hl'

/-! ## What comes back -/

theorem quotedDecode_writeQuotedPrintable (s : Bytes) :
    quotedDecode (splitLines (writeQuotedPrintable s)) =
      some (joinLines ((physicalLines 0 s).map strippedLine)) := by
  have hmapM : ∀ ls : List (Bytes × Bool),
      (ls.map renderLine).mapM quotedLine = some (ls.map strippedLine) := by
    intro ls
    induction ls with
    | nil => rfl
    | cons l ls ih =>
      rw [List.map_cons, List.mapM_cons, quotedLine_renderLine, ih]
      rfl
  rw [quotedDecode, splitLines_writeQuotedPrintable, hmapM, Option.map_some]

theorem joinLines_cons {l : Bytes × Bool} {ls : List (Bytes × Bool)} (h : ls ≠ []) :
    joinLines (l :: ls) = l.1 ++ (if l.2 then [] else [13, 10]) ++ joinLines ls := by
  obtain ⟨l', ls', rfl⟩ := List.exists_cons_of_ne_nil h
  rfl

/-- A byte in front of the first line is in front of the text. -/
theorem joinLines_modifyHead (c : UInt8) {ls : List (Bytes × Bool)} (h : ls ≠ []) :
    joinLines (ls.modifyHead fun l => (c :: l.1, l.2)) = c :: joinLines ls := by
  obtain ⟨l, ls, rfl⟩ := List.exists_cons_of_ne_nil h
  rw [List.modifyHead_cons]
  cases ls with
  | nil => rfl
  | cons l' ls =>
    rw [joinLines_cons (List.cons_ne_nil _ _), joinLines_cons (List.cons_ne_nil _ _)]
    rfl

/-- Together the lines stand for the whole text. -/
theorem joinLines_physicalLines (col : Nat) (s : Bytes) :
    joinLines (physicalLines col s) = crlfText s := by
  induction s generalizing col with
  | nil => rfl
  | cons c s ih =>
    have hne := physicalLines_ne_nil
    rw [physicalLines]
    split
    · rename_i hc
      rw [joinLines_cons (hne 0 s), ih, hc]
      simp [crlfText]
    · split
      · rename_i hc
        rw [ih, hc]
        simp [crlfText]
      · rename_i hlf hcr
        have htext : crlfText (c :: s) = c :: crlfText s := by simp [crlfText, hlf, hcr]
        split
        · rw [joinLines_cons, joinLines_modifyHead c (hne _ s), ih, htext]
          · rfl
          · rw [ne_eq, List.modifyHead_eq_nil_iff]
            exact hne _ s
        · rw [joinLines_modifyHead c (hne _ s), ih, htext]

theorem length_strippedLine (l : Bytes × Bool) : (strippedLine l).1.length ≤ l.1.length := by
  unfold strippedLine
  split
  · exact Nat.le_refl _
  · exact (List.rdropWhile_prefix _ _).length_le

theorem strippedLine_snd (l : Bytes × Bool) : (strippedLine l).2 = l.2 := by
  unfold strippedLine
  split
  · rfl
  · rename_i hsoft
    exact (Bool.eq_false_iff.mpr hsoft).symm

/-- Nothing is lost from a line only if it is not shorter. -/
theorem strippedLine_eq_of_length {l : Bytes × Bool}
    (h : (strippedLine l).1.length = l.1.length) : strippedLine l = l := by
  refine Prod.ext ?_ (strippedLine_snd l)
  unfold strippedLine at h ⊢
  split at h
  · rename_i hsoft
    rw [if_pos hsoft]
  · rename_i hsoft
    rw [if_neg hsoft]
    exact (List.rdropWhile_prefix _ _).eq_of_length h

theorem length_joinLines_le (ls : List (Bytes × Bool)) :
    (joinLines (ls.map strippedLine)).length ≤ (joinLines ls).length := by
  induction ls with
  | nil => exact Nat.le_refl _
  | cons l ls ih =>
    have hle := length_strippedLine l
    cases ls with
    | nil => exact hle
    | cons l' ls =>
      rw [List.map_cons, joinLines_cons (by simp), joinLines_cons (List.cons_ne_nil _ _),
        strippedLine_snd]
      simp only [List.length_append]
      omega

/-- **The text is the same only if no line has lost anything.** -/
theorem joinLines_strippedLine_iff (ls : List (Bytes × Bool)) :
    joinLines (ls.map strippedLine) = joinLines ls ↔ ∀ l ∈ ls, strippedLine l = l := by
  constructor
  · intro h
    induction ls with
    | nil => exact List.forall_mem_nil _
    | cons l ls ih =>
      have hle := length_strippedLine l
      cases ls with
      | nil =>
        have hsame : (strippedLine l).1 = l.1 := h
        exact List.forall_mem_singleton.mpr (Prod.ext hsame (strippedLine_snd l))
      | cons l' ls =>
        have hrest := length_joinLines_le (l' :: ls)
        rw [List.map_cons, joinLines_cons (by simp), joinLines_cons (List.cons_ne_nil _ _),
          strippedLine_snd] at h
        -- no line gets longer, so equal texts have lines of equal length
        have hlength := congrArg List.length h
        simp only [List.length_append] at hlength
        have hl : strippedLine l = l := strippedLine_eq_of_length (by omega)
        rw [hl] at h
        exact List.forall_mem_cons.mpr ⟨hl, ih (List.append_cancel_left h)⟩
  · intro h
    rw [List.map_congr_left h, List.map_id']

/-! ## Spaces at the end of a line -/

/-- Whether a line that `prev` precedes ends in a space. -/
def endsInSpace (prev : Option UInt8) (line : Bytes) : Prop :=
  (prev.toList ++ line).getLast? = some 32

theorem strippedLine_eq_iff (l : Bytes × Bool) :
    strippedLine l = l ↔ (l.2 = false → ¬ endsInSpace none l.1) := by
  obtain ⟨g, soft⟩ := l
  cases soft with
  | true => simp [strippedLine]
  | false =>
    simp only [strippedLine, Bool.false_eq_true, if_false, Prod.mk.injEq, and_true, true_imp_iff,
      endsInSpace, Option.toList_none, List.nil_append]
    rcases List.eq_nil_or_concat g with rfl | ⟨init, c, rfl⟩
    · simp
    · rw [List.concat_eq_append, List.rdropWhile_eq_self_iff]
      simp

theorem endsInSpace_cons (prev : Option UInt8) (c : UInt8) (line : Bytes) :
    endsInSpace prev (c :: line) ↔ endsInSpace (some c) line := by
  unfold endsInSpace
  rw [List.getLast?_append_of_ne_nil _ (List.cons_ne_nil _ _)]
  rfl

/-- The first line with `prev` in front ends in no space, and no other does. -/
def NoneEnds (prev : Option UInt8) : List Bytes → Prop
  | [] => True
  | line :: lines => ¬ endsInSpace prev line ∧ ∀ l ∈ lines, ¬ endsInSpace none l

/-- The same of lines as they are written, where a soft break guards the end. -/
def NoneLost (prev : Option UInt8) : List (Bytes × Bool) → Prop
  | [] => True
  | l :: ls => (l.2 = false → ¬ endsInSpace prev l.1) ∧
      ∀ l' ∈ ls, l'.2 = false → ¬ endsInSpace none l'.1

theorem noneEnds_none (lines : List Bytes) :
    NoneEnds none lines ↔ ∀ l ∈ lines, ¬ endsInSpace none l := by
  cases lines with
  | nil => exact iff_of_true trivial (List.forall_mem_nil _)
  | cons l lines => rw [NoneEnds, List.forall_mem_cons]

theorem noneLost_none (ls : List (Bytes × Bool)) :
    NoneLost none ls ↔ ∀ l ∈ ls, l.2 = false → ¬ endsInSpace none l.1 := by
  cases ls with
  | nil => exact iff_of_true trivial (List.forall_mem_nil _)
  | cons l ls => rw [NoneLost, List.forall_mem_cons]

theorem noneEnds_modifyHead (prev : Option UInt8) (c : UInt8) (lines : List Bytes) :
    NoneEnds prev (lines.modifyHead (c :: ·)) ↔ NoneEnds (some c) lines := by
  cases lines with
  | nil => exact Iff.rfl
  | cons l lines => rw [List.modifyHead_cons, NoneEnds, NoneEnds, endsInSpace_cons]

theorem noneLost_modifyHead (prev : Option UInt8) (c : UInt8) (ls : List (Bytes × Bool)) :
    NoneLost prev (ls.modifyHead fun l => (c :: l.1, l.2)) ↔ NoneLost (some c) ls := by
  cases ls with
  | nil => exact Iff.rfl
  | cons l ls => rw [List.modifyHead_cons, NoneLost, NoneLost, endsInSpace_cons]

/-- A line is written with its last byte on the line it ends, so that what the lines
written lose is what the lines of the text end in. -/
theorem noneLost_physicalLines (prev : Option UInt8) (col : Nat) (s : Bytes) :
    NoneLost prev (physicalLines col s) ↔ NoneEnds prev ((s.filter (· != 13)).splitOn 10) := by
  induction s generalizing prev col with
  | nil => simp [physicalLines, NoneLost, NoneEnds]
  | cons c s ih =>
    rw [physicalLines]
    split
    · rename_i hc
      have hsplit : ((c :: s).filter (· != 13)).splitOn 10 =
          [] :: (s.filter (· != 13)).splitOn 10 := by
        simp [hc, List.splitOn, List.splitOnP_cons_eq_if_modifyHead]
      rw [hsplit, NoneLost, NoneEnds, ← noneLost_none, ← noneEnds_none, ih]
      simp
    · split
      · rename_i hc
        have hfilter : (c :: s).filter (· != 13) = s.filter (· != 13) := by simp [hc]
        rw [hfilter, ih]
      · rename_i hlf hcr
        have hsplit : ((c :: s).filter (· != 13)).splitOn 10 =
            ((s.filter (· != 13)).splitOn 10).modifyHead (c :: ·) := by
          simp [hlf, hcr, List.splitOn, List.splitOnP_cons_eq_if_modifyHead]
        rw [hsplit, noneEnds_modifyHead]
        split
        · rw [NoneLost, ← noneLost_none, noneLost_modifyHead, ih]
          simp
        · rw [noneLost_modifyHead, ih]

/-- A text no line of which ends in a space, carriage returns aside. -/
def NoTrailingSpace (s : Bytes) : Prop :=
  ∀ line ∈ (s.filter (· != 13)).splitOn 10, line.getLast? ≠ some 32

instance (s : Bytes) : Decidable (NoTrailingSpace s) :=
  inferInstanceAs (Decidable (∀ line ∈ _, _))

theorem quotedDecode_eq_iff (s : Bytes) :
    quotedDecode (splitLines (writeQuotedPrintable s)) = some (crlfText s) ↔ NoTrailingSpace s := by
  have hlines := noneLost_physicalLines none 0 s
  rw [noneLost_none, noneEnds_none] at hlines
  rw [quotedDecode_writeQuotedPrintable, ← joinLines_physicalLines 0 s, Option.some_inj,
    joinLines_strippedLine_iff]
  simp only [strippedLine_eq_iff]
  exact hlines

/-- **Which bodies survive quoted-printable.**  The lines of a body are at most 76
printable characters, and RFC 2045 decodes them to the text with its CRs removed and
each LF as CRLF, exactly if no line of the text ends in a space. -/
theorem quotedPrintable_decodes_iff (s : Bytes) :
    ((∀ l ∈ splitLines (writeQuotedPrintable s), l.length ≤ 76 ∧ ∀ c ∈ l, 32 ≤ c ∧ c ≤ 126) ∧
        quotedDecode (splitLines (writeQuotedPrintable s)) = some (crlfText s)) ↔
      NoTrailingSpace s := by
  rw [quotedDecode_eq_iff]
  exact and_iff_right (lines_writeQuotedPrintable s)

/-- The space before a line break is lost. -/
theorem spaced_line_loses :
    quotedDecode (splitLines (writeQuotedPrintable (lit "total: 5 \nthanks"))) =
        some (lit "total: 5\r\nthanks") ∧
      lit "total: 5\r\nthanks" ≠ crlfText (lit "total: 5 \nthanks") := by
  refine ⟨?_, by decide⟩
  rw [quotedDecode_writeQuotedPrintable]
  decide

end Sigillum
