import Mathlib.Data.List.DropRight
import Mathlib.Data.List.Infix

/-! # Byte strings

Strings as the sequences of bytes they are, with the operations on them that a
program which takes protocol text apart needs: cutting at a separator from
either end, and ASCII case.  Each operation comes with the lemma that says what
its result is in terms of `++`, and proofs about callers use only those.
-/

/-- A string: its bytes. -/
abbrev Bytes := List UInt8

namespace Bytes

/-- What all bytes of a string have is decided along the string, not over all bytes. -/
instance (priority := high) (p : UInt8 → Prop) [DecidablePred p] (s : Bytes) :
    Decidable (∀ c, c ∈ s → p c) := List.decidableBAll p s

instance : LawfulBEq Bytes := List.instLawfulBEq

/-- The bytes of an ASCII literal. -/
def lit (s : String) : Bytes := s.toList.map Char.toUInt8

/-- A literal is the list of its characters, which is cheaper to compute with. -/
theorem lit_ofList (chars : List Char) : lit (String.ofList chars) = chars.map Char.toUInt8 := by
  rw [lit, String.toList_ofList]

/-! ## Cutting -/

/-- The parts before and after the first `sep`. -/
def cut (sep : UInt8) : Bytes → Option (Bytes × Bytes)
  | [] => none
  | c :: s => if c = sep then some ([], s) else (cut sep s).map fun p => (c :: p.1, p.2)

/-- The parts before and after the last `sep`. -/
def cutLast (sep : UInt8) : Bytes → Option (Bytes × Bytes)
  | [] => none
  | c :: s =>
    match cutLast sep s with
    | some p => some (c :: p.1, p.2)
    | none => if c = sep then some ([], s) else none

/-- The offset of the first `c`. -/
def indexByte (c : UInt8) (s : Bytes) : Option Nat := (cut c s).map fun p => p.1.length

/-- The parts before and after the first `a` that `b` follows. -/
def cutPair (a b : UInt8) : Bytes → Option (Bytes × Bytes)
  | c :: d :: s =>
    if c = a ∧ d = b then some ([], s) else (cutPair a b (d :: s)).map fun p => (c :: p.1, p.2)
  | _ => none

/-- What follows `start` in `s`, or all of `s` if it starts otherwise. -/
def trimStart (start s : Bytes) : Bytes :=
  if start.isPrefixOf s then s.drop start.length else s

theorem cut_eq_none {sep : UInt8} {s : Bytes} : cut sep s = none ↔ sep ∉ s := by
  induction s with
  | nil => simp [cut]
  | cons c s ih =>
    by_cases hc : c = sep
    · simp [cut, hc]
    · simp [cut, hc, ih, Ne.symm hc]

theorem cut_eq_some {sep : UInt8} {s a b : Bytes} :
    cut sep s = some (a, b) ↔ s = a ++ sep :: b ∧ sep ∉ a := by
  induction s generalizing a with
  | nil => simp [cut]
  | cons c s ih =>
    by_cases hc : c = sep
    · subst hc
      rw [cut, if_pos rfl, Option.some.injEq, Prod.mk.injEq]
      constructor
      · rintro ⟨rfl, rfl⟩
        exact ⟨rfl, List.not_mem_nil⟩
      · rintro ⟨he, hmem⟩
        cases a with
        | nil => exact ⟨rfl, by simpa using he⟩
        | cons d a =>
          obtain ⟨rfl, -⟩ := List.cons.inj he
          exact absurd List.mem_cons_self hmem
    · rw [cut, if_neg hc, Option.map_eq_some_iff]
      constructor
      · rintro ⟨⟨a', b'⟩, hcut, he⟩
        obtain ⟨rfl, rfl⟩ := Prod.mk.inj he
        obtain ⟨rfl, hmem⟩ := ih.mp hcut
        exact ⟨rfl, by simpa [Ne.symm hc] using hmem⟩
      · rintro ⟨he, hmem⟩
        cases a with
        | nil => exact absurd (List.cons.inj he).1 hc
        | cons d a =>
          obtain ⟨rfl, hs⟩ := List.cons.inj he
          exact ⟨(a, b), ih.mpr ⟨hs, fun h => hmem (List.mem_cons_of_mem _ h)⟩, rfl⟩

theorem cutLast_eq_none {sep : UInt8} {s : Bytes} : cutLast sep s = none ↔ sep ∉ s := by
  induction s with
  | nil => simp [cutLast]
  | cons c s ih =>
    cases hs : cutLast sep s with
    | some p =>
      have hmem : sep ∈ s := by
        by_contra hno
        rw [ih.mpr hno] at hs
        cases hs
      simp [cutLast, hs, hmem]
    | none =>
      have hno := ih.mp hs
      by_cases hc : c = sep
      · simp [cutLast, hs, hc]
      · simp [cutLast, hs, hc, hno, Ne.symm hc]

theorem cutLast_append {sep : UInt8} {a b : Bytes} (h : sep ∉ b) :
    cutLast sep (a ++ sep :: b) = some (a, b) := by
  induction a with
  | nil => rw [List.nil_append, cutLast, cutLast_eq_none.mpr h, if_pos rfl]
  | cons c a ih => rw [List.cons_append, cutLast, ih]

theorem cutLast_eq_some {sep : UInt8} {s a b : Bytes} (h : cutLast sep s = some (a, b)) :
    s = a ++ sep :: b ∧ sep ∉ b := by
  induction s generalizing a with
  | nil => cases h
  | cons c s ih =>
    rw [cutLast] at h
    split at h
    · rename_i p hp
      obtain ⟨rfl, rfl⟩ := Prod.mk.inj (Option.some.inj h)
      obtain ⟨hs, hmem⟩ := ih hp
      exact ⟨by rw [hs]; rfl, hmem⟩
    · rename_i hnone
      split at h
      · rename_i hc
        obtain ⟨rfl, rfl⟩ := Prod.mk.inj (Option.some.inj h)
        exact ⟨by rw [hc]; rfl, cutLast_eq_none.mp hnone⟩
      · cases h

/-- Where the separator occurs once on either side, the parts agree. -/
theorem append_cons_inj {sep : UInt8} {a b a' b' : Bytes} (h : a ++ sep :: b = a' ++ sep :: b')
    (ha : sep ∉ a) (ha' : sep ∉ a') : a = a' ∧ b = b' := by
  have hcut := cut_eq_some.mpr ⟨h, ha'⟩
  rw [cut_eq_some.mpr ⟨rfl, ha⟩] at hcut
  exact Prod.mk.inj (Option.some.inj hcut)

theorem append_cons_inj_right {sep : UInt8} {a b a' b' : Bytes}
    (h : a ++ sep :: b = a' ++ sep :: b') (hb : sep ∉ b) (hb' : sep ∉ b') : a = a' ∧ b = b' := by
  have hrev := congrArg List.reverse h
  simp only [List.reverse_append, List.reverse_cons, List.append_assoc, List.singleton_append]
    at hrev
  obtain ⟨he, he'⟩ := append_cons_inj hrev (by simpa using hb) (by simpa using hb')
  exact ⟨List.reverse_injective he', List.reverse_injective he⟩

/-- A part without the byte `c` ends before its first occurrence. -/
theorem append_eq_append_cons {c : UInt8} {w t a b : Bytes} (h : w ++ t = a ++ c :: b)
    (hc : c ∉ w) : ∃ a', a = w ++ a' ∧ t = a' ++ c :: b := by
  rcases List.append_eq_append_iff.mp h with ⟨a', ha, ht⟩ | ⟨w', hw, hb⟩
  · exact ⟨a', ha, ht⟩
  · cases w' with
    | nil => exact ⟨[], by rw [hw, List.append_nil, List.append_nil], hb.symm⟩
    | cons d w' =>
      obtain ⟨rfl, -⟩ := List.cons.inj hb
      exact absurd (by rw [hw]; simp) hc

/-- A part without the byte `c` starts after its last occurrence. -/
theorem append_eq_append_cons_right {c : UInt8} {w t a b : Bytes} (h : w ++ t = a ++ c :: b)
    (hc : c ∉ t) : ∃ b', w = a ++ c :: b' ∧ b = b' ++ t := by
  rcases List.append_eq_append_iff.mp h with ⟨a', -, ht⟩ | ⟨w', hw, hb⟩
  · exact absurd (by rw [ht]; simp) hc
  · cases w' with
    | nil =>
      rw [List.nil_append] at hb
      exact absurd (hb ▸ List.mem_cons_self) hc
    | cons d w' =>
      obtain ⟨rfl, rfl⟩ := List.cons.inj hb
      exact ⟨w', hw, rfl⟩

/-- Every byte is a separator or in one of the parts. -/
theorem mem_splitOn (sep : UInt8) {c : UInt8} {s : Bytes} (h : c ∈ s) :
    c = sep ∨ ∃ part ∈ s.splitOn sep, c ∈ part := by
  induction s with
  | nil => cases h
  | cons d s ih =>
    rw [List.splitOn_cons_eq_if_modifyHead]
    split
    · rename_i hd
      rcases List.mem_cons.mp h with rfl | h
      · exact Or.inl (beq_iff_eq.mp hd)
      · refine (ih h).imp_right fun ⟨part, hpart, hc⟩ => ⟨part, ?_, hc⟩
        exact List.mem_cons_of_mem _ hpart
    · obtain ⟨first, rest, hsplit⟩ := List.exists_cons_of_ne_nil (List.splitOn_ne_nil sep s)
      rw [hsplit] at ih ⊢
      rw [List.modifyHead_cons]
      rcases List.mem_cons.mp h with rfl | h
      · exact Or.inr ⟨_, List.mem_cons_self, List.mem_cons_self⟩
      · refine (ih h).imp_right fun ⟨part, hpart, hc⟩ => ?_
        rcases List.mem_cons.mp hpart with rfl | hpart
        · exact ⟨_, List.mem_cons_self, List.mem_cons_of_mem _ hc⟩
        · exact ⟨part, List.mem_cons_of_mem _ hpart, hc⟩

/-- No part has a separator in it. -/
theorem notMem_of_mem_splitOn {sep : UInt8} {s part : Bytes} (h : part ∈ s.splitOn sep) :
    sep ∉ part := by
  induction s generalizing part with
  | nil =>
    rw [List.splitOn_nil, List.mem_singleton] at h
    rw [h]
    exact List.not_mem_nil
  | cons d s ih =>
    rw [List.splitOn_cons_eq_if_modifyHead] at h
    split at h
    · rcases List.mem_cons.mp h with rfl | h
      · exact List.not_mem_nil
      · exact ih h
    · rename_i hd
      obtain ⟨first, rest, hsplit⟩ := List.exists_cons_of_ne_nil (List.splitOn_ne_nil sep s)
      rw [hsplit] at ih h
      rw [List.modifyHead_cons] at h
      rcases List.mem_cons.mp h with rfl | h
      · have hfirst := ih List.mem_cons_self
        have hne : sep ≠ d := fun he => hd (beq_iff_eq.mpr he.symm)
        simp [hne, hfirst]
      · exact ih (List.mem_cons_of_mem _ h)

theorem indexByte_lt {c : UInt8} {s : Bytes} {j : Nat} (h : indexByte c s = some j) :
    j < s.length := by
  obtain ⟨⟨a, b⟩, hcut, rfl⟩ := Option.map_eq_some_iff.mp h
  rw [(cut_eq_some.mp hcut).1, List.length_append, List.length_cons]
  exact Nat.lt_add_of_pos_right (Nat.succ_pos _)

theorem indexByte_append {c : UInt8} {s : Bytes} (h : c ∉ s) (t : Bytes) :
    indexByte c (s ++ c :: t) = some s.length := by
  rw [indexByte, cut_eq_some.mpr ⟨rfl, h⟩]
  rfl

theorem cutPair_eq_some {a b : UInt8} {s before after : Bytes}
    (h : cutPair a b s = some (before, after)) : s = before ++ a :: b :: after := by
  fun_induction cutPair a b s generalizing before with
  | case1 c d s hcd =>
    obtain ⟨rfl, rfl⟩ := hcd
    obtain ⟨rfl, rfl⟩ := Prod.mk.inj (Option.some.inj h)
    rfl
  | case2 c d s hcd ih =>
    obtain ⟨⟨before', after'⟩, hrest, hpair⟩ := Option.map_eq_some_iff.mp h
    obtain ⟨rfl, rfl⟩ := Prod.mk.inj hpair
    rw [ih hrest, List.cons_append]
  | case3 => cases h

/-- A pair that is appended is found unless there is one before it. -/
theorem cutPair_append {a b : UInt8} (hne : a ≠ b) (s t : Bytes) :
    cutPair a b (s ++ a :: b :: t) =
      some (((cutPair a b s).map fun p => (p.1, p.2 ++ a :: b :: t)).getD (s, t)) := by
  induction s with
  | nil => simp [cutPair]
  | cons c s ih =>
    cases s with
    | nil => simp [cutPair, hne]
    | cons d s =>
      rw [List.cons_append] at ih
      rw [List.cons_append, List.cons_append, cutPair, cutPair]
      split
      · rfl
      · rw [ih]
        cases cutPair a b (d :: s) <;> rfl

theorem intercalate_eq_flatMap (sep p : Bytes) (ps : List Bytes) :
    List.intercalate sep (p :: ps) = p ++ ps.flatMap (sep ++ ·) := by
  induction ps generalizing p with
  | nil => simp
  | cons q ps ih =>
    rw [List.intercalate_cons_cons, ih, List.flatMap_cons, List.append_assoc, List.append_assoc]

theorem mem_of_mem_intercalate {sep : Bytes} {parts : List Bytes} {c : UInt8}
    (h : c ∈ List.intercalate sep parts) : c ∈ sep ∨ ∃ part ∈ parts, c ∈ part := by
  cases parts with
  | nil => cases h
  | cons p ps =>
    rw [intercalate_eq_flatMap, List.mem_append, List.mem_flatMap] at h
    rcases h with h | ⟨q, hq, h⟩
    · exact .inr ⟨p, List.mem_cons_self, h⟩
    · rcases List.mem_append.mp h with h | h
      · exact .inl h
      · exact .inr ⟨q, List.mem_cons_of_mem _ hq, h⟩

theorem length_le_intercalate (sep : Bytes) {part : Bytes} {parts : List Bytes}
    (h : part ∈ parts) : part.length ≤ (List.intercalate sep parts).length := by
  cases parts with
  | nil => cases h
  | cons p ps =>
    rw [intercalate_eq_flatMap, List.length_append]
    rcases List.mem_cons.mp h with rfl | h
    · exact Nat.le_add_right _ _
    · have hsub := (List.sublist_flatten_of_mem (List.mem_map_of_mem (f := (sep ++ ·)) h)).length_le
      rw [← List.flatMap_def, List.length_append] at hsub
      omega

/-! ## Spaces and tabs -/

def isWSP (c : UInt8) : Bool := c == 32 || c == 9

/-- Remove spaces and tabs at both ends. -/
def trim (s : Bytes) : Bytes := (s.dropWhile isWSP).rdropWhile isWSP

/-- What neither starts nor ends in a space or tab is left alone. -/
theorem trim_eq_self {s : Bytes} (hhead : ∀ c ∈ s.head?, isWSP c = false)
    (hlast : ∀ c ∈ s.getLast?, isWSP c = false) : trim s = s := by
  have hdrop : s.dropWhile isWSP = s := by
    cases s with
    | nil => rfl
    | cons c s => exact List.dropWhile_cons_of_neg (by simp [hhead c rfl])
  rw [trim, hdrop, List.rdropWhile_eq_self_iff]
  intro hne
  simp [hlast _ (List.getLast_mem_getLast? hne)]

/-- Only what stands before a byte that is no space is trimmed in front of it. -/
theorem trim_append_cons {c : UInt8} (h : isWSP c = false) {a b : Bytes}
    (hlast : ∀ d ∈ (c :: b).getLast?, isWSP d = false) :
    trim (a ++ c :: b) = a.dropWhile isWSP ++ c :: b := by
  have hdrop : (a ++ c :: b).dropWhile isWSP = a.dropWhile isWSP ++ c :: b := by
    rw [List.dropWhile_append, List.dropWhile_cons_of_neg (by simp [h])]
    split
    · rename_i hnil
      rw [List.isEmpty_iff.mp hnil]
      rfl
    · rfl
  rw [trim, hdrop, List.rdropWhile_eq_self_iff]
  intro hne
  have hmem := List.getLast_mem_getLast? hne
  rw [List.getLast?_append_of_ne_nil _ (List.cons_ne_nil c b)] at hmem
  exact Bool.eq_false_iff.mp (hlast _ hmem)

theorem trim_cons_of_isWSP {c : UInt8} (h : isWSP c = true) (s : Bytes) :
    trim (c :: s) = trim s := by
  rw [trim, List.dropWhile_cons_of_pos h, trim]

@[simp] theorem trim_trim (s : Bytes) : trim (trim s) = trim s := by
  refine trim_eq_self (fun c hc => ?_) fun c hc => ?_
  · -- what is left starts as it did once the spaces in front were gone
    obtain ⟨rest, hrest⟩ := List.rdropWhile_prefix isWSP (s.dropWhile isWSP)
    have hhead : (s.dropWhile isWSP).head? = some c := by
      rw [← hrest, List.head?_append, ← trim, hc]
      rfl
    obtain ⟨t, ht⟩ := List.head?_eq_some_iff.mp hhead
    have hnot := List.head_dropWhile_not isWSP (show s.dropWhile isWSP ≠ [] by simp [ht])
    simpa [ht] using hnot
  · have hne : trim s ≠ [] := by
      rintro hnil
      rw [hnil] at hc
      cases hc
    rw [List.getLast?_eq_some_getLast hne] at hc
    obtain rfl := Option.some.inj hc
    exact Bool.eq_false_iff.mpr (List.rdropWhile_last_not isWSP _ hne)

/-! ## Text -/

/-- A character of a line of text: printable ASCII, or a tab. -/
def isText (c : UInt8) : Bool := (32 ≤ c && c ≤ 126) || c == 9

/-- Neither CR nor LF occurs. -/
def Unbroken (s : Bytes) : Prop := ∀ c ∈ s, c ≠ 13 ∧ c ≠ 10

instance (s : Bytes) : Decidable (Unbroken s) := inferInstanceAs (Decidable (∀ c, c ∈ s → _))

theorem Unbroken.lf_notMem {s : Bytes} (h : Unbroken s) : 10 ∉ s := fun hc => (h 10 hc).2 rfl

/-- Bytes of a kind that neither CR nor LF is of. -/
theorem unbroken_of_forall {p : UInt8 → Prop} {s : Bytes} (h : ∀ c ∈ s, p c) (hcr : ¬ p 13)
    (hlf : ¬ p 10) : Unbroken s := by
  intro c hc
  constructor
  · rintro rfl
    exact hcr (h _ hc)
  · rintro rfl
    exact hlf (h _ hc)

theorem unbroken_of_isText {s : Bytes} (h : ∀ c ∈ s, isText c = true) : Unbroken s :=
  unbroken_of_forall h (by decide) (by decide)

theorem unbroken_nil : Unbroken [] := List.forall_mem_nil _

@[simp] theorem unbroken_append {s t : Bytes} : Unbroken (s ++ t) ↔ Unbroken s ∧ Unbroken t :=
  List.forall_mem_append

theorem unbroken_intercalate {sep : Bytes} {parts : List Bytes} (hsep : Unbroken sep)
    (h : ∀ part ∈ parts, Unbroken part) : Unbroken (List.intercalate sep parts) := by
  intro c hc
  rcases mem_of_mem_intercalate hc with hc | ⟨part, hpart, hc⟩
  · exact hsep c hc
  · exact h part hpart c hc

/-! ## Counting -/

/-- At how many places of a string `pat` starts.  Where two occurrences of `pat`
cannot overlap, this is `strings.Count`. -/
def occurrences (pat : Bytes) : Bytes → Nat
  | [] => 0
  | c :: s => (if pat.isPrefixOf (c :: s) then 1 else 0) + occurrences pat s

theorem occurrences_append (pat a b : Bytes) :
    occurrences pat a + occurrences pat b ≤ occurrences pat (a ++ b) := by
  induction a with
  | nil => simp [occurrences]
  | cons c a ih =>
    have hstart : (if pat.isPrefixOf (c :: a) then 1 else 0) ≤
        if pat.isPrefixOf (c :: (a ++ b)) then 1 else 0 := by
      by_cases h : pat.isPrefixOf (c :: a)
      · have hmore : pat.isPrefixOf (c :: (a ++ b)) = true :=
          List.isPrefixOf_iff_prefix.mpr
            ((List.isPrefixOf_iff_prefix.mp h).trans (List.prefix_append (c :: a) b))
        rw [if_pos h, if_pos hmore]
      · rw [if_neg h]
        exact Nat.zero_le _
    rw [List.cons_append, occurrences, occurrences]
    omega

theorem occurrences_eq_zero {c : UInt8} {pat s : Bytes} (h : c ∉ s) :
    occurrences (c :: pat) s = 0 := by
  induction s with
  | nil => rfl
  | cons d s ih =>
    obtain ⟨hd, hs⟩ := not_or.mp (List.mem_cons.not.mp h)
    have hstart : (c :: pat).isPrefixOf (d :: s) = false := by simp [List.isPrefixOf, hd]
    rw [occurrences, hstart, ih hs]
    rfl

/-! ## ASCII case -/

/-- ASCII lower case of one byte. -/
def lowerByte (c : UInt8) : UInt8 := if 65 ≤ c ∧ c ≤ 90 then c + 32 else c

/-- ASCII lower case of a string. -/
def asciiLower (s : Bytes) : Bytes := s.map lowerByte

@[simp] theorem lowerByte_lowerByte (c : UInt8) : lowerByte (lowerByte c) = lowerByte c := by
  unfold lowerByte
  grind

end Bytes
