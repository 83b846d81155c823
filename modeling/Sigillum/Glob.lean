import Sigillum.Runes

/-! # Shell patterns

The matcher of Go's `path.Match` (and, on Unix, of `filepath.Match`), function
for function: a pattern is a sequence of chunks, each a run of single-character
operators that may follow a `*`.  `none` stands for `ErrBadPattern`.

What a pattern confines is read off its end: `suffix_of_pathMatch` says that a
tail of plain characters is matched by itself, whatever stands before it.  An
unclosed `[` cannot swallow the tail, for it is a syntax error, and an escape
before it only makes its first character literal, which it is already.

Loops that consume a pattern run on fuel, its length: every round takes at least
one byte.
-/
namespace Glob
open Runes

/-- The first character of a class, which may not be the last of the pattern. -/
def getRune (chunk : Bytes) : Option (Nat × Bytes) :=
  let p := decodeRune chunk
  if (p.1 = runeError ∧ p.2 = 1) ∨ chunk.drop p.2 = [] then none else some (p.1, chunk.drop p.2)

/-- `getEsc`: a possibly escaped character of a class, and what follows it. -/
def getEsc : Bytes → Option (Nat × Bytes)
  | [] => none
  | c :: rest =>
    if c = 45 ∨ c = 93 then none  -- '-' or ']'
    else if c = 92 then getRune rest  -- '\'
    else getRune (c :: rest)

/-- One range of a class, `lo` or `lo-hi`. -/
def getRange (chunk : Bytes) : Option ((Nat × Nat) × Bytes) :=
  match getEsc chunk with
  | none => none
  | some (lo, chunk) =>
    if chunk.head? = some 45 then (getEsc chunk.tail).map fun p => ((lo, p.1), p.2)
    else some ((lo, lo), chunk)

/-- The ranges of a character class up to its `]`: whether one holds `r`, and
what follows the class. -/
def classRanges (r : Nat) : Nat → Bytes → Bool → Bool → Option (Bool × Bytes)
  | 0, _, _, _ => none
  | fuel + 1, chunk, matched, later =>
    if later ∧ chunk.head? = some 93 then some (matched, chunk.tail)
    else match getRange chunk with
      | none => none
      | some ((lo, hi), chunk) =>
        classRanges r fuel chunk (matched || (decide (lo ≤ r) && decide (r ≤ hi))) true

/-- `matchChunk`: `some (some rest)` when the chunk matches a beginning of `s`.
Once `failed`, the chunk is only checked for its syntax and `s` no longer read. -/
def matchChunk : Nat → Bytes → Bytes → Bool → Option (Option Bytes)
  | _, [], s, failed => some (if failed then none else some s)
  | 0, _ :: _, _, _ => none
  | fuel + 1, c :: chunk, s, failed =>
    let failed := failed || s.isEmpty
    if c = 91 then  -- '['
      let (r, n) := if failed then (0, 0) else decodeRune s
      let negated := chunk.head? == some 94  -- '^'
      let chunk := if negated then chunk.tail else chunk
      match classRanges r chunk.length chunk false false with
      | none => none
      | some (matched, chunk) => matchChunk fuel chunk (s.drop n) (failed || matched == negated)
    else if c = 63 then  -- '?'
      matchChunk fuel chunk (s.drop (decodeRune s).2) (failed || s.head? == some 47)
    else if c = 92 then  -- '\'
      match chunk with
      | [] => none
      | c :: chunk => matchChunk fuel chunk s.tail (failed || s.head? != some c)
    else matchChunk fuel chunk s.tail (failed || s.head? != some c)

/-- The chunk up to the next `*` that is neither escaped nor in a class. -/
def scanEnd : Bool → Bytes → Bytes × Bytes
  | _, [] => ([], [])
  | inrange, 92 :: c :: s => ((92 :: c :: (scanEnd inrange s).1), (scanEnd inrange s).2)
  | inrange, c :: s =>
    if c = 42 ∧ inrange = false then ([], c :: s)
    else
      let p := scanEnd (if c = 91 then true else if c = 93 then false else inrange) s
      (c :: p.1, p.2)

/-- `scanChunk`: whether stars lead the pattern, the chunk after them, the rest. -/
def scanChunk (pattern : Bytes) : Bool × Bytes × Bytes :=
  (pattern.head? == some 42, scanEnd false (pattern.dropWhile (· == 42)))

/-- The inner loop of `Match`: the chunk after a star, at each later position. -/
def skipMatch (chunk : Bytes) (last : Bool) : Bytes → Option (Option Bytes)
  | [] => some none
  | c :: name =>
    if c = 47 then some none  -- '/'
    else match matchChunk chunk.length chunk name false with
      | none => none
      | some (some t) => if last && !t.isEmpty then skipMatch chunk last name else some (some t)
      | some none => skipMatch chunk last name

/-- One chunk of the pattern: here, or after a star at a later position.  The
last chunk has to exhaust the name. -/
def advance (star : Bool) (chunk : Bytes) (last : Bool) (name : Bytes) : Option (Option Bytes) :=
  let later := if star then skipMatch chunk last name else some none
  match matchChunk chunk.length chunk name false with
  | none => none
  | some (some t) => if t.isEmpty || !last then some (some t) else later
  | some none => later

/-- The syntax check of the chunks that are left when a match has failed. -/
def validRest : Nat → Bytes → Bool
  | _, [] => true
  | 0, _ :: _ => false
  | fuel + 1, c :: pattern =>
    let (_, chunk, rest) := scanChunk (c :: pattern)
    (matchChunk chunk.length chunk [] false).isSome && validRest fuel rest

def matchFrom : Nat → Bytes → Bytes → Option Bool
  | _, [], name => some name.isEmpty
  | 0, _ :: _, _ => none
  | fuel + 1, c :: pattern, name =>
    let (star, chunk, rest) := scanChunk (c :: pattern)
    if star && chunk.isEmpty then some (!name.contains 47)
    else match advance star chunk rest.isEmpty name with
      | none => none
      | some (some name) => matchFrom fuel rest name
      | some none => if validRest rest.length rest then some false else none

/-- `path.Match`. -/
def pathMatch (pattern name : Bytes) : Option Bool := matchFrom pattern.length pattern name

/-! ## Classes and chunks -/

theorem getRune_suffix {chunk rest : Bytes} {r : Nat} (h : getRune chunk = some (r, rest)) :
    rest <:+ chunk := by
  simp only [getRune] at h
  split at h
  · cases h
  · obtain ⟨-, rfl⟩ := Prod.mk.inj (Option.some.inj h)
    exact List.drop_suffix _ _

theorem getEsc_suffix {chunk rest : Bytes} {r : Nat} (h : getEsc chunk = some (r, rest)) :
    rest <:+ chunk := by
  cases chunk with
  | nil => cases h
  | cons c chunk =>
    rw [getEsc] at h
    split at h
    · cases h
    · split at h
      · exact (getRune_suffix h).trans (List.suffix_cons _ _)
      · exact getRune_suffix h

theorem getRange_suffix {chunk rest : Bytes} {p : Nat × Nat}
    (h : getRange chunk = some (p, rest)) : rest <:+ chunk := by
  rw [getRange] at h
  split at h
  · cases h
  · rename_i lo chunk₁ hlo
    split at h
    · obtain ⟨⟨hi, chunk₂⟩, hhi, he⟩ := Option.map_eq_some_iff.mp h
      obtain ⟨-, rfl⟩ := Prod.mk.inj he
      exact ((getEsc_suffix hhi).trans (List.tail_suffix _)).trans (getEsc_suffix hlo)
    · obtain ⟨-, rfl⟩ := Prod.mk.inj (Option.some.inj h)
      exact getEsc_suffix hlo

/-- A class that is read to its end has a `]`. -/
theorem classRanges_close {r fuel : Nat} {chunk rest : Bytes} {matched later m : Bool}
    (h : classRanges r fuel chunk matched later = some (m, rest)) :
    ∃ inside, chunk = inside ++ 93 :: rest := by
  induction fuel generalizing chunk matched later with
  | zero => cases h
  | succ fuel ih =>
    rw [classRanges] at h
    split at h
    · rename_i hclose
      obtain ⟨-, rfl⟩ := Prod.mk.inj (Option.some.inj h)
      cases chunk with
      | nil => cases hclose.2
      | cons c chunk => exact ⟨[], by rw [Option.some.inj hclose.2]; rfl⟩
    · split at h
      · cases h
      · rename_i hrange
        obtain ⟨inside, rfl⟩ := ih h
        obtain ⟨p, rfl⟩ := getRange_suffix hrange
        exact ⟨p ++ inside, by simp⟩

theorem matchChunk_failed {fuel : Nat} {chunk s t : Bytes} :
    matchChunk fuel chunk s true ≠ some (some t) := by
  induction fuel generalizing chunk s with
  | zero => cases chunk <;> simp [matchChunk]
  | succ fuel ih =>
    cases chunk with
    | nil => simp [matchChunk]
    | cons c chunk =>
      simp only [matchChunk, Bool.true_or]
      split
      · split
        · simp
        · exact ih
      · split
        · exact ih
        · split
          · split
            · simp
            · exact ih
          · exact ih

/-- A byte that stands for itself. -/
def Plain (c : UInt8) : Prop := c ≠ 42 ∧ c ≠ 63 ∧ c ≠ 91 ∧ c ≠ 92 ∧ c ≠ 93

/-- A step of the matcher over a literal byte. -/
theorem matchChunk_literal_step {fuel : Nat} {chunk s t : Bytes} {c : UInt8} {failed : Bool}
    (h : matchChunk fuel chunk s.tail (failed || s.isEmpty || s.head? != some c) =
      some (some t)) :
    failed = false ∧ ∃ s', s = c :: s' ∧ matchChunk fuel chunk s' false = some (some t) := by
  cases hf : (failed || s.isEmpty || s.head? != some c) with
  | true =>
    rw [hf] at h
    exact absurd h matchChunk_failed
  | false =>
    rw [hf] at h
    simp only [Bool.or_eq_false_iff, bne_eq_false_iff_eq] at hf
    cases s with
    | nil => cases hf.2
    | cons d s => exact ⟨hf.1.1, s, by rw [Option.some.inj hf.2], h⟩

theorem matchChunk_plain {fuel : Nat} {lits s t : Bytes} {failed : Bool}
    (hl : ∀ c ∈ lits, Plain c) (h : matchChunk fuel lits s failed = some (some t)) :
    s = lits ++ t := by
  induction lits generalizing fuel s failed with
  | nil =>
    cases failed with
    | true => exact absurd h matchChunk_failed
    | false =>
      cases fuel <;> simpa [matchChunk] using h
  | cons c lits ih =>
    cases fuel with
    | zero => cases h
    | succ fuel =>
      obtain ⟨-, hq, hb, he, -⟩ := hl c List.mem_cons_self
      simp only [matchChunk, if_neg hb, if_neg hq, if_neg he] at h
      obtain ⟨-, s', rfl, hrest⟩ := matchChunk_literal_step h
      rw [ih (fun d hd => hl d (List.mem_cons_of_mem _ hd)) hrest]
      rfl

/-- **A tail of plain bytes is matched by itself**, in one chunk. -/
theorem matchChunk_append_plain {fuel : Nat} {x lits s t : Bytes} {failed : Bool}
    (hl : ∀ c ∈ lits, Plain c) (h : matchChunk fuel (x ++ lits) s failed = some (some t)) :
    ∃ y, s = y ++ (lits ++ t) := by
  induction fuel generalizing x s failed with
  | zero =>
    cases x with
    | nil =>
      have hs := matchChunk_plain hl h
      exact ⟨[], hs⟩
    | cons c x => cases h
  | succ fuel ih =>
    cases x with
    | nil =>
      have hs := matchChunk_plain hl h
      exact ⟨[], hs⟩
    | cons c x =>
      have hdrop : ∀ n, (∃ y, s.drop n = y ++ (lits ++ t)) → ∃ y, s = y ++ (lits ++ t) := by
        rintro n ⟨y, hy⟩
        exact ⟨s.take n ++ y, by rw [List.append_assoc, ← hy, List.take_append_drop]⟩
      have hcons : ∀ d s', s = d :: s' → (∃ y, s' = y ++ (lits ++ t)) →
          ∃ y, s = y ++ (lits ++ t) := by
        rintro d s' rfl ⟨y, rfl⟩
        exact ⟨d :: y, rfl⟩
      simp only [List.cons_append, matchChunk] at h
      split at h
      · -- The class closes before the tail, which has no closing bracket.
        split at h
        · cases h
        · rename_i matched rest hclass
          obtain ⟨inside, hinside⟩ := classRanges_close hclass
          have hsuf : inside ++ 93 :: rest <:+ x ++ lits := by
            rw [← hinside]
            split
            · exact List.tail_suffix _
            · exact List.suffix_rfl
          obtain ⟨p, hp⟩ := hsuf
          rw [← List.append_assoc] at hp
          obtain ⟨x', -, rfl⟩ := Bytes.append_eq_append_cons_right hp.symm
            fun hmem => (hl _ hmem).2.2.2.2 rfl
          exact hdrop _ (ih h)
      · split at h
        · exact hdrop _ (ih h)
        · split at h
          · cases x with
            | nil =>
              cases lits with
              | nil => cases h
              | cons d lits =>
                obtain ⟨-, s', rfl, hrest⟩ := matchChunk_literal_step h
                rw [matchChunk_plain (fun e he => hl e (List.mem_cons_of_mem _ he)) hrest]
                exact ⟨[], rfl⟩
            | cons d x =>
              obtain ⟨-, s', hs, hrest⟩ := matchChunk_literal_step h
              exact hcons _ _ hs (ih hrest)
          · obtain ⟨-, s', hs, hrest⟩ := matchChunk_literal_step h
            exact hcons _ _ hs (ih hrest)

/-! ## Patterns -/

theorem scanEnd_append (inrange : Bool) (s : Bytes) :
    (scanEnd inrange s).1 ++ (scanEnd inrange s).2 = s := by
  fun_induction scanEnd inrange s with
  | case1 => rfl
  | case2 inrange c s ih => simp [ih]
  | case3 => rfl
  | case4 inrange c s _ _ p ih =>
    rw [List.cons_append]
    exact congrArg (c :: ·) ih

theorem scanEnd_rest (inrange : Bool) (s : Bytes) :
    (scanEnd inrange s).2 = [] ∨ ∃ rest, (scanEnd inrange s).2 = 42 :: rest := by
  fun_induction scanEnd inrange s with
  | case1 => exact Or.inl rfl
  | case2 inrange c s ih => exact ih
  | case3 inrange c s _ hstar => exact Or.inr ⟨s, by rw [hstar.1]⟩
  | case4 inrange c s _ _ p ih => exact ih

/-- Only at the end of a pattern is the chunk after the stars empty. -/
theorem scanChunk_nil {pattern rest : Bytes} {star : Bool}
    (h : scanChunk pattern = (star, [], rest)) : rest = [] := by
  obtain ⟨-, h⟩ := Prod.mk.inj h
  have hsplit := scanEnd_append false (pattern.dropWhile (· == 42))
  rcases scanEnd_rest false (pattern.dropWhile (· == 42)) with hrest | ⟨rest', hrest⟩
  · rwa [h] at hrest
  · rw [h] at hsplit hrest
    have hhead := List.head?_dropWhile_not (· == (42 : UInt8)) pattern
    rw [← hsplit, List.nil_append, hrest] at hhead
    simp at hhead

/-- The chunk or the rest of a pattern ends in its tail of plain bytes. -/
theorem scanChunk_append_plain {x lits : Bytes} (hl : ∀ c ∈ lits, Plain c) {star : Bool}
    {chunk rest : Bytes} (h : scanChunk (x ++ lits) = (star, chunk, rest)) :
    (rest = [] ∧ ∃ x', chunk = x' ++ lits) ∨ ∃ x', rest = x' ++ lits := by
  obtain ⟨-, h⟩ := Prod.mk.inj h
  have hsplit := scanEnd_append false ((x ++ lits).dropWhile (· == 42))
  have hrest := scanEnd_rest false ((x ++ lits).dropWhile (· == 42))
  rw [h] at hsplit hrest
  simp only at hsplit hrest
  have hstar : ∀ c ∈ lits, c ≠ 42 := fun c hc => (hl c hc).1
  -- The leading stars end before the tail.
  obtain ⟨x₁, hx₁⟩ : ∃ x₁, (x ++ lits).dropWhile (· == 42) = x₁ ++ lits := by
    have hlits : lits.dropWhile (· == 42) = lits := by
      refine List.dropWhile_beq_eq_self_of_head?_ne fun hhead => ?_
      exact hstar _ (List.mem_of_head? hhead) rfl
    rw [List.dropWhile_append, hlits]
    split
    · exact ⟨[], rfl⟩
    · exact ⟨_, rfl⟩
  rw [hx₁] at hsplit
  rcases hrest with rfl | ⟨rest', rfl⟩
  · exact Or.inl ⟨rfl, x₁, by rw [← hsplit, List.append_nil]⟩
  · obtain ⟨x', -, he⟩ := Bytes.append_eq_append_cons_right hsplit.symm
      fun hmem => hstar _ hmem rfl
    exact Or.inr ⟨42 :: x', by rw [he]; rfl⟩

theorem skipMatch_append_plain {x lits name t : Bytes} {last : Bool} (hl : ∀ c ∈ lits, Plain c)
    (h : skipMatch (x ++ lits) last name = some (some t)) : ∃ y, name = y ++ (lits ++ t) := by
  induction name with
  | nil => cases h
  | cons c name ih =>
    have hcons : (∃ y, name = y ++ (lits ++ t)) → ∃ y, c :: name = y ++ (lits ++ t) := by
      rintro ⟨y, hy⟩
      exact ⟨c :: y, by rw [hy]; rfl⟩
    rw [skipMatch] at h
    split at h
    · cases h
    · split at h
      · cases h
      · rename_i t' hmatch
        split at h
        · exact hcons (ih h)
        · obtain rfl := Option.some.inj (Option.some.inj h)
          exact hcons (matchChunk_append_plain hl hmatch)
      · exact hcons (ih h)

theorem advance_append_plain {x lits name t : Bytes} {star last : Bool}
    (hl : ∀ c ∈ lits, Plain c) (h : advance star (x ++ lits) last name = some (some t)) :
    ∃ y, name = y ++ (lits ++ t) := by
  have hlater : (if star then skipMatch (x ++ lits) last name else some none) = some (some t) →
      ∃ y, name = y ++ (lits ++ t) := by
    intro hskip
    split at hskip
    · exact skipMatch_append_plain hl hskip
    · cases hskip
  simp only [advance] at h
  split at h
  · cases h
  · rename_i t' hmatch
    split at h
    · obtain rfl := Option.some.inj (Option.some.inj h)
      exact matchChunk_append_plain hl hmatch
    · exact hlater h
  · exact hlater h

theorem advance_suffix {chunk name t : Bytes} {star last : Bool}
    (h : advance star chunk last name = some (some t)) : t <:+ name := by
  rw [← List.append_nil chunk] at h
  obtain ⟨y, hy⟩ := advance_append_plain (fun c hc => absurd hc List.not_mem_nil) h
  exact ⟨y, hy.symm⟩

/-- One round of the loop: the name that is left ends in the tail, or the chunk
that ends in it has just exhausted the name. -/
theorem suffix_of_matchFrom {fuel : Nat} {x lits name : Bytes} (hl : ∀ c ∈ lits, Plain c)
    (hne : lits ≠ []) (h : matchFrom fuel (x ++ lits) name = some true) : lits <:+ name := by
  induction fuel generalizing x name with
  | zero =>
    cases hp : x ++ lits with
    | nil => exact absurd (List.append_eq_nil_iff.mp hp).2 hne
    | cons c p =>
      rw [hp] at h
      cases h
  | succ fuel ih =>
    cases hp : x ++ lits with
    | nil => exact absurd (List.append_eq_nil_iff.mp hp).2 hne
    | cons c p =>
      rw [hp, matchFrom] at h
      obtain ⟨star, chunk, rest, hscan⟩ : ∃ star chunk rest,
          scanChunk (c :: p) = (star, chunk, rest) := ⟨_, _, _, rfl⟩
      rw [hscan] at h
      simp only at h
      have hcases := scanChunk_append_plain hl (hp ▸ hscan)
      split at h
      · rename_i hlast
        obtain rfl : chunk = [] := by simpa using (Bool.and_eq_true_iff.mp hlast).2
        obtain rfl := scanChunk_nil hscan
        rcases hcases with ⟨-, x', hx'⟩ | ⟨x', hx'⟩
        · exact absurd (List.append_eq_nil_iff.mp hx'.symm).2 hne
        · exact absurd (List.append_eq_nil_iff.mp hx'.symm).2 hne
      · split at h
        · cases h
        · rename_i name' hadv
          rcases hcases with ⟨rfl, x', rfl⟩ | ⟨x', rfl⟩
          · obtain ⟨y, rfl⟩ := advance_append_plain hl hadv
            have hempty : name' = [] := by cases fuel <;> simpa [matchFrom] using h
            rw [hempty, List.append_nil]
            exact List.suffix_append _ _
          · exact (ih h).trans (advance_suffix hadv)
        · split at h <;> cases h

/-- **What matches a pattern ends in the plain bytes the pattern ends in.** -/
theorem suffix_of_pathMatch {x lits name : Bytes} (hl : ∀ c ∈ lits, Plain c) (hne : lits ≠ [])
    (h : pathMatch (x ++ lits) name = some true) : lits <:+ name :=
  suffix_of_matchFrom hl hne h

/-! ## A leading star -/

/-- Plain bytes are no syntax error, whether or not they are found. -/
theorem matchChunk_plain_ne_none {lits : Bytes} (hl : ∀ c ∈ lits, Plain c) (s : Bytes)
    (failed : Bool) : matchChunk lits.length lits s failed ≠ none := by
  induction lits generalizing s failed with
  | nil => simp [matchChunk]
  | cons c lits ih =>
    obtain ⟨-, hq, hb, he, -⟩ := hl c List.mem_cons_self
    simp only [List.length_cons, matchChunk, if_neg hb, if_neg hq, if_neg he]
    exact ih (fun d hd => hl d (List.mem_cons_of_mem _ hd)) _ _

theorem matchChunk_plain_self {lits : Bytes} (hl : ∀ c ∈ lits, Plain c) :
    matchChunk lits.length lits lits false = some (some []) := by
  induction lits with
  | nil => rfl
  | cons c lits ih =>
    obtain ⟨-, hq, hb, he, -⟩ := hl c List.mem_cons_self
    simp only [List.length_cons, matchChunk, if_neg hb, if_neg hq, if_neg he]
    simpa using ih fun d hd => hl d (List.mem_cons_of_mem _ hd)

/-- The search goes on until the last chunk exhausts the name. -/
theorem skipMatch_last {lits : Bytes} (hl : ∀ c ∈ lits, Plain c) {c : UInt8} {y : Bytes}
    (hslash : 47 ∉ c :: y) : skipMatch lits true (c :: (y ++ lits)) = some (some []) := by
  induction y generalizing c with
  | nil =>
    rw [List.nil_append, skipMatch, if_neg fun hc => hslash (by simp [hc]),
      matchChunk_plain_self hl]
    rfl
  | cons d y ih =>
    have hrest := ih fun hmem => hslash (List.mem_cons_of_mem _ hmem)
    rw [List.cons_append, skipMatch, if_neg fun hc => hslash (by simp [hc])]
    split
    · rename_i hnone
      exact absurd hnone (matchChunk_plain_ne_none hl _ _)
    · rename_i t _
      cases t with
      | nil => rfl
      | cons b t => exact hrest
    · exact hrest

theorem scanEnd_plain {lits : Bytes} (hl : ∀ c ∈ lits, Plain c) :
    scanEnd false lits = (lits, []) := by
  induction lits with
  | nil => rfl
  | cons c lits ih =>
    obtain ⟨hs, -, hb, he, hc⟩ := hl c List.mem_cons_self
    have hrest := ih fun d hd => hl d (List.mem_cons_of_mem _ hd)
    rw [scanEnd]
    · rw [if_neg fun h => hs h.1]
      simp only [if_neg hb, if_neg hc, hrest]
    · exact fun d _ hesc _ => he hesc

/-- **A star before plain bytes matches every name without `/` that ends in them.** -/
theorem pathMatch_star {lits y : Bytes} (hl : ∀ c ∈ lits, Plain c) (hne : lits ≠ [])
    (hslash : 47 ∉ y) : pathMatch (42 :: lits) (y ++ lits) = some true := by
  have hstars : (42 :: lits).dropWhile (· == 42) = lits := by
    obtain ⟨c, lits, rfl⟩ := List.exists_cons_of_ne_nil hne
    have hc := (hl c List.mem_cons_self).1
    simp [hc]
  have hscan : scanChunk (42 :: lits) = (true, lits, []) := by
    rw [scanChunk, hstars, scanEnd_plain hl]
    rfl
  have hadv : advance true lits true (y ++ lits) = some (some []) := by
    simp only [advance]
    cases y with
    | nil =>
      rw [List.nil_append, matchChunk_plain_self hl]
      rfl
    | cons c y =>
      have hskip := skipMatch_last hl hslash
      split
      · rename_i hnone
        exact absurd hnone (matchChunk_plain_ne_none hl _ _)
      · rename_i t _
        cases t with
        | nil => rfl
        | cons b t => exact hskip
      · exact hskip
  have hnonempty : lits.isEmpty = false := List.isEmpty_eq_false_iff.mpr hne
  simp only [pathMatch, List.length_cons, matchFrom, hscan, hnonempty, Bool.and_false,
    List.isEmpty_nil, hadv]
  cases lits <;> rfl

end Glob
