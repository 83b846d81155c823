import Mathlib.Data.List.Induction
import Sigillum.ByteString

/-! # Header blocks

The header of an RFC 5322 message as Go's `net/mail` reads it: lines end in LF
or CRLF, a line that starts with a space or a tab continues the field before it,
the first empty line ends the header, and a field is cut at its first colon.
Names are brought to a canonical form only if they are made of token characters.

A block is first cut into lines with their terminators (`rawLines`), whose
concatenation is the input, and the lines are grouped into fields (`group`).
-/
namespace HeaderBlock
open Bytes

/-! ## Lines -/

/-- The lines of a text, each with its LF; the last one may lack it. -/
def rawLines : Bytes → List Bytes
  | [] => []
  | c :: s =>
    if c = 10 then [c] :: rawLines s
    else match rawLines s with
    | [] => [[c]]
    | l :: ls => (c :: l) :: ls

/-- A line without its LF or CRLF. -/
def chomp : Bytes → Bytes
  | [] => []
  | [10] => []
  | [13, 10] => []
  | c :: s => c :: chomp s

/-- A line with nothing before its terminator. -/
def isBlank (line : Bytes) : Bool := line == [10] || line == [13, 10]

/-- A line that continues the field before it. -/
def isContinuation (line : Bytes) : Bool := line.head?.any isWSP

/-- The lines of the header of a message. -/
def headerLines (raw : Bytes) : List Bytes := (rawLines raw).takeWhile fun l => !isBlank l

/-- What follows the header, from its empty line on. -/
def afterHeader (raw : Bytes) : List Bytes := (rawLines raw).dropWhile fun l => !isBlank l

/-- Whether the header ends in an empty line. -/
def hasBlank (raw : Bytes) : Bool := (rawLines raw).any isBlank

/-- A line that is ended by its LF. -/
def IsLine (line : Bytes) : Prop := ∃ s, line = s ++ [10] ∧ 10 ∉ s

theorem rawLines_flatten (s : Bytes) : (rawLines s).flatten = s := by
  induction s with
  | nil => rfl
  | cons c s ih =>
    rw [rawLines]
    split
    · rw [List.flatten_cons, ih]
      rfl
    · split
      · rename_i hnil
        rw [hnil] at ih
        rw [← ih]
        rfl
      · rename_i l ls hcons
        rw [hcons] at ih
        rw [← ih]
        rfl

/-- A line in front of a text is its first line. -/
theorem rawLines_line_append {line : Bytes} (h : IsLine line) (rest : Bytes) :
    rawLines (line ++ rest) = line :: rawLines rest := by
  obtain ⟨s, rfl, hs⟩ := h
  induction s with
  | nil => rfl
  | cons c s ih =>
    obtain ⟨hc, hs⟩ := not_or.mp (List.mem_cons.not.mp hs)
    rw [List.cons_append, List.cons_append, rawLines, if_neg (Ne.symm hc), ih hs]

theorem rawLines_flatten_append {lines : List Bytes} (h : ∀ l ∈ lines, IsLine l) (rest : Bytes) :
    rawLines (lines.flatten ++ rest) = lines ++ rawLines rest := by
  induction lines with
  | nil => rfl
  | cons l ls ih =>
    rw [List.flatten_cons, List.append_assoc, rawLines_line_append (h l List.mem_cons_self),
      ih fun l' hl' => h l' (List.mem_cons_of_mem _ hl'), List.cons_append]

/-- Every line that another one follows is ended by its LF. -/
theorem isLine_of_rawLines {s : Bytes} {before after : List Bytes} {l : Bytes}
    (h : rawLines s = before ++ after) (hafter : after ≠ []) (hl : l ∈ before) : IsLine l := by
  induction s generalizing before l with
  | nil =>
    obtain ⟨rfl, -⟩ := List.append_eq_nil_iff.mp h.symm
    cases hl
  | cons c s ih =>
    rw [rawLines] at h
    split at h
    · rename_i hc
      cases before with
      | nil => cases hl
      | cons b bs =>
        obtain ⟨rfl, hbs⟩ := List.cons.inj h
        rcases List.mem_cons.mp hl with rfl | hl
        · exact ⟨[], by rw [hc]; rfl, List.not_mem_nil⟩
        · exact ih hbs hl
    · rename_i hc
      split at h
      · cases before with
        | nil => cases hl
        | cons b bs =>
          obtain ⟨-, hbs⟩ := List.cons.inj h
          exact absurd (List.append_eq_nil_iff.mp hbs.symm).2 hafter
      · rename_i m ms hrest
        cases before with
        | nil => cases hl
        | cons b bs =>
          obtain ⟨rfl, hbs⟩ := List.cons.inj h
          have hsplit : rawLines s = (m :: bs) ++ after := by rw [hrest, hbs]; rfl
          have hlines : ∀ l ∈ m :: bs, IsLine l := fun l hl => ih hsplit hl
          rcases List.mem_cons.mp hl with rfl | hl
          · obtain ⟨t, rfl, ht⟩ := hlines m List.mem_cons_self
            exact ⟨c :: t, rfl, by simp [Ne.symm hc, ht]⟩
          · exact hlines l (List.mem_cons_of_mem _ hl)

theorem headerLines_append_afterHeader (raw : Bytes) :
    headerLines raw ++ afterHeader raw = rawLines raw := List.takeWhile_append_dropWhile

theorem isBlank_cons_of_hasBlank {raw : Bytes} (h : hasBlank raw = true) :
    ∃ blank rest, afterHeader raw = blank :: rest ∧ isBlank blank = true := by
  unfold hasBlank at h
  unfold afterHeader
  generalize rawLines raw = lines at h ⊢
  induction lines with
  | nil => cases h
  | cons line lines ih =>
    by_cases hblank : isBlank line = true
    · exact ⟨line, lines, by simp [hblank], hblank⟩
    · simp only [List.any_cons, hblank, Bool.false_or] at h
      simpa [hblank] using ih h

theorem isLine_headerLines {raw : Bytes} (h : hasBlank raw = true) :
    ∀ l ∈ headerLines raw, IsLine l := by
  obtain ⟨blank, rest, hafter, -⟩ := isBlank_cons_of_hasBlank h
  intro l hl
  refine isLine_of_rawLines (headerLines_append_afterHeader raw).symm ?_ hl
  rw [hafter]
  exact List.cons_ne_nil _ _

section Append
variable {lines : List Bytes}

/-- Lines in front of a message, none of them empty, are the first of its header. -/
theorem headerLines_append (hlines : ∀ l ∈ lines, IsLine l)
    (hblank : ∀ l ∈ lines, isBlank l = false) (rest : Bytes) :
    headerLines (lines.flatten ++ rest) = lines ++ headerLines rest := by
  rw [headerLines, rawLines_flatten_append hlines, List.takeWhile_append_of_pos]
  · rfl
  · intro l hl
    simp [hblank l hl]

theorem afterHeader_append (hlines : ∀ l ∈ lines, IsLine l)
    (hblank : ∀ l ∈ lines, isBlank l = false) (rest : Bytes) :
    afterHeader (lines.flatten ++ rest) = afterHeader rest := by
  rw [afterHeader, rawLines_flatten_append hlines, List.dropWhile_append_of_pos]
  · rfl
  · intro l hl
    simp [hblank l hl]

theorem chomp_crlf {s : Bytes} (h : 10 ∉ s) : chomp (s ++ [13, 10]) = s := by
  induction s with
  | nil => rfl
  | cons c s ih =>
    obtain ⟨-, hs⟩ := not_or.mp (List.mem_cons.not.mp h)
    rw [List.cons_append, chomp, ih hs]
    · simp
    · intro _ he
      have hlength := congrArg List.length he
      simp at hlength

theorem isLine_crlf {s : Bytes} (h : 10 ∉ s) : IsLine (s ++ [13, 10]) :=
  ⟨s ++ [13], by simp, by simpa using h⟩

theorem isBlank_crlf {s : Bytes} (h : s ≠ []) : isBlank (s ++ [13, 10]) = false := by
  cases s with
  | nil => exact absurd rfl h
  | cons c s =>
    have hlength : 2 < (c :: s ++ [13, 10] : Bytes).length := by simp
    have hne : ∀ t : Bytes, t.length ≤ 2 → (c :: s ++ [13, 10] == t) = false := by
      intro t ht
      rw [beq_eq_false_iff_ne]
      rintro rfl
      omega
    rw [isBlank, hne _ (by decide), hne _ (by decide)]
    rfl

end Append

/-! ## Fields -/

/-- The lines of one field. -/
structure RawField where
  first : Bytes
  more : List Bytes
  deriving DecidableEq, Repr

/-- The lines before the first field, which continue nothing, and the fields. -/
def group : List Bytes → List Bytes × List RawField
  | [] => ([], [])
  | l :: ls =>
    let (lead, fs) := group ls
    if isContinuation l then (l :: lead, fs) else ([], ⟨l, lead⟩ :: fs)

/-- All lines of a field. -/
def RawField.lines (f : RawField) : List Bytes := f.first :: f.more

/-- The field on one line, as `ReadContinuedLine` returns it. -/
def RawField.unfold (f : RawField) : Bytes :=
  trim (chomp f.first) ++ f.more.flatMap fun l => 32 :: trim (chomp l)

/-- A name and a value. -/
structure Field where
  name : Bytes
  value : Bytes
  deriving DecidableEq, Repr

/-- The name is what stands before the first colon. -/
def parseField (line : Bytes) : Option Field :=
  (cut 58 line).map fun (k, v) => ⟨k, v.dropWhile isWSP⟩

/-- The fields of the header of a message, under the names it spells them. -/
def fields (raw : Bytes) : List Field :=
  (group (headerLines raw)).2.filterMap fun f => parseField f.unfold

/-! ## Names -/

/-- `validHeaderFieldByte`: a token character of RFC 7230. -/
def isTokenByte (c : UInt8) : Bool :=
  (97 ≤ c && c ≤ 122) || (65 ≤ c && c ≤ 90) || (48 ≤ c && c ≤ 57) ||
    (lit "!#$%&'*+-.^_").contains c || c == 96 || c == 124 || c == 126

def upperByte (c : UInt8) : UInt8 := if 97 ≤ c ∧ c ≤ 122 then c - 32 else c

/-- Upper case at the start and after each dash, lower case elsewhere. -/
def canonicalFrom (upper : Bool) : Bytes → Bytes
  | [] => []
  | c :: s => (if upper then upperByte c else lowerByte c) :: canonicalFrom (c == 45) s

/-- `CanonicalMIMEHeaderKey`. -/
def canonicalKey (k : Bytes) : Bytes := if k.all isTokenByte then canonicalFrom true k else k

theorem lowerByte_upperByte (c : UInt8) : lowerByte (upperByte c) = lowerByte c := by
  unfold lowerByte upperByte
  grind

theorem upperByte_lowerByte (c : UInt8) : upperByte (lowerByte c) = upperByte c := by
  unfold lowerByte upperByte
  grind

theorem isTokenByte_lowerByte (c : UInt8) : isTokenByte (lowerByte c) = isTokenByte c := by
  unfold isTokenByte lowerByte
  split
  · grind
  · rfl

theorem asciiLower_canonicalFrom (upper : Bool) (k : Bytes) :
    asciiLower (canonicalFrom upper k) = asciiLower k := by
  induction k generalizing upper with
  | nil => rfl
  | cons c s ih =>
    have hc : lowerByte (if upper then upperByte c else lowerByte c) = lowerByte c := by
      split
      · exact lowerByte_upperByte c
      · exact lowerByte_lowerByte c
    exact congrArg₂ List.cons hc (ih _)

theorem asciiLower_canonicalKey (k : Bytes) : asciiLower (canonicalKey k) = asciiLower k := by
  unfold canonicalKey
  split
  · exact asciiLower_canonicalFrom true k
  · rfl

theorem length_canonicalKey (k : Bytes) : (canonicalKey k).length = k.length := by
  have hlen := congrArg List.length (asciiLower_canonicalKey k)
  rwa [asciiLower, asciiLower, List.length_map, List.length_map] at hlen

/-- The canonical form does not depend on the case of the name. -/
theorem canonicalFrom_asciiLower (upper : Bool) (k : Bytes) :
    canonicalFrom upper (asciiLower k) = canonicalFrom upper k := by
  induction k generalizing upper with
  | nil => rfl
  | cons c s ih =>
    have hc : (if upper then upperByte (lowerByte c) else lowerByte (lowerByte c)) =
        if upper then upperByte c else lowerByte c := by
      rw [upperByte_lowerByte, lowerByte_lowerByte]
    have hdash : (lowerByte c == 45) = (c == 45) := by
      unfold lowerByte
      grind
    refine congrArg₂ List.cons hc ?_
    rw [hdash]
    exact ih _

theorem all_isTokenByte_asciiLower (k : Bytes) :
    (asciiLower k).all isTokenByte = k.all isTokenByte := by
  rw [asciiLower, List.all_map]
  exact congrArg (fun p => k.all p) (funext isTokenByte_lowerByte)

theorem canonicalKey_canonicalKey (k : Bytes) : canonicalKey (canonicalKey k) = canonicalKey k := by
  by_cases htoken : k.all isTokenByte = true
  · have hcanonical : (canonicalKey k).all isTokenByte = true := by
      rw [← all_isTokenByte_asciiLower, asciiLower_canonicalKey, all_isTokenByte_asciiLower, htoken]
    rw [canonicalKey, if_pos hcanonical, ← canonicalFrom_asciiLower, asciiLower_canonicalKey,
      canonicalFrom_asciiLower, canonicalKey, if_pos htoken]
  · have hsame : canonicalKey k = k := if_neg htoken
    rw [hsame, hsame]

/-- A canonical name is the key of a field exactly if the field has that name,
ignoring case. -/
theorem canonicalKey_eq_iff {k key : Bytes} (htoken : key.all isTokenByte = true)
    (hkey : canonicalFrom true key = key) :
    canonicalKey k = key ↔ asciiLower k = asciiLower key := by
  constructor
  · rintro rfl
    exact (asciiLower_canonicalKey k).symm
  · intro h
    have hk : k.all isTokenByte = true := by
      rw [← all_isTokenByte_asciiLower, h, all_isTokenByte_asciiLower, htoken]
    rw [canonicalKey, if_pos hk, ← canonicalFrom_asciiLower, h, canonicalFrom_asciiLower, hkey]

theorem canonicalFrom_append (upper : Bool) (a b : Bytes) :
    ∃ upper', canonicalFrom upper (a ++ b) = canonicalFrom upper a ++ canonicalFrom upper' b := by
  induction a generalizing upper with
  | nil => exact ⟨upper, rfl⟩
  | cons c a ih =>
    obtain ⟨upper', h⟩ := ih (c == 45)
    exact ⟨upper', congrArg _ h⟩

/-- A name of token characters keeps its beginning, in canonical form. -/
theorem canonicalFrom_isPrefix {k start : Bytes} (htoken : k.all isTokenByte = true)
    (h : start <+: asciiLower k) : canonicalFrom true start <+: canonicalKey k := by
  obtain ⟨rest, hrest⟩ := h
  obtain ⟨upper, happend⟩ := canonicalFrom_append true start rest
  rw [canonicalKey, if_pos htoken, ← canonicalFrom_asciiLower true k, ← hrest, happend]
  exact List.prefix_append _ _

theorem isWSP_of_isTokenByte {c : UInt8} (h : isTokenByte c = true) : isWSP c = false := by
  by_contra hwsp
  simp only [isWSP, Bool.not_eq_false, Bool.or_eq_true, beq_iff_eq] at hwsp
  rcases hwsp with rfl | rfl <;> exact absurd h (by decide)

theorem rdropWhile_isWSP_of_token {k : Bytes} (h : k.all isTokenByte = true) :
    k.rdropWhile isWSP = k := by
  rw [List.rdropWhile_eq_self_iff]
  intro hne hwsp
  have htoken := List.all_eq_true.mp h _ (List.getLast_mem hne)
  rw [isWSP_of_isTokenByte htoken] at hwsp
  cases hwsp

/-! ## Messages -/

/-- `mail.Message`: the header, under canonical names and in order, and the body. -/
structure Message where
  header : List Field
  body : Bytes
  deriving DecidableEq, Repr

/-- The fields up to the first one without a colon, which is an error. -/
def readFields : List RawField → Except Bytes (List Field)
  | [] => .ok []
  | f :: fs =>
    match parseField f.unfold with
    | none => .error (lit "malformed header line: " ++ f.unfold)
    | some ⟨k, v⟩ =>
      match readFields fs with
      | .error e => .error e
      | .ok h => .ok (if canonicalKey k = [] then h else ⟨canonicalKey k, v⟩ :: h)

/-- `mail.ReadMessage`. -/
def readMessage (raw : Bytes) : Except Bytes Message :=
  match group (headerLines raw) with
  | (l :: _, _) => .error (lit "malformed initial line: " ++ chomp l)
  | ([], fs) =>
    match readFields fs with
    | .error e => .error e
    | .ok h =>
      if hasBlank raw = false ∧ h = [] then .error (lit "EOF")
      else .ok ⟨h, (afterHeader raw).tail.flatten⟩

/-- The values of a field, `h[key]`. -/
def values (h : List Field) (key : Bytes) : List Bytes :=
  (h.filter fun f => f.name == key).map (·.value)

/-! ## What is read -/

section Group
variable {l : Bytes} {ls : List Bytes}

theorem group_cons_continuation (h : isContinuation l = true) :
    group (l :: ls) = (l :: (group ls).1, (group ls).2) := by
  rw [group]
  simp [h]

theorem group_cons_field (h : isContinuation l = false) :
    group (l :: ls) = ([], ⟨l, (group ls).1⟩ :: (group ls).2) := by
  rw [group]
  simp [h]

/-- Continuation lines all belong to the field before them. -/
theorem group_append {cont : List Bytes} (h : ∀ l ∈ cont, isContinuation l = true) :
    group (cont ++ ls) = (cont ++ (group ls).1, (group ls).2) := by
  induction cont with
  | nil => rfl
  | cons l cont ih =>
    rw [List.cons_append, group_cons_continuation (h l List.mem_cons_self),
      ih fun l' hl' => h l' (List.mem_cons_of_mem _ hl')]
    rfl

/-- Grouping loses no line and keeps their order. -/
theorem group_lines (ls : List Bytes) :
    (group ls).1 ++ (group ls).2.flatMap RawField.lines = ls := by
  induction ls with
  | nil => rfl
  | cons l ls ih =>
    cases hcont : isContinuation l with
    | true =>
      rw [group_cons_continuation hcont, List.cons_append, ih]
    | false =>
      rw [group_cons_field hcont, List.flatMap_cons, RawField.lines, List.cons_append,
        List.nil_append, ih]

end Group

theorem not_isContinuation_first {lines : List Bytes} {rf : RawField}
    (h : rf ∈ (group lines).2) : isContinuation rf.first = false := by
  induction lines with
  | nil => cases h
  | cons line lines ih =>
    cases hcont : isContinuation line with
    | true =>
      rw [group_cons_continuation hcont] at h
      exact ih h
    | false =>
      rw [group_cons_field hcont] at h
      rcases List.mem_cons.mp h with rfl | h
      · exact hcont
      · exact ih h

section Colon
variable {name value : Bytes}

theorem chomp_append_colon : chomp (name ++ 58 :: value) = name ++ 58 :: chomp value := by
  induction name with
  | nil => rfl
  | cons c name ih =>
    have hlf : name ++ 58 :: value ≠ [] := by simp
    have hcrlf : name ++ 58 :: value ≠ [10] := by
      intro h
      have hmem : (58 : UInt8) ∈ name ++ 58 :: value := by simp
      rw [h] at hmem
      revert hmem
      decide
    rw [List.cons_append, chomp, ih, List.cons_append]
    · exact fun _ => hlf
    · exact fun _ => hcrlf

theorem rdropWhile_append_colon :
    (name ++ 58 :: value).rdropWhile isWSP = name ++ 58 :: value.rdropWhile isWSP := by
  induction value using List.reverseRecOn with
  | nil => simp [List.rdropWhile, isWSP]
  | append_singleton value c ih =>
    rw [← List.cons_append, ← List.append_assoc]
    by_cases hc : isWSP c = true
    · rw [List.rdropWhile_concat_pos _ _ _ hc, List.rdropWhile_concat_pos _ _ _ hc, ih]
    · rw [List.rdropWhile_concat_neg _ _ _ hc, List.rdropWhile_concat_neg _ _ _ hc,
        List.append_assoc, List.cons_append]

/-- The name of a field whose first line has a colon stands before that colon. -/
theorem name_of_first {rf : RawField} {f : Field}
    (hcont : isContinuation rf.first = false) (hfirst : cut 58 rf.first = some (name, value))
    (hparse : parseField rf.unfold = some f) : f.name = name := by
  obtain ⟨heq, hname⟩ := cut_eq_some.mp hfirst
  have hhead : (name ++ 58 :: chomp value).dropWhile isWSP = name ++ 58 :: chomp value := by
    rw [heq] at hcont
    cases name with
    | nil => rfl
    | cons c name => exact List.dropWhile_cons_of_neg (by simpa [isContinuation] using hcont)
  have hunfold : ∃ rest, rf.unfold = name ++ 58 :: rest := by
    rw [RawField.unfold, heq, chomp_append_colon, trim, hhead, rdropWhile_append_colon,
      List.append_assoc, List.cons_append]
    exact ⟨_, rfl⟩
  obtain ⟨rest, hrest⟩ := hunfold
  rw [parseField, hrest, cut_eq_some.mpr ⟨rfl, hname⟩] at hparse
  rw [← Option.some.inj hparse]

end Colon

/-- Reading succeeds only if every field has a colon, and returns all of them but
those with an empty name. -/
theorem readFields_eq_ok {fs : List RawField} {h : List Field} (hread : readFields fs = .ok h) :
    (∀ f ∈ fs, (parseField f.unfold).isSome) ∧
      h = ((fs.filterMap fun f => parseField f.unfold).map fun f =>
        (⟨canonicalKey f.name, f.value⟩ : Field)).filter fun f => f.name ≠ [] := by
  induction fs generalizing h with
  | nil =>
    obtain rfl := Except.ok.inj hread
    exact ⟨nofun, rfl⟩
  | cons f fs ih =>
    rw [readFields] at hread
    split at hread
    · cases hread
    · rename_i k v hparse
      split at hread
      · cases hread
      · rename_i h' hread'
        obtain ⟨hsome, rfl⟩ := ih hread'
        obtain rfl := Except.ok.inj hread
        refine ⟨fun g hg => ?_, ?_⟩
        · rcases List.mem_cons.mp hg with rfl | hg
          · rw [hparse]
            rfl
          · exact hsome g hg
        · rw [List.filterMap_cons, hparse]
          by_cases hk : canonicalKey k = []
          · simp [hk]
          · simp [hk]

/-- What `ReadMessage` accepts and returns. -/
theorem readFields_of_readMessage {raw : Bytes} {m : Message} (h : readMessage raw = .ok m) :
    (group (headerLines raw)).1 = [] ∧ readFields (group (headerLines raw)).2 = .ok m.header ∧
      m.body = (afterHeader raw).tail.flatten := by
  unfold readMessage at h
  split at h
  · cases h
  · rename_i fs hgroup
    rw [hgroup]
    split at h
    · cases h
    · rename_i hdr hread
      split at h
      · cases h
      · obtain rfl := Except.ok.inj h
        exact ⟨rfl, hread, rfl⟩

/-- No stray first line, and a colon in every field. -/
theorem readMessage_eq_ok {raw : Bytes} {m : Message} (h : readMessage raw = .ok m) :
    (group (headerLines raw)).1 = [] ∧
      (∀ f ∈ (group (headerLines raw)).2, (parseField f.unfold).isSome) ∧
      m.header = ((fields raw).map fun f =>
        (⟨canonicalKey f.name, f.value⟩ : Field)).filter fun f => f.name ≠ [] := by
  obtain ⟨hlead, hread, -⟩ := readFields_of_readMessage h
  exact ⟨hlead, readFields_eq_ok hread⟩

/-- A field in front of a message is the first of its header. -/
theorem readMessage_append {first : Bytes} {more : List Bytes} {raw : Bytes} {m : Message}
    {f : Field}
    (hlines : ∀ l ∈ first :: more, IsLine l) (hblank : ∀ l ∈ first :: more, isBlank l = false)
    (hfirst : isContinuation first = false) (hmore : ∀ l ∈ more, isContinuation l = true)
    (hparse : parseField (RawField.unfold ⟨first, more⟩) = some f)
    (hname : canonicalKey f.name ≠ [])
    (h : readMessage raw = .ok m) :
    readMessage ((first :: more).flatten ++ raw) =
      .ok ⟨⟨canonicalKey f.name, f.value⟩ :: m.header, m.body⟩ := by
  obtain ⟨hlead, hread, hbody⟩ := readFields_of_readMessage h
  have hgroup : group (headerLines ((first :: more).flatten ++ raw)) =
      ([], ⟨first, more⟩ :: (group (headerLines raw)).2) := by
    rw [headerLines_append hlines hblank, List.cons_append, group_cons_field hfirst,
      group_append hmore, hlead, List.append_nil]
  rw [readMessage, hgroup]
  dsimp only
  rw [readFields, hparse]
  dsimp only
  rw [hread]
  dsimp only
  rw [if_neg hname, if_neg (fun he => List.cons_ne_nil _ _ he.2),
    afterHeader_append hlines hblank, hbody]

/-- The values of a field under its canonical name are those of the fields spelled
so, in any case. -/
theorem values_header {raw key : Bytes} {m : Message} (h : readMessage raw = .ok m)
    (htoken : key.all isTokenByte = true) (hkey : canonicalFrom true key = key) (hne : key ≠ []) :
    values m.header key =
      ((fields raw).filter fun f => asciiLower f.name == asciiLower key).map (·.value) := by
  rw [(readMessage_eq_ok h).2.2, values]
  induction fields raw with
  | nil => rfl
  | cons f fs ih =>
    by_cases hname : asciiLower f.name = asciiLower key
    · have hcanon := (canonicalKey_eq_iff htoken hkey).mpr hname
      simp [hcanon, hname, hne] at ih ⊢
      exact ih
    · have hcanon := mt (canonicalKey_eq_iff htoken hkey).mp hname
      by_cases hnil : canonicalKey f.name = []
      · simp [hnil, hname] at ih ⊢
        exact ih
      · simp [hnil, hcanon, hname] at ih ⊢
        exact ih

/-! ## Fields as RFC 5322 unfolds them -/

/-- A field name of RFC 5322: visible ASCII without the colon. -/
def IsName (name : Bytes) : Prop := name ≠ [] ∧ ∀ c ∈ name, (33 ≤ c ∧ c ≤ 126) ∧ c ≠ 58

/-- The field on one line: unfolding removes the line ends and nothing else. -/
def RawField.text (f : RawField) : Bytes := chomp f.first ++ f.more.flatMap chomp

/-- The fields of the header of a message, unfolded, under the names it spells them;
spaces and tabs around a value are not part of it. -/
def unfoldedFields (raw : Bytes) : List Field :=
  (group (headerLines raw)).2.filterMap fun f =>
    (cut 58 f.text).map fun (k, v) => ⟨k, trim v⟩

/-- `block` is the field `name: value`, folded at spaces. -/
def IsFolded (name value block : Bytes) : Prop :=
  ∃ (first : Bytes) (more : List Bytes),
    block = ((first ++ [13, 10]) :: more.map (· ++ [13, 10])).flatten ∧
    first ++ more.flatten = name ++ 58 :: 32 :: value ∧ name ++ [58] <+: first ∧
    ∀ l ∈ more, [32] <+: l

section Folded
variable {name value block rest : Bytes}

theorem IsName.unbroken {k : Bytes} (h : IsName k) : Unbroken k :=
  unbroken_of_forall h.2 (by decide) (by decide)

theorem isName_canonicalKey {k : Bytes} (h : IsName k) : IsName (canonicalKey k) := by
  refine ⟨fun hnil => h.1 ?_, fun c hc => ?_⟩
  · have hlower := asciiLower_canonicalKey k
    rw [hnil] at hlower
    exact List.map_eq_nil_iff.mp hlower.symm
  · have hmem : lowerByte c ∈ asciiLower k :=
      asciiLower_canonicalKey k ▸ List.mem_map_of_mem hc
    obtain ⟨d, hd, heq⟩ := List.mem_map.mp hmem
    have hbyte := h.2 d hd
    unfold lowerByte at heq
    grind

theorem IsName.head (h : IsName name) {s : Bytes} (hs : name ++ [58] <+: s) (t : Bytes) :
    isContinuation (s ++ t) = false := by
  obtain ⟨c, n, rfl⟩ := List.exists_cons_of_ne_nil h.1
  obtain ⟨u, rfl⟩ := hs
  have hc := (h.2 c List.mem_cons_self).1.1
  have hwsp : isWSP c = false := by
    unfold isWSP
    grind
  simp [isContinuation, hwsp]

/-- A folded field in front of a message is the first of its header. -/
theorem unfoldedFields_append (hname : IsName name) (hvalue : 10 ∉ value)
    (h : IsFolded name value block) (hrest : (group (headerLines rest)).1 = []) :
    (group (headerLines (block ++ rest))).1 = [] ∧
      unfoldedFields (block ++ rest) = ⟨name, trim value⟩ :: unfoldedFields rest := by
  obtain ⟨first, more, rfl, htext, hfirst, hmore⟩ := h
  have hlf : 10 ∉ first ++ more.flatten := by
    rw [htext]
    have hnot : 10 ∉ name := fun hc => absurd (hname.2 _ hc).1.1 (by decide)
    simp [hnot, hvalue]
  rw [List.mem_append, List.mem_flatten, not_or] at hlf
  obtain ⟨hlfFirst, hlfMore⟩ := hlf
  have hlfLine : ∀ l ∈ more, 10 ∉ l := fun l hl hc => hlfMore ⟨l, hl, hc⟩
  have hlines : ∀ l ∈ (first ++ [13, 10]) :: more.map (· ++ [13, 10]), IsLine l := by
    refine List.forall_mem_cons.mpr ⟨isLine_crlf hlfFirst, fun l hl => ?_⟩
    obtain ⟨s, hs, rfl⟩ := List.mem_map.mp hl
    exact isLine_crlf (hlfLine s hs)
  have hblank : ∀ l ∈ (first ++ [13, 10]) :: more.map (· ++ [13, 10]), isBlank l = false := by
    refine List.forall_mem_cons.mpr ⟨isBlank_crlf fun hnil => ?_, fun l hl => ?_⟩
    · rw [hnil] at hfirst
      simpa using List.prefix_nil.mp hfirst
    · obtain ⟨s, hs, rfl⟩ := List.mem_map.mp hl
      obtain ⟨t, rfl⟩ := hmore s hs
      exact isBlank_crlf (List.cons_ne_nil _ _)
  have hcont : ∀ l ∈ more.map (· ++ [13, 10]), isContinuation l = true := by
    intro l hl
    obtain ⟨s, hs, rfl⟩ := List.mem_map.mp hl
    obtain ⟨t, rfl⟩ := hmore s hs
    rfl
  have hgroup :
      group (headerLines (((first ++ [13, 10]) :: more.map (· ++ [13, 10])).flatten ++ rest)) =
      ([], ⟨first ++ [13, 10], more.map (· ++ [13, 10])⟩ :: (group (headerLines rest)).2) := by
    rw [headerLines_append hlines hblank, List.cons_append,
      group_cons_field (hname.head hfirst _), group_append hcont, hrest, List.append_nil]
  have hunfold : RawField.text ⟨first ++ [13, 10], more.map (· ++ [13, 10])⟩ =
      name ++ 58 :: 32 :: value := by
    rw [RawField.text, chomp_crlf hlfFirst, List.flatMap_map, List.flatMap_congr fun l hl =>
      chomp_crlf (hlfLine l hl), List.flatMap_id', htext]
  have hcolon : 58 ∉ name := fun hc => (hname.2 _ hc).2 rfl
  refine ⟨by rw [hgroup], ?_⟩
  rw [unfoldedFields, hgroup]
  dsimp only
  rw [List.filterMap_cons, hunfold, cut_eq_some.mpr ⟨rfl, hcolon⟩]
  dsimp only [Option.map_some]
  rw [trim_cons_of_isWSP (by decide)]
  rfl

end Folded

end HeaderBlock
