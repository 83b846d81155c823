import Sigillum.Submission

/-! # Blind copies

`stripBcc` in `internal/smtpproxy/bcc.go` removes the Bcc and Resent-Bcc fields of
a submitted message, compacting the header in the buffer it reads from.

`stripBcc_eq` says what it returns in terms of lines: since it never writes past
where it reads, the lines kept, followed by the rest.  It goes by the line a field
starts on, while the parser right behind it joins continuation lines before it
looks for the colon; `no_blind_copies_iff` says where that matters.
-/
namespace Sigillum
open Runes Bytes HeaderBlock

/-! ## The buffer -/

/-- `buf[i:j]`. -/
def slice (buf : Bytes) (i j : Nat) : Bytes := (buf.take j).drop i

/-- The buffer with `line` written at offset `n`. -/
def overwrite (buf : Bytes) (n : Nat) (line : Bytes) : Bytes :=
  buf.take n ++ line ++ buf.drop (n + line.length)

section Strip
variable (U : Unicode)

/-- `isBccField`. -/
def isBccField (line : Bytes) : Bool :=
  match cut 58 line with
  | none => false
  | some (name, _) => U.equalFold (trimSpace name) (lit "Bcc") ||
      U.equalFold (trimSpace name) (lit "Resent-Bcc")

/-- The offset of the first blank line among `lines`, which start at offset `i`. -/
def headerEndFrom (i : Nat) : List Bytes → Option Nat
  | [] => none
  | line :: lines => if isBlank line then some i else headerEndFrom (i + line.length) lines

/-- `headerEnd`. -/
def headerEnd (raw : Bytes) : Option Nat := headerEndFrom 0 (rawLines raw)

/-- Where the line at offset `i` ends, at the latest at `stop`. -/
def nextLine (buf : Bytes) (i stop : Nat) : Nat :=
  match indexByte 10 (slice buf i stop) with
  | some j => i + j + 1
  | none => stop

theorem lt_nextLine (buf : Bytes) {i stop : Nat} (h : i < stop) : i < nextLine buf i stop := by
  unfold nextLine
  split
  · omega
  · exact h

/-- The loop of `stripBcc`: it reads at `i` and has written up to `n`. -/
def stripLoop (stop : Nat) (buf : Bytes) (i n : Nat) (skipping : Bool) : Bytes × Nat :=
  if i < stop then
    let line := slice buf i (nextLine buf i stop)
    let skipping := if isContinuation line then skipping else isBccField U line
    if skipping then stripLoop stop buf (nextLine buf i stop) n skipping
    else
      stripLoop stop (overwrite buf n line) (nextLine buf i stop) (n + line.length) skipping
  else (buf, n)
termination_by stop - i
decreasing_by
  all_goals
    have hlt := lt_nextLine buf ‹i < stop›
    omega

/-- `stripBcc`. -/
def stripBcc (raw : Bytes) : Bytes :=
  match headerEnd raw with
  | none => raw
  | some stop =>
    let (buf, n) := stripLoop U stop raw 0 0 false
    (overwrite buf n (buf.drop stop)).take (n + (buf.drop stop).length)

/-- The lines that are kept, in a field that is skipped or not. -/
def keptLines (skipping : Bool) : List Bytes → List Bytes
  | [] => []
  | line :: lines =>
    let skipping := if isContinuation line then skipping else isBccField U line
    if skipping then keptLines skipping lines else line :: keptLines skipping lines

end Strip

/-! ## The lines kept -/

section Buffer
variable {buf : Bytes} {n : Nat}

theorem take_overwrite (hn : n ≤ buf.length) (line : Bytes) :
    (overwrite buf n line).take (n + line.length) = buf.take n ++ line := by
  have hlength : (buf.take n ++ line).length = n + line.length := by
    rw [List.length_append, List.length_take, Nat.min_eq_left hn]
  rw [overwrite, ← hlength, List.take_left]

theorem drop_overwrite (hn : n ≤ buf.length) {line : Bytes} {i : Nat} (hi : n + line.length ≤ i) :
    (overwrite buf n line).drop i = buf.drop i := by
  have hlength : (buf.take n ++ line).length = n + line.length := by
    rw [List.length_append, List.length_take, Nat.min_eq_left hn]
  rw [overwrite, List.drop_append, List.drop_of_length_le (by omega), List.nil_append,
    List.drop_drop, hlength]
  congr 1
  omega

theorem length_overwrite {line : Bytes} (h : n + line.length ≤ buf.length) :
    (overwrite buf n line).length = buf.length := by
  rw [overwrite, List.length_append, List.length_append, List.length_take, List.length_drop,
    Nat.min_eq_left (by omega)]
  omega

theorem slice_eq_take_drop (buf : Bytes) (i j : Nat) :
    slice buf i j = (buf.drop i).take (j - i) := by
  rw [slice, List.drop_take]

end Buffer

/-- A line at offset `i` is what the loop reads there. -/
theorem nextLine_eq {buf line rest : Bytes} {i stop : Nat} (hline : IsLine line)
    (hbuf : buf.drop i = line ++ rest) (hstop : i + line.length ≤ stop) :
    nextLine buf i stop = i + line.length := by
  obtain ⟨s, rfl, hs⟩ := hline
  rw [List.length_append, List.length_singleton] at hstop ⊢
  have hslice : slice buf i stop = s ++ 10 :: rest.take (stop - i - (s.length + 1)) := by
    rw [slice_eq_take_drop, hbuf, List.take_append, List.take_of_length_le (by simp; omega)]
    simp
  rw [nextLine, hslice, indexByte_append hs]
  rfl

theorem slice_line {buf line rest : Bytes} {i : Nat} (hbuf : buf.drop i = line ++ rest) :
    slice buf i (i + line.length) = line := by
  rw [slice_eq_take_drop, hbuf, Nat.add_sub_cancel_left, List.take_left]

section Loop
variable {U : Unicode}

/-- The loop keeps what is before `n`, appends the lines kept, and leaves alone what
it has not read. -/
theorem stripLoop_eq {lines : List Bytes} (hlines : ∀ l ∈ lines, IsLine l) {buf rest : Bytes}
    {i n : Nat} (hbuf : buf.drop i = lines.flatten ++ rest) (hi : i ≤ buf.length) (hn : n ≤ i)
    (skipping : Bool) :
    ∃ buf', stripLoop U (i + lines.flatten.length) buf i n skipping =
        (buf', n + (keptLines U skipping lines).flatten.length) ∧
      buf'.take (n + (keptLines U skipping lines).flatten.length) =
        buf.take n ++ (keptLines U skipping lines).flatten ∧
      buf'.drop (i + lines.flatten.length) = rest ∧
      n + (keptLines U skipping lines).flatten.length ≤ buf'.length := by
  induction lines generalizing buf i n skipping with
  | nil =>
    rw [stripLoop, if_neg (by simp)]
    exact ⟨buf, rfl, by simp [keptLines], by simpa using hbuf, hn.trans hi⟩
  | cons line lines ih =>
    have hline := hlines line List.mem_cons_self
    have hlines' : ∀ l ∈ lines, IsLine l := fun l hl => hlines l (List.mem_cons_of_mem _ hl)
    rw [List.flatten_cons, List.append_assoc] at hbuf
    have hnext : nextLine buf i (i + (line :: lines).flatten.length) = i + line.length :=
      nextLine_eq hline hbuf (by simp)
    have hpos : 0 < line.length := by
      obtain ⟨s, rfl, -⟩ := hline
      simp
    have hi' : i + line.length ≤ buf.length := by
      have hlength := congrArg List.length hbuf
      rw [List.length_drop, List.length_append] at hlength
      omega
    have hstop : i + (line :: lines).flatten.length = i + line.length + lines.flatten.length := by
      rw [List.flatten_cons, List.length_append, Nat.add_assoc]
    have hdrop : buf.drop (i + line.length) = lines.flatten ++ rest := by
      rw [← List.drop_drop, hbuf, List.drop_left]
    rw [stripLoop, if_pos (by simp; omega), hnext, slice_line hbuf, hstop, keptLines]
    dsimp only
    generalize (if isContinuation line then skipping else isBccField U line) = skipping'
    cases skipping' with
    | true => exact ih hlines' hdrop hi' (by omega) true
    | false =>
      -- the line is written at `n`, before or where it was read
      have hn' : n ≤ buf.length := hn.trans hi
      obtain ⟨buf', hloop, htake, hrest, hlength⟩ := ih hlines'
        ((drop_overwrite hn' (Nat.add_le_add_right hn _)).trans hdrop)
        (by rw [length_overwrite (by omega)]; exact hi') (Nat.add_le_add_right hn _) false
      rw [take_overwrite hn'] at htake
      refine ⟨buf', ?_, ?_, hrest, ?_⟩
      · rw [if_neg (by decide), hloop]
        simp [Nat.add_assoc]
      · simpa [Nat.add_assoc] using htake
      · simpa [Nat.add_assoc] using hlength

theorem headerEndFrom_eq (i : Nat) (lines : List Bytes) :
    headerEndFrom i lines = if lines.any isBlank then
      some (i + (lines.takeWhile fun l => !isBlank l).flatten.length) else none := by
  induction lines generalizing i with
  | nil => rfl
  | cons line lines ih =>
    rw [headerEndFrom]
    by_cases hblank : isBlank line = true
    · simp [hblank]
    · simp [hblank, ih, Nat.add_assoc]

/-- Of a message with an empty line the lines kept are returned, and all that
follows the header. -/
theorem stripBcc_eq {raw : Bytes} (h : hasBlank raw = true) :
    stripBcc U raw =
      (keptLines U false (headerLines raw)).flatten ++ (afterHeader raw).flatten := by
  have hend : headerEnd raw = some (0 + (headerLines raw).flatten.length) := by
    rw [headerEnd, headerEndFrom_eq, ← hasBlank, if_pos h]
    rfl
  have hbuf : raw.drop 0 = (headerLines raw).flatten ++ (afterHeader raw).flatten := by
    rw [← List.flatten_append, headerLines_append_afterHeader, rawLines_flatten]
    rfl
  obtain ⟨buf, hloop, htake, hrest, hlength⟩ :=
    stripLoop_eq (U := U) (isLine_headerLines h) hbuf (Nat.zero_le _) (Nat.le_refl 0) false
  rw [stripBcc, hend]
  dsimp only
  rw [hloop]
  dsimp only
  rw [hrest, take_overwrite hlength, htake]
  rfl

theorem stripBcc_of_no_blank {raw : Bytes} (h : hasBlank raw = false) : stripBcc U raw = raw := by
  rw [stripBcc, headerEnd, headerEndFrom_eq, ← hasBlank, h]
  rfl

/-! ## The fields kept -/

theorem mem_of_mem_keptLines {skipping : Bool} {lines : List Bytes} {l : Bytes}
    (h : l ∈ keptLines U skipping lines) : l ∈ lines := by
  induction lines generalizing skipping with
  | nil => cases h
  | cons line lines ih =>
    rw [keptLines] at h
    generalize (if isContinuation line then skipping else isBccField U line) = skipping' at h
    cases skipping' with
    | true => exact List.mem_cons_of_mem _ (ih h)
    | false =>
      rcases List.mem_cons.mp h with rfl | h
      · exact List.mem_cons_self
      · exact List.mem_cons_of_mem _ (ih h)

/-- A field is kept with all its lines, or dropped with all of them. -/
theorem group_keptLines (skipping : Bool) (lines : List Bytes) :
    group (keptLines U skipping lines) =
      (if skipping then [] else (group lines).1,
        (group lines).2.filter fun f => !isBccField U f.first) := by
  induction lines generalizing skipping with
  | nil => cases skipping <;> rfl
  | cons line lines ih =>
    rw [keptLines]
    cases hcont : isContinuation line with
    | true =>
      rw [group_cons_continuation hcont]
      cases skipping with
      | true => simp [ih]
      | false => simp [group_cons_continuation hcont, ih]
    | false =>
      rw [group_cons_field hcont]
      cases hbcc : isBccField U line with
      | true => simp [ih, hbcc]
      | false => simp [group_cons_field hcont, ih, hbcc]

/-- The lines of what is returned: those kept, and all from the empty line on. -/
theorem rawLines_stripBcc {raw : Bytes} (h : hasBlank raw = true) :
    rawLines (stripBcc U raw) = keptLines U false (headerLines raw) ++ afterHeader raw := by
  have hheader := isLine_headerLines h
  have hrest : rawLines (afterHeader raw).flatten = afterHeader raw := by
    have happend := rawLines_flatten_append hheader (afterHeader raw).flatten
    rw [← List.flatten_append, headerLines_append_afterHeader, rawLines_flatten,
      ← headerLines_append_afterHeader raw] at happend
    exact (List.append_cancel_left happend).symm
  rw [stripBcc_eq h, rawLines_flatten_append fun l hl => hheader l (mem_of_mem_keptLines hl), hrest]

theorem not_isBlank_keptLines {raw : Bytes} :
    ∀ l ∈ keptLines U false (headerLines raw), (!isBlank l) = true := fun _ hl =>
  List.mem_takeWhile_imp (p := fun l => !isBlank l) (mem_of_mem_keptLines hl)

theorem headerLines_stripBcc {raw : Bytes} (h : hasBlank raw = true) :
    headerLines (stripBcc U raw) = keptLines U false (headerLines raw) := by
  obtain ⟨blank, rest, hafter, hblank⟩ := isBlank_cons_of_hasBlank h
  rw [headerLines, rawLines_stripBcc h, hafter, List.takeWhile_append_of_pos not_isBlank_keptLines]
  simp [hblank]

theorem afterHeader_stripBcc {raw : Bytes} (h : hasBlank raw = true) :
    afterHeader (stripBcc U raw) = afterHeader raw := by
  obtain ⟨blank, rest, hafter, hblank⟩ := isBlank_cons_of_hasBlank h
  rw [afterHeader, rawLines_stripBcc h, hafter, List.dropWhile_append_of_pos not_isBlank_keptLines]
  simp [hblank]

theorem hasBlank_stripBcc {raw : Bytes} (h : hasBlank raw = true) :
    hasBlank (stripBcc U raw) = true := by
  obtain ⟨blank, rest, hafter, hblank⟩ := isBlank_cons_of_hasBlank h
  rw [hasBlank, rawLines_stripBcc h, hafter]
  simp [hblank]

end Loop

/-! ## Blind copies that are left -/

/-- A field that discloses blind copies. -/
def IsBcc (f : HeaderBlock.Field) : Prop :=
  asciiLower (trimSpace f.name) ∈ [lit "bcc", lit "resent-bcc"]

instance (f : HeaderBlock.Field) : Decidable (IsBcc f) := inferInstanceAs (Decidable (_ ∈ _))

/-- Fields whose first line has no colon, so that `stripBcc` cannot tell their name. -/
def foldedNames (raw : Bytes) : List RawField :=
  (group (headerLines raw)).2.filter fun rf => !rf.first.contains 58

/-- Where an empty line ends the header, no field that starts without a colon is a
blind copy; otherwise none is at all. -/
def NoHiddenBcc (raw : Bytes) : Prop :=
  if hasBlank raw then ∀ f ∈ (foldedNames raw).filterMap fun rf => parseField rf.unfold, ¬ IsBcc f
  else ∀ f ∈ fields raw, ¬ IsBcc f

instance (raw : Bytes) : Decidable (NoHiddenBcc raw) := inferInstanceAs (Decidable (ite _ _ _))

/-- The first line of a field names it Bcc or Resent-Bcc: before its first colon, with white
space around, and letter by letter in any case. -/
def NamesBcc (line : Bytes) : Prop :=
  ∃ name value, line = name ++ 58 :: value ∧ 58 ∉ name ∧
    ∃ known ∈ [lit "bcc", lit "resent-bcc"],
      (runes (trimSpace name)).map Unicode.plainLetter = known.map UInt8.toNat

section Left
variable {U : Unicode}

/-- **Which fields are stripped.** -/
theorem isBccField_iff (line : Bytes) : isBccField U line = true ↔ NamesBcc line := by
  have hspelled : ∀ name, (U.equalFold (trimSpace name) (lit "Bcc") ||
      U.equalFold (trimSpace name) (lit "Resent-Bcc")) = true ↔
      ∃ known ∈ [lit "bcc", lit "resent-bcc"],
        (runes (trimSpace name)).map Unicode.plainLetter = known.map UInt8.toNat := by
    intro name
    have hascii : ∀ s ∈ [lit "Bcc", lit "Resent-Bcc"], ∀ b ∈ s, b < 0x80 := by decide
    have hlower : asciiLower (lit "Bcc") = lit "bcc" ∧
      asciiLower (lit "Resent-Bcc") = lit "resent-bcc" := by decide
    rw [Bool.or_eq_true, Unicode.equalFold_iff (hascii _ (by decide)),
      Unicode.equalFold_iff (hascii _ (by decide)), hlower.1, hlower.2]
    simp
  unfold isBccField NamesBcc
  cases hcut : cut 58 line with
  | none =>
    refine iff_of_false (by simp) ?_
    rintro ⟨name, value, rfl, -⟩
    exact cut_eq_none.mp hcut (List.mem_append_right _ List.mem_cons_self)
  | some p =>
    obtain ⟨name, value⟩ := p
    obtain ⟨rfl, hname⟩ := cut_eq_some.mp hcut
    dsimp only
    rw [hspelled]
    constructor
    · exact fun h => ⟨name, value, rfl, hname, h⟩
    · rintro ⟨name', value', heq, hname', h⟩
      obtain ⟨rfl, -⟩ := append_cons_inj heq hname hname'
      exact h

theorem isBccField_of_isBcc {line name value : Bytes} {f : HeaderBlock.Field}
    (hcut : cut 58 line = some (name, value)) (hname : f.name = name) (h : IsBcc f) :
    isBccField U line = true := by
  unfold isBccField
  rw [hcut]
  rw [IsBcc, hname, List.mem_cons, List.mem_singleton] at h
  have hascii : ∀ s ∈ [lit "Bcc", lit "Resent-Bcc"], ∀ b ∈ s, b < 0x80 := by decide
  refine Bool.or_eq_true _ _ ▸ h.imp (fun h => ?_) fun h => ?_
  · exact Unicode.equalFold_of_asciiLower (hascii _ (by decide)) h
  · exact Unicode.equalFold_of_asciiLower (hascii _ (by decide)) h

theorem trimSpace_of_token {k : Bytes} (h : k.all isTokenByte = true) : trimSpace k = k := by
  have hspaces : ∀ v ∈ spaces, ∃ c ∈ v, isTokenByte c = false := by decide
  have hnone : ∀ v ∈ spaces, ¬ v ⊆ k := by
    intro v hv hsub
    obtain ⟨c, hc, hfalse⟩ := hspaces v hv
    exact absurd (List.all_eq_true.mp h c (hsub hc)) (by simp [hfalse])
  exact trimSpace_white_append (w := []) ⟨[], by simp, rfl⟩
    (fun v hv hpre => hnone v hv hpre.subset) fun v hv hsuf => hnone v hv hsuf.subset

/-- The name a field is read under does not change whether it is one of these. -/
theorem isBcc_canonicalKey (f : HeaderBlock.Field) :
    IsBcc ⟨canonicalKey f.name, f.value⟩ ↔ IsBcc f := by
  unfold IsBcc
  dsimp only
  by_cases htoken : f.name.all isTokenByte = true
  · have hcanonical : (canonicalKey f.name).all isTokenByte = true := by
      rw [← all_isTokenByte_asciiLower, asciiLower_canonicalKey, all_isTokenByte_asciiLower, htoken]
    rw [trimSpace_of_token htoken, trimSpace_of_token hcanonical, asciiLower_canonicalKey]
  · rw [canonicalKey, if_neg htoken]

/-- `ReadMessage` has such a field exactly if the header does. -/
theorem header_isBcc_iff {raw : Bytes} {msg : HeaderBlock.Message}
    (h : readMessage raw = .ok msg) :
    (∀ f ∈ msg.header, ¬ IsBcc f) ↔ ∀ f ∈ fields raw, ¬ IsBcc f := by
  rw [(readMessage_eq_ok h).2.2]
  constructor
  · intro hnone f hf hbcc
    have hbcc' := (isBcc_canonicalKey f).mpr hbcc
    refine hnone _ (List.mem_filter.mpr ⟨List.mem_map_of_mem hf, ?_⟩) hbcc'
    refine decide_eq_true fun hempty => ?_
    rw [IsBcc, hempty] at hbcc'
    exact absurd hbcc' (by decide)
  · intro hnone f hf
    obtain ⟨g, hg, rfl⟩ := List.mem_map.mp (List.mem_filter.mp hf).1
    exact fun hbcc => hnone g hg ((isBcc_canonicalKey g).mp hbcc)

theorem fields_stripBcc {raw : Bytes} (h : hasBlank raw = true) :
    fields (stripBcc U raw) = ((group (headerLines raw)).2.filter
      fun rf => !isBccField U rf.first).filterMap fun rf => parseField rf.unfold := by
  rw [fields, headerLines_stripBcc h, group_keptLines]

theorem fields_stripBcc_iff (raw : Bytes) :
    (∀ f ∈ fields (stripBcc U raw), ¬ IsBcc f) ↔ NoHiddenBcc raw := by
  unfold NoHiddenBcc
  cases hblank : hasBlank raw with
  | false => rw [stripBcc_of_no_blank hblank, if_neg (by decide)]
  | true =>
    rw [if_pos rfl, fields_stripBcc hblank]
    constructor
    · intro h f hf
      obtain ⟨rf, hrf, hparse⟩ := List.mem_filterMap.mp hf
      obtain ⟨hgroup, hcolon⟩ := List.mem_filter.mp hrf
      have hcut : cut 58 rf.first = none := cut_eq_none.mpr (by simpa using hcolon)
      refine h f (List.mem_filterMap.mpr ⟨rf, List.mem_filter.mpr ⟨hgroup, ?_⟩, hparse⟩)
      rw [isBccField, hcut]
      rfl
    · intro h f hf hbcc
      obtain ⟨rf, hrf, hparse⟩ := List.mem_filterMap.mp hf
      obtain ⟨hgroup, hkept⟩ := List.mem_filter.mp hrf
      cases hcut : cut 58 rf.first with
      | none =>
        have hcolon : (!rf.first.contains 58) = true := by simpa using cut_eq_none.mp hcut
        exact h f (List.mem_filterMap.mpr ⟨rf, List.mem_filter.mpr ⟨hgroup, hcolon⟩, hparse⟩) hbcc
      | some p =>
        have hname := name_of_first (not_isContinuation_first hgroup) hcut hparse
        rw [isBccField_of_isBcc hcut hname hbcc] at hkept
        cases hkept

end Left

/-- **Which blind copies are left.**  What `stripBcc` returns has no Bcc and no Resent-Bcc
field exactly if the message it was given hides none: in a header no empty line ends,
or under a name the colon follows only on a continuation line.  The same is true of the
header that is read of a message `parseMessage` then accepts. -/
theorem no_blind_copies_iff (U : Unicode) (raw : Bytes) :
    ((∀ f ∈ fields (stripBcc U raw), ¬ IsBcc f) ↔ NoHiddenBcc raw) ∧
      ∀ L msg hdr, parseMessage L (stripBcc U raw) = .ok (msg, hdr) →
        ((∀ f ∈ msg.header, ¬ IsBcc f) ↔ NoHiddenBcc raw) := by
  refine ⟨fields_stripBcc_iff raw, fun L msg hdr haccepted => ?_⟩
  rw [header_isBcc_iff (parseMessage_eq_ok haccepted).read]
  exact fields_stripBcc_iff raw

/-- A message that is all header. -/
def headerOnlyMessage : Bytes :=
  lit "From: app@billing.example\r\nBcc: secret@x.example\r\n"

/-- The parser accepts it, and its blind copies are relayed. -/
theorem headerOnlyMessage_discloses :
    (parseMessage .plain (stripBcc Libraries.plain.unicode headerOnlyMessage)).map Prod.snd =
        .ok ⟨lit "app@billing.example", [], []⟩ ∧
      ⟨lit "Bcc", lit "secret@x.example"⟩ ∈
        fields (stripBcc Libraries.plain.unicode headerOnlyMessage) ∧
      IsBcc ⟨lit "Bcc", lit "secret@x.example"⟩ := by decide +kernel

/-- A message whose Bcc field has its colon on a continuation line. -/
def foldedNameMessage : Bytes :=
  lit "From: app@billing.example\r\nBcc\r\n : secret@x.example\r\n\r\nbody\r\n"

theorem foldedNameMessage_discloses :
    (parseMessage .plain (stripBcc Libraries.plain.unicode foldedNameMessage)).map Prod.snd =
        .ok ⟨lit "app@billing.example", [], []⟩ ∧
      ⟨lit "Bcc ", lit "secret@x.example"⟩ ∈
        fields (stripBcc Libraries.plain.unicode foldedNameMessage) ∧
      IsBcc ⟨lit "Bcc ", lit "secret@x.example"⟩ := by decide +kernel

end Sigillum
