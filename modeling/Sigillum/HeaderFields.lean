import Mathlib.Data.List.Sort
import Sigillum.HeaderBlock
import Sigillum.Mailbox
import Sigillum.WordEncoder

/-! # Header fields

The half of `internal/driver/smtp/mime.go` that writes header fields: addresses
with their display names, fields folded at spaces, and the map of fields a header
is collected in.

Folding loses nothing: unfolded, the lines are the field again
(`isFolded_foldHeaderLine`).  Whatever is in a display name, an address is written
as text of one line that ends in the address (`formatAddress_spec`).
-/
namespace Sigillum
open Runes Bytes HeaderBlock WordEncoder

/-! ## Line lengths -/

/-- The length folding aims for. -/
def foldHeaderMax : Nat := 78

/-- The limit of RFC 5322. -/
def maxHeaderLine : Nat := 998

/-- `maxFoldableToken`. -/
def maxFoldableToken : Nat := maxHeaderLine - (lit "Content-Transfer-Encoding: ").length

/-- The length of the longest part. -/
def longest (parts : List Bytes) : Nat :=
  parts.foldl (fun n part => if n < part.length then part.length else n) 0

/-- `longestToken`. -/
def longestToken (s : Bytes) : Nat := longest (s.splitOn 32)

/-- `strings.Split` at CRLF. -/
def splitLines (s : Bytes) : List Bytes :=
  match _h : cutPair 13 10 s with
  | none => [s]
  | some (line, rest) => line :: splitLines rest
termination_by s.length
decreasing_by
  rw [cutPair_eq_some _h]
  simp
  omega

/-- `longestLine`. -/
def longestLine (s : Bytes) : Nat := longest (splitLines s)

/-! ## Encoded-words where none are needed -/

/-- The inner loop of `forceEncodedWords`: how much goes into a word, if `n` bytes
already do and `s` is left. -/
def chunkFrom (n : Nat) : Bytes → Nat
  | [] => n
  | c :: s =>
    let size := (decodeRune (c :: s)).2
    if 45 < n + size ∧ 0 < n then n else chunkFrom (n + size) ((c :: s).drop size)
termination_by s => s.length
decreasing_by
  have hpos := decodeRune_width_pos (List.cons_ne_nil c s)
  simp only [List.length_drop, List.length_cons]
  omega

theorem le_chunkFrom (n : Nat) (s : Bytes) : n ≤ chunkFrom n s := by
  fun_induction chunkFrom n s with
  | case1 n => exact Nat.le_refl n
  | case2 n c s size hfull => exact Nat.le_refl n
  | case3 n c s size hroom ih => omega

/-- At least one rune goes into a word. -/
theorem chunkFrom_pos (c : UInt8) (s : Bytes) : 0 < chunkFrom 0 (c :: s) := by
  have hpos := decodeRune_width_pos (List.cons_ne_nil c s)
  have hle := le_chunkFrom (0 + (decodeRune (c :: s)).2) ((c :: s).drop (decodeRune (c :: s)).2)
  rw [chunkFrom, if_neg (by omega)]
  omega

/-- The words of `forceEncodedWords`. -/
def forcedWords : Bytes → List Bytes
  | [] => []
  | c :: s =>
    let n := chunkFrom 0 (c :: s)
    (lit "=?utf-8?b?" ++ stdEncoding.encode ((c :: s).take n) ++ lit "?=") ::
      forcedWords ((c :: s).drop n)
termination_by s => s.length
decreasing_by
  have hpos := chunkFrom_pos c s
  simp only [List.length_drop, List.length_cons]
  omega

/-- `forceEncodedWords`. -/
def forceEncodedWords (s : Bytes) : Bytes := List.intercalate [32] (forcedWords s)

/-! ## Addresses -/

/-- `isAtext` of `net/mail`, for each byte: those of a code point outside ASCII are. -/
def isAtext (c : UInt8) : Bool :=
  0x80 ≤ c || (33 ≤ c && c ≤ 126 && !(lit "()<>[]:;@\\,\".").contains c)

/-- Whether a local part has to be quoted: it is not dot-separated atext. -/
def quoteLocal (before : Option UInt8) : Bytes → Bool
  | [] => false
  | c :: s =>
    !(isAtext c || (c == 46 && before.any (· != 46) && s != [])) || quoteLocal (some c) s

/-- A code point of a quoted string: as it is, escaped, or dropped. -/
def quoteRune (r : Nat) : Bytes :=
  if r = 32 ∨ r = 9 then encodeRune r
  else if (33 ≤ r ∧ r ≤ 126) ∨ 0x80 ≤ r then
    if r = 92 ∨ r = 34 then 92 :: encodeRune r else encodeRune r
  else []

/-- `quoteString` of `net/mail`. -/
def quoteString (s : Bytes) : Bytes := [34] ++ (runes s).flatMap quoteRune ++ [34]

/-- The address in angle brackets, as `mail.Address.String` writes it. -/
def angleAddr (address : Bytes) : Bytes :=
  let (localPart, domain) := (cutLast 64 address).getD (address, [])
  lit "<" ++ (if quoteLocal none localPart then quoteString localPart else localPart) ++
    lit "@" ++ domain ++ lit ">"

/-- `mail.Address.String`. -/
def addressString (a : Address) : Bytes :=
  if a.name = [] then angleAddr a.address
  else if a.name.all isText then quoteString a.name ++ [32] ++ angleAddr a.address
  else if a.name.any fun c => (lit "\"#$%&'(),.:;<>@[]^`\x7b|\x7d~").contains c then
    bEncode a.name ++ [32] ++ angleAddr a.address
  else qEncode a.name ++ [32] ++ angleAddr a.address

/-- `formatAddress`. -/
def formatAddress (a : Address) : Bytes :=
  if a.name = [] then a.address
  else if a.name.any fun c => (c < 32 && c != 9) || 126 < c then
    bEncode a.name ++ lit " <" ++ a.address ++ lit ">"
  else if maxFoldableToken < longestToken (addressString a) then
    forceEncodedWords a.name ++ lit " <" ++ a.address ++ lit ">"
  else addressString a

/-- `formatAddressList`. -/
def formatAddressList (addrs : List Address) : Bytes :=
  List.intercalate (lit ", ") (addrs.map formatAddress)

/-- A field value that shows an address: the address, or a phrase with the address in
angle brackets behind it. -/
def HoldsAddress (value address : Bytes) : Prop :=
  value = address ∨ ∃ phrase, value = phrase ++ lit "<" ++ address ++ lit ">"

section Format
variable {a : Address} {localPart domain : Bytes}

theorem isAtext_of_localPartByte {c : UInt8} (h : localPartByte c = true) :
    isAtext c = true ∨ c = 46 := by
  have hall : ∀ n < 256, localPartByte (UInt8.ofNat n) = true →
      isAtext (UInt8.ofNat n) = true ∨ UInt8.ofNat n = 46 := by decide +kernel
  have hc := hall c.toNat c.toNat_lt
  rw [UInt8.ofNat_toNat] at hc
  exact hc h

/-- Dot-separated atext is not quoted.  The induction carries the byte before, which
keeps two dots apart. -/
theorem quoteLocal_eq_false {before : Option UInt8} {s : Bytes}
    (hbytes : ∀ c ∈ s, localPartByte c = true) (hstart : before = none → ¬ [46] <+: s)
    (hend : ¬ [46] <:+ s) (hdots : ¬ [46, 46] <:+: before.toList ++ s) :
    quoteLocal before s = false := by
  induction s generalizing before with
  | nil => rfl
  | cons c s ih =>
    obtain ⟨hc, hs⟩ := List.forall_mem_cons.mp hbytes
    have hrest : quoteLocal (some c) s = false := by
      refine ih hs nofun (fun h => hend (h.trans (List.suffix_cons c s))) fun h => hdots ?_
      exact h.trans (List.suffix_append before.toList (c :: s)).isInfix
    rw [quoteLocal, hrest, Bool.or_false, Bool.not_eq_false', Bool.or_eq_true]
    refine (isAtext_of_localPartByte hc).imp_right ?_
    rintro rfl
    have hne : s ≠ [] := by
      rintro rfl
      exact hend List.suffix_rfl
    cases before with
    | none => exact absurd (List.prefix_append [46] s) (hstart rfl)
    | some d =>
      have hd : d ≠ 46 := by
        rintro rfl
        exact hdots ((List.prefix_append [46, 46] s).isInfix)
      simp [hd, hne]

theorem angleAddr_eq (h : IsMailbox a.address localPart domain) :
    angleAddr a.address = lit "<" ++ a.address ++ lit ">" := by
  have hlocal : quoteLocal none localPart = false :=
    quoteLocal_eq_false h.localPart_bytes (fun _ => h.dotAtom.1) h.dotAtom.2.1 h.dotAtom.2.2
  have hat : lit "@" = [64] := by decide
  rw [angleAddr, h.eq, cutLast_append h.domain.at_notMem]
  dsimp only [Option.getD_some]
  rw [hlocal, hat]
  simp

theorem IsMailbox.unbroken {addr : Bytes} (h : IsMailbox addr localPart domain) :
    Unbroken addr := by
  have hat : Unbroken [64] := by decide
  rw [h.eq, ← List.singleton_append, unbroken_append, unbroken_append]
  refine ⟨unbroken_of_forall h.localPart_bytes (by decide) (by decide), hat, ?_⟩
  exact unbroken_of_forall (fun c hc => h.domain.bytes hc) (by decide) (by decide)

/-- A rune of a quoted string is visible, or a space or tab. -/
theorem unbroken_quoteRune (r : Nat) : Unbroken (quoteRune r) := by
  have hencoded : ∀ r, (r ≠ 13 ∧ r ≠ 10) → Unbroken (encodeRune r) := by
    intro r hr c hc
    constructor
    · rintro rfl
      exact hr.1 (eq_of_mem_encodeRune (by decide) hc)
    · rintro rfl
      exact hr.2 (eq_of_mem_encodeRune (by decide) hc)
  unfold quoteRune
  split
  · exact hencoded r (by omega)
  · split
    · split
      · exact List.forall_mem_cons.mpr ⟨by decide, hencoded r (by omega)⟩
      · exact hencoded r (by omega)
    · nofun

theorem unbroken_quoteString (s : Bytes) : Unbroken (quoteString s) := by
  have hquote : Unbroken [34] := by decide
  rw [quoteString, unbroken_append, unbroken_append]
  refine ⟨⟨hquote, fun c hc => ?_⟩, hquote⟩
  obtain ⟨r, -, hc⟩ := List.mem_flatMap.mp hc
  exact unbroken_quoteRune r c hc

theorem unbroken_forceEncodedWords (s : Bytes) : Unbroken (forceEncodedWords s) := by
  refine unbroken_intercalate (by decide) ?_
  fun_induction forcedWords s with
  | case1 => nofun
  | case2 c s n ih =>
    refine List.forall_mem_cons.mpr ⟨?_, ih⟩
    rw [unbroken_append, unbroken_append]
    exact ⟨⟨by decide, unbroken_of_isText (isText_stdEncode _)⟩, by decide⟩

/-- **What is written for an address.**  Whatever the display name, text of one line
that ends in the address. -/
theorem formatAddress_spec (h : IsMailbox a.address localPart domain) :
    Unbroken (formatAddress a) ∧ HoldsAddress (formatAddress a) a.address := by
  have hangle : Unbroken (lit "<" ++ a.address ++ lit ">") := by
    rw [unbroken_append, unbroken_append]
    exact ⟨⟨by decide, h.unbroken⟩, by decide⟩
  have hspace : lit " <" = [32] ++ lit "<" := by decide
  have hphrase : ∀ phrase, Unbroken phrase →
      Unbroken (phrase ++ [32] ++ (lit "<" ++ a.address ++ lit ">")) ∧
        HoldsAddress (phrase ++ [32] ++ (lit "<" ++ a.address ++ lit ">")) a.address := by
    intro phrase hphrase
    rw [unbroken_append, unbroken_append]
    exact ⟨⟨⟨hphrase, by decide⟩, hangle⟩, .inr ⟨phrase ++ [32], by simp⟩⟩
  unfold formatAddress
  rw [hspace]
  split
  · exact ⟨h.unbroken, .inl rfl⟩
  · rename_i hname
    split
    · simpa using hphrase _ (unbroken_of_isText (isText_bEncode a.name))
    · split
      · simpa using hphrase _ (unbroken_forceEncodedWords a.name)
      · unfold addressString
        rw [if_neg hname, angleAddr_eq h]
        split
        · exact hphrase _ (unbroken_quoteString a.name)
        · split
          · exact hphrase _ (unbroken_of_isText (isText_bEncode a.name))
          · exact hphrase _ (unbroken_of_isText (isText_qEncode a.name))

theorem unbroken_formatAddressList {addrs : List Address}
    (h : ∀ a ∈ addrs, ∃ localPart domain, IsMailbox a.address localPart domain) :
    Unbroken (formatAddressList addrs) := by
  refine unbroken_intercalate (by decide) fun part hpart => ?_
  obtain ⟨a, ha, rfl⟩ := List.mem_map.mp hpart
  obtain ⟨localPart, domain, hm⟩ := h a ha
  exact (formatAddress_spec hm).1

end Format

/-! ## Folding -/

/-- The loop of `foldHeaderLine` behind the first token: `out` is written, `cur` is the
current line. -/
def foldFrom (out cur : Bytes) : List Bytes → Bytes
  | [] => out ++ cur ++ lit "\r\n"
  | tok :: toks =>
    if foldHeaderMax < cur.length + 1 + tok.length then
      foldFrom (out ++ cur ++ lit "\r\n") (lit " " ++ tok) toks
    else foldFrom out (cur ++ lit " " ++ tok) toks

/-- `foldHeaderLine`. -/
def foldHeaderLine (key value : Bytes) : Bytes :=
  match value.splitOn 32 with
  | [] => foldFrom [] (key ++ lit ":") []
  | tok :: toks => foldFrom [] (key ++ lit ":" ++ lit " " ++ tok) toks

/-- The lines it writes, `cur` being the current one. -/
def foldedLines (cur : Bytes) : List Bytes → List Bytes
  | [] => [cur]
  | tok :: toks =>
    if foldHeaderMax < cur.length + 1 + tok.length then cur :: foldedLines ([32] ++ tok) toks
    else foldedLines (cur ++ [32] ++ tok) toks

theorem foldFrom_eq (out cur : Bytes) (toks : List Bytes) :
    foldFrom out cur toks = out ++ (foldedLines cur toks).flatMap (· ++ [13, 10]) := by
  have hcrlf : lit "\r\n" = [13, 10] := by decide
  have hspace : lit " " = [32] := by decide
  induction toks generalizing out cur with
  | nil => simp [foldFrom, foldedLines, hcrlf]
  | cons tok toks ih =>
    rw [foldFrom, foldedLines, hcrlf, hspace]
    split
    · rw [ih, List.flatMap_cons]
      simp
    · rw [ih]

/-- The lines are `cur` and the tokens left, a space before each. -/
theorem foldedLines_eq (cur : Bytes) (toks : List Bytes) :
    ∃ (first : Bytes) (more : List Bytes), foldedLines cur toks = first :: more ∧
      first ++ more.flatten = cur ++ toks.flatMap ([32] ++ ·) ∧ cur <+: first ∧
      ∀ l ∈ more, [32] <+: l := by
  induction toks generalizing cur with
  | nil => exact ⟨cur, [], rfl, by simp, List.prefix_rfl, nofun⟩
  | cons tok toks ih =>
    rw [foldedLines]
    split
    · -- the token starts a line of its own
      obtain ⟨first, more, heq, htext, hfirst, hmore⟩ := ih ([32] ++ tok)
      refine ⟨cur, first :: more, by rw [heq], ?_, List.prefix_rfl, ?_⟩
      · rw [List.flatten_cons, htext, List.flatMap_cons]
      · exact List.forall_mem_cons.mpr ⟨(List.prefix_append _ _).trans hfirst, hmore⟩
    · obtain ⟨first, more, heq, htext, hfirst, hmore⟩ := ih (cur ++ [32] ++ tok)
      refine ⟨first, more, heq, ?_, ?_, hmore⟩
      · rw [htext, List.flatMap_cons]
        simp
      · rw [List.append_assoc] at hfirst
        exact (List.prefix_append _ _).trans hfirst

/-- The lines of a field. -/
def fieldLines (key value : Bytes) : List Bytes :=
  match value.splitOn 32 with
  | [] => [key ++ [58]]
  | tok :: toks => foldedLines (key ++ [58, 32] ++ tok) toks

theorem foldHeaderLine_eq (key value : Bytes) :
    foldHeaderLine key value = (fieldLines key value).flatMap (· ++ [13, 10]) := by
  have hcolon : lit ":" = [58] := by decide
  have hspace : lit " " = [32] := by decide
  unfold foldHeaderLine fieldLines
  split
  · rw [foldFrom_eq, hcolon]
    rfl
  · rw [foldFrom_eq, hcolon, hspace, List.append_assoc key]
    rfl

theorem fieldLines_eq (key value : Bytes) :
    ∃ (first : Bytes) (more : List Bytes), fieldLines key value = first :: more ∧
      first ++ more.flatten = key ++ [58, 32] ++ value ∧ key ++ [58] <+: first ∧
      ∀ l ∈ more, [32] <+: l := by
  unfold fieldLines
  split
  · rename_i hnil
    exact absurd hnil (List.splitOn_ne_nil 32 value)
  · rename_i tok toks hsplit
    have hvalue : tok ++ toks.flatMap ([32] ++ ·) = value := by
      rw [← intercalate_eq_flatMap, ← hsplit, List.intercalate_splitOn]
    obtain ⟨first, more, heq, htext, hfirst, hmore⟩ :=
      foldedLines_eq (key ++ [58, 32] ++ tok) toks
    refine ⟨first, more, heq, ?_, ?_, hmore⟩
    · rw [htext, List.append_assoc _ tok, hvalue]
    · have hstart : key ++ [58] <+: key ++ [58, 32] ++ tok := ⟨[32] ++ tok, by simp⟩
      exact hstart.trans hfirst

/-- **Folding loses nothing.** -/
theorem isFolded_foldHeaderLine (key value : Bytes) :
    IsFolded key value (foldHeaderLine key value) := by
  obtain ⟨first, more, heq, htext, hfirst, hmore⟩ := fieldLines_eq key value
  refine ⟨first, more, ?_, by simpa using htext, hfirst, hmore⟩
  rw [foldHeaderLine_eq, heq, List.flatMap_def, List.map_cons]

/-! ## Maps of fields -/

/-- `textproto.MIMEHeader`, as `Set` builds it: one value a name, and names in
canonical form. -/
structure MIMEHeader where
  entries : List (Bytes × Bytes)
  nodup : (entries.map Prod.fst).Nodup
  canonical : ∀ e ∈ entries, canonicalKey e.1 = e.1

namespace MIMEHeader

def empty : MIMEHeader := ⟨[], List.nodup_nil, nofun⟩

/-- `Set`. -/
def set (h : MIMEHeader) (key value : Bytes) : MIMEHeader where
  entries := (h.entries.filter fun e => e.1 ≠ canonicalKey key) ++ [(canonicalKey key, value)]
  nodup := by
    rw [List.map_append, List.map_singleton, List.nodup_append]
    refine ⟨h.nodup.sublist (List.filter_sublist.map _), List.nodup_singleton _, ?_⟩
    intro k hk k' hk' heq
    obtain ⟨e, he, rfl⟩ := List.mem_map.mp hk
    have hne := (List.mem_filter.mp he).2
    rw [heq, List.mem_singleton.mp hk'] at hne
    simp at hne
  canonical := by
    intro e he
    rcases List.mem_append.mp he with he | he
    · exact h.canonical e (List.mem_filter.mp he).1
    · rw [List.mem_singleton.mp he]
      exact canonicalKey_canonicalKey key

/-- The fields in the order of their names. -/
def sorted (h : MIMEHeader) : List (Bytes × Bytes) := h.entries.insertionSort fun a b => a.1 ≤ b.1

section Entries
variable {h : MIMEHeader} {key value k v : Bytes} {e : Bytes × Bytes}

theorem mem_set : e ∈ (h.set key value).entries ↔
    (e ∈ h.entries ∧ e.1 ≠ canonicalKey key) ∨ e = (canonicalKey key, value) := by
  simp [set]

theorem mem_sorted : e ∈ h.sorted ↔ e ∈ h.entries := (List.perm_insertionSort _ _).mem_iff

/-- A name has at most one field. -/
theorem filter_sorted (hmem : (k, v) ∈ h.entries) :
    (h.sorted.filter fun e => e.1 == k) = [(k, v)] := by
  have hnodup : (h.sorted.map Prod.fst).Nodup :=
    ((List.perm_insertionSort _ _).map Prod.fst).nodup_iff.mpr h.nodup
  have hmem' := mem_sorted.mpr hmem
  generalize h.sorted = es at hnodup hmem'
  induction es with
  | nil => cases hmem'
  | cons e es ih =>
    rw [List.map_cons, List.nodup_cons] at hnodup
    rcases List.mem_cons.mp hmem' with rfl | hmem'
    · rw [List.filter_cons, if_pos (beq_self_eq_true k), List.filter_eq_nil_iff.mpr]
      intro e he heq
      exact hnodup.1 (List.mem_map.mpr ⟨e, he, beq_iff_eq.mp heq⟩)
    · have hne : ¬ (e.1 == k) = true := by
        rintro heq
        exact hnodup.1 (List.mem_map.mpr ⟨(k, v), hmem', (beq_iff_eq.mp heq).symm⟩)
      rw [List.filter_cons, if_neg hne, ih hnodup.2 hmem']

end Entries

/-- `Set`, for one field after the other. -/
def setAll (h : MIMEHeader) (fields : List (Bytes × Bytes)) : MIMEHeader :=
  fields.foldl (fun h f => h.set f.1 f.2) h

theorem mem_setAll {h : MIMEHeader} {fields : List (Bytes × Bytes)} {e : Bytes × Bytes}
    (hnodup : (fields.map fun f => canonicalKey f.1).Nodup) :
    e ∈ (h.setAll fields).entries ↔
      (e ∈ h.entries ∧ e.1 ∉ fields.map fun f => canonicalKey f.1) ∨
        e ∈ fields.map fun f => (canonicalKey f.1, f.2) := by
  induction fields generalizing h with
  | nil => simp [setAll]
  | cons f fields ih =>
    rw [List.map_cons, List.nodup_cons] at hnodup
    have hrest := @ih (h.set f.1 f.2) hnodup.2
    rw [setAll, List.foldl_cons, ← setAll, hrest, mem_set, List.map_cons, List.map_cons,
      List.mem_cons, List.mem_cons, not_or]
    constructor
    · rintro (⟨⟨he, hne⟩ | rfl, hkeys⟩ | he)
      · exact .inl ⟨he, hne, hkeys⟩
      · exact .inr (.inl rfl)
      · exact .inr (.inr he)
    · rintro (⟨he, hne, hkeys⟩ | rfl | he)
      · exact .inl ⟨.inl ⟨he, hne⟩, hkeys⟩
      · exact .inl ⟨.inr rfl, hnodup.1⟩
      · exact .inr he

end MIMEHeader

/-! ## The header on the wire -/

theorem group_blank (body : Bytes) : group (headerLines (lit "\r\n" ++ body)) = ([], []) := by
  have hcrlf : lit "\r\n" = [13, 10] := by decide
  have hline : IsLine [13, 10] := ⟨[13], rfl, by decide⟩
  rw [headerLines, hcrlf, rawLines_line_append hline]
  rfl

/-- Read back, folded fields in front of an empty line are these fields. -/
theorem unfoldedFields_lines {es : List (Bytes × Bytes)} (hnames : ∀ e ∈ es, IsName e.1)
    (hvalues : ∀ e ∈ es, Unbroken e.2) (body : Bytes) :
    unfoldedFields ((es.map fun e => foldHeaderLine e.1 e.2).flatten ++ lit "\r\n" ++ body) =
      es.map fun e => ⟨e.1, trim e.2⟩ := by
  have hread : ∀ es : List (Bytes × Bytes), (∀ e ∈ es, IsName e.1) → (∀ e ∈ es, Unbroken e.2) →
      (group (headerLines ((es.map fun e => foldHeaderLine e.1 e.2).flatten ++
        (lit "\r\n" ++ body)))).1 = [] ∧
      unfoldedFields ((es.map fun e => foldHeaderLine e.1 e.2).flatten ++ (lit "\r\n" ++ body)) =
        es.map fun e => (⟨e.1, trim e.2⟩ : HeaderBlock.Field) := by
    intro es hnames hvalues
    induction es with
    | nil =>
      rw [List.map_nil, List.flatten_nil, List.nil_append, unfoldedFields, group_blank]
      exact ⟨rfl, rfl⟩
    | cons e es ih =>
      obtain ⟨hname, hnames⟩ := List.forall_mem_cons.mp hnames
      obtain ⟨hvalue, hvalues⟩ := List.forall_mem_cons.mp hvalues
      obtain ⟨hlead, hfields⟩ := ih hnames hvalues
      obtain ⟨hlead', hfields'⟩ := unfoldedFields_append hname hvalue.lf_notMem
        (isFolded_foldHeaderLine e.1 e.2) hlead
      rw [List.map_cons, List.flatten_cons, List.append_assoc]
      exact ⟨hlead', by rw [hfields', hfields, List.map_cons]⟩
  rw [List.append_assoc]
  exact (hread es hnames hvalues).2

end Sigillum
