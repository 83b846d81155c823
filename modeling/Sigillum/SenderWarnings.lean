import Sigillum.AddressMatching

/-! # Senders that no backend entry allows

`internal/webhook/policy_warnings.go` warns of policy entries that the backend's list
never allows.  `senderNeverAllowed` compares each pair of entries; where both are globs it
compares their domains, by `EqualFold`.

The matcher compares by `ToLower`, and the two differ in one letter: the lower case of the
dotted capital I is `i`, with which it does not fold.  So two globs on one domain may be
taken for disjoint (`never_allowed_iff`).
-/
namespace Sigillum
open Runes Bytes

/-- `strings.ContainsAny(e, "*?[")`. -/
def isGlob (e : Bytes) : Bool := e.any fun c => (lit "*?[").contains c

/-- `domainPart`. -/
def domainPart (e : Bytes) : Bytes :=
  match cut 64 e with
  | some (_, d) => trimSpace d
  | none => trimSpace []

section Warnings
variable (L : Libraries)

/-- One round of the loop: whether the entry `b` leaves the verdict open. -/
def neverAllowedBy (e b : Bytes) : Bool :=
  if !isGlob e then !addressMatches L e b
  else if !isGlob b then !addressMatches L b e
  else if addressEntryError L b ≠ [] then false
  else !L.unicode.equalFold (domainPart e) (domainPart b)

/-- `senderNeverAllowed`. -/
def senderNeverAllowed (e : Bytes) (backend : List Bytes) : Bool :=
  if isGlob e = true ∧ addressEntryError L e ≠ [] then false
  else backend.all (neverAllowedBy L e)

/-- An entry by which the loop returns `false` for a glob: a plain address that matches it,
a glob that is not valid, or one on the same domain. -/
def Settles (e b : Bytes) : Prop :=
  if isGlob b then
    addressEntryError L b ≠ [] ∨ L.unicode.equalFold (domainPart e) (domainPart b) = true
  else addressMatches L b e = true

/-- Two valid globs on domains that are the same in lower case but for the dotted capital I
at different places, with a local part that each of them admits on the domain it names. -/
structure Confused (e b : Bytes) : Prop where
  globs : isGlob e = true ∧ isGlob b = true
  valid : addressEntryError L e = [] ∧ addressEntryError L b = []
  lower : L.unicode.toLower (domainPart e) = L.unicode.toLower (domainPart b)
  dotted : Unicode.dottedI (domainPart e) ≠ Unicode.dottedI (domainPart b)
  locals : ∃ x, addressMatches L (x ++ 64 :: domainPart e) e = true ∧
    addressMatches L (x ++ 64 :: domainPart b) b = true

end Warnings

/-! ## Addresses -/

section Addresses
variable {L : Libraries} {a e b d localPart : Bytes}

/-- An address counts only by its lower case. -/
theorem addressMatches_congr {a' : Bytes}
    (h : L.unicode.toLower (trimSpace a) = L.unicode.toLower (trimSpace a')) (e : Bytes) :
    addressMatches L a e = addressMatches L a' e := by
  simp only [addressMatches, h]

theorem exact_of_isGlob (h : isGlob e = false) : ∀ c ∈ e, c ∉ lit "*?[" := by
  intro c hc hmem
  exact List.any_eq_false.mp h c hc (List.contains_iff_mem.mpr hmem)

/-- Entries with an address in common have the same domain, in lower case. -/
theorem IsEntry.toLower_eq_of_overlap {localPart' d' : Bytes} (he : IsEntry L e localPart d)
    (hb : IsEntry L b localPart' d') (hae : addressMatches L a e = true)
    (hab : addressMatches L a b = true) : L.unicode.toLower d = L.unicode.toLower d' := by
  obtain ⟨x, hx⟩ := he.suffix_of_addressMatches hae
  obtain ⟨y, hy⟩ := hb.suffix_of_addressMatches hab
  have hd : 64 ∉ L.unicode.toLower d := fun hmem => (isHostByte_plain (he.host _ hmem)).2.1 rfl
  have hd' : 64 ∉ L.unicode.toLower d' := fun hmem => (isHostByte_plain (hb.host _ hmem)).2.1 rfl
  exact (append_cons_inj_right (hx.trans hy.symm) hd hd').2

/-- No white space is read in front of a bare domain. -/
theorem startsDark_of_host (h : ∀ c ∈ L.unicode.toLower d, isHostByte c = true) :
    StartsDark d := by
  rintro v hv ⟨t, rfl⟩
  have hread : ∀ v ∈ spaces, v.take (decodeRune v).2 = v ∧ decodeRune v ≠ (runeError, 1) ∧
      (decodeRune v).1 ≠ 0x130 ∧ (decodeRune v).1 ≠ 0x212A ∧
      ((decodeRune v).1 < 0x80 →
        isHostByte (lowerByte (UInt8.ofNat (decodeRune v).1)) = false) := by
    decide
  obtain ⟨htake, hvalid, hdotted, hkelvin, hhost⟩ := hread v hv
  obtain ⟨b, s, rfl⟩ := List.exists_cons_of_ne_nil (spaces_ne_nil v hv)
  have hdecode : decodeRune (b :: (s ++ t)) = decodeRune (b :: s) := by
    have happend := decodeRune_take_append hvalid t
    rwa [htake] at happend
  have hmem : (decodeRune (b :: s)).1 ∈ runes (b :: (s ++ t)) := by
    rw [runes_cons, hdecode]
    exact List.mem_cons_self
  have hlower := Unicode.lower_lt (fun c hc => isHostByte_lt (h c hc)) _ hmem
  rcases L.unicode.ascii_of_lower _ hlower with hascii | hrune | hrune
  · obtain ⟨x, hx, hrune⟩ := Unicode.exists_byte hascii
    rw [hrune] at hmem hhost
    have hno := hhost (hrune ▸ hascii)
    rw [UInt8.ofNat_toNat, h _ (Unicode.lowerByte_mem_toLower hx hmem)] at hno
    cases hno
  · exact hdotted hrune
  · exact hkelvin hrune

/-- The domain of a valid entry is what `domainPart` finds. -/
theorem IsEntry.domainPart_eq (he : IsEntry L e localPart d) : domainPart e = d := by
  have hcut : cut 64 e = some (localPart, d) := cut_eq_some.mpr ⟨he.eq, he.at_notMem⟩
  rw [domainPart, hcut]
  have hend : ∀ w ∈ spaces, ¬ w <:+ d := fun w hw hsuf =>
    he.not_space_suffix w hw (hsuf.trans ⟨localPart ++ [64], by simp⟩)
  exact trimSpace_white_append (w := []) ⟨[], by simp, rfl⟩ (startsDark_of_host he.host) hend

/-- Nor does an address on the domain of an entry end in white space. -/
theorem IsEntry.not_space_suffix_on (he : IsEntry L e localPart d) (x : Bytes) :
    ∀ v ∈ spaces, ¬ v <:+ x ++ 64 :: d := by
  have hat : ∀ v ∈ spaces, 64 ∉ v := by decide
  intro v hv hsuf
  rcases List.suffix_or_suffix_of_suffix hsuf (List.suffix_append x (64 :: d)) with hin | hout
  · exact he.not_space_suffix v hv (hin.trans (List.suffix_append _ _))
  · exact hat v hv (hout.subset List.mem_cons_self)

/-- Every local part on the domain of an entry is trimmed in front only. -/
theorem IsEntry.trimSpace_on (he : IsEntry L e localPart d) {w y : Bytes} (hw : IsWhite w)
    (hy : StartsDark y) : trimSpace (w ++ y ++ 64 :: d) = y ++ 64 :: d := by
  rw [List.append_assoc]
  refine trimSpace_white_append hw (startsDark_append.mpr hy) ?_
  rw [← List.append_assoc]
  exact he.not_space_suffix_on _

/-- White space and what it is in front of. -/
theorem IsEntry.exists_dark (he : IsEntry L e localPart d) (x : Bytes) :
    ∃ w y, x = w ++ y ∧ IsWhite w ∧ StartsDark y := by
  have hend := he.not_space_suffix_on x
  obtain ⟨y, hy, -⟩ := trimSpace_append (c := 64) (by decide) hend
  obtain ⟨w, hw, hsplit, hdark⟩ := trimSpace_spec hend
  rw [hy] at hsplit hdark
  rw [← List.append_assoc] at hsplit
  exact ⟨w, y, List.append_cancel_right hsplit, hw, startsDark_append.mp hdark⟩

/-- A local part on domains that are the same in lower case is one address to the matcher. -/
theorem IsEntry.toLower_trimSpace_congr {localPart' d' : Bytes} (he : IsEntry L e localPart d)
    (hb : IsEntry L b localPart' d') (hlower : L.unicode.toLower d = L.unicode.toLower d')
    (x : Bytes) : L.unicode.toLower (trimSpace (x ++ 64 :: d)) =
      L.unicode.toLower (trimSpace (x ++ 64 :: d')) := by
  obtain ⟨w, y, rfl, hw, hy⟩ := he.exists_dark x
  rw [he.trimSpace_on hw hy, hb.trimSpace_on hw hy, Unicode.toLower_append_cons (by decide),
    Unicode.toLower_append_cons (by decide), hlower]

/-- What matches an entry reads like some local part on the entry's domain. -/
theorem IsEntry.exists_local (he : IsEntry L e localPart d) (hae : addressMatches L a e = true) :
    ∃ x, L.unicode.toLower (trimSpace (x ++ 64 :: d)) = L.unicode.toLower (trimSpace a) := by
  obtain ⟨y, hy⟩ := he.suffix_of_addressMatches hae
  have hmem : 64 ∈ trimSpace a := by
    refine Unicode.mem_of_mem_toLower (U := L.unicode) (by decide) (by decide) ?_
    rw [← hy]
    exact List.mem_append_right _ List.mem_cons_self
  obtain ⟨⟨x, d₀⟩, hcut⟩ := Option.ne_none_iff_exists'.mp (mt cutLast_eq_none.mp (not_not.mpr hmem))
  obtain ⟨hsplit, hd₀⟩ := cutLast_eq_some hcut
  have hlower : 64 ∉ L.unicode.toLower d := fun hmem => (isHostByte_plain (he.host _ hmem)).2.1 rfl
  have hlower₀ : 64 ∉ L.unicode.toLower d₀ := fun hmem =>
    hd₀ (Unicode.mem_of_mem_toLower (by decide) (by decide) hmem)
  have hdark : StartsDark x := startsDark_append.mp (hsplit ▸ startsDark_trimSpace a)
  rw [hsplit, Unicode.toLower_append_cons (by decide)] at hy ⊢
  refine ⟨x, ?_⟩
  have htrim := he.trimSpace_on (w := []) ⟨[], by simp, rfl⟩ hdark
  rw [List.nil_append] at htrim
  rw [htrim, Unicode.toLower_append_cons (by decide), (append_cons_inj_right hy hlower hlower₀).2]

/-- **What two valid globs have in common**: a domain in lower case, and a local part. -/
theorem IsEntry.overlap_iff {localPart' d' : Bytes} (he : IsEntry L e localPart d)
    (hb : IsEntry L b localPart' d') :
    (∃ a, addressMatches L a e = true ∧ addressMatches L a b = true) ↔
      L.unicode.toLower d = L.unicode.toLower d' ∧ ∃ x,
        addressMatches L (x ++ 64 :: d) e = true ∧ addressMatches L (x ++ 64 :: d') b = true := by
  constructor
  · rintro ⟨a, hae, hab⟩
    have hlower := he.toLower_eq_of_overlap hb hae hab
    obtain ⟨x, hx⟩ := he.exists_local hae
    refine ⟨hlower, x, ?_, ?_⟩
    · rwa [addressMatches_congr hx]
    · rwa [addressMatches_congr ((he.toLower_trimSpace_congr hb hlower x).symm.trans hx)]
  · rintro ⟨hlower, x, hxe, hxb⟩
    refine ⟨x ++ 64 :: d, hxe, ?_⟩
    rwa [addressMatches_congr (he.toLower_trimSpace_congr hb hlower x)]

end Addresses

/-! ## Verdicts -/

section Verdicts
variable {L : Libraries} {a e b : Bytes}

/-- Two valid globs share an address only on one domain in lower case, where `EqualFold`
sees nothing but the dotted capital I. -/
theorem overlap_iff (he : addressEntryError L e = []) (hb : addressEntryError L b = []) :
    (∃ a, addressMatches L a e = true ∧ addressMatches L a b = true) ↔
      L.unicode.toLower (domainPart e) = L.unicode.toLower (domainPart b) ∧ ∃ x,
        addressMatches L (x ++ 64 :: domainPart e) e = true ∧
        addressMatches L (x ++ 64 :: domainPart b) b = true := by
  obtain ⟨_, d, hentry⟩ := isEntry_of_addressEntryError he
  obtain ⟨_, d', hentry'⟩ := isEntry_of_addressEntryError hb
  rw [hentry.domainPart_eq, hentry'.domainPart_eq]
  exact hentry.overlap_iff hentry'

theorem equalFold_iff_of_lower (he : addressEntryError L e = [])
    (hlower : L.unicode.toLower (domainPart e) = L.unicode.toLower (domainPart b)) :
    L.unicode.equalFold (domainPart e) (domainPart b) = true ↔
      Unicode.dottedI (domainPart e) = Unicode.dottedI (domainPart b) := by
  obtain ⟨_, d, hentry⟩ := isEntry_of_addressEntryError he
  rw [hentry.domainPart_eq] at hlower ⊢
  exact Unicode.equalFold_iff_dottedI (fun c hc => isHostByte_lt (hentry.host c hc)) hlower

/-- For a glob the loop goes on exactly past the entries that settle nothing. -/
theorem neverAllowedBy_iff (hglob : isGlob e = true) :
    neverAllowedBy L e b = true ↔ ¬ Settles L e b := by
  unfold neverAllowedBy Settles
  cases hglob' : isGlob b with
  | false => simp [hglob]
  | true =>
    by_cases hb : addressEntryError L b = []
    · simp [hglob, hb]
    · simp [hglob, hb]

/-- **One round is right**, but for the dotted capital I. -/
theorem confused_of_neverAllowedBy (hvalid : isGlob e = true → addressEntryError L e = [])
    (hround : neverAllowedBy L e b = true) (hae : addressMatches L a e = true)
    (hab : addressMatches L a b = true) : Confused L e b := by
  cases hglob : isGlob e with
  | false =>
    -- the entry is the only address it matches
    have hsame := (addressMatches_exact (exact_of_isGlob hglob)).mp hae
    rw [neverAllowedBy, hglob, addressMatches_congr hsame, hab] at hround
    cases hround
  | true =>
    have hopen := (neverAllowedBy_iff hglob).mp hround
    unfold Settles at hopen
    split at hopen
    · rename_i hglob'
      obtain ⟨hb, hfold⟩ := not_or.mp hopen
      have hb := not_not.mp hb
      obtain ⟨hlower, hlocals⟩ := (overlap_iff (hvalid hglob) hb).mp ⟨a, hae, hab⟩
      exact ⟨⟨hglob, hglob'⟩, ⟨hvalid hglob, hb⟩, hlower,
        fun hdotted => hfold ((equalFold_iff_of_lower (hvalid hglob) hlower).mpr hdotted), hlocals⟩
    · rename_i hplain
      have hsame := (addressMatches_exact (exact_of_isGlob (Bool.eq_false_iff.mpr hplain))).mp hab
      rw [addressMatches_congr hsame] at hopen
      exact absurd hae hopen

end Verdicts

/-- **When the warning can be trusted.**  No address matches both an entry that is said
never to be allowed and one of the backend's list; exactly if each entry of the list that
is confused with it, by the dotted capital I in one of two domains that are the same in
lower case, stands beside one that keeps the warning back. -/
theorem never_allowed_iff (L : Libraries) (e : Bytes) (backend : List Bytes) :
    (senderNeverAllowed L e backend = true →
      ∀ a, ∀ b ∈ backend, ¬ (addressMatches L a e = true ∧ addressMatches L a b = true)) ↔
      ∀ b ∈ backend, Confused L e b → ∃ b' ∈ backend, Settles L e b' := by
  constructor
  · intro hsound b hb hconfused
    obtain ⟨⟨hglob, -⟩, ⟨hvalid, hvalid'⟩, hlower, -, hlocals⟩ := hconfused
    by_contra hopen
    have hnever : senderNeverAllowed L e backend = true := by
      rw [senderNeverAllowed, if_neg fun hbad => hbad.2 hvalid, List.all_eq_true]
      exact fun b' hb' => (neverAllowedBy_iff hglob).mpr fun hsettles => hopen ⟨b', hb', hsettles⟩
    obtain ⟨a, hmatches⟩ := (overlap_iff hvalid hvalid').mpr ⟨hlower, hlocals⟩
    exact hsound hnever a b hb hmatches
  · rintro hconfused hnever a b hb ⟨hae, hab⟩
    unfold senderNeverAllowed at hnever
    split at hnever
    · cases hnever
    · rename_i hopen
      have hvalid : isGlob e = true → addressEntryError L e = [] := fun hglob =>
        not_not.mp fun hbad => hopen ⟨hglob, hbad⟩
      have hrounds := List.all_eq_true.mp hnever
      have hconf := confused_of_neverAllowedBy hvalid (hrounds b hb) hae hab
      obtain ⟨b', hb', hsettles⟩ := hconfused b hb hconf
      exact (neverAllowedBy_iff hconf.globs.1).mp (hrounds b' hb') hsettles

/-- A policy for a Turkish capital, and a backend for the same domain in ASCII. -/
theorem dottedI_never_allowed :
    senderNeverAllowed .plain (lit "*@" ++ [0xC4, 0xB0] ++ lit ".example") [lit "*@i.example"] =
        true ∧
      addressMatches .plain (lit "ops@i.example") (lit "*@" ++ [0xC4, 0xB0] ++ lit ".example") =
        true ∧
      addressMatches .plain (lit "ops@i.example") (lit "*@i.example") = true := by
  decide +kernel

end Sigillum
