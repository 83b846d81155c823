import Sigillum.Backends
import Sigillum.Containment

/-! # What an entry of an allowlist admits

`AddressMatches` for the two kinds of entries `addressEntryError` accepts.

A glob `*@d` admits every mailbox of its domain, whatever bytes the local part
has, and an entry of any kind admits mailboxes of its domain only: a backend's
sender bound is exact on domains (`backend_bounds_senders`).

An entry without wildcards is compared after white space has been trimmed and
both sides have been lower-cased, each in the sense of Unicode.  So it admits
the mailboxes that read the same up to these (`exact_entry_admits`), of which
there is more than one as soon as local parts may leave ASCII.
-/
namespace Sigillum
open Runes Bytes

/-! ## Whole domains -/

section Globs
variable {L : Libraries}

/-- The text `*@d` is compared as it stands, but for the case of its domain. -/
theorem toLower_trimSpace_star {d : Bytes} (h : IsEntry L (42 :: 64 :: d) [42] d) :
    L.unicode.toLower (trimSpace (42 :: 64 :: d)) = 42 :: 64 :: L.unicode.toLower d := by
  obtain ⟨a, ha, hsuf⟩ :=
    trimSpace_append (c := 42) (a := []) (b := 64 :: d) (by decide) h.not_space_suffix
  obtain rfl := List.suffix_nil.mp hsuf
  simp only [List.nil_append] at ha
  rw [ha, Unicode.toLower_cons (by decide), Unicode.toLower_cons (by decide)]
  rfl

theorem slash_notMem_globSlash (s : Bytes) : 47 ∉ globSlash s := by
  intro hmem
  obtain ⟨c, -, hc⟩ := List.mem_map.mp hmem
  split at hc
  · exact absurd hc (by decide)
  · contradiction

/-- **The glob `*@d` admits every mailbox of the domain `d`.** -/
theorem addressMatches_star {addr localPart domain d : Bytes}
    (haddr : IsEntry L addr localPart domain) (he : IsEntry L (42 :: 64 :: d) [42] d)
    (h : L.unicode.toLower d = L.unicode.toLower domain) :
    addressMatches L addr (42 :: 64 :: d) = true := by
  obtain ⟨a, ha, -⟩ := haddr.toLower_trimSpace
  have hplain : ∀ c ∈ 64 :: L.unicode.toLower domain, Glob.Plain c := by
    intro c hc
    rcases List.mem_cons.mp hc with rfl | hmem
    · unfold Glob.Plain
      decide
    · exact (isHostByte_plain (haddr.host c hmem)).1
  have hpattern : globSlash (42 :: 64 :: L.unicode.toLower domain) =
      42 :: 64 :: L.unicode.toLower domain := congrArg (42 :: ·) (globSlash_of_host haddr.host)
  have hmatch : Glob.pathMatch (globSlash (42 :: 64 :: L.unicode.toLower domain))
      (globSlash (a ++ 64 :: L.unicode.toLower domain)) = some true := by
    rw [hpattern, globSlash_append, globSlash_of_host haddr.host]
    exact Glob.pathMatch_star hplain (List.cons_ne_nil _ _) (slash_notMem_globSlash a)
  simp only [addressMatches, toLower_trimSpace_star he, ha, h, hmatch]
  split
  · rfl
  · exact if_pos rfl

end Globs

/-! ## The bound of a backend -/

/-- `ValidateBackend` accepts an object with this spec. -/
def BackendSpec.Accepted (L : Libraries) (spec : BackendSpec) : Prop :=
  (∃ mb : MailBackend, mb.spec = spec ∧ mb.validateBackend L = none) ∨
    ∃ cmb : ClusterMailBackend, cmb.spec = spec ∧ cmb.validateBackend L = none

section Bound
variable {L : Libraries}

theorem addressEntryError_of_validate {v : MailBackendValidator} {kind name selfNs : Bytes}
    {spec : BackendSpec} (h : (v.validate L kind name selfNs spec).2 = none) :
    ∀ e ∈ spec.allowedSenders.getD [], addressEntryError L e = [] := by
  simp only [MailBackendValidator.validate, newInvalid_eq_none, List.append_eq_nil_iff] at h
  exact fun e he => validateEntries_eq_nil h.2 he

theorem BackendSpec.Accepted.entries {spec : BackendSpec} (h : spec.Accepted L)
    {allowed : List Bytes} (hallowed : spec.allowedSenders = some allowed) :
    ∀ e ∈ allowed, addressEntryError L e = [] := by
  have hentries : ∀ e ∈ spec.allowedSenders.getD [], addressEntryError L e = [] := by
    rcases h with ⟨mb, rfl, hvalid⟩ | ⟨cmb, rfl, hvalid⟩
    · exact addressEntryError_of_validate hvalid
    · exact addressEntryError_of_validate hvalid
  rwa [hallowed] at hentries

theorem sendersAllowed_eq_none {msg : MessageView} {allowed : List Bytes} :
    sendersAllowed L msg allowed = none ↔
      ∀ addr ∈ msg.senders, ∃ e ∈ allowed, addressMatches L addr e = true := by
  simp only [sendersAllowed, List.find?_eq_none, senderAllowed, Bool.not_eq_true,
    Bool.not_eq_false', List.any_eq_true]

end Bound

/-- **A backend's sender bound is exact on domains.**  Of a backend that is
accepted with a sender list, an allowed message has only sender addresses whose
domain is that of an entry; and a message is allowed if for each of its sender
addresses the list has the entry `*@d` for the domain, whatever the local parts
are. -/
theorem backend_bounds_senders (L : Libraries) (spec : BackendSpec) (allowed : List Bytes)
    (msg : MessageView) (haccepted : spec.Accepted L)
    (hallowed : spec.allowedSenders = some allowed)
    (hmailbox : ∀ addr ∈ msg.senders, validateMailbox L.unicode addr = none) :
    (sendersAllowed L msg allowed = none → ∀ addr ∈ msg.senders, ∃ e ∈ allowed,
      ∃ l d, cut 64 e = some (l, d) ∧ domainOf L addr = L.unicode.toLower d) ∧
    ((∀ addr ∈ msg.senders, ∃ d, lit "*@" ++ d ∈ allowed ∧
      L.unicode.toLower d = domainOf L addr) → sendersAllowed L msg allowed = none) := by
  have hentries := haccepted.entries hallowed
  rw [sendersAllowed_eq_none]
  constructor
  · intro hmatches addr haddr
    obtain ⟨localPart, domain, hm⟩ := validateMailbox_spec (hmailbox addr haddr)
    obtain ⟨e, he, hmatch⟩ := hmatches addr haddr
    obtain ⟨l, d, hentry⟩ := isEntry_of_addressEntryError (hentries e he)
    refine ⟨e, he, l, d, cut_eq_some.mpr ⟨hentry.eq, hentry.at_notMem⟩, ?_⟩
    rw [← toLower_eq_of_addressMatches hm.isEntry hentry hmatch, domainOf_eq hm,
      Unicode.toLower_of_ascii hm.domain.ascii]
  · intro hstars addr haddr
    obtain ⟨localPart, domain, hm⟩ := validateMailbox_spec (hmailbox addr haddr)
    obtain ⟨d, hd, hdomain⟩ := hstars addr haddr
    have hstar : lit "*@" ++ d = 42 :: 64 :: d := rfl
    rw [hstar] at hd
    obtain ⟨l, d', hentry⟩ := isEntry_of_addressEntryError (hentries _ hd)
    obtain ⟨rfl, rfl⟩ : [42] = l ∧ d = d' :=
      append_cons_inj hentry.eq (by decide) hentry.at_notMem
    refine ⟨_, hd, addressMatches_star hm.isEntry hentry ?_⟩
    rw [hdomain, domainOf_eq hm, Unicode.toLower_of_ascii hm.domain.ascii]

/-- A relay for one domain and one mailbox of another. -/
def teamRelay : ClusterMailBackend where
  name := lit "relay"
  uid := []
  generation := 1
  spec :=
    { type := .smtp
      smtp := some
        { endpoints := [⟨lit "mail.example.com", 587, .startTLS, false⟩]
          authType := .none
          credentialsRef := none
          connectionTimeoutSeconds := 10
          heloDomain := []
          caSecretRef := none }
      microsoftGraph := none
      allowedSenders := some [lit "*@Example.com", lit "ops@x.example"] }
  status := ⟨[], []⟩

/-- A message with a local part of bytes that are special to globs or not ASCII. -/
def starredMessage : MessageView where
  fromAddr := lit "a/b*?" ++ [0xC3, 0xBC] ++ lit "@EXAMPLE.com"
  envelopeFrom := lit "bounce@example.com"
  sender := []
  recipients := []
  replyTo := []
  sizeBytes := 0

theorem backend_bounds_senders_starred :
    teamRelay.spec.Accepted .plain ∧ sendersAllowed .plain starredMessage
      [lit "*@Example.com", lit "ops@x.example"] = none := by
  have haccepted : teamRelay.spec.Accepted .plain := Or.inr ⟨teamRelay, rfl, by decide +kernel⟩
  refine ⟨haccepted, (backend_bounds_senders .plain teamRelay.spec _ starredMessage haccepted rfl
    (by decide +kernel)).2 ?_⟩
  have hdomains : ∀ addr ∈ starredMessage.senders, domainOf .plain addr = lit "example.com" := by
    decide +kernel
  exact fun addr haddr => ⟨lit "Example.com", List.mem_cons_self,
    (by decide +kernel : _ = lit "example.com").trans (hdomains addr haddr).symm⟩

/-! ## Single mailboxes -/

/-- Two runes that are written the same in lower case. -/
def SameLower (U : Unicode) (r t : Nat) : Prop := encodeRune (U.lower r) = encodeRune (U.lower t)

/-- Two local parts that read the same: without the white space in front of each
they have the same runes up to case, one by one. -/
def ReadsAlike (U : Unicode) (l l' : Bytes) : Prop :=
  ∃ w v x y, l = w ++ x ∧ l' = v ++ y ∧ IsWhite w ∧ IsWhite v ∧ StartsDark x ∧ StartsDark y ∧
    List.Forall₂ (SameLower U) (runes x) (runes y)

section Exact
variable {L : Libraries} {a e l d l' d' : Bytes}

theorem toLower_eq_iff {U : Unicode} {x y : Bytes} :
    U.toLower x = U.toLower y ↔ List.Forall₂ (SameLower U) (runes x) (runes y) := by
  constructor
  · exact forall₂_of_flatMap_encodeRune
  · intro h
    unfold Unicode.toLower
    generalize runes x = rs at h ⊢
    generalize runes y = ts at h ⊢
    induction h with
    | nil => rfl
    | cons hhead _ ih =>
      rw [List.flatMap_cons, List.flatMap_cons, ih]
      exact congrArg (· ++ _) hhead

/-- An `@` behind it does not change what a string starts with. -/
theorem startsDark_append {x d : Bytes} : StartsDark (x ++ 64 :: d) ↔ StartsDark x := by
  constructor
  · exact fun h v hv hpre => h v hv (hpre.trans (List.prefix_append _ _))
  · rintro h v hv ⟨t, ht⟩
    have hat : ∀ v ∈ spaces, 64 ∉ v := by decide
    obtain ⟨x', rfl, -⟩ := append_eq_append_cons ht (hat v hv)
    exact h v hv (List.prefix_append _ _)

/-- The white space in front of a mailbox is in front of its local part. -/
theorem IsMailbox.trimSpace_eq (h : IsMailbox a l d) :
    ∃ w x, l = w ++ x ∧ IsWhite w ∧ StartsDark x ∧ trimSpace a = x ++ 64 :: d := by
  have hend : ∀ w ∈ spaces, ¬ w <:+ l ++ 64 :: d := (h.isEntry (L := .plain)).not_space_suffix
  obtain ⟨x, hx, -⟩ := trimSpace_append (c := 64) (by decide) hend
  obtain ⟨w, hw, hsplit, hdark⟩ := trimSpace_spec hend
  rw [hx] at hsplit hdark
  refine ⟨w, x, ?_, hw, startsDark_append.mp hdark, by rw [h.eq, hx]⟩
  rw [← List.append_assoc] at hsplit
  exact (append_cons_inj_right hsplit h.domain.at_notMem h.domain.at_notMem).1

theorem IsMailbox.trimSpace_of_white {w x : Bytes} (h : IsMailbox a (w ++ x) d) (hw : IsWhite w)
    (hx : StartsDark x) : trimSpace a = x ++ 64 :: d := by
  have hend : ∀ v ∈ spaces, ¬ v <:+ w ++ x ++ 64 :: d :=
    (h.isEntry (L := .plain)).not_space_suffix
  rw [h.eq, List.append_assoc]
  rw [List.append_assoc] at hend
  exact trimSpace_white_append hw (startsDark_append.mpr hx) hend

theorem toLower_mailbox {x : Bytes} (hd : IsHostName d) :
    L.unicode.toLower (x ++ 64 :: d) = L.unicode.toLower x ++ 64 :: asciiLower d := by
  rw [Unicode.toLower_append_cons (by decide), Unicode.toLower_of_ascii hd.ascii]
  rfl

theorem validateMailbox_of_exact (hexact : ∀ c ∈ e, c ∉ lit "*?[")
    (h : addressEntryError L e = []) : validateMailbox L.unicode e = none := by
  have hwild : (!e.any fun c => (lit "*?[").contains c) = true := by
    simpa [List.any_eq_false] using hexact
  rw [addressEntryError, if_pos hwild] at h
  split at h
  · have hlast := (List.append_eq_nil_iff.mp h).2
    exact absurd hlast (by decide)
  · rename_i hplain
    exact validateMailbox_of_validatePlainAddress hplain

/-- Without wildcards only the comparison of the whole strings is left. -/
theorem addressMatches_exact (hexact : ∀ c ∈ e, c ∉ lit "*?[") :
    addressMatches L a e = true ↔
      L.unicode.toLower (trimSpace e) = L.unicode.toLower (trimSpace a) := by
  have hwild : (L.unicode.toLower (trimSpace e)).any (fun c => (lit "*?[").contains c) = false := by
    rw [List.any_eq_false]
    intro c hc hmem
    have hmem := List.contains_iff_mem.mp hmem
    -- lower case brings in no wildcard
    have hbytes : ∀ c ∈ lit "*?[", c < 0x80 ∧ ¬ (97 ≤ c ∧ c ≤ 122) := by decide
    obtain ⟨hlt, hletter⟩ := hbytes c hmem
    have hc := Unicode.mem_of_mem_toLower hlt hletter hc
    exact hexact c (mem_of_mem_trimSpace hc) hmem
  simp only [addressMatches, hwild, Bool.false_eq_true, if_false]
  split
  · rename_i heq
    exact iff_of_true rfl heq
  · rename_i hne
    exact iff_of_false Bool.false_ne_true hne

/-- **What the comparison sees of two mailboxes.** -/
theorem IsMailbox.addressMatches_iff (ha : IsMailbox a l d) (he : IsMailbox e l' d')
    (hexact : ∀ c ∈ e, c ∉ lit "*?[") :
    addressMatches L a e = true ↔
      ReadsAlike L.unicode l l' ∧ asciiLower d = asciiLower d' := by
  rw [addressMatches_exact hexact]
  constructor
  · intro h
    obtain ⟨w, x, rfl, hw, hx, hta⟩ := ha.trimSpace_eq
    obtain ⟨v, y, rfl, hv, hy, hte⟩ := he.trimSpace_eq
    rw [hta, hte, toLower_mailbox ha.domain, toLower_mailbox he.domain] at h
    -- lower case brings in no `@`, so that both strings are cut at the same place
    have hat : ∀ {z : Bytes}, 64 ∉ z → 64 ∉ L.unicode.toLower z := fun hz hmem =>
      hz (Unicode.mem_of_mem_toLower (by decide) (by decide) hmem)
    obtain ⟨hlocal, hdomain⟩ := append_cons_inj h
      (hat fun hmem => he.at_notMem (List.mem_append_right _ hmem))
      (hat fun hmem => ha.at_notMem (List.mem_append_right _ hmem))
    exact ⟨⟨w, v, x, y, rfl, rfl, hw, hv, hx, hy, toLower_eq_iff.mp hlocal.symm⟩, hdomain.symm⟩
  · rintro ⟨⟨w, v, x, y, rfl, rfl, hw, hv, hx, hy, hsame⟩, hdomain⟩
    rw [ha.trimSpace_of_white hw hx, he.trimSpace_of_white hv hy, toLower_mailbox ha.domain,
      toLower_mailbox he.domain, hdomain, toLower_eq_iff.mpr hsame]

/-- A local part in ASCII has no white space in front. -/
theorem eq_nil_of_isWhite {w x : Bytes} (hw : IsWhite w)
    (hbytes : ∀ c ∈ w ++ x, localPartByte c = true ∧ c < 0x80) : w = [] := by
  obtain ⟨ws, hws, rfl⟩ := hw
  cases ws with
  | nil => rfl
  | cons v ws =>
    have hspaces : ∀ v ∈ spaces, ∃ c ∈ v, ¬ (localPartByte c = true ∧ c < 0x80) := by
      decide +kernel
    obtain ⟨c, hc, hno⟩ := hspaces v (hws v List.mem_cons_self)
    exact absurd (hbytes c (by simp [hc])) hno

theorem ReadsAlike.asciiLower_eq (h : ReadsAlike L.unicode l l')
    (hl : ∀ c ∈ l, localPartByte c = true ∧ c < 0x80)
    (hl' : ∀ c ∈ l', localPartByte c = true ∧ c < 0x80) : asciiLower l = asciiLower l' := by
  obtain ⟨w, v, x, y, rfl, rfl, hw, hv, -, -, hsame⟩ := h
  obtain rfl := eq_nil_of_isWhite hw hl
  obtain rfl := eq_nil_of_isWhite hv hl'
  simp only [List.nil_append] at hl hl' ⊢
  rw [← Unicode.toLower_of_ascii (U := L.unicode) fun c hc => (hl c hc).2,
    ← Unicode.toLower_of_ascii (U := L.unicode) fun c hc => (hl' c hc).2]
  exact toLower_eq_iff.mpr hsame

end Exact

/-- **What an exact entry admits.**  A mailbox matches an entry without
wildcards exactly if the domains are equal up to the case of ASCII letters and
the local parts read the same: rune for rune up to Unicode case, apart from
white space in front.  If both are ASCII, they are equal up to case. -/
theorem exact_entry_admits (L : Libraries) (a e : Bytes) (hexact : ∀ c ∈ e, c ∉ lit "*?[")
    (he : addressEntryError L e = []) (ha : validateMailbox L.unicode a = none) :
    ∃ l d l' d', IsMailbox a l d ∧ IsMailbox e l' d' ∧
      (addressMatches L a e = true ↔
        ReadsAlike L.unicode l l' ∧ asciiLower d = asciiLower d') ∧
      (addressMatches L a e = true → (∀ c ∈ a ++ e, c < 0x80) → asciiLower a = asciiLower e) := by
  obtain ⟨l, d, hm⟩ := validateMailbox_spec ha
  obtain ⟨l', d', hm'⟩ := validateMailbox_spec (validateMailbox_of_exact hexact he)
  have hiff := hm.addressMatches_iff (L := L) hm' hexact
  refine ⟨l, d, l', d', hm, hm', hiff, fun hmatch hascii => ?_⟩
  obtain ⟨halike, hdomain⟩ := hiff.mp hmatch
  have hlocal := halike.asciiLower_eq
    (fun c hc => ⟨hm.localPart_bytes c hc, hascii c (by simp [hm.eq, hc])⟩)
    (fun c hc => ⟨hm'.localPart_bytes c hc, hascii c (by simp [hm'.eq, hc])⟩)
  rw [hm.eq, hm'.eq, asciiLower, asciiLower, List.map_append, List.map_append, List.map_cons,
    List.map_cons]
  exact congrArg₂ (· ++ 64 :: ·) hlocal hdomain

theorem exact_entry_admits_case :
    addressMatches .plain (lit "Alerts@Example.com") (lit "alerts@example.com") = true ∧
      asciiLower (lit "Alerts@Example.com") = asciiLower (lit "alerts@example.com") := by
  have hmatch : addressMatches .plain (lit "Alerts@Example.com") (lit "alerts@example.com") =
      true := by decide +kernel
  obtain ⟨l, d, l', d', -, -, -, hcase⟩ := exact_entry_admits .plain (lit "Alerts@Example.com")
    (lit "alerts@example.com") (by decide) (by decide +kernel) (by decide +kernel)
  exact ⟨hmatch, hcase hmatch (by decide)⟩

/-- An accepted entry without wildcards and a different mailbox that it admits. -/
structure Merged (L : Libraries) (a e : Bytes) : Prop where
  wildcardFree : ∀ c ∈ e, c ∉ lit "*?["
  accepted : addressEntryError L e = []
  mailbox : validateMailbox L.unicode a = none
  admitted : addressMatches L a e = true
  differs : asciiLower a ≠ asciiLower e

/-- Different mailboxes become one by an ideographic space in front, by the
Kelvin sign, whose lower case is `k`, and by a byte that is not UTF-8. -/
theorem exact_entry_merges :
    Merged .plain ([0xE3, 0x80, 0x80] ++ lit "alerts@example.com") (lit "alerts@example.com") ∧
      Merged .plain ([0xE2, 0x84, 0xAA] ++ lit "im@example.com") (lit "kim@example.com") ∧
      Merged .plain (0xFF :: lit "@example.com") ([0xEF, 0xBF, 0xBD] ++ lit "@example.com") := by
  refine ⟨⟨by decide, ?_, ?_, ?_, by decide⟩, ⟨by decide, ?_, ?_, ?_, by decide⟩,
    ⟨by decide, ?_, ?_, ?_, by decide⟩⟩
  all_goals decide +kernel

end Sigillum
