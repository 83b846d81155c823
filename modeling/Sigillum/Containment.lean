import Sigillum.Admission

/-! # Recipient containment

What a valid policy confines mail to.  Four pieces meet here: mailboxes have one
`@`, entries of an allowlist end in `@` and a bare domain, a glob matches the
plain tail of its pattern by itself, and blocked domains are looked at first.

The comparison goes through the lower-cased strings.  An entry may be written
with letters outside ASCII whose lower case is ASCII (the Kelvin sign), so the
lemmas speak of the lower case of a domain and not of the domain.
-/
namespace Sigillum
open Runes Bytes

section Entries
variable {L : Libraries}

/-- An entry of an allowlist: something, an `@`, and what lower-cases to a bare domain. -/
structure IsEntry (L : Libraries) (e localPart domain : Bytes) : Prop where
  eq : e = localPart ++ 64 :: domain
  at_notMem : 64 ∉ localPart
  ne_nil : domain ≠ []
  host : ∀ c ∈ L.unicode.toLower domain, isHostByte c = true

theorem isHostByte_lt {c : UInt8} (h : isHostByte c = true) : c < 0x80 := by
  unfold isHostByte at h
  grind

theorem isHostByte_plain {c : UInt8} (h : isHostByte c = true) :
    Glob.Plain c ∧ c ≠ 64 ∧ c ≠ 47 := by
  unfold isHostByte at h
  unfold Glob.Plain
  grind

theorem isHostByte_lowerByte {c : UInt8} (h : c = 46 ∨ isLabelByte c = true) :
    isHostByte (lowerByte c) = true := by
  simp only [isLabelByte, Bool.or_eq_true, Bool.and_eq_true, decide_eq_true_eq, beq_iff_eq] at h
  simp only [isHostByte, lowerByte, Bool.or_eq_true, Bool.and_eq_true, beq_iff_eq]
  split <;> grind

theorem IsMailbox.isEntry {addr localPart domain : Bytes} (h : IsMailbox addr localPart domain) :
    IsEntry L addr localPart domain where
  eq := h.eq
  at_notMem := h.at_notMem
  ne_nil := by
    have := h.domain.length
    rintro rfl
    simp at this
  host := by
    rw [Unicode.toLower_of_ascii h.domain.ascii]
    intro c hc
    obtain ⟨d, hd, rfl⟩ := List.mem_map.mp hc
    exact isHostByte_lowerByte (h.domain.bytes hd)

/-- **An entry without a fault is anchored on a bare domain.** -/
theorem isEntry_of_addressEntryError {e : Bytes} (h : addressEntryError L e = []) :
    ∃ localPart domain, IsEntry L e localPart domain := by
  have hlit : ∀ {t : Bytes} {s : String}, t ++ lit s = [] → s.toList = [] := by
    intro t s ht
    simpa [lit] using (List.append_eq_nil_iff.mp ht).2
  unfold addressEntryError at h
  split at h
  · split at h
    · exact absurd (hlit h) (by decide)
    · rename_i hplain
      obtain ⟨localPart, domain, hm⟩ :=
        validateMailbox_spec (validateMailbox_of_validatePlainAddress hplain)
      exact ⟨localPart, domain, hm.isEntry⟩
  · split at h
    · exact absurd h (by decide)
    · rename_i localPart domain hcut
      obtain ⟨heq, hat⟩ := cut_eq_some.mp hcut
      split at h
      · exact absurd h (by decide)
      · split at h
        · exact absurd h (by decide)
        · split at h
          · exact absurd h (by decide)
          · rename_i hdns
            have hok : L.isDNS1123Subdomain (L.unicode.toLower domain) = [] := by
              simpa using hdns
            refine ⟨localPart, domain, heq, hat, ?_, L.hostBytes_of_isDNS1123Subdomain _ hok⟩
            rintro rfl
            exact L.isDNS1123Subdomain_ne_nil _ hok rfl

/-- What the last byte of a bare domain can be: of a host name, or of the
encoding of one of the two letters whose lower case is ASCII. -/
def isLastByte (b : UInt8) : Bool := isHostByte (lowerByte b) || b == 0xB0 || b == 0xAA

theorem getLast_isLastByte {d : Bytes} {b : UInt8} (hb : d.getLast? = some b)
    (h : ∀ c ∈ L.unicode.toLower d, isHostByte c = true) : isLastByte b = true := by
  have hascii := Unicode.lower_lt fun c hc => isHostByte_lt (h c hc)
  have hvalid : ∀ r ∈ runes d, r ≠ runeError := by
    rintro r hr rfl
    rcases L.unicode.ascii_of_lower _ (hascii _ hr) with h | h | h <;> exact absurd h (by decide)
  rcases List.eq_nil_or_concat (runes d) with hnil | ⟨init, r, hconcat⟩
  · rw [← flatMap_encodeRune_runes hvalid, hnil] at hb
    cases hb
  · rw [List.concat_eq_append] at hconcat
    have hr : r ∈ runes d := by rw [hconcat]; simp
    -- The last byte of `d` is the last byte of the encoding of `r`.
    have hlast : (encodeRune r).getLast? = some b := by
      rw [← flatMap_encodeRune_runes hvalid, hconcat, List.flatMap_append,
        List.getLast?_append_of_ne_nil] at hb
      · simpa using hb
      · simpa using encodeRune_ne_nil r
    rcases L.unicode.ascii_of_lower r (hascii r hr) with hlt | rfl | rfl
    · obtain ⟨x, hx, rfl⟩ := Unicode.exists_byte hlt
      rw [encodeRune_ascii hx] at hlast
      obtain rfl := Option.some.inj hlast
      simp [isLastByte, h _ (Unicode.lowerByte_mem_toLower hx hr)]
    · obtain rfl : 0xB0 = b := by simpa [encodeRune] using hlast
      decide
    · obtain rfl : 0xAA = b := by simpa [encodeRune] using hlast
      decide

theorem IsEntry.not_space_suffix {e localPart domain : Bytes} (h : IsEntry L e localPart domain) :
    ∀ w ∈ spaces, ¬ w <:+ localPart ++ 64 :: domain := by
  intro w hw hsuf
  have hspaces : ∀ w ∈ spaces, ∃ x ∈ w.getLast?, isLastByte x = false := by decide
  obtain ⟨x, hx, hno⟩ := hspaces w hw
  have hend : (localPart ++ 64 :: domain).getLast? = some x :=
    List.singleton_suffix_iff_getLast?_eq_some.mp
      ((List.singleton_suffix_iff_getLast?_eq_some.mpr hx).trans hsuf)
  rw [List.getLast?_append_of_ne_nil _ (List.cons_ne_nil _ _),
    List.getLast?_cons_of_ne_nil h.ne_nil]
    at hend
  rw [getLast_isLastByte hend h.host] at hno
  cases hno

/-- The form in which entries and addresses are compared: only the local part is
trimmed, and the `@` and the domain stay apart. -/
theorem IsEntry.toLower_trimSpace {e localPart domain : Bytes} (h : IsEntry L e localPart domain) :
    ∃ l, L.unicode.toLower (trimSpace e) = l ++ 64 :: L.unicode.toLower domain ∧ 64 ∉ l := by
  obtain ⟨l, hl, hsuf⟩ := trimSpace_append (c := 64) (by decide) h.not_space_suffix
  refine ⟨L.unicode.toLower l, ?_, fun hmem => ?_⟩
  · rw [h.eq, hl, Unicode.toLower_append_cons (by decide)]
    rfl
  · exact h.at_notMem (hsuf.subset (Unicode.mem_of_mem_toLower (by decide) (by decide) hmem))

theorem globSlash_append (a b : Bytes) : globSlash (a ++ b) = globSlash a ++ globSlash b :=
  List.map_append

theorem globSlash_of_host {d : Bytes} (h : ∀ c ∈ d, isHostByte c = true) :
    globSlash (64 :: d) = 64 :: d := by
  have hid : ∀ c ∈ 64 :: d, (if c = 47 then 0 else c) = c := by
    intro c hc
    rcases List.mem_cons.mp hc with rfl | hmem
    · rfl
    · exact if_neg (isHostByte_plain (h c hmem)).2.2
  rw [globSlash, List.map_congr_left hid, List.map_id']

/-- `globSlash` changes no byte that it could not have made. -/
theorem suffix_of_globSlash {s t : Bytes} (hs : ∀ c ∈ s, c ≠ 0) (h : s <:+ globSlash t) :
    s <:+ t := by
  obtain ⟨y, hy⟩ := h
  obtain ⟨u, v, rfl, -, hv⟩ := List.map_eq_append_iff.mp hy.symm
  suffices hsame : v = s from hsame ▸ List.suffix_append u v
  subst hv
  have hid : ∀ c ∈ v, (if c = 47 then 0 else c) = c := by
    intro c hc
    split
    · rename_i hslash
      exact absurd (if_pos hslash) (hs _ (List.mem_map_of_mem hc))
    · rfl
  rw [List.map_congr_left hid, List.map_id']

/-- **What matches a valid entry ends in its domain.** -/
theorem IsEntry.suffix_of_addressMatches {addr e localPart domain : Bytes}
    (he : IsEntry L e localPart domain) (h : addressMatches L addr e = true) :
    64 :: L.unicode.toLower domain <:+ L.unicode.toLower (trimSpace addr) := by
  obtain ⟨p, hp, -⟩ := he.toLower_trimSpace
  simp only [addressMatches, hp] at h
  split at h
  · rename_i hsame
    exact ⟨p, hsame⟩
  · split at h
    · have hplain : ∀ c ∈ 64 :: L.unicode.toLower domain, Glob.Plain c ∧ c ≠ 0 := by
        refine List.forall_mem_cons.mpr ⟨by unfold Glob.Plain; decide, fun c hc => ?_⟩
        refine ⟨(isHostByte_plain (he.host c hc)).1, ?_⟩
        rintro rfl
        exact absurd (he.host 0 hc) (by decide)
      rw [globSlash_append, globSlash_of_host he.host] at h
      refine suffix_of_globSlash (fun c hc => (hplain c hc).2) ?_
      exact Glob.suffix_of_pathMatch (fun c hc => (hplain c hc).1) (List.cons_ne_nil _ _)
        (beq_iff_eq.mp h)
    · cases h

/-- **An address that matches an entry has the entry's domain**, lower-cased,
whatever pattern the entry's local part is. -/
theorem toLower_eq_of_addressMatches {addr e localPart domain localPart' domain' : Bytes}
    (haddr : IsEntry L addr localPart domain) (he : IsEntry L e localPart' domain')
    (h : addressMatches L addr e = true) :
    L.unicode.toLower domain = L.unicode.toLower domain' := by
  obtain ⟨a, ha, -⟩ := haddr.toLower_trimSpace
  obtain ⟨y, hy⟩ := he.suffix_of_addressMatches h
  have hdomain : 64 ∉ L.unicode.toLower domain :=
    fun hmem => (isHostByte_plain (haddr.host _ hmem)).2.1 rfl
  have hdomain' : 64 ∉ L.unicode.toLower domain' :=
    fun hmem => (isHostByte_plain (he.host _ hmem)).2.1 rfl
  rw [ha] at hy
  exact (append_cons_inj_right hy hdomain' hdomain).2.symm

end Entries

/-! ## Domains -/

section Domains
variable {L : Libraries}

theorem domainOf_eq {addr localPart domain : Bytes} (h : IsMailbox addr localPart domain) :
    domainOf L addr = asciiLower domain := by
  have hcut : cutLast 64 addr = some (localPart, domain) := by
    cases hc : cutLast 64 addr with
    | none =>
      rw [cutLast_eq_none] at hc
      exact absurd (by rw [h.eq]; simp) hc
    | some p =>
      obtain ⟨heq, hmem⟩ := cutLast_eq_some (a := p.1) (b := p.2) hc
      obtain ⟨h1, h2⟩ := append_cons_inj_right (heq.symm.trans h.eq) hmem h.domain.at_notMem
      rw [← h1, ← h2]
  rw [domainOf, hcut]
  exact Unicode.toLower_of_ascii h.domain.ascii

theorem asciiLower_asciiLower (d : Bytes) : asciiLower (asciiLower d) = asciiLower d := by
  simp [asciiLower]

/-- A bare domain that folds to the domain of a mailbox is its lower case. -/
theorem toLower_eq_of_equalFold_domain {d domain : Bytes}
    (hd : L.isDNS1123Subdomain (L.unicode.toLower d) = []) (hdomain : IsHostName domain)
    (h : L.unicode.equalFold d (asciiLower domain) = true) :
    L.unicode.toLower domain = L.unicode.toLower d := by
  have hlow : ∀ c ∈ L.unicode.toLower d, c < 0x80 :=
    fun c hc => isHostByte_lt (L.hostBytes_of_isDNS1123Subdomain _ hd c hc)
  rw [Unicode.toLower_eq_of_equalFold hlow (Unicode.asciiLower_ascii hdomain.ascii) h,
    asciiLower_asciiLower, Unicode.toLower_of_ascii hdomain.ascii]

/-- The domain of an allowed recipient is not blocked. -/
theorem ne_of_recipientAllowed {addr localPart domain : Bytes} {rr : RecipientRestrictions}
    (hm : IsMailbox addr localPart domain) (h : recipientAllowed L addr (some rr) = true) :
    ∀ d ∈ rr.blockedDomains, asciiLower d ≠ asciiLower domain := by
  intro d hd he
  have hfold : L.unicode.equalFold d (asciiLower domain) = true := by
    apply Unicode.equalFold_of_asciiLower (Unicode.asciiLower_ascii hm.domain.ascii)
    rw [asciiLower_asciiLower, he]
  have hany : rr.blockedDomains.any (fun d => L.unicode.equalFold d (domainOf L addr)) = true := by
    rw [domainOf_eq hm]
    exact List.any_eq_true.mpr ⟨d, hd, hfold⟩
  simp [recipientAllowed, hany] at h

/-- A recipient a non-empty allowlist allows has the domain of one of its entries. -/
theorem domain_of_recipientAllowed {mp : MailPolicy} (hvalid : validateMailPolicy L mp = none)
    {addr localPart domain : Bytes} {rr : RecipientRestrictions}
    (hrr : mp.spec.recipientRestrictions = some rr) (hm : IsMailbox addr localPart domain)
    (h : recipientAllowed L addr (some rr) = true)
    (hsome : rr.allowedDomains ≠ [] ∨ rr.allowedRecipients ≠ []) :
    (∃ d ∈ rr.allowedDomains, L.unicode.toLower domain = L.unicode.toLower d) ∨
      ∃ e ∈ rr.allowedRecipients, ∃ l d, cut 64 e = some (l, d) ∧
        L.unicode.toLower domain = L.unicode.toLower d := by
  obtain ⟨hdomains, hentries⟩ := validateMailPolicy_restrictions hvalid hrr
  have hlen : ¬ (rr.allowedDomains.length = 0 ∧ rr.allowedRecipients.length = 0) := by
    rintro ⟨h1, h2⟩
    rcases hsome with hne | hne
    · exact hne (List.length_eq_zero_iff.mp h1)
    · exact hne (List.length_eq_zero_iff.mp h2)
  simp only [recipientAllowed, domainOf_eq hm, if_neg hlen] at h
  split at h
  · cases h
  · rw [Bool.or_eq_true, List.any_eq_true, List.any_eq_true] at h
    rcases h with ⟨d, hd, hfold⟩ | ⟨e, he, hmatch⟩
    · exact Or.inl ⟨d, hd, toLower_eq_of_equalFold_domain (hdomains d hd) hm.domain hfold⟩
    · obtain ⟨l, d, hentry⟩ := isEntry_of_addressEntryError (hentries e he)
      exact Or.inr ⟨e, he, l, d, cut_eq_some.mpr ⟨hentry.eq, hentry.at_notMem⟩,
        toLower_eq_of_addressMatches hm.isEntry hentry hmatch⟩

end Domains

/-- **Recipient containment.**  Every recipient and every Reply-To address of a
message that a valid policy allows is a mailbox with one `@` and a host name as
its domain; that domain is not blocked and, where the policy has an allowlist,
it is the domain of an entry of one of the two, lower-cased. -/
theorem recipient_containment (L : Libraries) (mp : MailPolicy) (msg : MessageView)
    (hvalid : validateMailPolicy L mp = none)
    (hallowed : evaluate L (some mp) msg = .allowed mp) :
    ∀ addr ∈ msg.recipients ++ msg.replyTo,
      validateMailbox L.unicode addr = none ∧ addr.count 64 = 1 ∧
      ∃ localPart domain, addr = localPart ++ 64 :: domain ∧ IsHostName domain ∧
        ∀ rr, mp.spec.recipientRestrictions = some rr →
          (∀ d ∈ rr.blockedDomains, asciiLower d ≠ asciiLower domain) ∧
          (rr.allowedDomains ≠ [] ∨ rr.allowedRecipients ≠ [] →
            (∃ d ∈ rr.allowedDomains, L.unicode.toLower domain = L.unicode.toLower d) ∨
              ∃ e ∈ rr.allowedRecipients, ∃ l d, cut 64 e = some (l, d) ∧
                L.unicode.toLower domain = L.unicode.toLower d) := by
  intro addr haddr
  obtain ⟨hmailbox, hrecipient⟩ := (evaluate_eq_allowed hallowed).2 addr haddr
  obtain ⟨localPart, domain, hm⟩ := validateMailbox_spec hmailbox
  refine ⟨hmailbox, hm.count_at, localPart, domain, hm.eq, hm.domain, fun rr hrr => ?_⟩
  rw [hrr] at hrecipient
  exact ⟨ne_of_recipientAllowed hm hrecipient,
    domain_of_recipientAllowed hvalid hrr hm hrecipient⟩

/-- A policy for the mailboxes of one domain, except those of a blocked one. -/
def oncallPolicy : MailPolicy where
  name := lit "oncall"
  ns := lit "team"
  uid := []
  generation := 0
  spec :=
    { priority := 0
      subjects := [⟨some (lit "app"), none, none⟩]
      backendRef := ⟨lit "relay", .unset⟩
      senderRestrictions := none
      recipientRestrictions := some
        { allowedDomains := []
          allowedRecipients := [lit "*@oncall.example.com"]
          blockedDomains := [lit "example.com"] }
      rateLimits := none
      messageLimits := none
      legacyAuth := none }

def oncallMessage : MessageView where
  fromAddr := lit "app@example.com"
  envelopeFrom := []
  sender := []
  recipients := [lit "Alice+x/y@OnCall.example.com"]
  replyTo := []
  sizeBytes := 0

theorem recipient_containment_oncall :
    validateMailPolicy .plain oncallPolicy = none ∧
      evaluate .plain (some oncallPolicy) oncallMessage = .allowed oncallPolicy ∧
      (lit "Alice+x/y@OnCall.example.com").count 64 = 1 :=
  ⟨by decide +kernel, by decide +kernel,
    (recipient_containment .plain oncallPolicy oncallMessage (by decide +kernel)
      (by decide +kernel) _ List.mem_cons_self).2.1⟩

end Sigillum
