import Sigillum.Libraries

/-! # Mailboxes

`internal/policy/address.go`: which addr-specs the policies compare at all.  An
accepted mailbox holds exactly one `@` (`validateMailbox_spec`), so that the
domain a policy compares is the domain mail is routed by.
-/
namespace Sigillum
open Runes Bytes

/-- A byte of a host label. -/
def isLabelByte (c : UInt8) : Bool :=
  (97 ≤ c && c ≤ 122) || (65 ≤ c && c ≤ 90) || (48 ≤ c && c ≤ 57) || c == 45

section Validation
variable (U : Unicode)

/-- The loop body of `ValidateDomain`: one label of the domain `d`. -/
def validateLabel (d label : Bytes) : Option Err :=
  if label.length = 0 ∨ 63 < label.length then
    some (.new (lit "domain " ++ quote U d ++ lit ": labels must be 1 to 63 characters"))
  else if label.head? = some 45 ∨ label.getLast? = some 45 then
    some (.new (lit "domain " ++ quote U d ++ lit ": labels must not start or end with '-'"))
  else if label.all isLabelByte then none
  else
    some (.new (lit "domain " ++ quote U d ++ lit (" must be an ASCII host name; write an " ++
      "internationalized domain in its xn-- form")))

/-- `ValidateDomain`: an ASCII host name. -/
def validateDomain (d : Bytes) : Option Err :=
  if d.length = 0 ∨ 253 < d.length then some (.new (lit "domain must be 1 to 253 characters"))
  else (d.splitOn 46).findSome? (validateLabel U d)

/-- `localPartByte`: RFC 5322 atext and `.`, without `%` and `!`; any byte outside ASCII. -/
def localPartByte (c : UInt8) : Bool :=
  if 0x80 ≤ c then true
  else if (97 ≤ c && c ≤ 122) || (65 ≤ c && c ≤ 90) || (48 ≤ c && c ≤ 57) then true
  else (lit "#$&'*+-/=?^_`\x7b|\x7d~.").contains c

/-- `ValidateMailbox`. -/
def validateMailbox (addr : Bytes) : Option Err :=
  match cutLast 64 addr with
  | none => some (.new (quote U addr ++ lit " is not a plain mailbox address"))
  | some (localPart, domain) =>
    if localPart = [] ∨ domain = [] then
      some (.new (quote U addr ++ lit " is not a plain mailbox address"))
    else match validateDomain U domain with
    | some err => some ⟨quote U addr ++ lit ": " ++ err.text, err.is, err.retryAfter⟩
    | none =>
      if [46].isPrefixOf localPart ∨ [46].isSuffixOf localPart ∨ lit ".." <:+: localPart then
        some (.new (quote U addr ++ lit ": local part must be a dot-atom"))
      else match localPart.find? (fun c => !localPartByte c) with
      | some c =>
        some (.new (quote U addr ++ lit ": character " ++ quoteByte U c ++
          lit " is not allowed in the local part"))
      | none => none

end Validation

/-- `ValidatePlainAddress`: a single address without display name or comments,
equal to its parsed form. -/
def validatePlainAddress (L : Libraries) (s : Bytes) : Option Err :=
  match L.parseAddress s with
  | .error err => some err
  | .ok a =>
    if a.name ≠ [] ∨ a.address ≠ s then
      some (.new (quote L.unicode s ++ lit " is not a plain address"))
    else validateMailbox L.unicode a.address

/-! ## What is accepted -/

/-- A label of an ASCII host name. -/
structure IsLabel (label : Bytes) : Prop where
  length : 1 ≤ label.length ∧ label.length ≤ 63
  head : label.head? ≠ some 45
  last : label.getLast? ≠ some 45
  bytes : ∀ c ∈ label, isLabelByte c = true

/-- An ASCII host name. -/
structure IsHostName (d : Bytes) : Prop where
  length : 1 ≤ d.length ∧ d.length ≤ 253
  labels : ∀ label ∈ d.splitOn 46, IsLabel label

/-- A mailbox with one `@`, a local part without routing characters and a host
name as its domain. -/
structure IsMailbox (addr localPart domain : Bytes) : Prop where
  eq : addr = localPart ++ 64 :: domain
  localPart_ne_nil : localPart ≠ []
  localPart_bytes : ∀ c ∈ localPart, localPartByte c = true
  dotAtom : ¬ [46] <+: localPart ∧ ¬ [46] <:+ localPart ∧ ¬ lit ".." <:+: localPart
  domain : IsHostName domain

theorem validateLabel_eq_none {U : Unicode} {d label : Bytes} :
    validateLabel U d label = none ↔ IsLabel label := by
  unfold validateLabel
  split
  · rename_i hlen
    exact ⟨nofun, fun h => by have := h.length; omega⟩
  · split
    · rename_i hdash
      exact ⟨nofun, fun h => absurd hdash (not_or.mpr ⟨h.head, h.last⟩)⟩
    · rename_i hlen hdash
      obtain ⟨hhead, hlast⟩ := not_or.mp hdash
      split
      · rename_i hall
        exact ⟨fun _ => ⟨by omega, hhead, hlast, List.all_eq_true.mp hall⟩, fun _ => rfl⟩
      · rename_i hall
        exact ⟨nofun, fun h => absurd (List.all_eq_true.mpr h.bytes) hall⟩

theorem validateDomain_eq_none {U : Unicode} {d : Bytes} :
    validateDomain U d = none ↔ IsHostName d := by
  unfold validateDomain
  split
  · rename_i hlen
    exact ⟨nofun, fun h => by have := h.length; omega⟩
  · rename_i hlen
    rw [List.findSome?_eq_none_iff]
    constructor
    · exact fun h => ⟨by omega, fun label hl => validateLabel_eq_none.mp (h label hl)⟩
    · exact fun h label hl => validateLabel_eq_none.mpr (h.labels label hl)

theorem IsHostName.bytes {d : Bytes} (h : IsHostName d) {c : UInt8} (hc : c ∈ d) :
    c = 46 ∨ isLabelByte c = true :=
  (mem_splitOn _ hc).imp_right fun ⟨label, hl, hmem⟩ => (h.labels label hl).bytes c hmem

/-- **An accepted mailbox is a local part, one `@` and a host name.** -/
theorem validateMailbox_spec {U : Unicode} {addr : Bytes} (h : validateMailbox U addr = none) :
    ∃ localPart domain, IsMailbox addr localPart domain := by
  unfold validateMailbox at h
  split at h
  · cases h
  · rename_i localPart domain hcut
    split at h
    · cases h
    · rename_i hne
      split at h
      · cases h
      · rename_i hdomain
        split at h
        · cases h
        · rename_i hdots
          split at h
          · cases h
          · rename_i hfind
            refine ⟨localPart, domain, (cutLast_eq_some hcut).1, fun he => hne (Or.inl he), ?_, ?_,
              validateDomain_eq_none.mp hdomain⟩
            · intro c hc
              simpa using List.find?_eq_none.mp hfind c hc
            · simpa [not_or] using hdots

theorem validateMailbox_of_validatePlainAddress {L : Libraries} {s : Bytes}
    (h : validatePlainAddress L s = none) : validateMailbox L.unicode s = none := by
  unfold validatePlainAddress at h
  split at h
  · cases h
  · split at h
    · cases h
    · rename_i a _ hsame
      obtain rfl : a.address = s := not_not.mp (not_or.mp hsame).2
      exact h

section IsMailbox
variable {addr localPart domain : Bytes}

theorem isLabelByte_lt {c : UInt8} (h : isLabelByte c = true) : c < 0x80 := by
  unfold isLabelByte at h
  grind

theorem IsHostName.ascii {d : Bytes} (h : IsHostName d) : ∀ c ∈ d, c < 0x80 := by
  intro c hc
  rcases h.bytes hc with rfl | hlabel
  · decide
  · exact isLabelByte_lt hlabel

theorem IsHostName.at_notMem {d : Bytes} (h : IsHostName d) : 64 ∉ d := by
  intro hmem
  rcases h.bytes hmem with hc | hc
  · cases hc
  · cases hc

theorem IsMailbox.at_notMem (h : IsMailbox addr localPart domain) : 64 ∉ localPart := by
  intro hmem
  have := h.localPart_bytes 64 hmem
  cases this

/-- It holds exactly one `@`. -/
theorem IsMailbox.count_at (h : IsMailbox addr localPart domain) : addr.count 64 = 1 := by
  rw [h.eq, List.count_append, List.count_cons_self, List.count_eq_zero.mpr h.at_notMem,
    List.count_eq_zero.mpr h.domain.at_notMem]

end IsMailbox
end Sigillum
