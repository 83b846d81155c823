import Sigillum.PolicyEngine

/-! # Admission

`internal/webhook`: the rules a `MailPolicy` must meet, with the field path and the
text of each error.  The webhook applies them on admission; the controller and the
gateway apply them again (`validateMailPolicy`), without the warnings that need a
lookup.
-/
namespace Sigillum
open Runes Bytes Sigillum.Field

/-- The error of an object that has field errors. -/
def newInvalid (kind name : Bytes) (errors : List Field.Error) : Option InvalidObject :=
  if errors.length = 0 then none else some ⟨kind, name, errors⟩

section Admission
variable (L : Libraries)

/-! ## Entries -/

def errWildcardDomain : Bytes := lit "the domain of a pattern must not contain wildcards"

/-- `addressEntryError`: a plain address, or a glob with a bare domain; `[]` for a valid entry. -/
def addressEntryError (e : Bytes) : Bytes :=
  if !e.any (fun c => (lit "*?[").contains c) then
    match validatePlainAddress L e with
    | some err => err.text ++ lit " (must be a plain address such as alerts@example.com)"
    | none => []
  else match cut 64 e with
  | none =>
    lit "a pattern must have the form <local-part pattern>@<domain>, e.g. *@oncall.example.com"
  | some (localPart, domain) =>
    if domain.contains 64 then
      lit "a pattern must have the form <local-part pattern>@<domain>, e.g. *@oncall.example.com"
    else if domain.any (fun c => (lit "*?[").contains c) then errWildcardDomain
    else if 0 < (L.isDNS1123Subdomain (L.unicode.toLower domain)).length then
      lit "the domain of a pattern must be a bare domain"
    else if localPart = [] then lit "the local part of a pattern must not be empty"
    else if localPart.any (fun c => (lit "%!\"<>() ,;:").contains c) then
      lit "the local part of a pattern must not contain routing or quoting characters"
    else match Glob.pathMatch e [] with
    | none => lit "invalid glob pattern: syntax error in pattern"
    | some _ => []

/-- `recipientEntryError`. -/
def recipientEntryError (e : Bytes) : Bytes :=
  let msg := addressEntryError L e
  if msg = errWildcardDomain then msg ++ lit "; list whole domains in allowedDomains" else msg

/-- One `field.Invalid` for each entry that `entryError` finds fault with. -/
def validateEntries (path : Bytes) (entryError : Bytes → Bytes) (entries : List Bytes) :
    List Field.Error :=
  entries.zipIdx.flatMap fun (e, i) =>
    if entryError e ≠ [] then [invalid (index path i) e (entryError e)] else []

/-- `validateRecipients`. -/
def validateRecipients (path : Bytes) (entries : List Bytes) : List Field.Error :=
  validateEntries path (recipientEntryError L) entries

/-- `validateDomains`: bare DNS names. -/
def validateDomains (path : Bytes) (domains : List Bytes) : List Field.Error :=
  domains.zipIdx.flatMap fun (d, i) =>
    if d.any (fun c => (lit "@*?[").contains c) then
      [invalid (index path i) d (lit "must be a bare domain (no '@' or wildcards)")]
    else (L.isDNS1123Subdomain (L.unicode.toLower d)).map fun msg => invalid (index path i) d msg

/-! ## Policies -/

/-- `validateSelector`. -/
def validateSelector (path : Bytes) (sel : LabelSelector) : List Field.Error :=
  if sel.matchLabels.length = 0 ∧ sel.matchExpressions.length = 0 then
    [required path (lit "must specify matchLabels or matchExpressions")]
  else match L.labelSelectorAsSelector sel with
  | .error err => [⟨.invalidSelector sel, path, err.text⟩]
  | .ok _ => []

/-- How many of its three matchers a subject sets. -/
def PolicySubject.set (s : PolicySubject) : Nat :=
  s.serviceAccount.toList.length + s.serviceAccountSelector.toList.length +
    s.podSelector.toList.length

/-- The errors of one subject: exactly one matcher, and that one valid. -/
def validateSubject (path : Bytes) (s : PolicySubject) : List Field.Error :=
  (match s.serviceAccount with
    | some name =>
      if name = [] then
        [required (child (child path "serviceAccount") "name") (lit "name is required")]
      else []
    | none => []) ++
  (match s.serviceAccountSelector with
    | some sel => validateSelector L (child path "serviceAccountSelector") sel
    | none => []) ++
  (match s.podSelector with
    | some sel => validateSelector L (child path "podSelector") sel
    | none => []) ++
  (if s.set = 0 then [required path (lit "subject must specify exactly one matcher")] else []) ++
  (if 1 < s.set then [forbidden path (lit "subject must specify exactly one matcher")] else [])

def BackendKind.validate (path : Bytes) : BackendKind → List Field.Error
  | .other kind => [notSupported path kind [lit "ClusterMailBackend", lit "MailBackend"]]
  | _ => []

/-- The warnings about a policy's `allowedSenders`, which its entries may still break. -/
def senderWarning (path : Bytes) (e : Bytes) (i : Nat) : List Bytes :=
  if addressEntryError L e ≠ [] then
    [index path i ++ lit ": " ++ quote L.unicode e ++
      lit " is not a plain address or <local-part>@<bare domain> glob (" ++ addressEntryError L e ++
      lit "); it will be rejected in a future release"]
  else []

/-- `MailPolicyValidator.validate`: warnings and errors. -/
def MailPolicy.validate (mp : MailPolicy) : List Bytes × Option InvalidObject :=
  let specPath := lit "spec"
  let sPath := child (child specPath "senderRestrictions") "allowedSenders"
  let rPath := child specPath "recipientRestrictions"
  let errors :=
    (if mp.spec.subjects.length = 0 then
      [required (child specPath "subjects") (lit "at least one subject is required")] else []) ++
    (mp.spec.subjects.zipIdx.flatMap fun (s, i) =>
      validateSubject L (index (child specPath "subjects") i) s) ++
    (if mp.spec.backendRef.name = [] then
      [required (child (child specPath "backendRef") "name") (lit "name is required")] else []) ++
    mp.spec.backendRef.kind.validate (child (child specPath "backendRef") "kind") ++
    (match mp.spec.senderRestrictions with
      | some allowed => allowed.zipIdx.flatMap fun (s, i) =>
        if s = [] then [required (index sPath i) (lit "allowed sender must be non-empty")] else []
      | none => []) ++
    (match mp.spec.recipientRestrictions with
      | some rr => validateDomains L (child rPath "allowedDomains") rr.allowedDomains ++
        validateDomains L (child rPath "blockedDomains") rr.blockedDomains ++
        validateRecipients L (child rPath "allowedRecipients") rr.allowedRecipients
      | none => [])
  let warnings := (mp.spec.senderRestrictions.getD []).zipIdx.flatMap fun (s, i) =>
    if s = [] then [] else senderWarning L sPath s i
  (warnings, newInvalid (lit "MailPolicy") mp.name errors)

/-- `ValidateMailPolicy`. -/
def validateMailPolicy (mp : MailPolicy) : Option InvalidObject := (mp.validate L).2

end Admission

/-! ## What is admitted -/

section Admitted
variable {L : Libraries}

theorem newInvalid_eq_none {kind name : Bytes} {errors : List Field.Error} :
    newInvalid kind name errors = none ↔ errors = [] := by
  unfold newInvalid
  split
  · rename_i hlen
    exact ⟨fun _ => List.length_eq_zero_iff.mp hlen, fun _ => rfl⟩
  · rename_i hlen
    exact ⟨nofun, fun he => absurd (by rw [he]; rfl) hlen⟩

/-- A check of every entry finds nothing only if it finds nothing in each. -/
theorem flatMap_zipIdx_eq_nil {α β : Type} {l : List α} {f : α × Nat → List β}
    (h : l.zipIdx.flatMap f = []) {a : α} (ha : a ∈ l) : ∃ i, f (a, i) = [] := by
  rw [← List.zipIdx_map_fst 0 l] at ha
  obtain ⟨⟨a', i⟩, hmem, rfl⟩ := List.mem_map.mp ha
  exact ⟨i, List.flatMap_eq_nil_iff.mp h _ hmem⟩

theorem validateDomains_eq_nil {path : Bytes} {domains : List Bytes}
    (h : validateDomains L path domains = []) {d : Bytes} (hd : d ∈ domains) :
    L.isDNS1123Subdomain (L.unicode.toLower d) = [] := by
  obtain ⟨i, hi⟩ := flatMap_zipIdx_eq_nil h hd
  simp only at hi
  split at hi
  · cases hi
  · exact List.map_eq_nil_iff.mp hi

theorem validateEntries_eq_nil {path : Bytes} {entryError : Bytes → Bytes} {entries : List Bytes}
    (h : validateEntries path entryError entries = []) {e : Bytes} (he : e ∈ entries) :
    entryError e = [] := by
  obtain ⟨i, hi⟩ := flatMap_zipIdx_eq_nil h he
  simp only at hi
  split at hi
  · cases hi
  · rename_i hnil
    exact not_not.mp hnil

theorem addressEntryError_of_recipientEntryError {e : Bytes} (h : recipientEntryError L e = []) :
    addressEntryError L e = [] := by
  simp only [recipientEntryError] at h
  split at h
  · rename_i hwild
    rw [hwild] at h
    exact absurd h (by decide)
  · exact h

/-- The recipient restrictions of a valid policy: bare domains, and entries
without a fault. -/
theorem validateMailPolicy_restrictions {mp : MailPolicy} (h : validateMailPolicy L mp = none)
    {rr : RecipientRestrictions} (hrr : mp.spec.recipientRestrictions = some rr) :
    (∀ d ∈ rr.allowedDomains, L.isDNS1123Subdomain (L.unicode.toLower d) = []) ∧
      ∀ e ∈ rr.allowedRecipients, addressEntryError L e = [] := by
  simp only [validateMailPolicy, MailPolicy.validate, newInvalid_eq_none, hrr,
    List.append_eq_nil_iff] at h
  obtain ⟨-, ⟨hallowed, -⟩, hrecipients⟩ := h
  exact ⟨fun d hd => validateDomains_eq_nil hallowed hd, fun e he =>
    addressEntryError_of_recipientEntryError (validateEntries_eq_nil hrecipients he)⟩

end Admitted
end Sigillum
