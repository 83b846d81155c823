import Sigillum.SecretGuard

/-! # What the expressions of the guard say

Each text of the guard is read as an expression, and each expression is evaluated for an
arbitrary request.  What comes out is a Boolean function of the Secret, the Secret that is
updated and the namespace: `Guard.permits` puts the six of them together, and a request
passes the policy exactly if it is permitted (`passes_iff_permits`).
-/
namespace Sigillum
open Runes Bytes CEL Credential Controller Broker

namespace Guard

/-! ## Expressions -/

def objectMeta : Expr := .select (.ident (lit "object")) (lit "metadata")
def oldObjectMeta : Expr := .select (.ident (lit "oldObject")) (lit "metadata")
def requestField (name : Bytes) : Expr := .select (.ident (lit "request")) name
def variableExpr (name : Bytes) : Expr := .select (.ident (lit "variables")) name

/-- The entry of a map in the metadata. -/
def entryExpr (holder : Expr) (field key : Bytes) : Expr :=
  .index (.select holder field) (.string key)

def hasEntryExpr (holder : Expr) (field key : Bytes) : Expr :=
  .mem (.string key) (.select holder field)

def markerExpr (field key : Bytes) : Expr :=
  .cond (.and (.has objectMeta field) (hasEntryExpr objectMeta field key))
    (entryExpr objectMeta field key) (.string [])

/-- The first two variables have values, and the other two have none. -/
def shapeExpr (name uid otherName otherUID : Bytes) : Expr :=
  .and (.ne (variableExpr name) (.string [])) <| .and (.ne (variableExpr uid) (.string [])) <|
    .and (.eq (variableExpr otherName) (.string [])) (.eq (variableExpr otherUID) (.string []))

def labelledExpr : Expr := .or (variableExpr (lit "isCredential")) (variableExpr (lit "isOAuth"))

/-- The reference is to the object that two variables name. -/
def refersExpr (kind : Expr) (name uid : Bytes) : Expr :=
  .and kind <| .and (.eq (.select (.ident (lit "r")) (lit "name")) (variableExpr name))
    (.eq (.select (.ident (lit "r")) (lit "uid")) (variableExpr uid))

def kindExpr (kind : Bytes) : Expr :=
  .eq (.select (.ident (lit "r")) (lit "kind")) (.string kind)

/-- What one owner reference is asked. -/
def ownerExpr : Expr :=
  .and (.startsWith (.select (.ident (lit "r")) (lit "apiVersion"))
    (.string (lit "sigillum.dev/"))) <|
    .and (.has (.ident (lit "r")) (lit "controller")) <|
    .and (.select (.ident (lit "r")) (lit "controller")) <|
    .cond (variableExpr (lit "isCredential"))
      (refersExpr (kindExpr (lit "MailCredential")) (lit "credential") (lit "uid"))
      (refersExpr (.or (kindExpr (lit "MailBackend")) (kindExpr (lit "ClusterMailBackend")))
        (lit "oauthBackend") (lit "oauthUID"))

def ownedExpr : Expr :=
  .and (.has objectMeta (lit "ownerReferences"))
    (.any (.select objectMeta (lit "ownerReferences")) (lit "r") ownerExpr)

/-- The object that is updated has an entry, of which more is asked. -/
def oldEntryExpr (field key name : Bytes) (more : Expr → Expr) : Expr :=
  .and (.has oldObjectMeta field) <| .and (hasEntryExpr oldObjectMeta field key) <|
    more (.eq (entryExpr oldObjectMeta field key) (variableExpr name))

def sameMarkersExpr (label annotation name uid : Bytes) : Expr :=
  oldEntryExpr (lit "labels") label name fun same =>
    .and same (oldEntryExpr (lit "annotations") annotation uid id)

def sameOwnerExpr : Expr :=
  .or (.ne (requestField (lit "operation")) (.string (lit "UPDATE"))) <|
    .cond (variableExpr (lit "isCredential"))
      (sameMarkersExpr credentialLabel credentialUIDAnnotation (lit "credential") (lit "uid"))
      (sameMarkersExpr tokenLabel tokenUIDAnnotation (lit "oauthBackend") (lit "oauthUID"))

def opaqueExpr : Expr :=
  .and (.has (.ident (lit "object")) (lit "type"))
    (.eq (.select (.ident (lit "object")) (lit "type")) (.string (lit "Opaque")))

def credentialKeys : List Bytes := [lit "username", lit "password", lit "host", lit "port"]
def tokenKeys : List Bytes := [refreshTokenKey, accessTokenKey, expiresAtKey]

def dataKeysExpr : Expr :=
  .or (.not (.has (.ident (lit "object")) (lit "data"))) <|
    .all (.select (.ident (lit "object")) (lit "data")) (lit "k") <|
      .cond (variableExpr (lit "isCredential"))
        (.mem (.ident (lit "k")) (.strings credentialKeys))
        (.mem (.ident (lit "k")) (.strings tokenKeys))

/-- The branch of the namespace expression for token Secrets. -/
def tokenNamespaceExpr : Expr :=
  .and (variableExpr (lit "isOAuth"))
    (.eq (requestField (lit "namespace")) (variableExpr (lit "releaseNamespace")))

/-- The branch of the namespace expression for credential Secrets. -/
def credentialNamespaceExpr : Expr :=
  .and (.ne (requestField (lit "namespace")) (variableExpr (lit "releaseNamespace"))) <|
    .and (.not (.mem (requestField (lit "namespace")) (variableExpr (lit "excludedNames")))) <|
    .not (.any (variableExpr (lit "excludedPrefixes")) (lit "p")
      (.startsWith (requestField (lit "namespace")) (.ident (lit "p"))))

/-! ## Reading the texts -/

/-- Each text of the guard is the expression above. -/
structure Reads : Prop where
  credentialVar : parseText celCredentialVar = some (markerExpr (lit "labels") credentialLabel)
  uidVar : parseText celUIDVar = some (markerExpr (lit "annotations") credentialUIDAnnotation)
  oauthBackendVar : parseText celOAuthBackendVar = some (markerExpr (lit "labels") tokenLabel)
  oauthUIDVar : parseText celOAuthUIDVar = some (markerExpr (lit "annotations") tokenUIDAnnotation)
  isCredentialVar : parseText celIsCredentialVar =
    some (shapeExpr (lit "credential") (lit "uid") (lit "oauthBackend") (lit "oauthUID"))
  isOAuthVar : parseText celIsOAuthVar =
    some (shapeExpr (lit "oauthBackend") (lit "oauthUID") (lit "credential") (lit "uid"))
  labelled : parseText celLabelled = some labelledExpr
  owned : parseText celOwned = some ownedExpr
  sameOwner : parseText celSameOwner = some sameOwnerExpr
  opaqueType : parseText celOpaque = some opaqueExpr
  dataKeys : parseText celDataKeys = some dataKeysExpr
  nsExpr : parseText celNamespace = some (.or tokenNamespaceExpr credentialNamespaceExpr)

theorem reads : Reads where
  credentialVar := by
    unfold celCredentialVar markerText credentialLabel
    repeat rw [lit_ofList]
    decide +kernel
  uidVar := by
    unfold celUIDVar markerText credentialUIDAnnotation
    repeat rw [lit_ofList]
    decide +kernel
  oauthBackendVar := by
    unfold celOAuthBackendVar markerText tokenLabel
    repeat rw [lit_ofList]
    decide +kernel
  oauthUIDVar := by
    unfold celOAuthUIDVar markerText tokenUIDAnnotation
    repeat rw [lit_ofList]
    decide +kernel
  isCredentialVar := by
    unfold celIsCredentialVar
    repeat rw [lit_ofList]
    decide +kernel
  isOAuthVar := by
    unfold celIsOAuthVar
    repeat rw [lit_ofList]
    decide +kernel
  labelled := by
    unfold celLabelled
    repeat rw [lit_ofList]
    decide +kernel
  owned := by
    unfold celOwned
    repeat rw [lit_ofList]
    decide +kernel
  sameOwner := by
    unfold celSameOwner sameOwnerText credentialLabel credentialUIDAnnotation tokenLabel
      tokenUIDAnnotation
    repeat rw [lit_ofList]
    decide +kernel
  opaqueType := by
    unfold celOpaque
    repeat rw [lit_ofList]
    decide +kernel
  dataKeys := by
    unfold celDataKeys
    repeat rw [lit_ofList]
    decide +kernel
  nsExpr := by
    unfold celNamespace
    repeat rw [lit_ofList]
    decide +kernel

/-! ## What they come to -/

def credential (s : SecretObject) : Bytes := entry s.labels credentialLabel
def uid (s : SecretObject) : Bytes := entry s.annotations credentialUIDAnnotation
def oauthBackend (s : SecretObject) : Bytes := entry s.labels tokenLabel
def oauthUID (s : SecretObject) : Bytes := entry s.annotations tokenUIDAnnotation

/-- The shape of a credential Secret. -/
def isCredential (s : SecretObject) : Bool :=
  credential s != [] && (uid s != [] && (oauthBackend s == [] && oauthUID s == []))

/-- The shape of a token Secret. -/
def isOAuth (s : SecretObject) : Bool :=
  oauthBackend s != [] && (oauthUID s != [] && (credential s == [] && uid s == []))

/-- The reference is to the owner that the Secret names, as its controller. -/
def owns (s : SecretObject) (r : OwnerReference) : Bool :=
  (lit "sigillum.dev/").isPrefixOf r.apiVersion && (r.controller &&
    if isCredential s then
      r.kind == lit "MailCredential" && (r.name == credential s && r.uid == uid s)
    else
      (r.kind == lit "MailBackend" || r.kind == lit "ClusterMailBackend") &&
        (r.name == oauthBackend s && r.uid == oauthUID s))

/-- The Secret has a label and an annotation with these values. -/
def carries (s : SecretObject) (label annotation name uid : Bytes) : Bool :=
  s.labels.lookup label == some name && s.annotations.lookup annotation == some uid

/-- What is updated belongs to the owner that the Secret names. -/
def sameOwner (s : SecretObject) : Operation → Bool
  | .create => true
  | .update old =>
    if isCredential s then
      carries old credentialLabel credentialUIDAnnotation (credential s) (uid s)
    else carries old tokenLabel tokenUIDAnnotation (oauthBackend s) (oauthUID s)

def allowedKeys (s : SecretObject) : List Bytes :=
  if isCredential s then credentialKeys else tokenKeys

/-- The namespace is none of those in the texts of the policy. -/
def credentialNamespace (e : Exclusions) (ns : Bytes) : Bool :=
  ns != toValidUTF8 e.releaseNamespace &&
    (!((split e).1.map toValidUTF8).any (ns == ·) &&
      !((split e).2.map toValidUTF8).any (·.isPrefixOf ns))

/-- What the guard permits. -/
def permits (g : Guard) (req : AdmissionRequest) : Bool :=
  (isCredential req.object || isOAuth req.object) &&
    req.object.ownerReferences.any (owns req.object) &&
    sameOwner req.object req.operation &&
    req.object.type == lit "Opaque" &&
    req.object.data.all (fun e => (allowedKeys req.object).any (e.1 == ·)) &&
    (isOAuth req.object && req.ns == toValidUTF8 g.exclusions.releaseNamespace ||
      credentialNamespace g.exclusions req.ns)

/-! ## Values -/

theorem lookup_filterMap {fields : List (Bytes × Option Value)}
    (h : (fields.map Prod.fst).Nodup) (key : Bytes) :
    (fields.filterMap fun f => f.2.map fun v => (f.1, v)).lookup key =
      (fields.lookup key).join := by
  induction fields with
  | nil => rfl
  | cons f fields ih =>
    obtain ⟨hnew, hrest⟩ := List.nodup_cons.mp h
    obtain ⟨k, o⟩ := f
    cases o with
    | none =>
      rw [List.filterMap_cons_none rfl, ih hrest, List.lookup_cons]
      by_cases hk : key = k
      · -- the field is absent, and there is no other of its name
        have habsent : fields.lookup key = none := by
          rw [List.lookup_eq_none_iff]
          intro f hf
          rw [bne_iff_ne]
          rintro heq
          have hmem : f.1 ∈ fields.map Prod.fst := List.mem_map_of_mem hf
          rw [← heq, hk] at hmem
          exact hnew hmem
        rw [habsent, hk, beq_self_eq_true]
        rfl
      · rw [beq_false_of_ne hk]
    | some v =>
      have hcons : ((k, some v) :: fields).filterMap (fun f => f.2.map fun v => (f.1, v)) =
          (k, v) :: fields.filterMap fun f => f.2.map fun v => (f.1, v) := rfl
      rw [hcons, List.lookup_cons, List.lookup_cons, ih hrest]
      cases key == k <;> rfl

section Present
variable {fields : List (Bytes × Option Value)} {key : Bytes}

theorem field_present {v : Value} (h : (fields.map Prod.fst).Nodup)
    (hkey : fields.lookup key = some (some v)) :
    Result.field (.ok (present fields)) key = .ok v := by
  rw [Result.field, present, Result.onMap_map, lookup_filterMap h, hkey]
  rfl

theorem hasField_present {o : Option Value} (h : (fields.map Prod.fst).Nodup)
    (hkey : fields.lookup key = some o) :
    Result.hasField (.ok (present fields)) key = .ok (.bool o.isSome) := by
  rw [Result.hasField, present, Result.onMap_map, lookup_filterMap h, hkey]
  rfl

end Present

theorem nodup_secretFields (s : SecretObject) : ((secretFields s).map Prod.fst).Nodup :=
  show [lit "metadata", lit "type", lit "data"].Nodup by decide

theorem nodup_metadataFields (s : SecretObject) : ((metadataFields s).map Prod.fst).Nodup :=
  show [lit "name", lit "namespace", lit "labels", lit "annotations",
    lit "ownerReferences"].Nodup by decide

theorem nodup_ownerFields (r : OwnerReference) : ((ownerFields r).map Prod.fst).Nodup :=
  show [lit "apiVersion", lit "kind", lit "name", lit "uid", lit "controller"].Nodup by decide

/-! ## Entries of the metadata

`holder` is the metadata of one of the two objects. -/

section Entries
variable {holder : Expr} {env : Env} {s : SecretObject} {field key : Bytes}
  {m : List (Bytes × Bytes)}

/-- An expression for the metadata of a Secret. -/
structure Metadata (holder : Expr) (env : Env) (s : SecretObject) : Prop where
  value : eval holder env = .ok (present (metadataFields s))
  select : ∀ field, eval (.select holder field) env = (eval holder env).field field

/-- A map of strings in the metadata. -/
inductive StringMap (s : SecretObject) : Bytes → List (Bytes × Bytes) → Prop
  | labels : StringMap s (lit "labels") s.labels
  | annotations : StringMap s (lit "annotations") s.annotations

theorem StringMap.lookup_eq (hm : StringMap s field m) :
    (metadataFields s).lookup field = some (stringMap m) := by
  cases hm <;> rfl

theorem eval_has_map (h : Metadata holder env s) (hm : StringMap s field m) :
    eval (.has holder field) env = .ok (.bool (m != [])) := by
  rw [eval, h.value, hasField_present (nodup_metadataFields s) hm.lookup_eq, stringMap]
  split
  · rename_i hempty
    rw [hempty]
    rfl
  · rename_i hsome
    rw [bne_iff_ne.mpr hsome]
    rfl

theorem eval_select_map (h : Metadata holder env s) (hm : StringMap s field m) (hsome : m ≠ []) :
    eval (.select holder field) env = .ok (.map (m.map fun e => (e.1, .string e.2))) := by
  have hmap : stringMap m = some (.map (m.map fun e => (e.1, .string e.2))) := if_neg hsome
  rw [h.select, h.value]
  exact field_present (nodup_metadataFields s) (hm.lookup_eq.trans (congrArg some hmap))

theorem lookup_strings (m : List (Bytes × Bytes)) (key : Bytes) :
    (m.map fun e => (e.1, Value.string e.2)).lookup key = (m.lookup key).map .string := by
  induction m with
  | nil => rfl
  | cons e m ih =>
    rw [List.map_cons, List.lookup_cons, List.lookup_cons, ih]
    cases key == e.1 <;> rfl

theorem eval_hasEntry (h : Metadata holder env s) (hm : StringMap s field m) (hsome : m ≠ []) :
    eval (hasEntryExpr holder field key) env = .ok (.bool (m.lookup key).isSome) := by
  rw [hasEntryExpr, eval, eval_select_map h hm hsome]
  show Except.ok (Value.bool (List.lookup key _).isSome) = _
  rw [lookup_strings, Option.isSome_map]

theorem eval_entry (h : Metadata holder env s) (hm : StringMap s field m) {value : Bytes}
    (hvalue : m.lookup key = some value) :
    eval (entryExpr holder field key) env = .ok (.string value) := by
  have hsome : m ≠ [] := by
    rintro rfl
    cases hvalue
  rw [entryExpr, eval, eval_select_map h hm hsome]
  show Result.field _ key = _
  rw [Result.field, Result.onMap_map, lookup_strings, hvalue]
  rfl

/-- More is asked of an entry only where there is one. -/
theorem eval_guarded (h : Metadata holder env s) (hm : StringMap s field m) {more : Expr}
    {f : Bytes → Bool}
    (hmore : ∀ value, m.lookup key = some value → eval more env = .ok (.bool (f value))) :
    eval (.and (.has holder field) (.and (hasEntryExpr holder field key) more)) env =
      .ok (.bool ((m.lookup key).any f)) := by
  rw [eval_and, eval_and, eval_has_map h hm]
  by_cases hempty : m = []
  · subst hempty
    exact Result.false_and
  · rw [eval_hasEntry h hm hempty, bne_iff_ne.mpr hempty]
    cases hlookup : m.lookup key with
    | none =>
      rw [Option.isSome_none, Result.false_and, Result.and_bool]
      rfl
    | some value =>
      rw [hmore value hlookup, Option.isSome_some, Result.and_bool, Result.and_bool]
      rfl

theorem eval_marker {req : AdmissionRequest} {fields : List (Bytes × CEL.Result)}
    (h : Metadata objectMeta (guardEnv req fields) req.object)
    (hm : StringMap req.object field m) :
    eval (markerExpr field key) (guardEnv req fields) = .ok (.string (entry m key)) := by
  rw [markerExpr, eval_cond, eval_and, eval_has_map h hm]
  by_cases hempty : m = []
  · subst hempty
    exact congrArg (Result.cond · _ _) Result.false_and
  · rw [eval_hasEntry h hm hempty, bne_iff_ne.mpr hempty, Result.and_bool, Bool.true_and,
      Result.cond_bool, entry]
    cases hlookup : m.lookup key with
    | none => rfl
    | some value => exact eval_entry h hm hlookup

end Entries

/-! ## Variables -/

section Variables
variable {req : AdmissionRequest} {fields : List (Bytes × CEL.Result)}

theorem metadata_object (req : AdmissionRequest) (fields : List (Bytes × CEL.Result)) :
    Metadata objectMeta (guardEnv req fields) req.object where
  value := (eval_select_value rfl).trans (field_present (nodup_secretFields _) rfl)
  select _ := rfl

theorem eval_variable {name : Bytes} {r : CEL.Result} (h : fields.lookup name = some r) :
    eval (variableExpr name) (guardEnv req fields) = r :=
  eval_select_record rfl h

theorem eval_shape {name uid otherName otherUID a b c d : Bytes}
    (hname : fields.lookup name = some (.ok (.string a)))
    (huid : fields.lookup uid = some (.ok (.string b)))
    (hother : fields.lookup otherName = some (.ok (.string c)))
    (hotherUID : fields.lookup otherUID = some (.ok (.string d))) :
    eval (shapeExpr name uid otherName otherUID) (guardEnv req fields) =
      .ok (.bool (a != [] && (b != [] && (c == [] && d == [])))) := by
  simp only [shapeExpr, eval_and, eval_eq, eval_ne, eval_string, eval_variable hname,
    eval_variable huid, eval_variable hother, eval_variable hotherUID, Result.onStrings_string,
    Result.and_bool]

/-- What the variables of the guard come to. -/
def fieldValues (g : Guard) (s : SecretObject) : List (Bytes × CEL.Result) :=
  [(lit "isOAuth", .ok (.bool (isOAuth s))),
    (lit "isCredential", .ok (.bool (isCredential s))),
    (lit "oauthUID", .ok (.string (oauthUID s))),
    (lit "oauthBackend", .ok (.string (oauthBackend s))),
    (lit "uid", .ok (.string (uid s))),
    (lit "credential", .ok (.string (credential s))),
    (lit "excludedPrefixes", .ok (.list (((split g.exclusions).2.map toValidUTF8).map .string))),
    (lit "excludedNames", .ok (.list (((split g.exclusions).1.map toValidUTF8).map .string))),
    (lit "releaseNamespace", .ok (.string (toValidUTF8 g.exclusions.releaseNamespace)))]

theorem env_eq (g : Guard) (req : AdmissionRequest) :
    g.env req = guardEnv req (fieldValues g req.object) := by
  have hmarker : ∀ {text field key : Bytes} {m : List (Bytes × Bytes)} {fields},
      parseText text = some (markerExpr field key) → StringMap req.object field m →
        evalText text (guardEnv req fields) = .ok (.string (entry m key)) := by
    intro text field key m fields hparse hm
    rw [evalText_of_parse hparse, eval_marker (metadata_object req _) hm]
  unfold env computed policy
  simp only [List.foldl_cons, List.foldl_nil]
  rw [evalText_of_parse (parseText_jsonString _), evalText_of_parse (parseText_jsonStrings _),
    evalText_of_parse (parseText_jsonStrings _), hmarker reads.credentialVar .labels,
    hmarker reads.uidVar .annotations, hmarker reads.oauthBackendVar .labels,
    hmarker reads.oauthUIDVar .annotations, evalText_of_parse reads.isCredentialVar,
    evalText_of_parse reads.isOAuthVar, eval_shape rfl rfl rfl rfl, eval_shape rfl rfl rfl rfl]
  rfl

end Variables

/-! ## Validations -/

section Validations
variable (g : Guard) (req : AdmissionRequest)

theorem eval_labelled : eval labelledExpr (g.env req) =
    .ok (.bool (isCredential req.object || isOAuth req.object)) := by
  rw [env_eq, labelledExpr, eval_or, eval_variable rfl, eval_variable rfl, Result.or_bool]

section Owner
variable (r : OwnerReference)

/-- The environment of what one owner reference is asked. -/
def ownerEnv : Env :=
  (lit "r", .value (present (ownerFields r))) :: guardEnv req (fieldValues g req.object)

variable {g req r}

theorem eval_ownerField {key : Bytes} {v : Value}
    (h : (ownerFields r).lookup key = some (some v)) :
    eval (.select (.ident (lit "r")) key) (ownerEnv g req r) = .ok v :=
  (eval_select_value rfl).trans (field_present (nodup_ownerFields r) h)

theorem eval_ownerVariable {name : Bytes} {res : CEL.Result}
    (h : (fieldValues g req.object).lookup name = some res) :
    eval (variableExpr name) (ownerEnv g req r) = res :=
  eval_select_record rfl h

variable (g req r)

theorem eval_refers {kind : Expr} {b : Bool} {name uid n u : Bytes}
    (hkind : eval kind (ownerEnv g req r) = .ok (.bool b))
    (hname : (fieldValues g req.object).lookup name = some (.ok (.string n)))
    (huid : (fieldValues g req.object).lookup uid = some (.ok (.string u))) :
    eval (refersExpr kind name uid) (ownerEnv g req r) =
      .ok (.bool (b && (r.name == n && r.uid == u))) := by
  rw [refersExpr, eval_and, eval_and, eval_eq, eval_eq, hkind, eval_ownerField rfl,
    eval_ownerField rfl, eval_ownerVariable hname, eval_ownerVariable huid,
    Result.onStrings_string, Result.onStrings_string, Result.and_bool, Result.and_bool]

theorem eval_kind (kind : Bytes) :
    eval (kindExpr kind) (ownerEnv g req r) = .ok (.bool (r.kind == kind)) := by
  rw [kindExpr, eval_eq, eval_ownerField rfl, eval_string, Result.onStrings_string]

theorem eval_owner :
    eval ownerExpr (ownerEnv g req r) = .ok (.bool (owns req.object r)) := by
  have hhas : eval (.has (.ident (lit "r")) (lit "controller")) (ownerEnv g req r) =
      .ok (.bool (if r.controller then some (Value.bool true) else none).isSome) :=
    (congrArg (Result.hasField · _) (eval_ident rfl)).trans
      (hasField_present (nodup_ownerFields r) rfl)
  have hcredential : eval (refersExpr (kindExpr (lit "MailCredential")) (lit "credential")
      (lit "uid")) (ownerEnv g req r) = .ok (.bool (r.kind == lit "MailCredential" &&
        (r.name == credential req.object && r.uid == uid req.object))) :=
    eval_refers g req r (eval_kind g req r _) rfl rfl
  have hkinds : eval (.or (kindExpr (lit "MailBackend")) (kindExpr (lit "ClusterMailBackend")))
      (ownerEnv g req r) =
      .ok (.bool (r.kind == lit "MailBackend" || r.kind == lit "ClusterMailBackend")) := by
    rw [eval_or, eval_kind, eval_kind, Result.or_bool]
  have htoken := eval_refers g req r hkinds
    (show (fieldValues g req.object).lookup (lit "oauthBackend") = _ from rfl)
    (show (fieldValues g req.object).lookup (lit "oauthUID") = _ from rfl)
  rw [ownerExpr, eval_and, eval_and, eval_and, eval_startsWith, eval_string, eval_ownerField rfl,
    hhas, Result.onStrings_string, owns]
  cases hcontroller : r.controller with
  | false =>
    -- a reference without a controller field is not asked for its value
    rw [if_neg Bool.false_ne_true, Option.isSome_none, Result.false_and, Result.and_bool,
      Bool.false_and]
  | true =>
    have hvalue : eval (.select (.ident (lit "r")) (lit "controller")) (ownerEnv g req r) =
        .ok (.bool true) :=
      eval_ownerField (congrArg some (if_pos hcontroller))
    rw [hvalue, eval_cond, eval_ownerVariable rfl, Result.cond_bool, hcredential, htoken]
    cases isCredential req.object <;> simp

end Owner

theorem eval_owned : eval ownedExpr (g.env req) =
    .ok (.bool (req.object.ownerReferences.any (owns req.object))) := by
  have hmeta := metadata_object req (fieldValues g req.object)
  rw [env_eq, ownedExpr, eval_and, eval_has, hmeta.value]
  by_cases hrefs : req.object.ownerReferences = []
  · have habsent : (metadataFields req.object).lookup (lit "ownerReferences") = some none :=
      congrArg some (if_pos hrefs)
    rw [hasField_present (nodup_metadataFields _) habsent, hrefs]
    exact Result.false_and
  · have hpresent : (metadataFields req.object).lookup (lit "ownerReferences") =
        some (some (.list (req.object.ownerReferences.map fun r => present (ownerFields r)))) :=
      congrArg some (if_neg hrefs)
    have helements : (eval (.select objectMeta (lit "ownerReferences"))
        (guardEnv req (fieldValues g req.object))).elements =
        .ok (req.object.ownerReferences.map fun r => present (ownerFields r)) := by
      rw [hmeta.select, hmeta.value, field_present (nodup_metadataFields _) hpresent]
      rfl
    rw [hasField_present (nodup_metadataFields _) hpresent,
      eval_any_map helements (eval_owner g req), Result.and_bool]
    rfl

theorem eval_sameMarkers {old : SecretObject} (label annotation : Bytes) {name uid n u : Bytes}
    (hmeta : Metadata oldObjectMeta (guardEnv req (fieldValues g req.object)) old)
    (hname : (fieldValues g req.object).lookup name = some (.ok (.string n)))
    (huid : (fieldValues g req.object).lookup uid = some (.ok (.string u))) :
    eval (sameMarkersExpr label annotation name uid)
      (guardEnv req (fieldValues g req.object)) =
      .ok (.bool (carries old label annotation n u)) := by
  have hsame : ∀ {field key name value w : Bytes} {m : List (Bytes × Bytes)},
      StringMap old field m → m.lookup key = some w →
      (fieldValues g req.object).lookup name = some (.ok (.string value)) →
        eval (.eq (entryExpr oldObjectMeta field key) (variableExpr name))
          (guardEnv req (fieldValues g req.object)) = .ok (.bool (w == value)) := by
    intro field key name value w m hm hw hvalue
    rw [eval_eq, eval_entry hmeta hm hw, eval_variable hvalue, Result.onStrings_string]
  have hannotation : eval (oldEntryExpr (lit "annotations") annotation uid id)
      (guardEnv req (fieldValues g req.object)) =
      .ok (.bool ((old.annotations.lookup annotation).any (· == u))) :=
    eval_guarded hmeta .annotations fun w hw => hsame .annotations hw huid
  have hlabel : eval (sameMarkersExpr label annotation name uid)
      (guardEnv req (fieldValues g req.object)) =
      .ok (.bool ((old.labels.lookup label).any fun w =>
        w == n && (old.annotations.lookup annotation).any (· == u))) := by
    refine eval_guarded hmeta .labels fun w hw => ?_
    rw [eval_and, hsame .labels hw hname, hannotation, Result.and_bool]
  rw [hlabel, carries]
  cases old.labels.lookup label <;> cases old.annotations.lookup annotation <;> simp

theorem eval_sameOwner : eval sameOwnerExpr (g.env req) =
    .ok (.bool (sameOwner req.object req.operation)) := by
  have hrequest : (guardEnv req (fieldValues g req.object)).lookup (lit "request") =
      some (.value (requestValue req)) := rfl
  have hoperation : Result.field (.ok (requestValue req)) (lit "operation") =
      .ok (.string req.operation.text) := rfl
  rw [env_eq, sameOwnerExpr, requestField, eval_or, eval_ne, eval_select_value hrequest, hoperation,
    eval_string, Result.onStrings_string]
  cases hop : req.operation with
  | create => exact Result.true_or
  | update old =>
    have hmeta : Metadata oldObjectMeta (guardEnv req (fieldValues g req.object)) old :=
      { value := by
          have hold : (guardEnv req (fieldValues g req.object)).lookup (lit "oldObject") =
              some (.value (secretValue old)) := by
            rw [show secretValue old = req.operation.oldValue by rw [hop]; rfl]
            rfl
          exact (eval_select_value hold).trans (field_present (nodup_secretFields _) rfl)
        select := fun _ => rfl }
    have hcredential := eval_sameMarkers g req credentialLabel credentialUIDAnnotation hmeta
      (show (fieldValues g req.object).lookup (lit "credential") = _ from rfl)
      (show (fieldValues g req.object).lookup (lit "uid") = _ from rfl)
    have htoken := eval_sameMarkers g req tokenLabel tokenUIDAnnotation hmeta
      (show (fieldValues g req.object).lookup (lit "oauthBackend") = _ from rfl)
      (show (fieldValues g req.object).lookup (lit "oauthUID") = _ from rfl)
    rw [eval_cond, eval_variable rfl, hcredential, htoken, Result.cond_bool, sameOwner]
    cases isCredential req.object <;> exact Result.or_bool

theorem eval_opaqueType : eval opaqueExpr (g.env req) =
    .ok (.bool (req.object.type == lit "Opaque")) := by
  have hobject : (guardEnv req (fieldValues g req.object)).lookup (lit "object") =
      some (.value (secretValue req.object)) := rfl
  rw [env_eq, opaqueExpr, eval_and, eval_eq, eval_select_value hobject, eval_has,
    eval_ident hobject]
  by_cases htype : req.object.type = []
  · have habsent : (secretFields req.object).lookup (lit "type") = some none :=
      congrArg some (if_pos htype)
    rw [secretValue, hasField_present (nodup_secretFields _) habsent, htype]
    exact Result.false_and
  · have hpresent : (secretFields req.object).lookup (lit "type") =
        some (some (.string req.object.type)) := congrArg some (if_neg htype)
    rw [secretValue, hasField_present (nodup_secretFields _) hpresent,
      field_present (nodup_secretFields _) hpresent, eval_string, Result.onStrings_string,
      Result.and_bool]
    rfl

theorem eval_dataKeys : eval dataKeysExpr (g.env req) =
    .ok (.bool (req.object.data.all fun e => (allowedKeys req.object).any (e.1 == ·))) := by
  have hobject : (guardEnv req (fieldValues g req.object)).lookup (lit "object") =
      some (.value (secretValue req.object)) := rfl
  rw [env_eq, dataKeysExpr, eval_or, eval_not, eval_has, eval_ident hobject]
  by_cases hdata : req.object.data = []
  · have habsent : (secretFields req.object).lookup (lit "data") = some none :=
      congrArg some (if_pos hdata)
    rw [secretValue, hasField_present (nodup_secretFields _) habsent, hdata]
    exact Result.true_or
  · have hpresent : (secretFields req.object).lookup (lit "data") =
        some (some (.map (req.object.data.map fun e => (e.1, .bytes e.2)))) :=
      congrArg some (if_neg hdata)
    have hkey : ∀ key : Bytes, eval (.cond (variableExpr (lit "isCredential"))
        (.mem (.ident (lit "k")) (.strings credentialKeys))
        (.mem (.ident (lit "k")) (.strings tokenKeys)))
        ((lit "k", .value (.string key)) :: guardEnv req (fieldValues g req.object)) =
        .ok (.bool ((allowedKeys req.object).any (key == ·))) := by
      intro key
      have hshape : eval (variableExpr (lit "isCredential"))
          ((lit "k", .value (.string key)) :: guardEnv req (fieldValues g req.object)) =
          .ok (.bool (isCredential req.object)) := eval_select_record rfl rfl
      rw [eval_cond, hshape, Result.cond_bool, eval_mem, eval_mem, eval_ident rfl, eval_strings,
        eval_strings, Result.mem_strings, Result.mem_strings, allowedKeys]
      cases isCredential req.object <;> rfl
    have helements : (eval (.select (.ident (lit "object")) (lit "data"))
        (guardEnv req (fieldValues g req.object))).elements =
        .ok (req.object.data.map fun e => .string e.1) := by
      rw [eval_select_value hobject, secretValue, field_present (nodup_secretFields _) hpresent]
      show Except.ok (List.map _ (List.map _ _)) = _
      rw [List.map_map]
      rfl
    rw [secretValue, hasField_present (nodup_secretFields _) hpresent,
      eval_all_map helements fun e => hkey e.1]
    exact Result.or_bool

theorem eval_requestNamespace {env : Env}
    (h : env.lookup (lit "request") = some (.value (requestValue req))) :
    eval (requestField (lit "namespace")) env = .ok (.string req.ns) :=
  eval_select_value h

theorem eval_tokenNamespace : eval tokenNamespaceExpr (g.env req) =
    .ok (.bool (isOAuth req.object && req.ns == toValidUTF8 g.exclusions.releaseNamespace)) := by
  rw [env_eq, tokenNamespaceExpr, eval_and, eval_eq, eval_requestNamespace req rfl,
    eval_variable rfl, eval_variable rfl, Result.onStrings_string, Result.and_bool]

theorem eval_credentialNamespace : eval credentialNamespaceExpr (g.env req) =
    .ok (.bool (credentialNamespace g.exclusions req.ns)) := by
  have helements : (eval (variableExpr (lit "excludedPrefixes"))
      (guardEnv req (fieldValues g req.object))).elements =
      .ok (((split g.exclusions).2.map toValidUTF8).map .string) := by
    rw [eval_variable rfl]
    rfl
  have hstart : ∀ p : Bytes, eval (.startsWith (requestField (lit "namespace")) (.ident (lit "p")))
      ((lit "p", .value (.string p)) :: guardEnv req (fieldValues g req.object)) =
      .ok (.bool (p.isPrefixOf req.ns)) := by
    intro p
    rw [eval_startsWith, eval_requestNamespace req rfl, eval_ident rfl, Result.onStrings_string]
  rw [env_eq, credentialNamespaceExpr, eval_and, eval_and, eval_ne, eval_not, eval_not, eval_mem,
    eval_requestNamespace req rfl, eval_variable rfl, eval_variable rfl,
    eval_any_map helements hstart, Result.onStrings_string, Result.mem_strings, Result.not_bool,
    Result.not_bool, Result.and_bool, Result.and_bool, credentialNamespace]

theorem eval_namespace : eval (.or tokenNamespaceExpr credentialNamespaceExpr) (g.env req) =
    .ok (.bool (isOAuth req.object && req.ns == toValidUTF8 g.exclusions.releaseNamespace ||
      credentialNamespace g.exclusions req.ns)) := by
  rw [eval_or, eval_tokenNamespace, eval_credentialNamespace, Result.or_bool]

/-- **The policy says what the guard permits.** -/
theorem passes_iff_permits : g.Passes req ↔ g.permits req = true := by
  have hsatisfies : ∀ {text : Bytes} {e : Expr} {b : Bool}, parseText text = some e →
      eval e (g.env req) = .ok (.bool b) → (g.Satisfies req text ↔ b = true) := by
    intro text e b hparse heval
    rw [Satisfies, evalText_of_parse hparse, heval]
    simp
  simp only [Passes, policy, List.forall_mem_cons, List.not_mem_nil, false_implies, implies_true,
    hsatisfies reads.labelled (eval_labelled g req), hsatisfies reads.owned (eval_owned g req),
    hsatisfies reads.sameOwner (eval_sameOwner g req),
    hsatisfies reads.opaqueType (eval_opaqueType g req),
    hsatisfies reads.dataKeys (eval_dataKeys g req),
    hsatisfies reads.nsExpr (eval_namespace g req), permits, Bool.and_eq_true, and_assoc, and_true]

end Validations

end Guard
end Sigillum
