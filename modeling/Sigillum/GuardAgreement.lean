import Sigillum.CredentialCluster
import Sigillum.GuardExpressions

/-! # The guard lets the controller's own writes through

The rules for generated Secrets exist twice: in `writeSecret` and `Exclusions.Excluded`,
and in the texts of the policy.  Both agree, but for two things.  A namespace or pattern
that is not UTF-8 is written into the policy with replacement characters, so that it can
miss a namespace that is not ASCII.  And a marker with an empty value counts as absent.
-/
namespace Sigillum
open Runes Bytes CEL Credential Controller Broker

namespace Guard

/-! ## Namespaces -/

/-- The policy can name what is excluded, or the namespace is one that no replacement
character occurs in. -/
def Readable (e : Exclusions) (ns : Bytes) : Prop :=
  (∀ x ∈ e.releaseNamespace :: e.patterns, toValidUTF8 x = x) ∨ ∀ b ∈ ns, b < 0x80

theorem toValidUTF8_of_ascii {x : Bytes} (h : ∀ b ∈ toValidUTF8 x, b < 0x80) :
    toValidUTF8 x = x := by
  refine flatMap_encodeRune_runes fun r hr herror => ?_
  have hmem : (0xEF : UInt8) ∈ toValidUTF8 x :=
    List.mem_flatMap.mpr ⟨r, hr, by rw [herror]; decide⟩
  exact absurd (h _ hmem) (by decide)

theorem toValidUTF8_eq_of_ascii {x : Bytes} (h : ∀ b ∈ x, b < 0x80) : toValidUTF8 x = x := by
  refine flatMap_encodeRune_runes fun r hr herror => ?_
  rw [Unicode.runes_of_ascii h] at hr
  obtain ⟨b, -, rfl⟩ := List.mem_map.mp hr
  have hlt := b.toNat_lt
  rw [runeError] at herror
  omega

theorem toValidUTF8_append_star {x : Bytes} (h : toValidUTF8 (x ++ [42]) = x ++ [42]) :
    toValidUTF8 x = x := by
  have hsplit : toValidUTF8 (x ++ [42]) = toValidUTF8 x ++ [42] := by
    have hhead : AsciiHead [42] := by
      intro b hb
      cases hb
      decide
    rw [toValidUTF8, runes_append x hhead, List.flatMap_append]
    rfl
  exact List.append_cancel_right (hsplit.symm.trans h)

/-- What the policy says of one name or prefix is what `Excluded` says. -/
def Agrees (x ns : Bytes) : Prop :=
  (ns == toValidUTF8 x) = (ns == x) ∧ (toValidUTF8 x).isPrefixOf ns = x.isPrefixOf ns

theorem agrees_of_valid {x : Bytes} (h : toValidUTF8 x = x) (ns : Bytes) : Agrees x ns := by
  rw [Agrees, h]
  exact ⟨rfl, rfl⟩

theorem agrees_of_ascii (x : Bytes) {ns : Bytes} (h : ∀ b ∈ ns, b < 0x80) : Agrees x ns := by
  by_cases hvalid : toValidUTF8 x = x
  · exact agrees_of_valid hvalid ns
  · -- neither the text nor its replacement is ASCII, so neither starts the namespace
    have hx : ¬ x <+: ns := fun hpre =>
      hvalid (toValidUTF8_eq_of_ascii fun b hb => h b (hpre.subset hb))
    have hreplaced : ¬ toValidUTF8 x <+: ns := fun hpre =>
      hvalid (toValidUTF8_of_ascii fun b hb => h b (hpre.subset hb))
    have hne : ns ≠ x := fun heq => hx (heq ▸ List.prefix_refl ns)
    have hneReplaced : ns ≠ toValidUTF8 x := fun heq => hreplaced (heq ▸ List.prefix_refl ns)
    constructor
    · rw [beq_false_of_ne hne, beq_false_of_ne hneReplaced]
    · rw [Bool.eq_iff_iff, List.isPrefixOf_iff_prefix, List.isPrefixOf_iff_prefix]
      exact iff_of_false hreplaced hx

variable {e : Exclusions} {ns : Bytes}

theorem Readable.release (h : Readable e ns) : Agrees e.releaseNamespace ns := by
  rcases h with hvalid | hascii
  · exact agrees_of_valid (hvalid _ List.mem_cons_self) ns
  · exact agrees_of_ascii _ hascii

theorem Readable.exact (h : Readable e ns) : ∀ x ∈ (split e).1, Agrees x ns := by
  intro x hx
  rcases h with hvalid | hascii
  · exact agrees_of_valid (hvalid x (List.mem_cons_of_mem _ (List.mem_filter.mp hx).1)) ns
  · exact agrees_of_ascii x hascii

theorem Readable.start (h : Readable e ns) : ∀ x ∈ (split e).2, Agrees x ns := by
  intro x hx
  rcases h with hvalid | hascii
  · obtain ⟨p, hp, rfl⟩ := List.mem_map.mp hx
    obtain ⟨hmem, hstar⟩ := List.mem_filter.mp hp
    have hpattern : p.dropLast ++ [42] = p :=
      List.dropLast_append_getLast? 42 (of_decide_eq_true hstar)
    have hp := hvalid p (List.mem_cons_of_mem _ hmem)
    rw [← hpattern] at hp
    exact agrees_of_valid (toValidUTF8_append_star hp) ns
  · exact agrees_of_ascii x hascii

/-- The patterns, taken apart. -/
theorem any_excludes (patterns : List Bytes) (release ns : Bytes) :
    patterns.any (excludes · ns) = ((split ⟨patterns, release⟩).1.any (ns == ·) ||
      (split ⟨patterns, release⟩).2.any (·.isPrefixOf ns)) := by
  induction patterns with
  | nil => rfl
  | cons p patterns ih =>
    rw [List.any_cons, ih, excludes]
    by_cases hstar : p.getLast? = some 42
    · simp only [split, hstar, if_true, List.filter_cons, ne_eq, not_true_eq_false, decide_false,
        Bool.false_eq_true, if_false, decide_true, List.map_cons, List.any_cons]
      exact Bool.or_left_comm _ _ _
    · simp only [split, hstar, if_false, List.filter_cons, ne_eq, not_false_eq_true, decide_true,
        if_true, decide_false, Bool.false_eq_true, List.any_cons, Bool.or_assoc]

theorem any_map_eq {p : Bytes → Bool} {f : Bytes → Bytes} {l : List Bytes}
    (h : ∀ x ∈ l, p (f x) = p x) : (l.map f).any p = l.any p := by
  induction l with
  | nil => rfl
  | cons x l ih =>
    rw [List.map_cons, List.any_cons, List.any_cons, h x List.mem_cons_self,
      ih fun y hy => h y (List.mem_cons_of_mem x hy)]

theorem credentialNamespace_eq (hns : ns ≠ []) (h : Readable e ns) :
    credentialNamespace e ns = !e.excluded ns := by
  have hrelease : (e.releaseNamespace != [] && ns == e.releaseNamespace) =
      (ns == e.releaseNamespace) := by
    by_cases heq : ns = e.releaseNamespace
    · rw [← heq, bne_iff_ne.mpr hns, Bool.true_and]
    · rw [beq_false_of_ne heq, Bool.and_false]
  have hnames : ((split e).1.map toValidUTF8).any (ns == ·) = (split e).1.any (ns == ·) :=
    any_map_eq fun x hx => (h.exact x hx).1
  have hstarts : ((split e).2.map toValidUTF8).any (·.isPrefixOf ns) =
      (split e).2.any (·.isPrefixOf ns) :=
    any_map_eq fun x hx => (h.start x hx).2
  rw [credentialNamespace, Exclusions.excluded, hrelease, bne, h.release.1, hnames, hstarts,
    any_excludes e.patterns e.releaseNamespace, Bool.not_or, Bool.not_or]

/-! ## Writes -/

section Writes
variable {g : Guard} {r : Reconciler} {mc : MailCredential} {username password : Bytes}

/-- The Secret belongs to the `MailCredential`, and is none of a backend. -/
structure Belongs (mc : MailCredential) (s : SecretObject) : Prop where
  name : s.labels.lookup credentialLabel = some mc.name
  uid : s.annotations.lookup credentialUIDAnnotation = some mc.uid
  owner : ∃ ref ∈ s.ownerReferences, (lit "sigillum.dev/").isPrefixOf ref.apiVersion = true ∧
    ref.kind = lit "MailCredential" ∧ ref.name = mc.name ∧ ref.uid = mc.uid ∧ ref.controller = true
  type : s.type = lit "Opaque"
  noBackend : s.labels.lookup tokenLabel = none
  noBackendUID : s.annotations.lookup tokenUIDAnnotation = none

theorem belongs_credentialSecret : Belongs mc (credentialSecret r mc username password) where
  name := rfl
  uid := rfl
  owner := ⟨_, List.mem_singleton.mpr rfl, rfl, rfl, rfl, rfl, rfl⟩
  type := rfl
  noBackend := rfl
  noBackendUID := rfl

theorem Belongs.setData {s : SecretObject} (h : Belongs mc s) (data : List (Bytes × Bytes)) :
    Belongs mc { s with data := data } :=
  { h with }

section Shape
variable {s : SecretObject}

theorem Belongs.credential_eq (h : Belongs mc s) : credential s = mc.name := by
  rw [credential, entry, h.name, Option.getD_some]

theorem Belongs.uid_eq (h : Belongs mc s) : Guard.uid s = mc.uid := by
  rw [Guard.uid, entry, h.uid, Option.getD_some]

theorem Belongs.isCredential (h : Belongs mc s) (hname : mc.name ≠ []) (huid : mc.uid ≠ []) :
    isCredential s = true := by
  rw [Guard.isCredential, h.credential_eq, h.uid_eq, oauthBackend, oauthUID, entry, entry,
    h.noBackend, h.noBackendUID, bne_iff_ne.mpr hname, bne_iff_ne.mpr huid]
  rfl

theorem Belongs.owned (h : Belongs mc s) (hshape : Guard.isCredential s = true) :
    s.ownerReferences.any (owns s) = true := by
  obtain ⟨ref, hmem, hversion, hkind, hname, huid, hcontroller⟩ := h.owner
  refine List.any_eq_true.mpr ⟨ref, hmem, ?_⟩
  rw [owns, hversion, hcontroller, hshape, hkind, hname, huid, h.credential_eq, h.uid_eq]
  simp

end Shape

/-- A Secret that belongs to a `MailCredential` passes with the data of `writeSecret`, if
what it replaces belongs to it too. -/
theorem passes_of_belongs {req : AdmissionRequest} (h : Belongs mc req.object)
    (hold : ∀ old, req.operation = .update old → Belongs mc old)
    (hdata : req.object.data = secretData r username password)
    (hname : mc.name ≠ []) (huid : mc.uid ≠ [])
    (hns : credentialNamespace g.exclusions req.ns = true) : g.Passes req := by
  have hshape := h.isCredential hname huid
  have hsame : sameOwner req.object req.operation = true := by
    cases hop : req.operation with
    | create => rfl
    | update old =>
      have hbelongs := hold old hop
      rw [sameOwner, if_pos hshape, carries, hbelongs.name, hbelongs.uid,
        h.credential_eq, h.uid_eq, beq_self_eq_true, beq_self_eq_true]
      rfl
  have hkeys : req.object.data.all (fun e => (allowedKeys req.object).any (e.1 == ·)) = true := by
    rw [allowedKeys, if_pos hshape, hdata, secretData]
    rfl
  rw [passes_iff_permits, permits, h.owned hshape, hshape, hsame, h.type, hkeys, hns,
    Bool.or_true, beq_self_eq_true]
  rfl

theorem apply_credentialPatch {s : SecretObject} (h : Belongs mc s) :
    (credentialPatch r mc username password).apply s =
      some { s with data := secretData r username password } := by
  have hlabel : s.value (lit "/metadata/labels/sigillum.dev~1credential") = some mc.name := by
    rw [SecretObject.value, show pointed (lit "/metadata/labels/sigillum.dev~1credential") =
      some (.inLabels credentialLabel) by decide +kernel]
    exact h.name
  have hannotation : s.value (lit "/metadata/annotations/sigillum.dev~1credential-uid") =
      some mc.uid := by
    rw [SecretObject.value, show pointed (lit "/metadata/annotations/sigillum.dev~1credential-uid")
      = some (.inAnnotations credentialUIDAnnotation) by decide +kernel]
    exact h.uid
  rw [SecretPatch.apply, if_pos]
  · rfl
  · simp only [credentialPatch, List.all_cons, List.all_nil, hlabel, hannotation,
      beq_self_eq_true, Bool.and_true]

end Writes

/-! ## Shapes -/

theorem no_shape {s : SecretObject} (hcredential : credential s ≠ [] ∨ uid s ≠ [])
    (htoken : oauthBackend s ≠ [] ∨ oauthUID s ≠ []) :
    isCredential s = false ∧ isOAuth s = false := by
  constructor
  · rcases htoken with h | h
    · rw [isCredential, beq_false_of_ne h]
      simp
    · rw [isCredential, beq_false_of_ne h]
      simp
  · rcases hcredential with h | h
    · rw [isOAuth, beq_false_of_ne h]
      simp
    · rw [isOAuth, beq_false_of_ne h]
      simp

/-- **The guard and the controller agree.**  A namespace is free for generated Secrets in
the policy exactly if it is not excluded.  What `writeSecret` creates passes the policy,
and so does its patch of a Secret that belongs to the same `MailCredential`.  A Secret
with markers of both kinds has neither shape. -/
theorem writes_pass_guard (g : Guard) :
    parseText celNamespace = some (.or tokenNamespaceExpr credentialNamespaceExpr) ∧
    (∀ req : AdmissionRequest, req.ns ≠ [] → Readable g.exclusions req.ns →
      (Holds credentialNamespaceExpr (g.env req) ↔ g.exclusions.excluded req.ns = false)) ∧
    (∀ (r : Reconciler) (mc : MailCredential) (username password : Bytes),
      mc.name ≠ [] → mc.uid ≠ [] → mc.ns ≠ [] → Readable g.exclusions mc.ns →
      g.exclusions.excluded mc.ns = false →
        g.Passes ⟨.create, mc.ns, credentialSecret r mc username password⟩ ∧
        ∀ s, Belongs mc s → ∃ patched,
          (credentialPatch r mc username password).apply s = some patched ∧
          g.Passes ⟨.update s, mc.ns, patched⟩) ∧
    ∀ req : AdmissionRequest, credential req.object ≠ [] ∨ uid req.object ≠ [] →
      oauthBackend req.object ≠ [] ∨ oauthUID req.object ≠ [] →
        evalText celIsCredentialVar (g.env req) = .ok (.bool false) ∧
        evalText celIsOAuthVar (g.env req) = .ok (.bool false) ∧ ¬ g.Satisfies req celLabelled := by
  refine ⟨reads.nsExpr, ?_, ?_, ?_⟩
  · intro req hns hreadable
    rw [Holds, eval_credentialNamespace, credentialNamespace_eq hns hreadable]
    simp
  · intro r mc username password hname huid hns hreadable hexcluded
    have hfree : credentialNamespace g.exclusions mc.ns = true := by
      rw [credentialNamespace_eq hns hreadable, hexcluded]
      rfl
    constructor
    · exact passes_of_belongs belongs_credentialSecret nofun rfl hname huid hfree
    · intro s hs
      refine ⟨_, apply_credentialPatch hs, ?_⟩
      refine passes_of_belongs (hs.setData _) ?_ rfl hname huid hfree
      rintro old ⟨⟩
      exact hs
  · intro req hcredential htoken
    obtain ⟨hnotCredential, hnotToken⟩ := no_shape hcredential htoken
    refine ⟨?_, ?_, ?_⟩
    · rw [evalText_of_parse reads.isCredentialVar, env_eq, eval_shape rfl rfl rfl rfl]
      show Except.ok (Value.bool (isCredential req.object)) = _
      rw [hnotCredential]
    · rw [evalText_of_parse reads.isOAuthVar, env_eq, eval_shape rfl rfl rfl rfl]
      show Except.ok (Value.bool (isOAuth req.object)) = _
      rw [hnotToken]
    · rw [Satisfies, evalText_of_parse reads.labelled, eval_labelled, hnotCredential, hnotToken]
      simp

/-- A guard that keeps the namespaces of the cluster free of generated Secrets. -/
def clusterGuard : Guard :=
  ⟨lit "sigillum-credential-guard", lit "system:serviceaccount:sigillum:controller",
    ⟨[lit "kube-*", lit "default"], lit "sigillum"⟩⟩

theorem writes_pass_guard_cluster :
    Readable clusterGuard.exclusions generatedCredential.ns ∧
    clusterGuard.exclusions.excluded generatedCredential.ns = false ∧
    clusterGuard.Passes ⟨.create, generatedCredential.ns,
      credentialSecret openReconciler generatedCredential (lit "u") (lit "p")⟩ ∧
    Belongs generatedCredential
      (credentialSecret openReconciler generatedCredential (lit "u") (lit "old")) ∧
    ¬ Holds credentialNamespaceExpr (clusterGuard.env ⟨.create, lit "kube-system",
      credentialSecret openReconciler generatedCredential (lit "u") (lit "p")⟩) := by
  have hreadable : ∀ ns, Readable clusterGuard.exclusions ns := by
    intro ns
    left
    decide
  have hexcluded : clusterGuard.exclusions.excluded generatedCredential.ns = false := by decide
  have hwrite := (writes_pass_guard clusterGuard).2.2.1 openReconciler generatedCredential
    (lit "u") (lit "p") (by decide) (by decide) (by decide) (hreadable _) hexcluded
  have hkube := (writes_pass_guard clusterGuard).2.1 ⟨.create, lit "kube-system",
    credentialSecret openReconciler generatedCredential (lit "u") (lit "p")⟩ (by decide)
    (hreadable _)
  refine ⟨hreadable _, hexcluded, hwrite.1, belongs_credentialSecret, ?_⟩
  rw [hkube]
  decide

/-- A guard with a pattern that is not UTF-8. -/
def brokenGuard : Guard :=
  ⟨lit "sigillum-credential-guard", lit "system:serviceaccount:sigillum:controller",
    ⟨[[0xFF]], lit "sigillum"⟩⟩

/-- A credential Secret with an empty label of the other kind. -/
def doublyMarked : SecretObject where
  name := lit "mail"
  ns := lit "team"
  labels := [(credentialLabel, lit "app"), (tokenLabel, [])]
  annotations := [( credentialUIDAnnotation, lit "1"), ( tokenUIDAnnotation, [])]
  ownerReferences := []
  type := lit "Opaque"
  data := []

/-- The pattern excludes a namespace that the policy leaves free, and a Secret that
carries all four markers has the shape of a credential Secret. -/
theorem guard_differs :
    brokenGuard.exclusions.excluded [0xFF] = true ∧
    Holds credentialNamespaceExpr (brokenGuard.env ⟨.create, [0xFF], doublyMarked⟩) ∧
    (∀ key ∈ [credentialLabel, tokenLabel], (doublyMarked.labels.lookup key).isSome = true) ∧
    (∀ key ∈ [ credentialUIDAnnotation, tokenUIDAnnotation],
      (doublyMarked.annotations.lookup key).isSome = true) ∧
    evalText celIsCredentialVar (brokenGuard.env ⟨.create, [0xFF], doublyMarked⟩) =
      .ok (.bool true) := by
  refine ⟨by decide, ?_, by decide, by decide, ?_⟩
  · rw [Holds, eval_credentialNamespace]
    have hfree : credentialNamespace brokenGuard.exclusions [0xFF] = true := by decide
    exact congrArg (fun b => Except.ok (Value.bool b)) hfree
  · rw [evalText_of_parse reads.isCredentialVar, env_eq, eval_shape rfl rfl rfl rfl]
    have hshape : isCredential doublyMarked = true := by decide
    exact congrArg (fun b => Except.ok (Value.bool b)) hshape

end Guard
end Sigillum
