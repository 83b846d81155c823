import Mathlib.Data.List.Perm.Basic
import Sigillum.PolicyEngine

/-! # Which policy applies

`Match` is a choice among the policies that are eligible for a caller: of those with the
highest priority, the one with the least name.  The choice depends on nothing but the
eligible policies, and on the labels of the service account only where some policy
selects by them.
-/
namespace Sigillum
open Runes Bytes

section Eligibility
variable (L : Libraries)

/-- The selector is not empty, can be read, and selects these labels. -/
def Selects (sel : LabelSelector) (labels : List (Bytes × Bytes)) : Prop :=
  (sel.matchLabels ≠ [] ∨ sel.matchExpressions ≠ []) ∧
    ∃ isMatch, L.labelSelectorAsSelector sel = .ok isMatch ∧ isMatch labels = true

/-- A subject of a policy is the caller, by name or by labels. -/
inductive Names (s : PolicySubject) (caller : Caller) : Prop
  | serviceAccount (h : s.serviceAccount = some caller.serviceAccount)
  | serviceAccountSelector {sel : LabelSelector} (h : s.serviceAccountSelector = some sel)
    (hknown : caller.saLabelsKnown = true) (hselects : Selects L sel caller.saLabels)
  | podSelector {sel : LabelSelector} (h : s.podSelector = some sel)
    (hlegacy : caller.legacyPodIP = true) (hselects : Selects L sel caller.podLabels)

/-- A policy may apply to the caller. -/
structure Eligible (caller : Caller) (p : MailPolicy) : Prop where
  ns : p.ns = caller.ns
  optIn : caller.legacyPodIP = true → p.spec.legacyAuth = some true
  subject : ∃ s ∈ p.spec.subjects, Names L s caller

/-- A policy comes before another: it has a higher priority, or the same one and a lesser
name. -/
def Outranks (p q : MailPolicy) : Prop :=
  q.spec.priority < p.spec.priority ∨ q.spec.priority = p.spec.priority ∧ p.name < q.name

/-- No two policies of a namespace have the same name. -/
def DistinctNames (policies : List MailPolicy) : Prop :=
  (policies.map fun p => (p.ns, p.name)).Nodup

variable {L}

theorem selectorMatches_iff {sel : LabelSelector} {labels : List (Bytes × Bytes)} :
    selectorMatches L sel labels = true ↔ Selects L sel labels := by
  unfold selectorMatches Selects
  by_cases hempty : sel.matchLabels.length = 0 ∧ sel.matchExpressions.length = 0
  · have hnone : ¬ (sel.matchLabels ≠ [] ∨ sel.matchExpressions ≠ []) := by
      rw [not_or, not_not, not_not]
      exact ⟨List.length_eq_zero_iff.mp hempty.1, List.length_eq_zero_iff.mp hempty.2⟩
    simp [hempty, hnone]
  · have hsome : sel.matchLabels ≠ [] ∨ sel.matchExpressions ≠ [] := by
      rw [List.length_eq_zero_iff, List.length_eq_zero_iff] at hempty
      exact not_and_or.mp hempty
    rw [if_neg hempty]
    cases L.labelSelectorAsSelector sel with
    | error err => simp
    | ok isMatch => simp [hsome]

theorem subjectMatches_iff {p : MailPolicy} {caller : Caller} :
    subjectMatches L p caller = true ↔ ∃ s ∈ p.spec.subjects, Names L s caller := by
  unfold subjectMatches
  rw [List.any_eq_true]
  refine exists_congr fun s => and_congr_right fun _ => ?_
  simp only [Bool.or_eq_true, Option.any_eq_true, beq_iff_eq, Bool.and_eq_true,
    selectorMatches_iff]
  constructor
  · rintro ((⟨name, hname, rfl⟩ | ⟨sel, hsel, hknown, hselects⟩) | ⟨sel, hsel, hlegacy, hselects⟩)
    · exact .serviceAccount hname
    · exact .serviceAccountSelector hsel hknown hselects
    · exact .podSelector hsel hlegacy hselects
  · intro h
    cases h with
    | serviceAccount h => exact .inl (.inl ⟨_, h, rfl⟩)
    | serviceAccountSelector h hknown hselects => exact .inl (.inr ⟨_, h, hknown, hselects⟩)
    | podSelector h hlegacy hselects => exact .inr ⟨_, h, hlegacy, hselects⟩

theorem isCandidate_iff {caller : Caller} {p : MailPolicy} :
    isCandidate L caller p = true ↔ Eligible L caller p := by
  unfold isCandidate
  rw [Bool.and_eq_true, Bool.and_eq_true, subjectMatches_iff, beq_iff_eq]
  constructor
  · rintro ⟨⟨hns, hoptIn⟩, hsubject⟩
    exact ⟨hns, fun hlegacy => by simpa [hlegacy] using hoptIn, hsubject⟩
  · rintro ⟨hns, hoptIn, hsubject⟩
    refine ⟨⟨hns, ?_⟩, hsubject⟩
    cases hlegacy : caller.legacyPodIP with
    | false => rfl
    | true => simp [hoptIn hlegacy]

end Eligibility

/-! ## The order -/

section Order
variable {p q : MailPolicy}

theorem precedes_iff : precedes p q = true ↔ Outranks p q := by
  unfold precedes Outranks
  by_cases hpriority : p.spec.priority = q.spec.priority
  · simp [hpriority]
  · have hne : ¬ q.spec.priority = p.spec.priority := fun h => hpriority h.symm
    simp [hpriority, hne]

theorem Outranks.trans {s : MailPolicy} (h : Outranks p q) (h' : Outranks q s) : Outranks p s := by
  rcases h with hlt | ⟨heq, hname⟩
  · rcases h' with hlt' | ⟨heq', -⟩
    · exact .inl (hlt'.trans hlt)
    · exact .inl (heq' ▸ hlt)
  · rcases h' with hlt' | ⟨heq', hname'⟩
    · exact .inl (heq ▸ hlt')
    · exact .inr ⟨heq'.trans heq, List.lt_trans hname hname'⟩

theorem Outranks.irrefl (p : MailPolicy) : ¬ Outranks p p := by
  rintro (hlt | ⟨-, hname⟩)
  · exact lt_irrefl _ hlt
  · exact List.lt_irrefl _ hname

theorem not_outranks_iff : ¬ Outranks q p ↔
    q.spec.priority < p.spec.priority ∨ q.spec.priority = p.spec.priority ∧ p.name ≤ q.name := by
  unfold Outranks
  rw [not_or, not_and, List.not_lt]
  constructor
  · rintro ⟨hge, hname⟩
    rcases lt_or_eq_of_le (not_lt.mp hge) with hlt | heq
    · exact .inl hlt
    · exact .inr ⟨heq, hname heq.symm⟩
  · rintro (hlt | ⟨heq, hname⟩)
    · exact ⟨not_lt.mpr hlt.le, fun heq => absurd heq.symm hlt.ne⟩
    · exact ⟨not_lt.mpr heq.le, fun _ => hname⟩

/-- Of two policies with different names, one outranks the other. -/
theorem Outranks.of_not (h : ¬ Outranks q p) (hname : p.name ≠ q.name) : Outranks p q := by
  rcases not_outranks_iff.mp h with hlt | ⟨heq, hle⟩
  · exact .inl hlt
  · exact .inr ⟨heq, Std.lt_of_le_of_ne hle hname⟩

/-- `precedes`, read the other way round, is a total preorder. -/
instance : Std.Total fun p q : MailPolicy => precedes q p = false where
  total p q := by
    by_contra hboth
    rw [not_or, Bool.not_eq_false, Bool.not_eq_false, precedes_iff, precedes_iff] at hboth
    exact Outranks.irrefl _ (hboth.1.trans hboth.2)

instance : IsTrans MailPolicy fun p q => precedes q p = false where
  trans p q s hpq hqs := by
    rw [Bool.eq_false_iff, ne_eq, precedes_iff, not_outranks_iff] at hpq hqs ⊢
    rcases hpq with hlt | ⟨heq, hle⟩
    · rcases hqs with hlt' | ⟨heq', -⟩
      · exact .inl (hlt'.trans hlt)
      · exact .inl (heq' ▸ hlt)
    · rcases hqs with hlt' | ⟨heq', hle'⟩
      · exact .inl (heq ▸ hlt')
      · exact .inr ⟨heq'.trans heq, List.le_trans hle hle'⟩

end Order

/-! ## The choice -/

section Choice
variable {L : Libraries} {policies : List MailPolicy} {caller : Caller} {p : MailPolicy}

theorem policyMatch_eq_none_iff :
    policyMatch L policies caller = none ↔ ∀ p ∈ policies, ¬ Eligible L caller p := by
  unfold policyMatch
  rw [List.head?_eq_none_iff, ← List.length_eq_zero_iff, List.length_insertionSort,
    List.length_eq_zero_iff, List.filter_eq_nil_iff]
  exact forall₂_congr fun p _ => not_congr isCandidate_iff

/-- What is chosen is outranked by no eligible policy. -/
theorem not_outranks_of_policyMatch (h : policyMatch L policies caller = some p)
    {q : MailPolicy} (hq : q ∈ policies) (heligible : Eligible L caller q) : ¬ Outranks q p := by
  obtain ⟨rest, hsorted⟩ := List.head?_eq_some_iff.mp h
  have hpairwise := List.pairwise_insertionSort (fun p q : MailPolicy => precedes q p = false)
    (policies.filter (isCandidate L caller))
  rw [hsorted] at hpairwise
  have hmem : q ∈ p :: rest := by
    rw [← hsorted, List.mem_insertionSort]
    exact List.mem_filter.mpr ⟨hq, isCandidate_iff.mpr heligible⟩
  rcases List.mem_cons.mp hmem with rfl | hrest
  · exact Outranks.irrefl q
  · have hprecedes := List.rel_of_pairwise_cons hpairwise hrest
    rw [Bool.eq_false_iff, ne_eq, precedes_iff] at hprecedes
    exact hprecedes

theorem DistinctNames.eq (h : DistinctNames policies) {q : MailPolicy} (hp : p ∈ policies)
    (hq : q ∈ policies) (hns : p.ns = q.ns) (hname : p.name = q.name) : p = q :=
  List.inj_on_of_nodup_map h hp hq (Prod.ext hns hname)

/-- **The policy that is chosen is the one that outranks all others.** -/
theorem policyMatch_eq_some_iff (hdistinct : DistinctNames policies) :
    policyMatch L policies caller = some p ↔ p ∈ policies ∧ Eligible L caller p ∧
      ∀ q ∈ policies, Eligible L caller q → q ≠ p → Outranks p q := by
  -- eligible policies are in one namespace, so that their names differ
  have houtranks : ∀ {p q : MailPolicy}, p ∈ policies → Eligible L caller p → q ∈ policies →
      Eligible L caller q → q ≠ p → ¬ Outranks q p → Outranks p q := by
    intro p q hp hp' hq hq' hne hnot
    refine Outranks.of_not hnot fun hname => hne ?_
    exact (hdistinct.eq hp hq (hp'.ns.trans hq'.ns.symm) hname).symm
  constructor
  · intro h
    obtain ⟨hp, hcandidate⟩ := mem_of_policyMatch h
    have heligible := isCandidate_iff.mp hcandidate
    refine ⟨hp, heligible, fun q hq hq' hne => ?_⟩
    exact houtranks hp heligible hq hq' hne (not_outranks_of_policyMatch h hq hq')
  · rintro ⟨hp, heligible, hbest⟩
    cases hmatch : policyMatch L policies caller with
    | none => exact absurd heligible (policyMatch_eq_none_iff.mp hmatch p hp)
    | some q =>
      obtain ⟨hq, hcandidate⟩ := mem_of_policyMatch hmatch
      have hq' := isCandidate_iff.mp hcandidate
      by_cases hne : q = p
      · rw [hne]
      · have hfirst := not_outranks_of_policyMatch hmatch hp heligible
        exact absurd (hbest q hq hq' hne) hfirst

/-- The choice depends on the eligible policies alone. -/
theorem policyMatch_congr {policies' : List MailPolicy} (hdistinct : DistinctNames policies)
    (h : (policies'.filter (isCandidate L caller)).Perm (policies.filter (isCandidate L caller))) :
    policyMatch L policies' caller = policyMatch L policies caller := by
  have hfilter : ∀ l : List MailPolicy,
      policyMatch L (l.filter (isCandidate L caller)) caller = policyMatch L l caller := by
    intro l
    rw [policyMatch, policyMatch, List.filter_filter]
    simp only [Bool.and_self]
  have hdistinct' : DistinctNames (policies.filter (isCandidate L caller)) :=
    hdistinct.sublist (List.filter_sublist.map _)
  have hperm : DistinctNames (policies'.filter (isCandidate L caller)) :=
    ((h.map fun p : MailPolicy => (p.ns, p.name)).nodup_iff).mpr hdistinct'
  rw [← hfilter policies', ← hfilter policies]
  refine Option.ext fun p => ?_
  rw [policyMatch_eq_some_iff hperm, policyMatch_eq_some_iff hdistinct', h.mem_iff]
  refine and_congr_right fun _ => and_congr_right fun _ => forall_congr' fun q => ?_
  rw [h.mem_iff]

/-- Labels that no policy asks for do not matter. -/
theorem isCandidate_congr (hneeds : needsSALabels policies = false) (hp : p ∈ policies)
    (labels : List (Bytes × Bytes)) (known : Bool) :
    isCandidate L { caller with saLabels := labels, saLabelsKnown := known } p =
      isCandidate L caller p := by
  have hselector : ∀ s ∈ p.spec.subjects, s.serviceAccountSelector = none := by
    intro s hs
    rw [needsSALabels, List.any_eq_false] at hneeds
    have hsubjects := hneeds p hp
    rw [Bool.not_eq_true, List.any_eq_false] at hsubjects
    simpa using hsubjects s hs
  have hsubject : subjectMatches L p { caller with saLabels := labels, saLabelsKnown := known } =
      subjectMatches L p caller := by
    unfold subjectMatches
    rw [Bool.eq_iff_iff, List.any_eq_true, List.any_eq_true]
    refine exists_congr fun s => and_congr_right fun hs => ?_
    rw [hselector s hs]
    rfl
  rw [isCandidate, isCandidate, hsubject]

/-- **`Match` is a well-defined maximum.**  It finds a policy if one is eligible, and then
the one that outranks all the others; the order of the policies and those that are not
eligible do not matter, nor do labels that no policy selects by. -/
theorem match_is_maximum (L : Libraries) (policies : List MailPolicy) (caller : Caller)
    (hdistinct : DistinctNames policies) :
    (policyMatch L policies caller = none ↔ ∀ p ∈ policies, ¬ Eligible L caller p) ∧
    (∀ p, policyMatch L policies caller = some p ↔ p ∈ policies ∧ Eligible L caller p ∧
      ∀ q ∈ policies, Eligible L caller q → q ≠ p →
        q.spec.priority < p.spec.priority ∨
          q.spec.priority = p.spec.priority ∧ p.name < q.name) ∧
    (∀ policies', policies'.Perm policies →
      policyMatch L policies' caller = policyMatch L policies caller) ∧
    (∀ others policies', (∀ q ∈ others, q.ns ≠ caller.ns ∨ ¬ Eligible L caller q) →
      policies'.Perm (policies ++ others) →
        policyMatch L policies' caller = policyMatch L policies caller) ∧
    (needsSALabels policies = false → ∀ labels known,
      policyMatch L policies { caller with saLabels := labels, saLabelsKnown := known } =
        policyMatch L policies caller) := by
  refine ⟨policyMatch_eq_none_iff, fun p => policyMatch_eq_some_iff hdistinct, ?_, ?_, ?_⟩
  · intro policies' hperm
    exact policyMatch_congr hdistinct (hperm.filter _)
  · intro others policies' hothers hperm
    refine policyMatch_congr hdistinct ((hperm.filter _).trans ?_)
    have hnone : others.filter (isCandidate L caller) = [] := by
      rw [List.filter_eq_nil_iff]
      intro q hq hcandidate
      have heligible := isCandidate_iff.mp hcandidate
      rcases hothers q hq with hns | hnot
      · exact hns heligible.ns
      · exact hnot heligible
    rw [List.filter_append, hnone, List.append_nil]
  · intro hneeds labels known
    rw [policyMatch, policyMatch]
    have hfilter : policies.filter
        (isCandidate L { caller with saLabels := labels, saLabelsKnown := known }) =
        policies.filter (isCandidate L caller) :=
      List.filter_congr fun p hp => isCandidate_congr hneeds hp labels known
    rw [hfilter]

/-- A policy for one service account. -/
def appPolicy (name : Bytes) (priority : Int) : MailPolicy where
  name := name
  ns := lit "team"
  uid := []
  generation := 0
  spec :=
    { priority := priority
      subjects := [⟨some (lit "app"), none, none⟩]
      backendRef := ⟨lit "relay", .unset⟩
      senderRestrictions := none
      recipientRestrictions := none
      rateLimits := none
      messageLimits := none
      legacyAuth := none }

theorem match_is_maximum_tie :
    DistinctNames [appPolicy (lit "b") 1, appPolicy (lit "c") 0, appPolicy (lit "a") 1] ∧
      ∀ p, policyMatch .plain
        [appPolicy (lit "b") 1, appPolicy (lit "c") 0, appPolicy (lit "a") 1]
        ⟨lit "team", lit "app", [], false, false, []⟩ = some p ↔ p = appPolicy (lit "a") 1 := by
  have hdistinct :
      DistinctNames [appPolicy (lit "b") 1, appPolicy (lit "c") 0, appPolicy (lit "a") 1] := by
    unfold DistinctNames
    decide
  have hbest := (match_is_maximum .plain _ ⟨lit "team", lit "app", [], false, false, []⟩
    hdistinct).2.1
  refine ⟨hdistinct, fun p => ?_⟩
  have hfirst : policyMatch .plain
      [appPolicy (lit "b") 1, appPolicy (lit "c") 0, appPolicy (lit "a") 1]
      ⟨lit "team", lit "app", [], false, false, []⟩ = some (appPolicy (lit "a") 1) := by
    refine (hbest _).mpr ⟨by decide, ?_, ?_⟩
    · refine ⟨rfl, fun hlegacy => ?_, _, List.mem_cons_self, .serviceAccount rfl⟩
      exact absurd hlegacy Bool.false_ne_true
    · intro q hq _ hne
      simp only [List.mem_cons, List.not_mem_nil, or_false] at hq
      rcases hq with rfl | rfl | rfl
      · exact .inr ⟨rfl, by decide⟩
      · exact .inl (by decide)
      · exact absurd rfl hne
  rw [hfirst, Option.some.injEq, eq_comm]

end Choice
end Sigillum
