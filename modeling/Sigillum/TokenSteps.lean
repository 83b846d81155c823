import Sigillum.TokenBroker

/-! # What one `Ensure` does

`Ensured` says once what `Ensure` can do from a state it has: which calls it makes, in
which order, and the state it leaves.  From that follows which refresh token it redeems
and which it keeps, and that it asks the guard before it redeems or writes anything.
-/
namespace Sigillum
open Runes Bytes Interaction

namespace Broker
open Controller

abbrev BrokerTrace := Trace Call Call.Answer

/-! ## What one `Ensure` does -/

section Ensured
variable (L : TokenLibraries) (d : DelegatedBackend)

/-- The calls of `write`, and what it returns. -/
inductive Wrote (st : BrokerState) : BrokerTrace → Option (Bool × APIError) → Prop
  | created : Wrote st [⟨.createSecret (tokenSecret L d st), none⟩] none
  | failed (err : APIError) :
    Wrote st [⟨.createSecret (tokenSecret L d st), some err⟩] (some (false, err))
  | patched (err : APIError) :
    Wrote st [⟨.createSecret (tokenSecret L d st), some err⟩,
      ⟨.patchSecret (tokenPatch L d st), none⟩] none
  | refused (err err' : APIError) :
    Wrote st [⟨.createSecret (tokenSecret L d st), some err⟩,
      ⟨.patchSecret (tokenPatch L d st), some err'⟩] (some (err'.kind = .invalid, err'))

/-- The calls of `Ensure` from the state it starts with, and the state it leaves. -/
inductive Ensured (now : Int) (st : BrokerState) : BrokerTrace → BrokerState → Prop
  | idle (h : st.refreshToken = [] ∨ st.stored = true ∧ now < st.refreshAt) : Ensured now st [] st
  | unguarded (msg : Bytes) : Ensured now st [⟨.guardOK, (false, msg)⟩] st
  | failed (msg : Bytes) (err : TokenError) (hdue : st.refreshAt ≤ now) :
    Ensured now st [⟨.guardOK, (true, msg)⟩,
      ⟨.post d.refresher.tokenURL (d.refresher.form st.refreshToken), .error err⟩] st
  | retried (msg : Bytes) {t : BrokerTrace} {out : Option (Bool × APIError)}
    (hnow : now < st.refreshAt) (hstored : st.stored = false) (htoken : st.refreshToken ≠ [])
    (hwrote : Wrote L d st t out) :
    Ensured now st (⟨.guardOK, (true, msg)⟩ :: t) { st with stored := out.isNone }
  | refreshed (msg : Bytes) (tok : Token) (sent next : Bytes) {t : BrokerTrace}
    {out : Option (Bool × APIError)} (hdue : st.refreshAt ≤ now)
    (hnext : next = if sent = [] then st.refreshToken else sent) (htoken : next ≠ [])
    (hwrote : Wrote L d (st.refreshed now tok next) t out) :
    Ensured now st (⟨.guardOK, (true, msg)⟩ ::
      ⟨.post d.refresher.tokenURL (d.refresher.form st.refreshToken), .ok (tok, sent)⟩ :: t)
      { st.refreshed now tok next with stored := out.isNone }

variable {L d} {now : Int} {st : BrokerState} {t : BrokerTrace}

theorem wrote_of_ran {out : Option (Bool × APIError)} (h : (write L d st).Ran t out) :
    Wrote L d st t out := by
  obtain ⟨created, t₂, rfl, hrest⟩ := Prog.ran_call.mp h
  cases created with
  | none =>
    obtain ⟨rfl, rfl⟩ := Prog.ran_pure.mp hrest
    exact .created
  | some err =>
    dsimp only at hrest
    split at hrest
    · obtain ⟨rfl, rfl⟩ := Prog.ran_pure.mp hrest
      exact .failed err
    · obtain ⟨patched, t₄, rfl, hend⟩ := Prog.ran_call.mp hrest
      cases patched with
      | none =>
        obtain ⟨rfl, rfl⟩ := Prog.ran_pure.mp hend
        exact .patched err
      | some err' =>
        obtain ⟨rfl, rfl⟩ := Prog.ran_pure.mp hend
        exact .refused err err'

theorem wrote_of_ran_store {res : BrokerResult} {st' : BrokerState} (hstored : st.stored = false)
    (h : (store L d now st).Ran t (res, st')) :
    ∃ out, Wrote L d st t out ∧ st' = { st with stored := out.isNone } := by
  obtain ⟨t₁, out, t₂, rfl, hwrite, hrest⟩ := Prog.ran_bind.mp h
  refine ⟨out, ?_⟩
  cases out with
  | none =>
    obtain ⟨rfl, ⟨⟩⟩ := Prog.ran_pure.mp hrest
    rw [List.append_nil]
    exact ⟨wrote_of_ran hwrite, rfl⟩
  | some failure =>
    obtain ⟨rfl, ⟨⟩⟩ := Prog.ran_pure.mp hrest
    rw [List.append_nil]
    refine ⟨wrote_of_ran hwrite, ?_⟩
    rw [Option.isNone_some, ← hstored]

/-- **All that `Ensure` can do** once its state is there. -/
theorem ensured_of_ran {res : BrokerResult} {st' : BrokerState}
    (h : (ensureLoaded L d now st).Ran t (res, st')) : Ensured L d now st t st' := by
  unfold ensureLoaded at h
  split at h
  · rename_i hempty
    obtain ⟨rfl, ⟨⟩⟩ := Prog.ran_pure.mp h
    exact .idle (.inl hempty)
  rename_i htoken
  split at h
  · rename_i hfresh
    obtain ⟨rfl, ⟨⟩⟩ := Prog.ran_pure.mp h
    exact .idle (.inr hfresh)
  rename_i hdue
  obtain ⟨⟨ok, msg⟩, t₂, rfl, hrest⟩ := Prog.ran_call.mp h
  cases ok with
  | false =>
    obtain ⟨rfl, ⟨⟩⟩ := Prog.ran_pure.mp hrest
    exact .unguarded msg
  | true =>
    dsimp only at hrest
    rw [if_neg (by decide)] at hrest
    split at hrest
    · -- the token in memory is not stored yet, and not due
      rename_i hnow
      have hstored : st.stored = false := Bool.eq_false_iff.mpr fun h => hdue ⟨h, hnow⟩
      obtain ⟨out, hwrote, rfl⟩ := wrote_of_ran_store hstored hrest
      exact .retried msg hnow hstored htoken hwrote
    · rename_i hnow
      obtain ⟨t₃, answer, t₄, rfl, hrefresh, hend⟩ := Prog.ran_bind.mp hrest
      obtain ⟨sent, t₆, rfl, hanswer⟩ := Prog.ran_call.mp hrefresh
      cases sent with
      | error err =>
        obtain ⟨rfl, rfl⟩ := Prog.ran_pure.mp hanswer
        obtain ⟨rfl, ⟨⟩⟩ := Prog.ran_pure.mp hend
        exact .failed msg err (not_lt.mp hnow)
      | ok sent =>
        obtain ⟨rfl, rfl⟩ := Prog.ran_pure.mp hanswer
        obtain ⟨out, hwrote, rfl⟩ := wrote_of_ran_store rfl hend
        refine .refreshed msg sent.1 sent.2 _ (not_lt.mp hnow) rfl ?_ hwrote
        split
        · exact htoken
        · assumption

end Ensured

/-! ## The refresh tokens of a trace -/

/-- The refresh token an answer of the provider brings. -/
def returned : Event Call Call.Answer → Option Bytes
  | ⟨.post _ _, .ok (_, next)⟩ => if next = [] then none else some next
  | _ => none

/-- The refresh token the provider returned last, `origin` if it returned none. -/
def latest (origin : Bytes) (t : BrokerTrace) : Bytes :=
  (t.filterMap returned).getLast?.getD origin

/-- A request to the provider presents the latest refresh token. -/
def Presents (origin : Bytes) (t : BrokerTrace) : Call → Prop
  | .post _ form => form.lookup (lit "refresh_token") = some (latest origin t)
  | _ => True

/-- What the guard was found to be. -/
def guardFound : Event Call Call.Answer → Option Bool
  | ⟨.guardOK, (ok, _)⟩ => some ok
  | _ => none

/-- The guard was found in place. -/
def Allowed (t : BrokerTrace) : Prop := ∃ e ∈ t, guardFound e = some true

/-- Nothing is redeemed or written before the guard was found in place. -/
def Guarded (t : BrokerTrace) : Call → Prop
  | .post _ _ | .createSecret _ | .patchSecret _ => Allowed t
  | .getSecret _ _ | .guardOK => True

/-- Whatever the answers are. -/
abbrev AnyAnswer (_ : Event Call Call.Answer) : Prop := True

section Tokens
variable {L : TokenLibraries} {d : DelegatedBackend} {now : Int} {st st' : BrokerState}
  {t past : BrokerTrace} {origin : Bytes}

theorem latest_append (t' : BrokerTrace) :
    latest origin (t ++ t') = latest (latest origin t) t' := by
  rw [latest, List.filterMap_append, List.getLast?_append, latest, latest]
  cases (t'.filterMap returned).getLast? <;> rfl

/-- What returns no refresh token leaves the latest as it is. -/
theorem latest_of_not_returned (h : ∀ e ∈ t, returned e = none) : latest origin t = origin := by
  rw [latest, List.filterMap_eq_nil_iff.mpr h]
  rfl

theorem lookup_form (r : RefreshToken) (refreshToken : Bytes) :
    (r.form refreshToken).lookup (lit "refresh_token") = some refreshToken := by
  have hgrant : (lit "refresh_token" == lit "grant_type") = false := by decide
  simp [RefreshToken.form, List.lookup_cons, hgrant]

theorem Wrote.writes {out : Option (Bool × APIError)} (h : Wrote L d st t out) :
    ∀ e ∈ t, e.1.writes = true := by
  cases h <;> simp [Call.writes]

theorem Wrote.latest {out : Option (Bool × APIError)} (h : Wrote L d st t out) (origin : Bytes) :
    latest origin t = origin := by
  refine latest_of_not_returned fun ⟨c, a⟩ he => ?_
  have hc := h.writes _ he
  cases c <;> first | rfl | cases hc

/-- Writes ask neither the guard nor the provider. -/
theorem Wrote.meets {out : Option (Bool × APIError)} (h : Wrote L d st t out)
    {G : BrokerTrace → Call → Prop} (hG : ∀ t c, c.writes = true → G t c) :
    Meets AnyAnswer G t := by
  rintro earlier later e rfl
  exact ⟨hG _ _ (h.writes e (List.mem_append_right _ List.mem_cons_self)), trivial⟩

theorem presents_of_writes {c : Call} (h : c.writes = true) : Presents origin t c := by
  cases c <;> trivial

/-- **`Ensure` redeems the token in memory**, and keeps what the provider returns. -/
theorem Ensured.presents (h : Ensured L d now st t st') :
    Meets AnyAnswer (Presents st.refreshToken) t ∧
      st'.refreshToken = latest st.refreshToken t ∧ st'.seed = st.seed := by
  cases h with
  | idle => exact ⟨meets_nil, rfl, rfl⟩
  | unguarded msg => exact ⟨by simp [meets_cons, meets_nil, Presents], rfl, rfl⟩
  | failed msg err =>
    refine ⟨meets_cons.mpr ⟨⟨trivial, trivial⟩,
      meets_cons.mpr ⟨⟨?_, trivial⟩, meets_nil⟩⟩, rfl, rfl⟩
    exact lookup_form _ _
  | retried msg _ _ _ hwrote =>
    refine ⟨?_, ?_, rfl⟩
    · exact meets_cons.mpr ⟨⟨trivial, trivial⟩, hwrote.meets fun _ _ => presents_of_writes⟩
    · exact (hwrote.latest _).symm
  | refreshed msg tok sent next _ hnext _ hwrote =>
    refine ⟨?_, ?_, rfl⟩
    · refine meets_cons.mpr ⟨⟨trivial, trivial⟩, meets_cons.mpr ⟨⟨?_, trivial⟩, ?_⟩⟩
      · exact lookup_form _ _
      · exact hwrote.meets fun _ _ => presents_of_writes
    · have hwrites := hwrote.latest (latest st.refreshToken [⟨.guardOK, (true, msg)⟩,
        ⟨.post d.refresher.tokenURL (d.refresher.form st.refreshToken), .ok (tok, sent)⟩])
      rw [← latest_append] at hwrites
      refine Eq.trans ?_ hwrites.symm
      rw [hnext]
      by_cases hsent : sent = [] <;> simp [latest, returned, hsent, BrokerState.refreshed]

end Tokens
/-! ## Loading -/

section Loading
variable {L : TokenLibraries} {d : DelegatedBackend} {now : Int} {st' : BrokerState}
  {t : BrokerTrace}

/-- The state `load` comes to. -/
def loaded (L : TokenLibraries) (d : DelegatedBackend) :
    Except APIError SecretObject → BrokerState
  | .error _ => .fresh L d
  | .ok sec => .resumed L d sec

/-- `Ensure` goes on with the state in memory, or with one it loads. -/
theorem ensured_of_ran_ensure {memory : Option BrokerState} {res : BrokerResult}
    (h : (ensure L d now memory).Ran t (res, st')) :
    (∃ st, memory = some st ∧ st.seed = seedHash L d.seed ∧ Ensured L d now st t st') ∨
      (∀ st, memory = some st → st.seed ≠ seedHash L d.seed) ∧
        ∃ a t', t = ⟨.getSecret d.ns (d.secretName L), a⟩ :: t' ∧
          Ensured L d now (loaded L d a) t' st' := by
  obtain ⟨t₁, st, t₂, rfl, hload, hrest⟩ := Prog.ran_bind.mp h
  have hloaded : (load L d).Ran t₁ st → ∃ a t', t₁ ++ t₂ =
      ⟨.getSecret d.ns (d.secretName L), a⟩ :: t' ∧ Ensured L d now (loaded L d a) t' st' := by
    intro hran
    obtain ⟨a, t₄, rfl, hend⟩ := Prog.ran_call.mp hran
    refine ⟨a, t₂, ?_, ?_⟩
    · cases a <;> (obtain ⟨rfl, -⟩ := Prog.ran_pure.mp hend; rfl)
    · cases a <;> (obtain ⟨-, rfl⟩ := Prog.ran_pure.mp hend; exact ensured_of_ran hrest)
  cases memory with
  | none => exact .inr ⟨nofun, hloaded hload⟩
  | some st₀ =>
    rw [remembered] at hload
    split at hload
    · rename_i hseed
      obtain ⟨rfl, rfl⟩ := Prog.ran_pure.mp hload
      exact .inl ⟨st, rfl, hseed, ensured_of_ran hrest⟩
    · rename_i hseed
      refine .inr ⟨?_, hloaded hload⟩
      rintro st ⟨⟩
      exact hseed

theorem resumed_of_descends {sec : SecretObject} (h : Descends L d sec) :
    (BrokerState.resumed L d sec).refreshToken = entry sec.data refreshTokenKey := by
  rw [BrokerState.resumed, if_pos h]
  cases accessTokenFromSecret L sec with
  | error err => rfl
  | ok tok => cases L.parseTime (entry sec.annotations refreshAtAnnotation) <;> rfl

theorem resumed_of_not_descends {sec : SecretObject} (h : ¬ Descends L d sec) :
    BrokerState.resumed L d sec = .fresh L d := if_neg h

theorem seed_resumed (sec : SecretObject) :
    (BrokerState.resumed L d sec).seed = seedHash L d.seed := by
  by_cases h : Descends L d sec
  · rw [BrokerState.resumed, if_pos h]
    cases accessTokenFromSecret L sec with
    | error err => rfl
    | ok tok => cases L.parseTime (entry sec.annotations refreshAtAnnotation) <;> rfl
  · rw [resumed_of_not_descends h]
    rfl

end Loading

/-! ## The guard -/

section Guard
variable {L : TokenLibraries} {d : DelegatedBackend} {now : Int} {st : BrokerState}
  {t : BrokerTrace}

theorem Allowed.concat (h : Allowed t) (e : Event Call Call.Answer) : Allowed (t ++ [e]) := by
  obtain ⟨e', he', hfound⟩ := h
  exact ⟨e', List.mem_append_left _ he', hfound⟩

theorem allowed_guardOK (t : BrokerTrace) (msg : Bytes) :
    Allowed (t ++ [⟨.guardOK, (true, msg)⟩]) :=
  ⟨_, List.mem_append_right t List.mem_cons_self, rfl⟩

theorem store_guarded (h : Allowed t) :
    (store L d now st).Keeps AnyAnswer Guarded (fun _ _ => True) t := by
  refine Prog.keeps_bind.mpr (Prog.keeps_call.mpr ⟨h, fun created _ => ?_⟩)
  cases created with
  | none => trivial
  | some err =>
    dsimp only
    split
    · trivial
    · refine Prog.keeps_call.mpr ⟨h.concat _, fun patched _ => ?_⟩
      cases patched <;> trivial

theorem ensureLoaded_guarded (t : BrokerTrace) :
    (ensureLoaded L d now st).Keeps AnyAnswer Guarded (fun _ _ => True) t := by
  unfold ensureLoaded
  split
  · trivial
  split
  · trivial
  refine Prog.keeps_call.mpr ⟨trivial, fun found _ => ?_⟩
  obtain ⟨ok, msg⟩ := found
  cases ok with
  | false => trivial
  | true =>
    have hallowed := allowed_guardOK t msg
    dsimp only
    rw [if_neg (by decide)]
    split
    · exact store_guarded hallowed
    · refine Prog.keeps_bind.mpr (Prog.keeps_call.mpr ⟨hallowed, fun sent _ => ?_⟩)
      cases sent with
      | error err => trivial
      | ok sent => exact store_guarded (hallowed.concat _)

/-- **The guard is asked before anything is redeemed or written.** -/
theorem ensure_guarded (memory : Option BrokerState) :
    (ensure L d now memory).Keeps AnyAnswer Guarded (fun _ _ => True) [] := by
  have hload : (load L d).Keeps AnyAnswer Guarded
      (fun t st => (ensureLoaded L d now st).Keeps AnyAnswer Guarded (fun _ _ => True) t) [] := by
    refine Prog.keeps_bind.mpr ⟨trivial, fun read _ => ?_⟩
    cases read <;> exact ensureLoaded_guarded _
  refine Prog.keeps_bind.mpr ?_
  cases memory with
  | none => exact hload
  | some st =>
    rw [remembered]
    split
    · exact ensureLoaded_guarded _
    · exact hload

end Guard
end Broker
end Sigillum
