import Sigillum.Machine
import Sigillum.TokenSteps

/-! # The chain of refresh tokens

A rotated refresh token is never lost: over any number of `Ensure` for one sign-in, and
with restarts whenever memory and Secret agree, each request to the provider presents
the refresh token it returned last.

`Holds` is the invariant of a run: memory holds the latest refresh token, and a state
marked stored is the one in the Secret.  `Pending` is what a failed write leaves until
the Secret is written.
-/
namespace Sigillum
open Runes Bytes Interaction Machine

namespace Broker
open Controller

/-! ## Runs -/

/-- What the broker holds in memory for the backend, and the token Secret. -/
structure World where
  memory : Option BrokerState
  secret : Option SecretObject

/-- How the API server answers a call.  A read may fail, and an error may be all that is
seen of a write that was made. -/
def Answers (s : Option SecretObject) : (c : Call) → c.Answer → Option SecretObject → Prop
  | .getSecret _ _, a, s' => s' = s ∧ ∀ sec, a = .ok sec → s = some sec
  | .createSecret sec, a, s' => s = none ∧ s' = some sec ∨ a ≠ none ∧ s' = s
  | .patchSecret p, a, s' =>
    (∃ old new, s = some old ∧ p.apply old = some new ∧ s' = some new) ∨ a ≠ none ∧ s' = s
  | _, _, s' => s' = s

/-- A call, before which the Secret may get deleted. -/
def serve (s : Option SecretObject) (c : Call) (a : c.Answer) (s' : Option SecretObject) : Prop :=
  Answers s c a s' ∨ Answers none c a s'

/-- One `Ensure` of a run. -/
structure Ensuring where
  now : Int
  trace : BrokerTrace
  result : BrokerResult

/-- One step of a run for a backend, which may get another client for the token endpoint
at any time.  A restart loses what is in memory; it comes where that is marked stored,
and the next `Ensure` can read the Secret. -/
inductive Step (L : TokenLibraries) (d : DelegatedBackend) : World → Ensuring → World → Prop
  | ensure {w : World} {now : Int} {t : BrokerTrace} {res : BrokerResult} {st : BrokerState}
    {s' : Option SecretObject} (refresher : RefreshToken)
    (hran : (ensure L { d with refresher := refresher } now w.memory).Ran t (res, st))
    (hserved : Served serve w.secret t s') : Step L d w ⟨now, t, res⟩ ⟨some st, s'⟩
  | restart {w : World} {now : Int} {t : BrokerTrace} {res : BrokerResult} {old st : BrokerState}
    {s' : Option SecretObject} (refresher : RefreshToken) (hmemory : w.memory = some old)
    (hstored : old.stored = true)
    (hran : (ensure L { d with refresher := refresher } now none).Ran t (res, st))
    (hserved : Served serve w.secret t s')
    (hreadable : ∀ ns name a, ⟨.getSecret ns name, a⟩ ∈ t → ∃ sec, a = .ok sec) :
    Step L d w ⟨now, t, res⟩ ⟨some st, s'⟩

/-- All that was called in a run. -/
def calls (run : List Ensuring) : BrokerTrace := run.flatMap Ensuring.trace

/-- What a run starts from: the seed, or the refresh token of a Secret that was there
already and descends from it. -/
def Origin (L : TokenLibraries) (d : DelegatedBackend) (secret : Option SecretObject)
    (origin : Bytes) : Prop :=
  origin = d.seed ∨
    ∃ sec, secret = some sec ∧ Descends L d sec ∧ origin = entry sec.data refreshTokenKey

/-! ## Memory and Secret -/

section World
variable {L : TokenLibraries} {d : DelegatedBackend} {now : Int} {st st' : BrokerState}
  {t : BrokerTrace} {s s' : Option SecretObject} {token : Bytes}

/-- The Secret holds a refresh token for the sign-in of the backend. -/
def Carries (L : TokenLibraries) (d : DelegatedBackend) (token : Bytes)
    (secret : Option SecretObject) : Prop :=
  ∀ sec, secret = some sec → Descends L d sec ∧ entry sec.data refreshTokenKey = token

/-- Memory holds the refresh token, and so does the Secret where memory is marked
stored. -/
structure Current (L : TokenLibraries) (d : DelegatedBackend) (token : Bytes)
    (secret : Option SecretObject) (st : BrokerState) : Prop where
  seed : st.seed = seedHash L d.seed
  refreshToken : st.refreshToken = token
  carries : st.stored = true → Carries L d token secret

/-- The Secret as it was, or deleted. -/
def Spared (s s' : Option SecretObject) : Prop := s' = s ∨ s' = none

theorem Carries.spared (h : Carries L d token s) (hspared : Spared s s') :
    Carries L d token s' := by
  rcases hspared with rfl | rfl
  · exact h
  · exact nofun

theorem spared_guardOK {a : Bool × Bytes} (h : serve s .guardOK a s') : Spared s s' := h

theorem spared_post {url : Bytes} {form : List (Bytes × Bytes)}
    {a : Except TokenError (Token × Bytes)} (h : serve s (.post url form) a s') : Spared s s' := h

/-- What is read is what is there. -/
theorem serve_getSecret {ns name : Bytes} {a : Except APIError SecretObject}
    (h : serve s (.getSecret ns name) a s') :
    Spared s s' ∧ ∀ sec, a = .ok sec → s = some sec ∧ s' = some sec := by
  rcases h with ⟨rfl, hread⟩ | ⟨rfl, hread⟩
  · exact ⟨.inl rfl, fun sec ha => ⟨hread sec ha, hread sec ha⟩⟩
  · exact ⟨.inr rfl, fun sec ha => absurd (hread sec ha) nofun⟩

theorem entry_tokenData (st : BrokerState) :
    entry (tokenData L st) refreshTokenKey = st.refreshToken := by
  simp [entry, tokenData]

/-- The Secret that is created carries what is in memory. -/
theorem carries_tokenSecret (hseed : st.seed = seedHash L d.seed) (htoken : st.refreshToken ≠ []) :
    Carries L d st.refreshToken (some (tokenSecret L d st)) := by
  rintro sec ⟨⟩
  have huid : entry (tokenSecret L d st).annotations tokenUIDAnnotation = d.uid := by
    simp [entry, tokenSecret]
  have hseedKey : ( seedAnnotation == tokenUIDAnnotation) = false := by decide
  have hannotation : entry (tokenSecret L d st).annotations seedAnnotation = st.seed := by
    simp [entry, tokenSecret, List.lookup_cons, hseedKey]
  have hdata : entry (tokenSecret L d st).data refreshTokenKey = st.refreshToken :=
    entry_tokenData st
  exact ⟨⟨huid, hannotation.trans hseed, hdata ▸ htoken⟩, hdata⟩

/-- What the patch makes of a Secret, which its tests keep to the backend's own. -/
theorem tokenPatch_apply {old new : SecretObject} (h : (tokenPatch L d st).apply old = some new) :
    old.annotations.lookup tokenUIDAnnotation = some d.uid ∧
      new = { old with
        data := tokenData L st
        annotations := setEntry refreshAtAnnotation (L.formatTime st.refreshAt)
          (setEntry seedAnnotation st.seed old.annotations) } := by
  obtain ⟨patched, htests, hadds⟩ := Option.bind_eq_some_iff.mp h
  unfold SecretPatch.apply at htests
  split at htests
  · rename_i hall
    simp only [tokenPatch, List.all_cons, List.all_nil, Bool.and_true, Bool.and_eq_true, beq_iff_eq,
      SecretObject.value, pointed_label, pointed_annotation] at hall
    obtain rfl := Option.some.inj htests
    refine ⟨hall.2, ?_⟩
    simp only [tokenPatch, List.foldlM_cons, List.foldlM_nil, SecretObject.add, pointed_annotation,
      Option.bind_eq_bind, Option.bind_some] at hadds
    exact (Option.some.inj hadds).symm
  · cases htests

/-- A Secret that is patched carries it too. -/
theorem carries_tokenPatch {old new : SecretObject} (hseed : st.seed = seedHash L d.seed)
    (htoken : st.refreshToken ≠ []) (h : (tokenPatch L d st).apply old = some new) :
    Carries L d st.refreshToken (some new) := by
  obtain ⟨htest, rfl⟩ := tokenPatch_apply h
  rintro sec ⟨⟩
  refine ⟨⟨?_, ?_, ?_⟩, entry_tokenData st⟩
  · rw [entry_setEntry_of_ne (by decide), entry_setEntry_of_ne (by decide), entry, htest]
    rfl
  · rw [entry_setEntry_of_ne (by decide), entry_setEntry_self, hseed]
  · rw [entry_tokenData]
    exact htoken

/-- **A write that succeeds leaves what is in memory in the Secret.** -/
theorem Wrote.carries (h : Wrote L d st t none) (hseed : st.seed = seedHash L d.seed)
    (htoken : st.refreshToken ≠ []) (hserved : Served serve s t s') :
    Carries L d st.refreshToken s' := by
  cases h with
  | created =>
    obtain ⟨s₁, hcreate, hend⟩ := served_cons.mp hserved
    obtain rfl := served_nil.mp hend
    rcases hcreate with (⟨-, rfl⟩ | ⟨hfailed, -⟩) | (⟨-, rfl⟩ | ⟨hfailed, -⟩)
    · exact carries_tokenSecret hseed htoken
    · exact absurd rfl hfailed
    · exact carries_tokenSecret hseed htoken
    · exact absurd rfl hfailed
  | patched err =>
    obtain ⟨s₁, -, hpatched⟩ := served_cons.mp hserved
    obtain ⟨s₂, hpatch, hend⟩ := served_cons.mp hpatched
    obtain rfl := served_nil.mp hend
    rcases hpatch with (⟨old, new, -, happly, rfl⟩ | ⟨hfailed, -⟩) |
      (⟨old, new, ⟨⟩, -⟩ | ⟨hfailed, -⟩)
    · exact carries_tokenPatch hseed htoken happly
    · exact absurd rfl hfailed
    · exact absurd rfl hfailed

/-- **`Ensure` keeps memory and Secret in step.** -/
theorem Current.ensured {origin : Bytes} {past : BrokerTrace}
    (h : Current L d (latest origin past) s st) (hensured : Ensured L d now st t st')
    (hserved : Served serve s t s') : Current L d (latest origin (past ++ t)) s' st' := by
  obtain ⟨-, htoken, hseed⟩ := hensured.presents
  rw [h.refreshToken, ← latest_append] at htoken
  refine ⟨hseed.trans h.seed, htoken, fun hstored => ?_⟩
  rw [← htoken]
  cases hensured with
  | idle =>
    obtain rfl := served_nil.mp hserved
    rw [h.refreshToken]
    exact h.carries hstored
  | unguarded msg =>
    obtain ⟨s₁, hguard, hend⟩ := served_cons.mp hserved
    obtain rfl := served_nil.mp hend
    rw [h.refreshToken]
    exact (h.carries hstored).spared (spared_guardOK hguard)
  | failed msg err =>
    obtain ⟨s₁, hguard, hrest⟩ := served_cons.mp hserved
    obtain ⟨s₂, hpost, hend⟩ := served_cons.mp hrest
    obtain rfl := served_nil.mp hend
    rw [h.refreshToken]
    exact ((h.carries hstored).spared (spared_guardOK hguard)).spared (spared_post hpost)
  | retried msg _ _ hne hwrote =>
    obtain ⟨s₁, -, hrest⟩ := served_cons.mp hserved
    obtain rfl := Option.isNone_iff_eq_none.mp hstored
    exact hwrote.carries h.seed hne hrest
  | refreshed msg tok sent next _ _ hne hwrote =>
    obtain ⟨s₁, -, hrest⟩ := served_cons.mp hserved
    obtain ⟨s₂, -, hwrites⟩ := served_cons.mp hrest
    obtain rfl := Option.isNone_iff_eq_none.mp hstored
    exact hwrote.carries h.seed hne hwrites

/-- **What is loaded is in step with the Secret**, and a token of the run to come. -/
theorem current_loaded {ns name : Bytes} {a : Except APIError SecretObject}
    (h : serve s (.getSecret ns name) a s') :
    Current L d (loaded L d a).refreshToken s' (loaded L d a) ∧
      Origin L d s (loaded L d a).refreshToken := by
  cases a with
  | error err => exact ⟨⟨rfl, rfl, nofun⟩, .inl rfl⟩
  | ok sec =>
    obtain ⟨rfl, rfl⟩ := (serve_getSecret h).2 sec rfl
    by_cases hdescends : Descends L d sec
    · have htoken := resumed_of_descends hdescends
      refine ⟨⟨seed_resumed sec, rfl, ?_⟩, .inr ⟨sec, rfl, hdescends, htoken⟩⟩
      rintro - sec' ⟨⟩
      exact ⟨hdescends, htoken.symm⟩
    · rw [loaded, resumed_of_not_descends hdescends]
      exact ⟨⟨rfl, rfl, nofun⟩, .inl rfl⟩

end World

/-! ## Whole runs -/

section Runs
variable {L : TokenLibraries} {d : DelegatedBackend} {w w' : World} {e : Ensuring}

/-- What a run has come to: nothing yet, or a chain of refresh tokens that goes on with
the one in memory. -/
inductive Holds (L : TokenLibraries) (d : DelegatedBackend) (secret : Option SecretObject) :
    List Ensuring → World → Prop
  | start : Holds L d secret [] ⟨none, secret⟩
  | chain {run : List Ensuring} {s : Option SecretObject} {st : BrokerState} (origin : Bytes)
    (horigin : Origin L d secret origin)
    (hcurrent : Current L d (latest origin (calls run)) s st)
    (hpresents : Meets AnyAnswer (Presents origin) (calls run)) : Holds L d secret run ⟨some st, s⟩

theorem calls_concat (run : List Ensuring) (e : Ensuring) :
    calls (run ++ [e]) = calls run ++ e.trace := by
  simp [calls]

/-- The chain does not depend on the client for the token endpoint. -/
theorem current_client {token : Bytes} {s : Option SecretObject} {st : BrokerState}
    (refresher : RefreshToken) :
    Current L { d with refresher := refresher } token s st ↔ Current L d token s st :=
  ⟨fun h => ⟨h.seed, h.refreshToken, h.carries⟩, fun h => ⟨h.seed, h.refreshToken, h.carries⟩⟩

theorem presents_append (origin : Bytes) (past t : BrokerTrace) (c : Call) :
    Presents origin (past ++ t) c ↔ Presents (latest origin past) t c := by
  cases c with
  | post url form => rw [Presents, Presents, latest_append]
  | _ => rfl

/-- What is left of an `Ensure` takes the chain on. -/
theorem Holds.next {secret s s' : Option SecretObject} {run : List Ensuring} {origin : Bytes}
    {refresher : RefreshToken} {t : BrokerTrace} {st st' : BrokerState} (before : BrokerTrace)
    (horigin : Origin L d secret origin)
    (hpresents : Meets AnyAnswer (Presents origin) (calls run ++ before))
    (hcurrent : Current L d (latest origin (calls run ++ before)) s st)
    (hensured : Ensured L { d with refresher := refresher } e.now st t st')
    (hserved : Served serve s t s') (htrace : e.trace = before ++ t) :
    Holds L d secret (run ++ [e]) ⟨some st', s'⟩ := by
  have hall : calls (run ++ [e]) = calls run ++ before ++ t := by
    rw [calls_concat, htrace, List.append_assoc]
  refine .chain origin horigin ?_ ?_
  · rw [hall]
    exact (current_client refresher).mp
      (((current_client refresher).mpr hcurrent).ensured hensured hserved)
  · rw [hall, meets_append]
    refine ⟨hpresents, ?_⟩
    have hnew := hensured.presents.1
    rw [hcurrent.refreshToken] at hnew
    intro earlier later e' he
    exact ⟨(presents_append _ _ _ _).mpr (hnew earlier later e' he).1, trivial⟩

/-- A read of the Secret presents nothing. -/
theorem meets_getSecret {origin ns name : Bytes} {past : BrokerTrace}
    (a : Except APIError SecretObject) (h : Meets AnyAnswer (Presents origin) past) :
    Meets AnyAnswer (Presents origin) (past ++ [⟨.getSecret ns name, a⟩]) :=
  meets_concat.mpr ⟨h, trivial, trivial⟩

theorem latest_getSecret {origin ns name : Bytes} {past : BrokerTrace}
    (a : Except APIError SecretObject) :
    latest origin (past ++ [⟨.getSecret ns name, a⟩]) = latest origin past :=
  latest_append _

/-- **Each step of a run takes the chain on.** -/
theorem Holds.step {secret : Option SecretObject} {run : List Ensuring}
    (h : Holds L d secret run w) (hstep : Step L d w e w') :
    Holds L d secret (run ++ [e]) w' := by
  cases hstep with
  | ensure refresher hran hserved =>
    cases h with
    | start =>
      -- the first one loads, which is where the chain begins
      obtain ⟨st, ⟨⟩, -⟩ | ⟨-, a, t', rfl, hensured⟩ := ensured_of_ran_ensure hran
      obtain ⟨s₁, hget, hrest⟩ := served_cons.mp hserved
      obtain ⟨hcurrent, horigin⟩ := current_loaded hget
      exact .next [_] horigin (meets_getSecret a meets_nil) hcurrent hensured hrest rfl
    | @chain _ s st origin horigin hcurrent hpresents =>
      obtain ⟨_, ⟨⟩, -, hensured⟩ | ⟨hother, -⟩ := ensured_of_ran_ensure hran
      · refine .next [] horigin ?_ ?_ hensured hserved rfl
        · rwa [List.append_nil]
        · rwa [List.append_nil]
      · exact absurd hcurrent.seed (hother st rfl)
  | restart refresher hmemory hstored hran hserved hreadable =>
    cases h with
    | start => cases hmemory
    | @chain _ s st origin horigin hcurrent hpresents =>
      obtain rfl := Option.some.inj hmemory
      obtain ⟨_, ⟨⟩, -⟩ | ⟨-, a, t', rfl, hensured⟩ := ensured_of_ran_ensure hran
      obtain ⟨s₁, hget, hrest⟩ := served_cons.mp hserved
      -- the Secret that is read carries what was in memory
      obtain ⟨sec, rfl⟩ := hreadable _ _ a List.mem_cons_self
      obtain ⟨hdescends, htoken⟩ :=
        hcurrent.carries hstored sec ((serve_getSecret hget).2 sec rfl).1
      refine .next [_] horigin (meets_getSecret (.ok sec) hpresents) ?_ hensured hrest rfl
      rw [latest_getSecret, ← htoken, ← resumed_of_descends hdescends]
      exact (current_loaded hget).1

/-! ## Retrying a write -/

/-- The token an answer of the provider brings. -/
def granted : Event Call Call.Answer → Option Token
  | ⟨.post _ _, .ok (tok, _)⟩ => some tok
  | _ => none

/-- The provider returned a token. -/
def Refreshes (t : BrokerTrace) (tok : Token) : Prop := ∃ e ∈ t, granted e = some tok

/-- A write that succeeded. -/
def stores : Event Call Call.Answer → Bool
  | ⟨.createSecret _, none⟩ | ⟨.patchSecret _, none⟩ => true
  | _ => false

/-- The Secret was written. -/
def Stores (t : BrokerTrace) : Prop := ∃ e ∈ t, stores e = true

/-- The guard was found missing. -/
def Denied (t : BrokerTrace) : Prop := ∃ e ∈ t, guardFound e = some false

/-- The Secret was to be written. -/
def Tries (t : BrokerTrace) (sec : SecretObject) : Prop := ∃ a, ⟨.createSecret sec, a⟩ ∈ t

/-- The token in memory is not in the Secret `sec`, where it belongs. -/
structure Pending (L : TokenLibraries) (d : DelegatedBackend) (refreshAt : Int)
    (sec : SecretObject) (w : World) (st : BrokerState) : Prop where
  memory : w.memory = some st
  seed : st.seed = seedHash L d.seed
  refreshToken : st.refreshToken ≠ []
  stored : st.stored = false
  refreshAt : st.refreshAt = refreshAt
  secret : sec = tokenSecret L d st

section Retry
variable {t : BrokerTrace} {st st' : BrokerState} {now refreshAt : Int} {tok : Token}
  {sec : SecretObject}

theorem Stores.append_left {before : BrokerTrace} (h : Stores t) : Stores (before ++ t) := by
  obtain ⟨e, he, hstores⟩ := h
  exact ⟨e, List.mem_append_right _ he, hstores⟩

theorem Tries.append_left (before : BrokerTrace) (h : Tries t sec) : Tries (before ++ t) sec := by
  obtain ⟨a, hmem⟩ := h
  exact ⟨a, List.mem_append_right _ hmem⟩

theorem Wrote.tries {out : Option (Bool × APIError)} (h : Wrote L d st t out) :
    Tries t (tokenSecret L d st) := by
  cases h <;> exact ⟨_, List.mem_cons_self⟩

theorem Wrote.eq_none_iff {out : Option (Bool × APIError)} (h : Wrote L d st t out) :
    out = none ↔ Stores t := by
  cases h <;> simp [Stores, stores]

/-- Where the provider returns a token, it is kept in memory until it is stored. -/
theorem Ensured.refreshes (h : Ensured L d now st t st') (hrefreshes : Refreshes t tok) :
    ∃ next before t' out, t = before ++ t' ∧ next ≠ [] ∧
      Wrote L d (st.refreshed now tok next) t' out ∧
      st' = { st.refreshed now tok next with stored := out.isNone } := by
  have hwrites : ∀ e : Event Call Call.Answer, e.1.writes = true → granted e ≠ some tok := by
    rintro ⟨c, a⟩ hc
    cases c <;> simp [granted, Call.writes] at hc ⊢
  obtain ⟨e, he, hgranted⟩ := hrefreshes
  cases h with
  | idle => cases he
  | unguarded msg =>
    obtain rfl := List.mem_singleton.mp he
    cases hgranted
  | failed msg err =>
    rcases List.mem_cons.mp he with rfl | he
    · cases hgranted
    · obtain rfl := List.mem_singleton.mp he
      cases hgranted
  | retried msg _ _ _ hwrote =>
    rcases List.mem_cons.mp he with rfl | he
    · cases hgranted
    · exact absurd hgranted (hwrites e (hwrote.writes e he))
  | refreshed msg tok' sent next _ _ htoken hwrote =>
    rcases List.mem_cons.mp he with rfl | he
    · cases hgranted
    rcases List.mem_cons.mp he with rfl | he
    · obtain rfl := Option.some.inj hgranted
      exact ⟨next, [_, _], _, _, rfl, htoken, hwrote, rfl⟩
    · exact absurd hgranted (hwrites e (hwrote.writes e he))

/-- `Ensure` goes on with a state for the sign-in, which it may have loaded first. -/
theorem Step.ensured (h : Step L d w e w') :
    ∃ refresher before st t st', e.trace = before ++ t ∧
      (∀ e' ∈ before, ∃ ns name, e'.1 = .getSecret ns name) ∧ st.seed = seedHash L d.seed ∧
      Ensured L { d with refresher := refresher } e.now st t st' ∧ w'.memory = some st' := by
  have hran : ∃ refresher memory st', w'.memory = some st' ∧
      (Broker.ensure L { d with refresher := refresher } e.now memory).Ran e.trace
        (e.result, st') := by
    cases h with
    | ensure refresher hran => exact ⟨refresher, _, _, rfl, hran⟩
    | restart refresher _ _ hran => exact ⟨refresher, _, _, rfl, hran⟩
  obtain ⟨refresher, memory, st', hmemory, hran⟩ := hran
  obtain ⟨st, -, hseed, hensured⟩ | ⟨-, a, t, htrace, hensured⟩ := ensured_of_ran_ensure hran
  · exact ⟨refresher, [], st, e.trace, st', rfl, nofun, hseed, hensured, hmemory⟩
  · refine ⟨refresher, [_], _, t, st', htrace, ?_, ?_, hensured, hmemory⟩
    · simp
    · cases a with
      | error err => rfl
      | ok sec => exact seed_resumed sec

/-- **A refresh whose result could not be stored leaves it pending.** -/
theorem Step.pending (h : Step L d w e w') (hrefreshes : Refreshes e.trace tok)
    (hfailed : ¬ Stores e.trace) :
    ∃ sec st, Tries e.trace sec ∧ Pending L d (tok.refreshAt e.now) sec w' st := by
  obtain ⟨refresher, before, st, t, st', htrace, hbefore, hseed, hensured, hmemory⟩ := h.ensured
  rw [htrace] at hrefreshes hfailed ⊢
  -- nothing is redeemed before the state is there
  have hafter : Refreshes t tok := by
    obtain ⟨⟨c, a⟩, hmem, hgranted⟩ := hrefreshes
    rcases List.mem_append.mp hmem with hmem | hmem
    · obtain ⟨ns, name, rfl⟩ := hbefore _ hmem
      cases hgranted
    · exact ⟨_, hmem, hgranted⟩
  obtain ⟨next, guard, writes, out, rfl, htoken, hwrote, rfl⟩ := hensured.refreshes hafter
  have hout : out.isNone = false := by
    rw [← Bool.not_eq_true, Option.isNone_iff_eq_none, hwrote.eq_none_iff]
    exact fun h => hfailed (h.append_left.append_left)
  refine ⟨_, _, (hwrote.tries.append_left guard).append_left before, hmemory, hseed, htoken, hout,
    rfl, rfl⟩

/-- With a token pending there is no restart, and `Ensure` goes on with it. -/
theorem Pending.ensured (h : Pending L d refreshAt sec w st) (hstep : Step L d w e w') :
    ∃ refresher st', Ensured L { d with refresher := refresher } e.now st e.trace st' ∧
      w'.memory = some st' := by
  cases hstep with
  | ensure refresher hran hserved =>
    rw [h.memory] at hran
    obtain ⟨_, ⟨⟩, -, hensured⟩ | ⟨hother, -⟩ := ensured_of_ran_ensure hran
    · exact ⟨refresher, _, hensured, rfl⟩
    · exact absurd h.seed (hother st rfl)
  | restart refresher hmemory hstored =>
    obtain rfl := Option.some.inj (h.memory.symm.trans hmemory)
    rw [h.stored] at hstored
    cases hstored

/-- Where the guard is missing, nothing happens. -/
theorem Ensured.denied (h : Ensured L d now st t st') (hdenied : Denied t) : st' = st := by
  have hwrites : ∀ e : Event Call Call.Answer, e.1.writes = true → guardFound e ≠ some false := by
    rintro ⟨c, a⟩ hc
    cases c <;> simp [guardFound, Call.writes] at hc ⊢
  obtain ⟨e, he, hfound⟩ := hdenied
  cases h with
  | idle => rfl
  | unguarded msg => rfl
  | failed msg err =>
    rcases List.mem_cons.mp he with rfl | he
    · cases hfound
    · obtain rfl := List.mem_singleton.mp he
      cases hfound
  | retried msg _ _ _ hwrote =>
    rcases List.mem_cons.mp he with rfl | he
    · cases hfound
    · exact absurd hfound (hwrites e (hwrote.writes e he))
  | refreshed msg tok sent next _ _ _ hwrote =>
    rcases List.mem_cons.mp he with rfl | he
    · cases hfound
    rcases List.mem_cons.mp he with rfl | he
    · cases hfound
    · exact absurd hfound (hwrites e (hwrote.writes e he))

/-- A token that is pending and not due is written, and no other is asked for. -/
theorem Ensured.retries (h : Ensured L d now st t st') (hstored : st.stored = false)
    (htoken : st.refreshToken ≠ []) (hnow : now < st.refreshAt) (hallowed : ¬ Denied t) :
    Tries t (tokenSecret L d st) ∧ ∀ e ∈ t, ∀ url form, e.1 ≠ .post url form := by
  cases h with
  | idle hidle =>
    rcases hidle with hempty | ⟨hstored', -⟩
    · exact absurd hempty htoken
    · rw [hstored] at hstored'
      cases hstored'
  | unguarded msg => exact absurd ⟨_, List.mem_cons_self, rfl⟩ hallowed
  | failed msg err hdue => exact absurd hnow (not_lt.mpr hdue)
  | retried msg _ _ _ hwrote =>
    refine ⟨hwrote.tries.append_left [_], fun e he url form hpost => ?_⟩
    rcases List.mem_cons.mp he with rfl | he
    · cases hpost
    · have hwrites := hwrote.writes e he
      rw [hpost] at hwrites
      cases hwrites
  | refreshed msg tok sent next hdue => exact absurd hnow (not_lt.mpr hdue)

/-- A token stays pending while the guard is missing. -/
theorem Pending.path {run : List Ensuring} (h : Pending L d refreshAt sec w st)
    (hpath : Path (Step L d) w run w') (hdenied : ∀ e ∈ run, Denied e.trace) :
    Pending L d refreshAt sec w' st := by
  induction hpath with
  | nil w => exact h
  | cons hstep _ ih =>
    obtain ⟨hfirst, hrest⟩ := List.forall_mem_cons.mp hdenied
    obtain ⟨refresher, st', hensured, hmemory⟩ := h.ensured hstep
    obtain rfl := hensured.denied hfirst
    exact ih ⟨hmemory, h.seed, h.refreshToken, h.stored, h.refreshAt, h.secret⟩ hrest

end Retry

/-- `Ensure` asks the guard before it redeems or writes anything. -/
theorem Step.guarded (h : Step L d w e w') : Meets AnyAnswer Guarded e.trace := by
  cases h with
  | ensure refresher hran => exact (hran.keeps (ensure_guarded _) fun _ _ => trivial).1
  | restart refresher _ _ hran => exact (hran.keeps (ensure_guarded _) fun _ _ => trivial).1

/-- **A rotated refresh token is never lost.**  In every run for a sign-in, from any token
Secret, each request to the provider presents the refresh token it returned last; it is
made only where the guard was found in place; and a token that could not be stored is
written again, without a request, by the next `Ensure` that finds the guard and is not
late. -/
theorem refresh_token_kept (L : TokenLibraries) (d : DelegatedBackend)
    (secret : Option SecretObject) (run : List Ensuring) (w : World)
    (h : Path (Step L d) ⟨none, secret⟩ run w) :
    (∃ origin, Origin L d secret origin ∧ Meets AnyAnswer (Presents origin) (calls run)) ∧
      (∀ e ∈ run, Meets AnyAnswer Guarded e.trace) ∧
      ∀ before e between e' after tok, run = before ++ e :: (between ++ e' :: after) →
        Refreshes e.trace tok → ¬ Stores e.trace → (∀ m ∈ between, Denied m.trace) →
        ¬ Denied e'.trace → e'.now < tok.refreshAt e.now →
        (∀ c ∈ e'.trace, ∀ url form, c.1 ≠ .post url form) ∧
          ∃ sec, Tries e.trace sec ∧ Tries e'.trace sec := by
  refine ⟨?_, fun e he => ?_, ?_⟩
  · have hholds : Holds L d secret run w :=
      h.keeps .start fun _ _ _ _ hholds hstep => hholds.step hstep
    cases hholds with
    | start => exact ⟨d.seed, .inl rfl, meets_nil⟩
    | chain origin horigin _ hpresents => exact ⟨origin, horigin, hpresents⟩
  · obtain ⟨before, after, rfl⟩ := List.append_of_mem he
    obtain ⟨w₁, -, hrest⟩ := path_append.mp h
    obtain ⟨w₂, hstep, -⟩ := path_cons.mp hrest
    exact hstep.guarded
  · rintro before e between e' after tok rfl hrefreshes hfailed hdenied hallowed hnow
    obtain ⟨w₁, -, hrest⟩ := path_append.mp h
    obtain ⟨w₂, hstep, hrest⟩ := path_cons.mp hrest
    obtain ⟨w₃, hbetween, hrest⟩ := path_append.mp hrest
    obtain ⟨w₄, hstep', -⟩ := path_cons.mp hrest
    obtain ⟨sec, st, htries, hpending⟩ := hstep.pending hrefreshes hfailed
    have hpending' := hpending.path hbetween hdenied
    obtain ⟨refresher, st', hensured, -⟩ := hpending'.ensured hstep'
    obtain ⟨hretry, hnone⟩ := hensured.retries hpending'.stored hpending'.refreshToken
      (hpending'.refreshAt ▸ hnow) hallowed
    exact ⟨hnone, sec, htries, hpending'.secret ▸ hretry⟩

end Runs

/-! ## A run with a failed write and a restart -/

/-- A provider that sends `next`, and an API server that takes new Secrets where it is
`up`. -/
def obliging (next : Bytes) (expiry : Int) (up : Bool) (s : Option SecretObject) :
    (c : Call) → c.Answer × Option SecretObject
  | .getSecret _ _ =>
    match s with
    | some sec => (.ok sec, s)
    | none => (.error ⟨.notFound, lit "not found"⟩, s)
  | .guardOK => ((true, []), s)
  | .post _ _ => (.ok (⟨lit "access", expiry⟩, next), s)
  | .createSecret sec =>
    match s, up with
    | none, true => (none, some sec)
    | none, false => (some ⟨.network, lit "etcd unavailable"⟩, s)
    | some _, _ => (some ⟨.alreadyExists, lit "already exists"⟩, s)
  | .patchSecret p =>
    match s.bind p.apply with
    | some new => (none, some new)
    | none => (some ⟨.invalid, lit "the patch does not apply"⟩, s)

theorem serve_obliging (next : Bytes) (expiry : Int) (up : Bool) (s : Option SecretObject)
    (c : Call) : serve s c (obliging next expiry up s c).1 (obliging next expiry up s c).2 := by
  refine .inl ?_
  cases c with
  | getSecret ns name => cases s <;> simp [Answers, obliging]
  | guardOK => rfl
  | post url form => rfl
  | createSecret sec => cases s <;> cases up <;> simp [Answers, obliging]
  | patchSecret p =>
    cases hpatch : s.bind p.apply with
    | none => simp [Answers, obliging, hpatch]
    | some new =>
      obtain ⟨old, hold, hnew⟩ := Option.bind_eq_some_iff.mp hpatch
      simp only [Answers, obliging, hpatch]
      exact .inl ⟨old, new, hold, hnew, rfl⟩

def outlook : DelegatedBackend :=
  ⟨lit "outlook", lit "uid-1", lit "MailBackend", lit "team", lit "seed",
    ⟨lit "https://login.example/token", lit "client", [], []⟩⟩

/-- An `Ensure` with those answers, and where it leads. -/
def World.ensuring (next : Bytes) (expiry : Int) (up : Bool) (now : Int)
    (memory : Option BrokerState) (w : World) : Ensuring × World :=
  let out := (ensure .plain outlook now memory).run (obliging next expiry up) w.secret []
  (⟨now, out.2.1, out.2.2.1⟩, ⟨some out.2.2.2, out.1⟩)

theorem World.step_ensuring (next : Bytes) (expiry : Int) (up : Bool) (now : Int) (w : World) :
    Step .plain outlook w (w.ensuring next expiry up now w.memory).1
      (w.ensuring next expiry up now w.memory).2 :=
  .ensure outlook.refresher (Prog.ran_run _ _ _) (served_run (serve_obliging next expiry up) _ _)

/-- A refresh whose result cannot be stored. -/
def unstored : Ensuring × World :=
  World.ensuring (lit "r1") (3 * Duration.hour) false Duration.hour none ⟨none, none⟩

/-- The next one, which stores it. -/
def retried : Ensuring × World :=
  unstored.2.ensuring (lit "r9") (3 * Duration.hour) true (Duration.hour + 1) unstored.2.memory

/-- One that is due, after a restart. -/
def resumed : Ensuring × World :=
  retried.2.ensuring (lit "r2") (4 * Duration.hour) true (2 * Duration.hour) none

/-- The refresh tokens the provider was sent. -/
def redeemed (run : List Ensuring) : List Bytes :=
  (calls run).filterMap fun e => match e.1 with
    | .post _ form => form.lookup (lit "refresh_token")
    | _ => none

/-- A read of the Secret that failed. -/
def unread : Event Call Call.Answer → Bool
  | ⟨.getSecret _ _, .error _⟩ => true
  | _ => false

theorem path_resumed : Path (Step .plain outlook) ⟨none, none⟩
    [unstored.1, retried.1, resumed.1] resumed.2 := by
  have hfirst : Step .plain outlook ⟨none, none⟩ unstored.1 unstored.2 :=
    World.step_ensuring _ _ _ _ _
  have hsecond : Step .plain outlook unstored.2 retried.1 retried.2 :=
    World.step_ensuring _ _ _ _ _
  have hstored : retried.2.memory.any BrokerState.stored = true := by decide +kernel
  have hread : (resumed.1.trace.all fun e => !unread e) = true := by decide +kernel
  obtain ⟨old, hmemory, hold⟩ := (Option.any_eq_true _ _).mp hstored
  have hthird : Step .plain outlook retried.2 resumed.1 resumed.2 := by
    refine .restart outlook.refresher hmemory hold (Prog.ran_run _ _ _)
      (served_run (serve_obliging _ _ _) _ _) fun ns name a ha => ?_
    cases a with
    | error err => cases List.all_eq_true.mp hread _ ha
    | ok sec => exact ⟨sec, rfl⟩
  exact .cons hfirst (.cons hsecond (.cons hthird (.nil _)))

theorem refresh_token_kept_resumed :
    redeemed [unstored.1, retried.1, resumed.1] = [lit "seed", lit "r1"] ∧
      (∃ origin, Origin .plain outlook none origin ∧
        Meets AnyAnswer (Presents origin) (calls [unstored.1, retried.1, resumed.1])) ∧
      (∀ c ∈ retried.1.trace, ∀ url form, c.1 ≠ .post url form) ∧
      ∃ sec, Tries unstored.1.trace sec ∧ Tries retried.1.trace sec := by
  obtain ⟨hchain, -, hretry⟩ := refresh_token_kept .plain outlook none _ _ path_resumed
  refine ⟨by decide +kernel, hchain, ?_⟩
  refine hretry [] _ [] _ [resumed.1] ⟨lit "access", 3 * Duration.hour⟩ rfl ?_ ?_ nofun ?_ ?_
  · exact (by decide +kernel : ∃ e ∈ unstored.1.trace, granted e =
      some ⟨lit "access", 3 * Duration.hour⟩)
  · exact (by decide +kernel : ¬ ∃ e ∈ unstored.1.trace, stores e = true)
  · exact (by decide +kernel : ¬ ∃ e ∈ retried.1.trace, guardFound e = some false)
  · decide +kernel

end Broker
end Sigillum
