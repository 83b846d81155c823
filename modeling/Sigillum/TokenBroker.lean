import Mathlib.Data.List.DropRight
import Sigillum.SecretPatches

/-! # The token broker

`TokenBroker.Ensure` keeps the access token of a backend fresh that sends with a
person's sign-in.  Providers rotate the refresh token, so the one they return last is
kept in memory and in the backend's token Secret.

`Ensure` is a program over what it calls: the read of the Secret, the guard's verdict,
the request to the token endpoint and the writes of the Secret.  What the broker holds
in memory for the backend is its input and part of its result; the mutex keeps two
`Ensure` apart.  Metrics are left out.
-/
namespace Sigillum
open Runes Bytes TextCodecs Duration Interaction Credential

/-- What the broker takes from elsewhere. -/
structure TokenLibraries extends CredentialLibraries where
  /-- `Time.UTC().Format(time.RFC3339)`. -/
  formatTime : Int → Bytes
  /-- `time.Parse(time.RFC3339, s)`. -/
  parseTime : Bytes → Option Int

/-- Small stand-ins: a time is a number of hours, written in one byte. -/
def TokenLibraries.plain : TokenLibraries where
  toCredentialLibraries := .plain
  formatTime t := [UInt8.ofNat (t / hour).toNat]
  parseTime s := s.head?.map fun c => c.toNat * hour

namespace Duration

/-- `Time.Sub`, which stays within the range of a `time.Duration`. -/
def sub (t u : Int) : Int :=
  if 9223372036854775807 < t - u then 9223372036854775807
  else if t - u < -9223372036854775808 then -9223372036854775808
  else t - u

end Duration

namespace Broker
open Controller

/-! ## Backends and tokens -/

/-- `oauth.Token`. -/
structure Token where
  accessToken : Bytes
  expiry : Int
  deriving DecidableEq, Repr

/-- A failed token request: its text, and whether it is permanent. -/
structure TokenError where
  text : Bytes
  permanent : Bool
  deriving DecidableEq, Repr

/-- `oauth.RefreshToken`. -/
structure RefreshToken where
  tokenURL : Bytes
  clientID : Bytes
  clientSecret : Bytes
  scopes : List Bytes
  deriving DecidableEq, Repr

/-- `DelegatedBackend`; of its owner, the name and the UID. -/
structure DelegatedBackend where
  name : Bytes
  uid : Bytes
  kind : Bytes
  ns : Bytes
  seed : Bytes
  refresher : RefreshToken
  deriving DecidableEq, Repr

inductive BrokerReason where
  | authorized
  | authorizationRequired
  | guardMissing
  | tokenRefreshFailed
  | secretWriteFailed
  | secretConflict
  deriving DecidableEq, Repr

structure BrokerResult where
  authorized : Bool
  reason : BrokerReason
  message : Bytes
  requeueAfter : Int
  deriving DecidableEq, Repr

/-- `brokerState`; Go's zero time is `0`. -/
structure BrokerState where
  seed : Bytes
  refreshToken : Bytes
  token : Token
  refreshAt : Int
  stored : Bool
  deriving DecidableEq, Repr

def brokerRetry : Int := 30 * second
def brokerReauthRetry : Int := 10 * minute

def tokenLabel : Bytes := lit "sigillum.dev/oauth-token"
def tokenUIDAnnotation : Bytes := lit "sigillum.dev/oauth-token-uid"
def seedAnnotation : Bytes := lit "sigillum.dev/oauth-seed"
def refreshAtAnnotation : Bytes := lit "sigillum.dev/oauth-refresh-at"
def refreshTokenKey : Bytes := lit "refresh_token"
def accessTokenKey : Bytes := lit "access_token"
def expiresAtKey : Bytes := lit "expires_at"

inductive Call where
  /-- `b.Reader.Get` of a Secret. -/
  | getSecret (ns name : Bytes)
  /-- `b.Guard.OK`. -/
  | guardOK
  /-- `post`: a request to the token endpoint. -/
  | post (url : Bytes) (form : List (Bytes × Bytes))
  | createSecret (s : SecretObject)
  | patchSecret (p : TokenPatch)
  deriving DecidableEq, Repr

/-- The token endpoint returns a token and the refresh token it sent, which is empty if it
sent none. -/
abbrev Call.Answer : Call → Type
  | .getSecret _ _ => Except APIError SecretObject
  | .guardOK => Bool × Bytes
  | .post _ _ => Except TokenError (Token × Bytes)
  | .createSecret _ => Option APIError
  | .patchSecret _ => Option APIError

/-- The calls that write a Secret. -/
def Call.writes : Call → Bool
  | .createSecret _ | .patchSecret _ => true
  | .getSecret _ _ | .guardOK | .post _ _ => false

abbrev perform (c : Call) : Prog Call Call.Answer c.Answer := Prog.perform c

variable (L : TokenLibraries)

/-! ## Names -/

/-- `TokenSecretName`. -/
def tokenSecretName (kind backend : Bytes) : Bytes :=
  let name := (if kind = lit "MailBackend" then lit "sigillum-oauth-mb-"
    else lit "sigillum-oauth-cmb-") ++ backend
  if name.length ≤ 253 then name
  else (name.take (253 - 17)).rdropWhile (fun c => c = 46 ∨ c = 45) ++
    45 :: hexEncode ((L.sha256 name).val.take 8)

/-- `tokenSecretName`. -/
def DelegatedBackend.secretName (d : DelegatedBackend) : Bytes := tokenSecretName L d.kind d.name

/-- `seedHash`. -/
def seedHash (rt : Bytes) : Bytes :=
  if rt = [] then [] else hexEncode ((L.sha256 rt).val.take 16)

/-! ## Refreshing -/

/-- The form that redeems a refresh token. -/
def RefreshToken.form (r : RefreshToken) (refreshToken : Bytes) : List (Bytes × Bytes) :=
  [(lit "grant_type", lit "refresh_token"), (lit "refresh_token", refreshToken),
    (lit "client_id", r.clientID)] ++
  (if r.clientSecret ≠ [] then [(lit "client_secret", r.clientSecret)] else []) ++
  (if r.scopes ≠ [] then [(lit "scope", List.intercalate (lit " ") r.scopes)] else [])

/-- `RefreshToken.Refresh`: a token, and the refresh token to use next time. -/
def RefreshToken.refresh (r : RefreshToken) (refreshToken : Bytes) :
    Prog Call Call.Answer (Except TokenError (Token × Bytes)) := do
  match ← perform (.post r.tokenURL (r.form refreshToken)) with
  | .error err => return .error err
  | .ok (tok, next) => return .ok (tok, if next = [] then refreshToken else next)

/-- When a token that was returned at `now` is refreshed: at half its lifetime. -/
def Token.refreshAt (tok : Token) (now : Int) : Int :=
  now + (Duration.sub tok.expiry now).tdiv 2

/-- What a refresh leaves in memory. -/
def BrokerState.refreshed (st : BrokerState) (now : Int) (tok : Token) (next : Bytes) :
    BrokerState :=
  { st with
    refreshToken := next
    token := tok
    stored := false
    refreshAt := tok.refreshAt now }

/-! ## The token Secret -/

/-- `AccessTokenFromSecret`. -/
def accessTokenFromSecret (sec : SecretObject) : Except Bytes Token :=
  match L.parseTime (entry sec.data expiresAtKey) with
  | some exp =>
    if entry sec.data accessTokenKey = [] then .error (lit "token Secret has no access token yet")
    else .ok ⟨entry sec.data accessTokenKey, exp⟩
  | none => .error (lit "token Secret has no access token yet")

/-- The Secret belongs to the backend and descends from its sign-in. -/
def Descends (d : DelegatedBackend) (sec : SecretObject) : Prop :=
  entry sec.annotations tokenUIDAnnotation = d.uid ∧
    entry sec.annotations seedAnnotation = seedHash L d.seed ∧
    entry sec.data refreshTokenKey ≠ []

instance (d : DelegatedBackend) (sec : SecretObject) : Decidable (Descends L d sec) :=
  inferInstanceAs (Decidable (_ ∧ _ ∧ _))

/-- What is in memory where there is nothing to resume from. -/
def BrokerState.fresh (d : DelegatedBackend) : BrokerState :=
  ⟨seedHash L d.seed, d.seed, ⟨[], 0⟩, 0, false⟩

/-- What is resumed from a Secret that was read. -/
def BrokerState.resumed (d : DelegatedBackend) (sec : SecretObject) : BrokerState :=
  if Descends L d sec then
    let st := { BrokerState.fresh L d with refreshToken := entry sec.data refreshTokenKey }
    match accessTokenFromSecret L sec with
    | .error _ => st
    | .ok tok =>
      match L.parseTime (entry sec.annotations refreshAtAnnotation) with
      | some t => { st with token := tok, refreshAt := t, stored := true }
      | none => { st with token := tok }
  else .fresh L d

/-- `load`. -/
def load (d : DelegatedBackend) : Prog Call Call.Answer BrokerState := do
  match ← perform (.getSecret d.ns (d.secretName L)) with
  | .error _ => return .fresh L d
  | .ok sec => return .resumed L d sec

/-- The data of the token Secret. -/
def tokenData (st : BrokerState) : List (Bytes × Bytes) :=
  [(refreshTokenKey, st.refreshToken), (accessTokenKey, st.token.accessToken),
    (expiresAtKey, L.formatTime st.token.expiry)]

/-- The token Secret. -/
def tokenSecret (d : DelegatedBackend) (st : BrokerState) : SecretObject where
  name := d.secretName L
  ns := d.ns
  labels := [(tokenLabel, d.name)]
  annotations := [( tokenUIDAnnotation, d.uid), ( seedAnnotation, st.seed),
    ( refreshAtAnnotation, L.formatTime st.refreshAt)]
  ownerReferences := [⟨lit "sigillum.dev/v1alpha1", d.kind, d.name, d.uid, true⟩]
  type := lit "Opaque"
  data := tokenData L st

/-- The patch of a token Secret that exists. -/
def tokenPatch (d : DelegatedBackend) (st : BrokerState) : TokenPatch where
  name := d.secretName L
  ns := d.ns
  tests := [(labelsPath ++ jsonPointerEscape tokenLabel, d.name),
    (annotationsPath ++ jsonPointerEscape tokenUIDAnnotation, d.uid)]
  data := tokenData L st
  adds := [(annotationsPath ++ jsonPointerEscape seedAnnotation, st.seed),
    (annotationsPath ++ jsonPointerEscape refreshAtAnnotation, L.formatTime st.refreshAt)]

/-- `write`: what went wrong, if anything, and whether it was a conflict. -/
def write (d : DelegatedBackend) (st : BrokerState) :
    Prog Call Call.Answer (Option (Bool × APIError)) := do
  match ← perform (.createSecret (tokenSecret L d st)) with
  | none => return none
  | some err =>
    if err.kind ≠ .alreadyExists then return some (false, err)
    else match ← perform (.patchSecret (tokenPatch L d st)) with
      | none => return none
      | some err => return some (err.kind = .invalid, err)

/-! ## Ensure -/

/-- `authorized`. -/
def authorized (requeue : Int) : BrokerResult := ⟨true, .authorized, [], requeue⟩

/-- The end of `Ensure`: what is in memory goes into the Secret. -/
def store (d : DelegatedBackend) (now : Int) (st : BrokerState) :
    Prog Call Call.Answer (BrokerResult × BrokerState) := do
  match ← write L d st with
  | none => return (authorized (Duration.sub st.refreshAt now), { st with stored := true })
  | some (conflict, err) =>
    return (⟨true, if conflict then .secretConflict else .secretWriteFailed,
      lit "store tokens in Secret " ++ d.ns ++ lit "/" ++ d.secretName L ++ lit ": " ++ err.text,
      brokerRetry⟩, st)

/-- What a failed refresh is answered with. -/
def refreshFailed (err : TokenError) : BrokerResult :=
  if err.permanent then
    ⟨false, .authorizationRequired,
      lit "the provider rejected the refresh token, sign in again: " ++ err.text,
      brokerReauthRetry⟩
  else ⟨true, .tokenRefreshFailed, err.text, brokerRetry⟩

/-- `Ensure`, once the state is there. -/
def ensureLoaded (d : DelegatedBackend) (now : Int) (st : BrokerState) :
    Prog Call Call.Answer (BrokerResult × BrokerState) :=
  if st.refreshToken = [] then
    return (⟨false, .authorizationRequired, lit ("no refresh token yet: sign in and store the " ++
      "refresh_token in the credentials Secret"), brokerReauthRetry⟩, st)
  else if st.stored ∧ now < st.refreshAt then
    return (authorized (Duration.sub st.refreshAt now), st)
  else do
    -- a refresh may rotate the refresh token, so the result must be possible to store
    let (ok, msg) ← perform .guardOK
    if ok = false then return (⟨st.stored, .guardMissing, msg, brokerRetry⟩, st)
    else if now < st.refreshAt then store L d now st
    else match ← d.refresher.refresh st.refreshToken with
      | .error err => return (refreshFailed err, st)
      | .ok (tok, next) => store L d now (st.refreshed now tok next)

/-- The state in memory, or one that is loaded where there is none for this sign-in. -/
def remembered (d : DelegatedBackend) : Option BrokerState → Prog Call Call.Answer BrokerState
  | some st => if st.seed = seedHash L d.seed then pure st else load L d
  | none => load L d

/-- `Ensure`, with what is in memory before and after. -/
def ensure (d : DelegatedBackend) (now : Int) (memory : Option BrokerState) :
    Prog Call Call.Answer (BrokerResult × BrokerState) := do
  let st ← remembered L d memory
  ensureLoaded L d now st

end Broker
end Sigillum
