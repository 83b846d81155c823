import Sigillum.TextCodecs
import Sigillum.TokenCache

/-! # The answers of the token endpoint

`parseResponse` in `internal/oauth/clientcredentials.go` makes a token or an error of what
the endpoint answers.  What JSON holds and the dates of HTTP are a parameter,
`EndpointLibraries`; numbers are `int64`, and the product of seconds and nanoseconds wraps
around (`Duration.wrap`).

`Retry-After` is capped at ten minutes after that product is taken.  So a delay of more
than 292 years may come out as any wait below ten minutes (`retry_after_iff`).
-/
namespace Sigillum
open Runes Bytes TextCodecs Duration

namespace OAuth

def defaultLifetime : Int := 5 * minute
def maxLifetime : Int := 24 * hour
def maxRetryAfter : Int := 10 * minute
def maxResponseBytes : Nat := 1048576
def maxRefreshTokenBytes : Nat := 16384
def maxCodeLen : Nat := 64
def maxDescLen : Nat := 300

/-- The fields of a token answer; of `expires_in` the JSON value, if there is one. -/
structure TokenFields where
  accessToken : Bytes
  tokenType : Bytes
  expiresIn : Option Bytes
  refreshToken : Bytes
  deriving DecidableEq, Repr

/-- What the endpoint's answers are read with. -/
structure EndpointLibraries where
  unicode : Unicode
  /-- `http.ParseTime`. -/
  parseHTTPTime : Bytes → Option Int
  /-- `error` and `error_description`, as far as `json.Unmarshal` gets. -/
  errorFields : Bytes → Bytes × Bytes
  /-- The fields of a token answer, unless `json.Unmarshal` fails on its own. -/
  tokenFields : Bytes → Option TokenFields

/-- `Error`, without a transport error. -/
structure TokenFailure where
  status : Int
  code : Bytes
  description : Bytes
  permanent : Bool
  retryAfter : Int
  deriving DecidableEq, Repr

/-- `Error.Error`. -/
def TokenFailure.error (e : TokenFailure) : Bytes :=
  lit "oauth token request failed" ++
    (if e.status ≠ 0 then lit " (HTTP " ++ lit (toString e.status) ++ lit ")" else []) ++
    ([e.code, e.description].flatMap fun s => if s ≠ [] then lit ": " ++ s else [])

/-- The failure as the cache sees it. -/
def TokenFailure.fetchError (e : TokenFailure) : FetchError := ⟨e.error, some e.retryAfter⟩

/-- The loop of `printable`, with `len` bytes written. -/
def printableFrom (n : Nat) : Nat → List Nat → Bytes
  | _, [] => []
  | len, r :: rs =>
    if n ≤ len then lit "..."
    else (if 32 ≤ r ∧ r < 127 then UInt8.ofNat r else 63) :: printableFrom n (len + 1) rs

/-- `printable`. -/
def printable (s : Bytes) (n : Nat) : Bytes := printableFrom n 0 (runes s)

/-- `isVisibleASCII`. -/
def isVisibleASCII (s : Bytes) (max : Nat) : Bool :=
  s ≠ [] && s.length ≤ max && s.all fun c => 33 ≤ c && c ≤ 126

/-- `isB64Token`. -/
def isB64Token (s : Bytes) : Bool :=
  let body := s.rdropWhile (· == 61)
  body ≠ [] && body.all fun c => (97 ≤ c && c ≤ 122) || (65 ≤ c && c ≤ 90) ||
    (48 ≤ c && c ≤ 57) || (lit "-._~+/").contains c

/-- `expiresIn.UnmarshalJSON`: the value it sets, unless it fails. -/
def unmarshalExpiresIn (b : Bytes) : Option Int :=
  let s := (b.dropWhile (· == 34)).rdropWhile (· == 34)
  if s = lit "null" ∨ s = [] then some 0 else parseInt 64 s

section Endpoint
variable (E : EndpointLibraries)

/-- `ParseRetryAfter`. -/
def parseRetryAfter (v : Bytes) (now : Int) : Int :=
  let d := match parseInt 64 (trimSpace v) with
    | some n => wrap (n * second)
    | none =>
      match E.parseHTTPTime v with
      | some t => timeSub t now
      | none => 0
  min (max d 0) maxRetryAfter

/-- Whether a failed request may be repeated. -/
def retryable (status : Int) (code : Bytes) : Bool :=
  status = 429 || status = 408 || 500 ≤ status || code = lit "temporarily_unavailable" ||
    code = lit "server_error"

/-- How long a token lives, by `expires_in`. -/
def lifetime (expiresIn : Int) : Int :=
  if expiresIn ≤ 0 then defaultLifetime
  else if maxLifetime / second < expiresIn then maxLifetime
  else wrap (expiresIn * second)

/-- An answer with a status other than 200. -/
def failedResponse (status : Int) (retryAfter body : Bytes) (now : Int) : TokenFailure :=
  let (code, description) := E.errorFields body
  let failure : TokenFailure :=
    ⟨status, printable code maxCodeLen, printable description maxDescLen, false, 0⟩
  if retryable status code then { failure with retryAfter := parseRetryAfter E retryAfter now }
  else { failure with permanent := true }

/-- `parseResponse`: a token and the refresh token that came with it. -/
def parseResponse (status : Int) (retryAfter body : Bytes) (now : Int) :
    Except TokenFailure (Token × Bytes) :=
  let refuse (description : Bytes) : Except TokenFailure (Token × Bytes) :=
    .error ⟨status, [], description, false, 0⟩
  if maxResponseBytes < body.length then refuse (lit "response larger than 1 MiB")
  else if status ≠ 200 then .error (failedResponse E status retryAfter body now)
  else match E.tokenFields body with
  | none => refuse (lit "malformed token response")
  | some r =>
    match (r.expiresIn.map unmarshalExpiresIn).getD (some 0) with
    | none => refuse (lit "malformed token response")
    | some expiresIn =>
      if E.unicode.equalFold r.tokenType (lit "bearer") = false then
        refuse (lit "token_type " ++ quote E.unicode (printable r.tokenType maxCodeLen) ++
          lit " is not Bearer")
      else if isB64Token r.accessToken = false then
        refuse (lit "access_token is missing or not a valid bearer token")
      else if r.refreshToken ≠ [] ∧ isVisibleASCII r.refreshToken maxRefreshTokenBytes = false then
        refuse (lit "refresh_token is not printable ASCII or too long")
      else .ok (⟨r.accessToken, now + lifetime expiresIn⟩, r.refreshToken)

end Endpoint

/-! ## Delays -/

/-- The number of seconds is not changed beyond the cap by the product with nanoseconds. -/
def DelayFits (n : Int) : Prop :=
  if n < 0 then n * 1000000000 % 18446744073709551616 = 0 ∨
    9223372036854775808 ≤ n * 1000000000 % 18446744073709551616
  else n ≤ 600 ∨ 600000000000 ≤ n * 1000000000 % 18446744073709551616 ∧
    n * 1000000000 % 18446744073709551616 < 9223372036854775808

instance (n : Int) : Decidable (DelayFits n) := inferInstanceAs (Decidable (ite ..))

/-- What a delay of `n` seconds in the header `v` is to be taken for. -/
structure Honoured (E : EndpointLibraries) (v : Bytes) (now n : Int) : Prop where
  exact : 0 ≤ n → parseRetryAfter E v now = min (n * second) maxRetryAfter
  negative : n < 0 → parseRetryAfter E v now = 0
  /-- A shorter delay is not a longer wait. -/
  monotone : 0 ≤ n → ∀ v' n', parseInt 64 (trimSpace v') = some n' → 0 ≤ n' → n' ≤ n →
    parseRetryAfter E v' now ≤ parseRetryAfter E v now
  /-- The cache asks for no token earlier. -/
  waits : 0 ≤ n → ∀ (c : Cache) (clock status : Int) (body : Bytes),
    body.length ≤ maxResponseBytes → status ≠ 200 →
    retryable status (E.errorFields body).1 = true → ∃ e,
      parseResponse E status v body now = .error e ∧
        clock + min (n * second) maxRetryAfter ≤
          (c.complete clock (.error e.fetchError)).failUntil

section Delays
variable {E : EndpointLibraries} {v : Bytes} {n : Int}

theorem parseRetryAfter_of_parseInt (h : parseInt 64 (trimSpace v) = some n) (now : Int) :
    parseRetryAfter E v now = min (max (wrap (n * 1000000000)) 0) 600000000000 := by
  rw [parseRetryAfter, h]
  rfl

/-- What comes of a product that may wrap around. -/
theorem wrap_le_zero_iff (x : Int) :
    wrap x ≤ 0 ↔ x % 18446744073709551616 = 0 ∨ 9223372036854775808 ≤ x % 18446744073709551616 := by
  unfold wrap
  omega

theorem le_wrap_iff (x : Int) :
    600000000000 ≤ wrap x ↔ 600000000000 ≤ x % 18446744073709551616 ∧
      x % 18446744073709551616 < 9223372036854775808 := by
  unfold wrap
  omega

theorem parseRetryAfter_bounds (h : parseInt 64 (trimSpace v) = some n) (now : Int) :
    0 ≤ parseRetryAfter E v now ∧ parseRetryAfter E v now ≤ 600000000000 := by
  rw [parseRetryAfter_of_parseInt h]
  omega

/-- **The wait is exact** where the product fits, and only there. -/
theorem parseRetryAfter_eq_iff (h : parseInt 64 (trimSpace v) = some n) (hn : 0 ≤ n) (now : Int) :
    parseRetryAfter E v now = min (n * 1000000000) 600000000000 ↔ DelayFits n := by
  rw [parseRetryAfter_of_parseInt h, DelayFits, if_neg (not_lt.mpr hn), ← le_wrap_iff]
  by_cases hshort : n ≤ 600
  · rw [wrap_of_bounds (by omega) (by omega)]
    exact iff_of_true (by omega) (.inl hshort)
  · generalize wrap (n * 1000000000) = w
    omega

theorem parseRetryAfter_eq_zero_iff (h : parseInt 64 (trimSpace v) = some n) (hn : n < 0)
    (now : Int) : parseRetryAfter E v now = 0 ↔ DelayFits n := by
  rw [parseRetryAfter_of_parseInt h, DelayFits, if_pos hn, ← wrap_le_zero_iff]
  omega

/-- A failure that may be repeated carries the delay. -/
theorem parseResponse_retryable {status : Int} {body : Bytes}
    (hbody : body.length ≤ maxResponseBytes) (hstatus : status ≠ 200)
    (hretry : retryable status (E.errorFields body).1 = true) (now : Int) :
    ∃ e, parseResponse E status v body now = .error e ∧
      e.retryAfter = parseRetryAfter E v now := by
  refine ⟨failedResponse E status v body now, ?_, ?_⟩
  · rw [parseResponse, if_neg (not_lt.mpr hbody), if_pos hstatus]
  · rw [failedResponse]
    dsimp only
    rw [if_pos hretry]

end Delays

/-- **When a delay is honoured.**  A number of seconds that the endpoint asks to wait is
taken for what it is, up to ten minutes, exactly if its product with a billion does not
wrap around to another wait. -/
theorem retry_after_iff (E : EndpointLibraries) (v : Bytes) (now n : Int)
    (hv : parseInt 64 (trimSpace v) = some n) : Honoured E v now n ↔ DelayFits n := by
  constructor
  · intro h
    rcases lt_or_ge n 0 with hneg | hnonneg
    · exact (parseRetryAfter_eq_zero_iff hv hneg now).mp (h.negative hneg)
    · exact (parseRetryAfter_eq_iff hv hnonneg now).mp (h.exact hnonneg)
  · intro hfits
    have hexact : 0 ≤ n → parseRetryAfter E v now = min (n * 1000000000) 600000000000 :=
      fun hn => (parseRetryAfter_eq_iff hv hn now).mpr hfits
    refine ⟨hexact, fun hn => (parseRetryAfter_eq_zero_iff hv hn now).mpr hfits, ?_, ?_⟩
    · intro hn v' n' hv' hn' hle
      have hbounds := parseRetryAfter_bounds (E := E) hv' now
      rw [hexact hn]
      rcases lt_or_ge 600 n with hlong | hshort
      · omega
      · -- a shorter delay is exact as well
        have hfits' : DelayFits n' := by
          rw [DelayFits, if_neg (not_lt.mpr hn')]
          exact .inl (hle.trans hshort)
        rw [(parseRetryAfter_eq_iff hv' hn' now).mpr hfits']
        omega
    · intro hn c clock status body hbody hstatus hretry
      obtain ⟨e, he, hretryAfter⟩ := parseResponse_retryable (v := v) hbody hstatus hretry now
      refine ⟨e, he, ?_⟩
      have hdelay : retryAfterOf e.fetchError = min (n * 1000000000) 600000000000 :=
        hretryAfter.trans (hexact hn)
      have huntil : (c.complete clock (.error e.fetchError)).failUntil =
          clock + max failureBackoff (retryAfterOf e.fetchError) := rfl
      rw [huntil, hdelay]
      have hcap : min (n * second) maxRetryAfter = min (n * 1000000000) 600000000000 := rfl
      rw [hcap]
      omega

/-- Small stand-ins: no dates, and answers without fields. -/
def EndpointLibraries.plain : EndpointLibraries where
  unicode := .latin1
  parseHTTPTime _ := none
  errorFields _ := ([], [])
  tokenFields _ := none

theorem retry_after_iff_minute :
    Honoured .plain (lit " 60") 0 60 ∧ parseRetryAfter .plain (lit " 60") 0 = minute := by
  have hv : parseInt 64 (trimSpace (lit " 60")) = some 60 := by decide
  have h := (retry_after_iff .plain (lit " 60") 0 60 hv).mpr (by decide)
  exact ⟨h, h.exact (by decide)⟩

/-- Nearly three centuries are no wait at all, and a negative delay is one of ten minutes. -/
theorem centuries_not_honoured :
    parseRetryAfter .plain (lit "9223372037") 0 = 0 ∧
      parseRetryAfter .plain (lit "-9223372037") 0 = 10 * minute ∧
      ¬ Honoured .plain (lit "9223372037") 0 9223372037 := by
  refine ⟨by decide, by decide, fun h => ?_⟩
  exact absurd (h.exact (by decide)) (by decide)

end OAuth
end Sigillum
