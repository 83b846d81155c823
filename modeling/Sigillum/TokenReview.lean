import Mathlib.Algebra.Group.Int.Defs
import Mathlib.Data.List.DropRight
import Sigillum.Interaction
import Sigillum.JSONText
import Sigillum.Libraries
import Sigillum.MemoryLimiter
import Sigillum.TextCodecs

/-! # Bearer tokens

`internal/apiserver/auth/tokenreview.go`: `Authenticate` has the kube-apiserver review a
token and keeps the result in a cache, under the hash of the token.  It is a program over
what it calls: the cache, the clock and the TokenReview request.  Many calls run at once;
the cache may drop any entry at any time, and clock and kube-apiserver answer as they like.

What the cache holds was made by a call right after a review of the token, and expires no
later than the result of that review may be used (`CacheInvariant`).  So a call that is
answered from the cache is answered as an earlier review of its token allows
(`cached_result_reviewed`).

The claim `exp` bounds that too, as `encoding/json` and `float64` have it: the last member
that is called `exp` in any capitalisation, rounded.  Where a payload has another such
member behind the claim, the cache may outlive the token (`exp_outlived`).

Instants are nanoseconds since 1970, when Unix time begins.
-/
namespace Sigillum
open Bytes Runes TextCodecs Duration Interaction JSONText

namespace TokenReview

/-! ## The parameter -/

/-- A number of seconds, as a fraction. -/
structure Seconds where
  num : Int
  den : Nat
  den_pos : 0 < den

/-- The fraction is a `float64`, and not negative: 53 bits and a power of two. -/
def Seconds.IsFloat64 (x : Seconds) : Prop :=
  ∃ m up down : Nat, m < 2 ^ 53 ∧ up ≤ 971 ∧ down ≤ 1074 ∧
    x.num * 2 ^ down = m * 2 ^ up * x.den

structure ReviewLibraries where
  /-- `sha256.Sum256`. -/
  sha256 : Bytes → { sum : Bytes // sum.length = 32 }
  /-- `json.Number.Float64`: the nearest `float64`, if that is a number. -/
  float64 : Seconds → Option Seconds
  /-- The conversion of a `float64` to `int64`. -/
  toInt64 : Seconds → Int
  /-- `strconv.Unquote`. -/
  unquote : Bytes → Option Bytes
  /-- What is a `float64` is not rounded. -/
  float64_exact : ∀ x, x.IsFloat64 → ∃ y, float64 x = some y ∧ y.num * x.den = x.num * y.den
  toInt64_min : ∀ x, -9223372036854775808 ≤ toInt64 x
  toInt64_max : ∀ x, toInt64 x < 9223372036854775808
  /-- The fraction is discarded.  What does not fit is converted to any number. -/
  toInt64_of_lt : ∀ x, 0 ≤ x.num → x.num < 9223372036854775808 * (x.den : Int) →
    toInt64 x = x.num / x.den

/-! ## What a review says -/

structure Subject where
  namespace_ : Bytes
  serviceAccount : Bytes
  uid : Bytes
  audiences : List Bytes
  groups : List Bytes
  deriving DecidableEq, Repr

/-- `TokenReviewStatus`, with the fields of its user. -/
structure ReviewStatus where
  authenticated : Bool
  error : Bytes
  audiences : List Bytes
  username : Bytes
  uid : Bytes
  groups : List Bytes
  deriving DecidableEq, Repr

/-- `subject` is `none` where the token was rejected, for `reason`. -/
structure CacheEntry where
  subject : Option Subject
  reason : Bytes
  expires : Int
  deriving DecidableEq, Repr

inductive AuthError where
  | emptyToken
  /-- `ErrUnavailable` and the error of the request. -/
  | unavailable (err : Err)
  | rejected (reason : Bytes)
  | notServiceAccount (username : Bytes)
  deriving DecidableEq, Repr

def AuthError.text : AuthError → Bytes
  | .emptyToken => lit "empty token"
  | .unavailable err => lit "token review unavailable: " ++ err.text
  | .rejected reason => reason
  | .notServiceAccount username => lit "token does not belong to a serviceaccount: " ++ username

structure Authenticator where
  audiences : List Bytes
  audiences_ne_nil : audiences ≠ []
  /-- How many entries the cache holds; there is none if `0`. -/
  cacheSize : Nat
  ttl : Int

/-- `New`, with a client or without. -/
def new (client : Bool) (audiences : List Bytes) (cacheSize ttl : Int) :
    Except Bytes Authenticator :=
  if client = false then .error (lit "kubernetes client is required")
  else
    let auds := (audiences.map trimSpace).filter fun aud => aud != []
    if h : auds = [] then .error (lit "at least one token audience is required")
    else .ok ⟨auds, h, cacheSize.toNat, ttl⟩

/-! ## Texts -/

/-- What `kubeAudienceError` captures where it matches at the start of a text. -/
def audienceErrorHere (s : Bytes) : Option Bytes :=
  let opening := lit "token audiences ["
  if opening.isPrefixOf s then
    match cut 93 (s.drop opening.length) with
    | some (list, rest) =>
      if (lit " is invalid for the target audiences").isPrefixOf rest then some list else none
    | none => none
  else none

/-- What `kubeAudienceError` captures where it matches first. -/
def kubeAudienceError : Bytes → Option Bytes
  | [] => none
  | c :: s => (audienceErrorHere (c :: s)).or (kubeAudienceError s)

/-- How much of a text is left of the quoted string that it starts within, the closing
quote included; a backslash quotes any character but a newline. -/
def quotedLength : Bytes → Option Nat
  | [] => none
  | c :: s =>
    if c = 34 then some 1
    else if c = 92 then
      match s with
      | [] => none
      | d :: s => if d = 10 then none else (quotedLength s).map (· + 2)
    else (quotedLength s).map (· + 1)

/-- `quotedString.FindAllString` of a text whose first bytes belong to a match already. -/
def quotedStrings : Nat → Bytes → List Bytes
  | _, [] => []
  | skip + 1, _ :: s => quotedStrings skip s
  | 0, c :: s =>
    match if c = 34 then quotedLength s else none with
    | some n => (c :: s.take n) :: quotedStrings n s
    | none => quotedStrings 0 s

def rejectedAudiences (L : ReviewLibraries) (msg : Bytes) : Option (List Bytes) :=
  (kubeAudienceError msg).map fun list => (quotedStrings 0 list).filterMap L.unquote

def Authenticator.audienceMessage (a : Authenticator) (got : List Bytes) : Bytes :=
  let want := a.audiences.head a.audiences_ne_nil
  let have_ := if got = [] then lit "token has no audience"
    else lit "token audience is " ++ (lit ", ").intercalate got
  have_ ++ lit ", expected " ++ (lit " or ").intercalate a.audiences ++
    lit " (create the token with --audience " ++ want ++
    lit ", or a projected token with audience: " ++ want ++ lit ")"

def Authenticator.audienceMatches (a : Authenticator) (got : List Bytes) : Bool :=
  got.any fun g => a.audiences.any fun want => g == want

def serviceAccountStart : Bytes := lit "system:serviceaccount:"

/-- `parseServiceAccountUsername`: namespace and name. -/
def parseServiceAccountUsername (u : Bytes) : Option (Bytes × Bytes) :=
  if serviceAccountStart.isPrefixOf u then
    (cut 58 (trimStart serviceAccountStart u)).filter fun p => p.1 != [] && p.2 != []
  else none

def hashToken (L : ReviewLibraries) (token : Bytes) : Bytes := hexEncode (L.sha256 token).val

/-- The payload of a token that has the form of a JWT. -/
def payload (token : Bytes) : Option Bytes :=
  match token.splitOn 46 with
  | [_, payload, _] => rawURLBase64Decode (payload.rdropWhile fun c => c == 61)
  | _ => none

/-- A number of a JSON text as a fraction. -/
def seconds (d : Decimal) : Seconds where
  num := (if d.negative then -1 else 1) * d.mantissa * 10 ^ d.exponent.toNat
  den := 10 ^ (-d.exponent).toNat
  den_pos := Nat.pow_pos (by decide)

/-- The claim `exp` of a token: the last member of that name, if it is a number. -/
def exp (token : Bytes) : Option Seconds :=
  match ((payload token).bind objectMembers).bind fun ms =>
      (ms.filter fun m => m.1 == lit "exp").getLast? with
  | some (_, .number d) => some (seconds d)
  | _ => none

/-- A member that is decoded into the field tagged `exp`: case is ignored. -/
def isExp (m : Bytes × Value) : Bool := asciiLower m.1 == lit "exp"

/-- What a `*json.Number` is set to; an error for what is no number. -/
def storeNumber : Value → Option (Option Decimal)
  | .null => some none
  | .number d => some (some d)
  | .string s => (asNumber s).map some
  | .bool _ | .array | .object => none

/-- `claims.Exp` after `json.Unmarshal`: members are decoded in order, and later ones
replace earlier ones.  Deeper than 10000 levels nothing is decoded. -/
def unmarshalExp (payload : Bytes) : Option (Option Decimal) :=
  if nestedWithin 10000 0 false payload then
    (objectMembers payload).bind fun ms =>
      ms.foldlM (fun stored m => if isExp m then storeNumber m.2 else some stored) none
  else none

/-- `time.Unix` of whole seconds; a `time.Time` counts them from the year one, in 64 bits. -/
def unix (sec : Int) : Int := (wrap (sec + 62135596800) - 62135596800) * second

def tokenExpiry (L : ReviewLibraries) (token : Bytes) : Option Int :=
  match (payload token).bind unmarshalExp with
  | some (some number) =>
    ((L.float64 (seconds number)).filter fun secs => decide (0 < secs.num)).map fun secs =>
      unix (L.toInt64 secs)
  | _ => none

/-- The decoder finds the claim `exp` where there is one: no member behind it is called so in
another capitalisation, and none before it is what it cannot store. -/
def FindsExp (token : Bytes) : Prop :=
  ∃ text ms, payload token = some text ∧ nestedWithin 10000 0 false text = true ∧
    objectMembers text = some ms ∧ (∀ m ∈ (ms.filter isExp).getLast?, m.1 = lit "exp") ∧
    ∀ m ∈ ms, isExp m = true → storeNumber m.2 ≠ none

/-! ## Authenticate -/

inductive Call where
  | cacheGet (key : Bytes)
  | cacheAdd (key : Bytes) (e : CacheEntry)
  | now
  | review (token : Bytes) (audiences : List Bytes)

abbrev Call.Answer : Call → Type
  | .cacheGet _ => Option CacheEntry
  | .cacheAdd _ _ => Unit
  | .now => Int
  | .review _ _ => Except Err ReviewStatus

def Call.isReview : Call → Bool
  | .review _ _ => true
  | _ => false

abbrev Act := Prog Call Call.Answer

abbrev perform (c : Call) : Act c.Answer := Prog.perform c

/-- What an entry is answered with. -/
def CacheEntry.result (e : CacheEntry) : Except AuthError Subject :=
  match e.subject with
  | none => .error (.rejected e.reason)
  | some subj => .ok subj

section Authenticate
variable (L : ReviewLibraries) (a : Authenticator)

/-- The result the cache has for a key, if it may still be used. -/
def lookup (key : Bytes) : Act (Option (Except AuthError Subject)) := do
  if a.cacheSize = 0 then return none
  match ← perform (.cacheGet key) with
  | none => return none
  | some e =>
    let now ← perform .now
    return if now < e.expires then some e.result else none

def reject (key reason : Bytes) : Act (Except AuthError Subject) := do
  if a.cacheSize ≠ 0 then
    let now ← perform .now
    perform (.cacheAdd key ⟨none, reason, now + a.ttl⟩)
  return .error (.rejected reason)

/-- Why a token is rejected that is not authenticated. -/
def rejection (st : ReviewStatus) : Bytes :=
  let msg := if st.error = [] then lit "token rejected by kube-apiserver" else st.error
  match rejectedAudiences L msg with
  | some got => a.audienceMessage got
  | none => msg

/-- A limit, or when the token itself expires if that is before. -/
def expiresAt (token : Bytes) (limit : Int) : Int :=
  match tokenExpiry L token with
  | some exp => if exp < limit then exp else limit
  | none => limit

/-- Keep who a token belongs to, no longer than the token is valid. -/
def accept (token key : Bytes) (subj : Subject) : Act (Except AuthError Subject) := do
  if a.cacheSize ≠ 0 then
    let start ← perform .now
    let expires := expiresAt L token (start + a.ttl)
    let now ← perform .now
    -- the token may have expired since it was reviewed
    if now < expires then
      perform (.cacheAdd key ⟨some subj, [], expires⟩)
  return .ok subj

/-- What follows a review that was answered. -/
def conclude (token key : Bytes) (st : ReviewStatus) : Act (Except AuthError Subject) :=
  if st.authenticated = false then reject a key (rejection L a st)
  else if a.audienceMatches st.audiences = false then
    reject a key (a.audienceMessage st.audiences)
  else
    match parseServiceAccountUsername st.username with
    | none => return .error (.notServiceAccount st.username)
    | some (ns, sa) => accept L a token key ⟨ns, sa, st.uid, st.audiences, st.groups⟩

/-- `Authenticate`. -/
def authenticate (token : Bytes) : Act (Except AuthError Subject) := do
  let token := trimSpace token
  if token = [] then return .error .emptyToken
  let key := hashToken L token
  if let some result ← lookup a key then return result
  match ← perform (.review token a.audiences) with
  | .error err => return .error (.unavailable err)
  | .ok st => conclude L a token key st

end Authenticate

/-! ## What a review allows -/

/-- A review says that its token belongs to a ServiceAccount. -/
structure ReviewStatus.Identifies (st : ReviewStatus) (a : Authenticator) (subj : Subject) :
    Prop where
  authenticated : st.authenticated = true
  audience : ∃ aud ∈ st.audiences, aud ∈ a.audiences
  username : st.username =
    lit "system:serviceaccount:" ++ subj.namespace_ ++ lit ":" ++ subj.serviceAccount
  namespace_plain : subj.namespace_ ≠ [] ∧ 58 ∉ subj.namespace_
  serviceAccount_ne_nil : subj.serviceAccount ≠ []
  uid : subj.uid = st.uid
  audiences : subj.audiences = st.audiences
  groups : subj.groups = st.groups

/-- A review says that its token is not valid, or not for this authenticator. -/
def ReviewStatus.Rejects (L : ReviewLibraries) (a : Authenticator) (st : ReviewStatus)
    (reason : Bytes) : Prop :=
  (st.authenticated = false ∧ reason = rejection L a st) ∨
    (st.authenticated = true ∧ (∀ aud ∈ st.audiences, aud ∉ a.audiences) ∧
      reason = a.audienceMessage st.audiences)

/-- The token was reviewed, and the clock read right after the answer. -/
def Reviewed (a : Authenticator) (token : Bytes) (st : ReviewStatus) (t0 : Int)
    (t : Trace Call Call.Answer) : Prop :=
  [⟨Call.review token a.audiences, .ok st⟩, ⟨Call.now, t0⟩] <:+: t

/-- An entry that may be made of a review at `t0`. -/
structure CacheEntry.Allowed (L : ReviewLibraries) (a : Authenticator) (token : Bytes)
    (st : ReviewStatus) (t0 : Int) (e : CacheEntry) : Prop where
  expires_le : e.expires ≤ t0 + a.ttl
  result : (∃ subj, e.subject = some subj ∧ st.Identifies a subj ∧
      ∀ exp, tokenExpiry L token = some exp → e.expires ≤ exp) ∨
    (e.subject = none ∧ st.Rejects L a e.reason)

section Reviews
variable {L : ReviewLibraries} {a : Authenticator} {token : Bytes} {st : ReviewStatus}

theorem audienceMatches_iff {got : List Bytes} :
    a.audienceMatches got = true ↔ ∃ aud ∈ got, aud ∈ a.audiences := by
  simp [Authenticator.audienceMatches]

theorem parseServiceAccountUsername_eq_some {u ns sa : Bytes}
    (h : parseServiceAccountUsername u = some (ns, sa)) :
    u = lit "system:serviceaccount:" ++ ns ++ lit ":" ++ sa ∧ (ns ≠ [] ∧ 58 ∉ ns) ∧ sa ≠ [] := by
  unfold parseServiceAccountUsername at h
  split at h
  · rename_i hstart
    obtain ⟨rest, rfl⟩ := List.isPrefixOf_iff_prefix.mp hstart
    rw [trimStart, if_pos hstart, List.drop_left] at h
    obtain ⟨hcut, hne⟩ := Option.filter_eq_some_iff.mp h
    obtain ⟨rfl, hcolon⟩ := cut_eq_some.mp hcut
    obtain ⟨hns, hsa⟩ : ns ≠ [] ∧ sa ≠ [] := by simpa using hne
    refine ⟨?_, ⟨hns, hcolon⟩, hsa⟩
    rw [serviceAccountStart, show lit ":" = [58] by decide, List.append_assoc, List.append_assoc,
      List.singleton_append]
  · cases h

theorem unix_le {sec : Int} (hmin : -9223372036854775808 ≤ sec) : unix sec ≤ sec * second := by
  have hwrap := wrap_le (n := sec + 62135596800) (by omega)
  unfold unix second
  omega

/-- The seconds of a claim that is too large for an `int64` are cut off, never added. -/
theorem toInt64_mul_le (L : ReviewLibraries) (x : Seconds) (hpos : 0 < x.num) :
    L.toInt64 x * x.den ≤ x.num := by
  have hden : (0 : Int) < x.den := Int.natCast_pos.mpr x.den_pos
  rcases lt_or_ge x.num (9223372036854775808 * x.den) with hfits | hlarge
  · rw [L.toInt64_of_lt x (Int.le_of_lt hpos) hfits]
    exact Int.ediv_mul_le _ (Int.ne_of_gt hden)
  · calc L.toInt64 x * x.den
        ≤ 9223372036854775808 * x.den :=
          Int.mul_le_mul_of_nonneg_right (Int.le_of_lt (L.toInt64_max x)) (Int.le_of_lt hden)
      _ ≤ x.num := hlarge

/-- Members in order are stored up to the last one. -/
theorem foldlM_storeNumber {ms : List (Bytes × Value)}
    (htaken : ∀ m ∈ ms, isExp m = true → storeNumber m.2 ≠ none) (stored : Option Decimal) :
    ms.foldlM (fun stored m => if isExp m then storeNumber m.2 else some stored) stored =
      match (ms.filter isExp).getLast? with
      | some m => storeNumber m.2
      | none => some stored := by
  induction ms using List.reverseRecOn with
  | nil => rfl
  | append_singleton ms m ih =>
    have hrest := ih fun m hm => htaken m (List.mem_append_left _ hm)
    have hsome : ms.foldlM (fun stored m => if isExp m then storeNumber m.2 else some stored)
        stored ≠ none := by
      rw [hrest]
      split
      · rename_i m' hm'
        have hmem := List.mem_of_getLast? hm'
        exact htaken m' (List.mem_append_left _ (List.mem_filter.mp hmem).1)
          (List.mem_filter.mp hmem).2
      · exact Option.some_ne_none _
    obtain ⟨before, hbefore⟩ := Option.ne_none_iff_exists'.mp hsome
    rw [List.foldlM_append, hbefore, List.filter_append]
    cases hm : isExp m with
    | true => simp [hm]
    | false =>
      rw [hbefore] at hrest
      simp [hm, hrest]

/-- The last member of the name in any capitalisation is the last of the exact name, if it is
one of those. -/
theorem getLast?_filter_exp {ms : List (Bytes × Value)} {m : Bytes × Value}
    (h : (ms.filter isExp).getLast? = some m) (hname : m.1 = lit "exp") :
    (ms.filter fun m => m.1 == lit "exp").getLast? = some m := by
  have hexact : ms.filter (fun m => m.1 == lit "exp") =
      (ms.filter isExp).filter fun m => m.1 == lit "exp" := by
    rw [List.filter_filter]
    refine List.filter_congr fun m _ => ?_
    cases hm : m.1 == lit "exp" with
    | false => rfl
    | true =>
      have hfold : isExp m = true := by
        rw [isExp, eq_of_beq hm]
        decide
      rw [hfold]
      rfl
  obtain ⟨front, hfront⟩ := List.getLast?_eq_some_iff.mp h
  rw [hexact, hfront, List.filter_append, List.filter_singleton, hname]
  simp

/-- Where the decoder finds the claim, that is what it stores. -/
theorem unmarshalExp_of_findsExp {token : Bytes} {x : Seconds} (hfinds : FindsExp token)
    (hexp : exp token = some x) :
    ∃ d, (payload token).bind unmarshalExp = some (some d) ∧ seconds d = x := by
  obtain ⟨text, ms, hpayload, hnested, hms, hlast, htaken⟩ := hfinds
  have hbind : (payload token).bind objectMembers = some ms := by rw [hpayload]; exact hms
  unfold exp at hexp
  rw [hbind] at hexp
  dsimp only [Option.bind] at hexp
  cases hfilter : (ms.filter isExp).getLast? with
  | none =>
    -- then no member is called `exp` at all
    have hnone : ms.filter (fun m => m.1 == lit "exp") = [] := by
      rw [List.getLast?_eq_none_iff, List.filter_eq_nil_iff] at hfilter
      refine List.filter_eq_nil_iff.mpr fun m hm hname => hfilter m hm ?_
      rw [isExp, eq_of_beq hname]
      decide
    rw [hnone] at hexp
    cases hexp
  | some m =>
    rw [getLast?_filter_exp hfilter (hlast m hfilter)] at hexp
    obtain ⟨name, v⟩ := m
    split at hexp
    · rename_i d hd
      obtain ⟨-, rfl⟩ := Prod.mk.inj (Option.some.inj hd)
      refine ⟨d, ?_, Option.some.inj hexp⟩
      rw [hpayload, Option.bind_some, unmarshalExp, if_pos hnested, hms, Option.bind_some,
        foldlM_storeNumber htaken, hfilter]
      rfl
    · cases hexp

/-- **A token is taken to expire no later than its claim says**, if that is found and not
rounded. -/
theorem tokenExpiry_of_exp {x : Seconds} (hexp : exp token = some x) (hpos : 0 < x.num)
    (hfinds : FindsExp token) (hfloat : x.IsFloat64) :
    ∃ t, tokenExpiry L token = some t ∧ t * x.den ≤ x.num * second := by
  obtain ⟨d, hstored, rfl⟩ := unmarshalExp_of_findsExp hfinds hexp
  obtain ⟨y, hy, hsame⟩ := L.float64_exact _ hfloat
  have hden : (0 : Int) < (seconds d).den := Int.natCast_pos.mpr (seconds d).den_pos
  have hyden : (0 : Int) < y.den := Int.natCast_pos.mpr y.den_pos
  have hypos : 0 < y.num := by
    have hprod : 0 < y.num * (seconds d).den := hsame ▸ Int.mul_pos hpos hyden
    exact Int.pos_of_mul_pos_left hprod hden
  have hint : L.toInt64 y * (seconds d).den ≤ (seconds d).num := by
    refine Int.le_of_mul_le_mul_right ?_ hyden
    calc L.toInt64 y * (seconds d).den * y.den
        = L.toInt64 y * y.den * (seconds d).den := Int.mul_right_comm _ _ _
      _ ≤ y.num * (seconds d).den :=
          Int.mul_le_mul_of_nonneg_right (toInt64_mul_le L y hypos) (Int.le_of_lt hden)
      _ = (seconds d).num * y.den := hsame
  refine ⟨unix (L.toInt64 y), ?_, ?_⟩
  · simp [tokenExpiry, hstored, hy, hypos]
  · calc unix (L.toInt64 y) * (seconds d).den
        ≤ L.toInt64 y * second * (seconds d).den :=
          Int.mul_le_mul_of_nonneg_right (unix_le (L.toInt64_min y)) (Int.le_of_lt hden)
      _ = L.toInt64 y * (seconds d).den * second := Int.mul_right_comm _ _ _
      _ ≤ (seconds d).num * second := Int.mul_le_mul_of_nonneg_right hint (by decide)

theorem expiresAt_le (L : ReviewLibraries) (token : Bytes) (limit : Int) :
    expiresAt L token limit ≤ limit ∧
      ∀ exp, tokenExpiry L token = some exp → expiresAt L token limit ≤ exp := by
  unfold expiresAt
  cases tokenExpiry L token with
  | none => simp
  | some exp =>
    simp only [Option.some.injEq, forall_eq']
    split <;> omega

end Reviews

/-! ## What the cache holds -/

abbrev Held := List (Bytes × CacheEntry)

/-- The cache finds only what it holds and drops what it likes at any time; the clock and
the kube-apiserver answer as they like. -/
def serves (held : Held) : (c : Call) → c.Answer → Held → Prop
  | .cacheGet key, (found : Option CacheEntry), held' =>
    (∀ e, found = some e → (key, e) ∈ held) ∧ held' ⊆ held
  | .cacheAdd key e, _, held' => held' ⊆ (key, e) :: held
  | .now, _, held' | .review _ _, _, held' => held' ⊆ held

/-- A call has made the entry, or could have, out of its own review. -/
def Backed (L : ReviewLibraries) (a : Authenticator) (W : Bytes → Prop) (key : Bytes)
    (e : CacheEntry) (t : Trace Call Call.Answer) : Prop :=
  ∃ token st t0, W token ∧ key = hashToken L token ∧ Reviewed a token st t0 t ∧
    e.Allowed L a token st t0

/-- What holds of the cache and of what all calls have done. -/
structure CacheInvariant (L : ReviewLibraries) (a : Authenticator) (W : Bytes → Prop) (held : Held)
    (ts : List (Trace Call Call.Answer)) : Prop where
  held : ∀ p ∈ held, ∃ t ∈ ts, Backed L a W p.1 p.2 t
  found : ∀ t ∈ ts, ∀ key e, ⟨.cacheGet key, some e⟩ ∈ t → ∃ t' ∈ ts, Backed L a W key e t'

/-- What a call may add to the cache after what it has done. -/
def Adds (L : ReviewLibraries) (a : Authenticator) (W : Bytes → Prop)
    (t : Trace Call Call.Answer) : Call → Prop
  | .cacheAdd key e => Backed L a W key e t
  | _ => True

/-- The result of a call: it made a review, or had no token, or found an entry in time. -/
def Concludes (L : ReviewLibraries) (token : Bytes) (t : Trace Call Call.Answer)
    (r : Except AuthError Subject) : Prop :=
  (∃ ev ∈ t, ev.1.isReview = true) ∨
    (trimSpace token = [] ∧ r = .error .emptyToken) ∨
    ∃ (e : CacheEntry) (now : Int), now < e.expires ∧ r = e.result ∧
      t = [⟨.cacheGet (hashToken L (trimSpace token)), some e⟩, ⟨.now, now⟩]

section Runs
variable {L : ReviewLibraries} {a : Authenticator} {W : Bytes → Prop} {key token : Bytes}
  {e : CacheEntry} {st : ReviewStatus} {held held' : Held} {t t' : Trace Call Call.Answer}
  {ts before after : List (Trace Call Call.Answer)} {c : Call} {x : c.Answer}

theorem Backed.mono (h : Backed L a W key e t) (hle : t <+: t') : Backed L a W key e t' := by
  obtain ⟨token, st, t0, hW, hkey, hreviewed, hallowed⟩ := h
  exact ⟨token, st, t0, hW, hkey, hreviewed.trans hle.isInfix, hallowed⟩

/-- What one call has done more takes nothing from what was done. -/
theorem backed_call (h : ∃ t' ∈ before ++ t :: after, Backed L a W key e t') :
    ∃ t' ∈ before ++ (t ++ [⟨c, x⟩]) :: after, Backed L a W key e t' := by
  obtain ⟨t', ht', hbacked⟩ := h
  rcases List.mem_cons.mp (List.perm_middle.mem_iff.mp ht') with rfl | hother
  · exact ⟨_, List.mem_append_right _ List.mem_cons_self, hbacked.mono (List.prefix_append ..)⟩
  · exact ⟨t', List.perm_middle.mem_iff.mpr (List.mem_cons_of_mem _ hother), hbacked⟩

theorem CacheInvariant.start (h : CacheInvariant L a W held ts) :
    CacheInvariant L a W held (ts ++ [[]]) := by
  have hmono : ∀ {key e}, (∃ t ∈ ts, Backed L a W key e t) →
      ∃ t ∈ ts ++ [[]], Backed L a W key e t := by
    rintro key e ⟨t, ht, hbacked⟩
    exact ⟨t, List.mem_append_left _ ht, hbacked⟩
  refine ⟨fun p hp => hmono (h.held p hp), fun t ht key e hfound => ?_⟩
  rcases List.mem_append.mp ht with hold | hnew
  · exact hmono (h.found t hold key e hfound)
  · obtain rfl := List.mem_singleton.mp hnew
    cases hfound

/-- **Every call of the cache keeps the invariant**, whichever entries are dropped. -/
theorem CacheInvariant.serve (h : CacheInvariant L a W held (before ++ t :: after))
    (hc : Adds L a W t c) (hs : serves held c x held') :
    CacheInvariant L a W held' (before ++ (t ++ [⟨c, x⟩]) :: after) := by
  have hcaller : t ∈ before ++ t :: after := List.mem_append_right _ List.mem_cons_self
  -- what is held was held before, or was just added by the call out of its own review
  have hheld : ∀ p ∈ held', ∃ t' ∈ before ++ t :: after, Backed L a W p.1 p.2 t' := by
    intro p hp
    cases c with
    | cacheGet key => exact h.held p (hs.2 hp)
    | cacheAdd key e =>
      rcases List.mem_cons.mp (hs hp) with rfl | hold
      · exact ⟨t, hcaller, hc⟩
      · exact h.held p hold
    | now | review token auds => exact h.held p (hs hp)
  have hfound : ∀ key e, (⟨.cacheGet key, some e⟩ : Event Call Call.Answer) = ⟨c, x⟩ →
      ∃ t' ∈ before ++ t :: after, Backed L a W key e t' := by
    rintro key e heq
    cases heq
    exact h.held _ (hs.1 e rfl)
  refine ⟨fun p hp => backed_call (hheld p hp), fun t' ht' key e he => backed_call ?_⟩
  -- an entry was found by another call, or earlier by this one, or just now
  rcases List.mem_cons.mp (List.perm_middle.mem_iff.mp ht') with rfl | hother
  · rcases List.mem_append.mp he with hold | hlast
    · exact h.found t hcaller key e hold
    · exact hfound key e (List.mem_singleton.mp hlast)
  · exact h.found t' (List.perm_middle.mem_iff.mpr (List.mem_cons_of_mem _ hother)) key e he

/-! ## What one call does -/

theorem lookup_keeps :
    (lookup a key).Keeps (fun _ => True) (Adds L a W) (fun t r => ∀ result, r = some result →
      ∃ (e : CacheEntry) (now : Int), now < e.expires ∧ result = e.result ∧
        t = [⟨.cacheGet key, some e⟩, ⟨.now, now⟩]) [] := by
  unfold lookup
  split
  · exact Prog.keeps_pure.mpr (by simp)
  · refine Prog.keeps_call.mpr ⟨trivial, fun found _ => ?_⟩
    cases found with
    | none => exact Prog.keeps_pure.mpr (by simp)
    | some e =>
      refine Prog.keeps_call.mpr ⟨trivial, fun n _ => Prog.keeps_pure.mpr ?_⟩
      intro result hresult
      split at hresult
      · rename_i hlt
        exact ⟨e, n, hlt, (Option.some.inj hresult).symm, rfl⟩
      · cases hresult

/-- The trace of a call that has just got the answer of its review. -/
abbrev afterReview (a : Authenticator) (earlier : Trace Call Call.Answer) (token : Bytes)
    (st : ReviewStatus) : Trace Call Call.Answer :=
  earlier ++ [⟨.review token a.audiences, .ok st⟩]

theorem reviewed_now (earlier later : Trace Call Call.Answer) (t0 : Int) :
    Reviewed a token st t0 (afterReview a earlier token st ++ [⟨.now, t0⟩] ++ later) :=
  ⟨earlier, later, by simp [afterReview]⟩

theorem reject_keeps {reason : Bytes} (hW : W token) (hst : st.Rejects L a reason)
    (earlier : Trace Call Call.Answer) :
    (reject a (hashToken L token) reason).Keeps (fun _ => True) (Adds L a W)
      (fun t _ => afterReview a earlier token st <+: t) (afterReview a earlier token st) := by
  unfold reject
  split
  · refine Prog.keeps_call.mpr ⟨trivial, fun t0 _ => ?_⟩
    refine (Prog.keeps_call (c := Call.cacheAdd ..)).mpr ⟨?_, fun _ _ => ?_⟩
    · refine ⟨token, st, t0, hW, rfl, ?_, Int.le_refl _, .inr ⟨rfl, hst⟩⟩
      simpa using reviewed_now earlier [] t0
    · exact Prog.keeps_pure.mpr (by simp [List.append_assoc])
  · exact Prog.keeps_pure.mpr List.prefix_rfl

theorem accept_keeps {subj : Subject} (hW : W token) (hst : st.Identifies a subj)
    (earlier : Trace Call Call.Answer) :
    (accept L a token (hashToken L token) subj).Keeps (fun _ => True) (Adds L a W)
      (fun t _ => afterReview a earlier token st <+: t) (afterReview a earlier token st) := by
  unfold accept
  split
  · refine Prog.keeps_call.mpr ⟨trivial, fun t0 _ => ?_⟩
    refine Prog.keeps_call.mpr ⟨trivial, fun t1 _ => ?_⟩
    split
    · refine (Prog.keeps_call (c := Call.cacheAdd ..)).mpr ⟨?_, fun _ _ => ?_⟩
      · obtain ⟨hlimit, hexp⟩ := expiresAt_le L token (t0 + a.ttl)
        exact ⟨token, st, t0, hW, rfl, reviewed_now earlier _ t0, hlimit,
          .inl ⟨subj, rfl, hst, hexp⟩⟩
      · exact Prog.keeps_pure.mpr (by simp [List.append_assoc])
    · exact Prog.keeps_pure.mpr (by simp [List.append_assoc])
  · exact Prog.keeps_pure.mpr List.prefix_rfl

/-- What follows a review: an entry is made only of what the review says. -/
theorem conclude_keeps (hW : W token) (earlier : Trace Call Call.Answer) :
    (conclude L a token (hashToken L token) st).Keeps (fun _ => True) (Adds L a W)
      (fun t _ => afterReview a earlier token st <+: t) (afterReview a earlier token st) := by
  unfold conclude
  split
  · rename_i hauth
    exact reject_keeps hW (.inl ⟨hauth, rfl⟩) earlier
  · rename_i hauth
    have hauth : st.authenticated = true := Bool.not_eq_false _ ▸ hauth
    split
    · rename_i hmatch
      refine reject_keeps hW (.inr ⟨hauth, fun aud haud hmem => ?_, rfl⟩) earlier
      rw [audienceMatches_iff.mpr ⟨aud, haud, hmem⟩] at hmatch
      cases hmatch
    · rename_i hmatch
      cases hparse : parseServiceAccountUsername st.username with
      | none => exact Prog.keeps_pure.mpr List.prefix_rfl
      | some p =>
        obtain ⟨hname, hns, hsa⟩ := parseServiceAccountUsername_eq_some hparse
        refine accept_keeps hW ⟨hauth, ?_, hname, hns, hsa, rfl, rfl, rfl⟩ earlier
        exact audienceMatches_iff.mp (by simpa using hmatch)

theorem authenticate_keeps {input : Bytes} (hW : W (trimSpace input)) :
    (authenticate L a input).Keeps (fun _ => True) (Adds L a W) (Concludes L input) [] := by
  unfold authenticate
  dsimp only
  split
  · rename_i hempty
    exact Prog.keeps_pure.mpr (.inr (.inl ⟨hempty, rfl⟩))
  · refine Prog.keeps_bind.mpr (lookup_keeps.mono fun t found hfound => ?_)
    cases found with
    | some result => exact Prog.keeps_pure.mpr (.inr (.inr (hfound result rfl)))
    | none =>
      refine Prog.keeps_call.mpr ⟨trivial, fun answer _ => ?_⟩
      cases answer with
      | error err =>
        exact Prog.keeps_pure.mpr (.inl ⟨_, List.mem_append_right _ List.mem_cons_self, rfl⟩)
      | ok st =>
        refine (conclude_keeps hW t).mono fun t' r ht' => .inl ?_
        exact ⟨_, ht'.subset (List.mem_append_right _ List.mem_cons_self), rfl⟩

end Runs

/-- Calls of `Authenticate` at once, with tokens in `W` and a cache that was empty. -/
def Authenticates (L : ReviewLibraries) (a : Authenticator) (W : Bytes → Prop)
    (pool : Pool Held { token : Bytes // W (trimSpace token) } Call Call.Answer
      (Except AuthError Subject)) : Prop :=
  Pool.Reaches serves (fun token => authenticate L a token.val) [] pool

/-- **The cache never extends how long a token is valid.**  In every state of any number of
calls, the one in which a call returns included: a call that returned without a review had
no token, or was answered from the cache as an earlier review of its token at `t0` allows,
less than `ttl` after it and, if the result is a subject, before the claim `exp` of the
token, where the decoder finds that and it is a `float64`.  A failed review or another
identity is never what it returned. -/
theorem cached_result_reviewed (L : ReviewLibraries) (a : Authenticator) (W : Bytes → Prop)
    (hW : ∀ s t, W s → W t → hashToken L s = hashToken L t → s = t)
    (pool : Pool Held { token : Bytes // W (trimSpace token) } Call Call.Answer
      (Except AuthError Subject))
    (hpool : Authenticates L a W pool) :
    ∀ th ∈ pool.threads, ∀ r, th.rest = .pure r →
      (∀ ev ∈ th.done, ev.1.isReview = false) →
      (trimSpace th.input.val = [] ∧ r = .error .emptyToken) ∨
        ∃ (e : CacheEntry) (now : Int),
          th.done = [⟨.cacheGet (hashToken L (trimSpace th.input.val)), some e⟩, ⟨.now, now⟩] ∧
          ∃ earlier ∈ pool.threads, ∃ st t0,
            Reviewed a (trimSpace th.input.val) st t0 earlier.done ∧ now < t0 + a.ttl ∧
            ((∃ subj, r = .ok subj ∧ st.Identifies a subj ∧
                ∀ x, exp (trimSpace th.input.val) = some x → 0 < x.num →
                  FindsExp (trimSpace th.input.val) → x.IsFloat64 →
                  now * x.den < x.num * second) ∨
              ∃ reason, r = .error (.rejected reason) ∧ st.Rejects L a reason) := by
  obtain ⟨hinv, hthreads⟩ := Pool.ReachesBy.keeps hpool
    (J := CacheInvariant L a W) (P := fun _ => True) (G := fun _ => Adds L a W)
    (Q := fun token => Concludes L token.val)
    ⟨fun p hp => absurd hp List.not_mem_nil, fun t ht => absurd ht List.not_mem_nil⟩
    (fun _ _ h => h.start) (fun _ _ _ _ _ _ _ _ h hc hs => ⟨h.serve hc hs, trivial⟩)
    (fun token => authenticate_keeps token.property)
  intro th hth r hr hnone
  obtain ⟨-, hrest⟩ := hthreads th hth
  rw [hr] at hrest
  rcases hrest with ⟨ev, hev, hreview⟩ | hempty | ⟨e, now, hlt, hresult, hdone⟩
  · rw [hnone ev hev] at hreview
    cases hreview
  · exact .inl hempty
  · right
    refine ⟨e, now, hdone, ?_⟩
    -- the entry was made after a review of the same token, as hashes tell tokens apart
    obtain ⟨t, ht, token, st, t0, hWtoken, hkey, hreviewed, hallowed⟩ := hinv.found th.done
      (List.mem_map.mpr ⟨th, hth, rfl⟩) _ e (by rw [hdone]; exact List.mem_cons_self)
    obtain rfl := hW _ _ th.input.property hWtoken hkey
    obtain ⟨earlier, hearlier, rfl⟩ := List.mem_map.mp ht
    refine ⟨earlier, hearlier, st, t0, hreviewed, Int.lt_of_lt_of_le hlt hallowed.expires_le, ?_⟩
    rcases hallowed.result with ⟨subj, hsubj, hst, hexpires⟩ | ⟨hsubj, hst⟩
    · refine .inl ⟨subj, by rw [hresult, CacheEntry.result, hsubj], hst, ?_⟩
      intro x hx hpos hfinds hfloat
      obtain ⟨expiry, hexpiry, hle⟩ := tokenExpiry_of_exp hx hpos hfinds hfloat
      calc now * x.den
          < expiry * x.den :=
            Int.mul_lt_mul_of_pos_right (Int.lt_of_lt_of_le hlt (hexpires expiry hexpiry))
              (Int.natCast_pos.mpr x.den_pos)
        _ ≤ x.num * second := hle
    · exact .inr ⟨e.reason, by rw [hresult, CacheEntry.result, hsubj], hst⟩

/-- A cache that keeps everything, a clock that stands and a review that says `st`. -/
def keepsAnswer (now : Int) (st : ReviewStatus) (held : Held) : (c : Call) → c.Answer × Held
  | .cacheGet key => (held.lookup key, held)
  | .cacheAdd key e => ((), (key, e) :: held)
  | .now => (now, held)
  | .review _ _ => (.ok st, held)

theorem keepsAnswer_serves (now : Int) (st : ReviewStatus) (held : Held) (c : Call) :
    serves held c (keepsAnswer now st held c).1 (keepsAnswer now st held c).2 := by
  cases c with
  | cacheGet key =>
    refine ⟨fun e he => ?_, List.Subset.refl _⟩
    obtain ⟨before, after, rfl, -⟩ := List.lookup_eq_some_iff.mp he
    exact List.mem_append_right _ List.mem_cons_self
  | cacheAdd key e | now | review token auds => exact List.Subset.refl _

/-- The whole seconds, and `0` for what does not fit. -/
def Seconds.truncate (x : Seconds) : Int :=
  if 0 ≤ x.num ∧ x.num < 9223372036854775808 * (x.den : Int) then x.num / x.den else 0

theorem Seconds.truncate_bounds (x : Seconds) :
    -9223372036854775808 ≤ x.truncate ∧ x.truncate < 9223372036854775808 := by
  unfold truncate
  split
  · rename_i h
    have hnonneg : 0 ≤ x.num / x.den := Int.ediv_nonneg h.1 (Int.natCast_nonneg x.den)
    have hlt : x.num / x.den < 9223372036854775808 :=
      Int.ediv_lt_of_lt_mul (Int.natCast_pos.mpr x.den_pos) h.2
    omega
  · decide

theorem length_firstBytes (s : Bytes) : ((s ++ List.replicate 32 0).take 32).length = 32 := by
  simp

/-- Small stand-ins: a hash that keeps the first bytes, and numbers that are not rounded. -/
def ReviewLibraries.plain : ReviewLibraries where
  sha256 s := ⟨(s ++ List.replicate 32 0).take 32, length_firstBytes s⟩
  float64 := some
  toInt64 := Seconds.truncate
  unquote s := some (s.drop 1).dropLast
  float64_exact x _ := ⟨x, rfl, rfl⟩
  toInt64_min x := x.truncate_bounds.1
  toInt64_max x := x.truncate_bounds.2
  toInt64_of_lt _ h0 h1 := if_pos ⟨h0, h1⟩

def relayAuthenticator : Authenticator := ⟨[lit "sigillum"], by decide, 8, minute⟩

def relaySubject : Subject := ⟨lit "shop", lit "mailer", lit "1", [lit "sigillum"], []⟩

def relayStatus : ReviewStatus :=
  ⟨true, [], [lit "sigillum"], lit "system:serviceaccount:shop:mailer", lit "1", []⟩

/-- A call with a token at the second `now`. -/
def relayAuthenticate (token : Bytes) (now : Int) (held : Held) :
    Held × Trace Call Call.Answer × Except AuthError Subject :=
  (authenticate .plain relayAuthenticator token).run (keepsAnswer (now * second) relayStatus) held []

/-- Such a call when it has returned. -/
def relayThread (token : Bytes) (htrim : trimSpace token = token) (now : Int) (held : Held) :
    Thread { t : Bytes // trimSpace t = token } Call Call.Answer (Except AuthError Subject) where
  input := ⟨token, htrim⟩
  done := (relayAuthenticate token now held).2.1
  rest := .pure (relayAuthenticate token now held).2.2

/-- Two calls with a token, at the seconds `now` and `later`. -/
theorem authenticates_twice (token : Bytes) (htrim : trimSpace token = token) (now later : Int) :
    Authenticates .plain relayAuthenticator (· = token)
      ⟨(relayAuthenticate token later (relayAuthenticate token now []).1).1,
        [relayThread token htrim now [],
          relayThread token htrim later (relayAuthenticate token now []).1]⟩ := by
  have hstart : Authenticates .plain relayAuthenticator (· = token) ⟨[], []⟩ := .refl
  have hfirst := Pool.ReachesBy.run (keepsAnswer_serves (now * second) relayStatus) hstart
    ⟨token, htrim⟩
  exact Pool.ReachesBy.run (keepsAnswer_serves (later * second) relayStatus) hfirst ⟨token, htrim⟩

/-- The payload is an object with a member `exp`, which is 100. -/
def relayToken : Bytes := lit "h.eyJleHAiOjEwMH0.s"

theorem findsExp_relayToken :
    exp relayToken = some (seconds ⟨false, 100, 0⟩) ∧ FindsExp relayToken := by
  have hpayload : payload relayToken = some (lit "\x7b\"exp\":100\x7d") := by decide +kernel
  have hms : objectMembers (lit "\x7b\"exp\":100\x7d") =
      some [(lit "exp", .number ⟨false, 100, 0⟩)] := by decide +kernel
  refine ⟨?_, _, _, hpayload, by decide +kernel, hms, by decide, by decide⟩
  rw [exp, hpayload, Option.bind_some, hms]
  rfl

/-- The second call with a token is answered from the cache, before second 100. -/
theorem cached_result_reviewed_twice :
    (relayAuthenticate relayToken 95 (relayAuthenticate relayToken 90 []).1).2.2 =
        .ok relaySubject ∧
      ∃ (st : ReviewStatus) (t0 now : Int), now < t0 + minute ∧ now < 100 * second ∧
        st.Identifies relayAuthenticator relaySubject := by
  have hresult : (relayAuthenticate relayToken 95 (relayAuthenticate relayToken 90 []).1).2.2 =
      .ok relaySubject := by decide +kernel
  have htrim : trimSpace relayToken = relayToken := by decide +kernel
  have hdone : ∀ ev ∈ (relayAuthenticate relayToken 95
      (relayAuthenticate relayToken 90 []).1).2.1, ev.1.isReview = false := by decide +kernel
  obtain ⟨hexp, hfinds⟩ := findsExp_relayToken
  refine ⟨hresult, ?_⟩
  have hpool := authenticates_twice relayToken htrim 90 95
  generalize relayAuthenticate relayToken 90 [] = first at *
  rcases cached_result_reviewed .plain relayAuthenticator (· = relayToken)
      (fun s t hs ht _ => hs.trans ht.symm) _ hpool (relayThread relayToken htrim 95 first.1)
      (by simp) _ rfl hdone with
    ⟨hempty, -⟩ | ⟨e, now, -, -, -, st, t0, -, hlt, ⟨subj, hr, hst, hbefore⟩ | ⟨reason, hr, -⟩⟩
  · exact absurd (htrim.symm.trans hempty) (by decide)
  · obtain rfl := Except.ok.inj (hresult.symm.trans hr)
    have hnow := hbefore _ ((congrArg exp htrim).trans hexp) (by decide) (htrim.symm ▸ hfinds)
      ⟨100, 0, 0, by decide, by decide, by decide, by decide⟩
    exact ⟨st, t0, now, hlt, by simpa [seconds] using hnow, hst⟩
  · cases hresult.symm.trans hr

/-- The payload has a member `exp`, which is 100, and behind it one called `EXP`, for the year
2100. -/
def shadowedToken : Bytes := lit "h.eyJleHAiOjEwMCwiRVhQIjo0MTAyNDQ0ODAwfQ.s"

/-- What a call read from the clock. -/
def readings (t : Trace Call Call.Answer) : List Int :=
  t.filterMap fun
    | ⟨.now, time⟩ => some time
    | _ => none

/-- A token that expires at second 100 is answered from the cache at second 120. -/
theorem exp_outlived :
    ∃ pool, Authenticates .plain relayAuthenticator (· = shadowedToken) pool ∧
      ∃ th ∈ pool.threads, th.rest = .pure (.ok relaySubject) ∧
        (∀ ev ∈ th.done, ev.1.isReview = false) ∧ readings th.done = [120 * second] ∧
        ∃ x, exp (trimSpace th.input.val) = some x ∧ 0 < x.num ∧
          ¬ 120 * second * x.den < x.num * second := by
  have htrim : trimSpace shadowedToken = shadowedToken := by decide +kernel
  have hresult : (relayAuthenticate shadowedToken 120
      (relayAuthenticate shadowedToken 90 []).1).2.2 = .ok relaySubject := by decide +kernel
  have hdone : (∀ ev ∈ (relayAuthenticate shadowedToken 120
        (relayAuthenticate shadowedToken 90 []).1).2.1, ev.1.isReview = false) ∧
      readings (relayAuthenticate shadowedToken 120
        (relayAuthenticate shadowedToken 90 []).1).2.1 = [120 * second] := by decide +kernel
  have hms : (payload shadowedToken).bind objectMembers =
      some [(lit "exp", .number ⟨false, 100, 0⟩), (lit "EXP", .number ⟨false, 4102444800, 0⟩)] := by
    decide +kernel
  have hexp : exp shadowedToken = some (seconds ⟨false, 100, 0⟩) := by
    rw [exp, hms]
    rfl
  have hpool := authenticates_twice shadowedToken htrim 90 120
  generalize relayAuthenticate shadowedToken 90 [] = first at *
  exact ⟨_, hpool, relayThread shadowedToken htrim 120 first.1, by simp,
    congrArg Prog.pure hresult, hdone.1, hdone.2, _, (congrArg exp htrim).trans hexp, by decide,
    by decide⟩

end TokenReview
end Sigillum
