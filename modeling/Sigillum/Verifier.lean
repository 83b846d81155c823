import Sigillum.Argon2Strings

/-! # Verifying credentials

`credential.Verifier`: a login (`lookup` and `check`), and the check of an open
session (`stillValid`), which has only the result of the login to go by.

A Verifier remembers the logins argon2id accepted.  `Reached` is what its cache can
have come to hold, whatever the order in which calls that run at once look into it
and add to it.
-/
namespace Sigillum
open Bytes Duration

namespace Credential

/-- An error of `Reader.Get`. -/
inductive ReadError where
  | notFound
  | other (err : Err)
  deriving DecidableEq, Repr

/-- `client.Reader`, by namespace and name. -/
abbrev Reader := Bytes → Bytes → Except ReadError MailCredential

/-- `ErrInvalid`, or another error. -/
inductive VerifyError where
  | invalid
  | other (err : Err)
  deriving DecidableEq, Repr

/-- `Result`. -/
structure Result where
  ns : Bytes
  serviceAccount : Bytes
  username : Bytes
  previous : Bool
  uid : Bytes
  hash : Bytes
  deriving DecidableEq, Repr

/-! ## Objects -/

/-- `meta.FindStatusCondition`. -/
def findStatusCondition (conds : List CredentialCondition) (type : ConditionType) :
    Option CredentialCondition :=
  conds.find? fun c => c.type = type

/-- `Usable`. -/
def usable (mc : MailCredential) : Bool :=
  match findStatusCondition mc.status.conditions .ready with
  | some ready =>
    if ready.status ≠ .true ∨ mc.status.serviceAccountName ≠ mc.spec.serviceAccountName then false
    else if mc.generated then true
    else mc.status.current.any fun cur => cur.hash == mc.spec.passwordHash
  | none => false

/-- `Reader.Get`, where an object that does not exist is `ErrInvalid`. -/
def get (reader : Reader) (ns name : Bytes) : Except VerifyError MailCredential :=
  match reader ns name with
  | .error .notFound => .error .invalid
  | .error (.other err) => .error (.other err)
  | .ok mc => .ok mc

/-- `Verifier.Lookup`. -/
def lookup (reader : Reader) (username : Bytes) : Except VerifyError MailCredential :=
  match parseUsername username with
  | none => .error .invalid
  | some (ns, name) => do
    let mc ← get reader ns name
    if usable mc = false ∨ mc.status.username ≠ username then .error .invalid else .ok mc

/-! ## Passwords -/

section Passwords
variable (L : CredentialLibraries)

def argonCacheTTL : Int := 5 * minute

/-- What was done with `argonOK`, with keys and the times at which they expire. -/
abbrev ArgonCache := Cache.History { sum : Bytes // sum.length = 32 } Int

/-- A new Verifier's cache. -/
abbrev ArgonCache.new : ArgonCache := []

/-- The text whose hash is the key of a login. -/
def loginText (username phc password : Bytes) : Bytes := username ++ 0 :: (phc ++ 0 :: password)

/-- `Verifier.verifyArgon2id`, which looks into the cache at `now` and adds to it at
`later`. -/
def Verifier.verifyArgon2id (cache : ArgonCache) (username phc password : Bytes)
    (now later : Int) : Bool × ArgonCache :=
  let key := L.sha256 (loginText username phc password)
  let (exp, cache) := L.argonOK.get cache key
  if exp.any (now < ·) then (true, cache)
  else match Credential.verifyArgon2id L phc password with
  | .error _ => (false, cache)
  | .ok ok => (ok, if ok then .add key (later + argonCacheTTL) :: cache else cache)

/-- The result of a login to `mc`, but for the hash that matched. -/
def resultOf (mc : MailCredential) : Result :=
  ⟨mc.ns, mc.spec.serviceAccountName, mc.status.username, false, mc.uid, []⟩

/-- `Verifier.Check` of a generated credential. -/
def checkGenerated (mc : MailCredential) (password : Bytes) (now : Int) :
    Except VerifyError Result :=
  match mc.status.current.filter fun cur => verifyGenerated L cur.hash password with
  | some cur => .ok { resultOf mc with hash := cur.hash }
  | none =>
    match mc.status.previous.filter fun prev =>
        now < prev.validUntil && verifyGenerated L prev.hash password with
    | some prev => .ok { resultOf mc with hash := prev.hash, previous := true }
    | none => .error .invalid

/-- `Verifier.Check`. -/
def check (cache : ArgonCache) (mc : MailCredential) (password : Bytes) (now later : Int) :
    Except VerifyError Result × ArgonCache :=
  if password = [] then (.error .invalid, cache)
  else if mc.generated then (checkGenerated L mc password now, cache)
  else
    let (ok, cache) := Verifier.verifyArgon2id L cache mc.status.username mc.spec.passwordHash
      password now later
    (if ok then .ok { resultOf mc with hash := mc.spec.passwordHash } else .error .invalid, cache)

end Passwords

/-- `nameOf`. -/
def nameOf (username : Bytes) : Bytes :=
  match parseUsername username with
  | some (_, name) => name
  | none => []

/-- `Verifier.StillValid` in generated mode. -/
def hashStillValid (st : MailCredentialStatus) (hash : Bytes) (now : Int) :
    Except VerifyError Bool :=
  if isGeneratedHash hash = false then .error .invalid
  else if st.current.any fun cur => cur.hash == hash then .ok false
  else if st.previous.any fun prev => prev.hash == hash && now < prev.validUntil then .ok true
  else .error .invalid

/-- `Verifier.StillValid`. -/
def stillValid (reader : Reader) (r : Result) (now : Int) : Except VerifyError Bool := do
  let mc ← get reader r.ns (nameOf r.username)
  if mc.uid ≠ r.uid ∨ usable mc = false ∨ mc.spec.serviceAccountName ≠ r.serviceAccount then
    .error .invalid
  else if mc.generated then hashStillValid mc.status r.hash now
  else if mc.spec.passwordHash = r.hash then .ok false
  else .error .invalid

/-! ## What the cache holds -/

section Cache
variable (L : CredentialLibraries)

/-- A login: user name, PHC string and password. -/
structure Login where
  username : Bytes
  phc : Bytes
  password : Bytes
  deriving DecidableEq, Repr

def Login.text (l : Login) : Bytes := loginText l.username l.phc l.password

/-- The caches a Verifier can come to hold, with the logins argon2id accepted.  User
names are made of the names of objects, which have no NUL bytes. -/
inductive Reached : List Login → ArgonCache → Prop
  | new : Reached [] .new
  | probed {logins : List Login} {cache : ArgonCache} (key : { sum : Bytes // sum.length = 32 })
    (h : Reached logins cache) : Reached logins (.get key :: cache)
  | remembered {logins : List Login} {cache : ArgonCache} (l : Login) (exp : Int)
    (h : Reached logins cache) (hname : 0 ∉ l.username)
    (hok : verifyArgon2id L l.phc l.password = .ok true) :
    Reached (l :: logins) (.add (L.sha256 l.text) exp :: cache)

variable {L} {logins : List Login} {cache : ArgonCache}

theorem Reached.login (h : Reached L logins cache) :
    ∀ l ∈ logins, 0 ∉ l.username ∧ verifyArgon2id L l.phc l.password = .ok true := by
  induction h with
  | new => exact nofun
  | probed key h ih => exact ih
  | remembered l exp h hname hok ih =>
    intro l' hl'
    rcases List.mem_cons.mp hl' with rfl | hl'
    · exact ⟨hname, hok⟩
    · exact ih l' hl'

/-- Every key is that of a login argon2id accepted. -/
theorem Reached.entry (h : Reached L logins cache) :
    ∀ key exp, cache.stored key = some exp → ∃ l ∈ logins, key = L.sha256 l.text := by
  induction h with
  | new => exact nofun
  | probed key h ih => exact ih
  | remembered l exp h hname hok ih =>
    intro key exp' hstored
    by_cases hkey : key = L.sha256 l.text
    · exact ⟨l, List.mem_cons_self, hkey⟩
    · rw [Cache.History.stored, if_neg hkey] at hstored
      obtain ⟨l', hl', hkey'⟩ := ih key exp' hstored
      exact ⟨l', List.mem_cons_of_mem _ hl', hkey'⟩

/-- A check of a password leaves such a cache. -/
theorem Reached.check (h : Reached L logins cache) {mc : MailCredential}
    (hname : 0 ∉ mc.status.username) (password : Bytes) (now later : Int) :
    ∃ logins', Reached L logins' (check L cache mc password now later).2 := by
  unfold Credential.check
  split
  · exact ⟨logins, h⟩
  · split
    · exact ⟨logins, h⟩
    · dsimp only [Verifier.verifyArgon2id]
      split
      · exact ⟨logins, h.probed _⟩
      · split
        · exact ⟨logins, h.probed _⟩
        · rename_i ok hok
          cases ok with
          | false => exact ⟨logins, h.probed _⟩
          | true =>
            exact ⟨_, (h.probed _).remembered ⟨mc.status.username, mc.spec.passwordHash, password⟩
              _ hname hok⟩

/-- A login that is accepted: argon2id accepts it, or accepted one with the same key. -/
theorem Reached.verifyArgon2id (h : Reached L logins cache) {l : Login} {now later : Int}
    (hok : (Verifier.verifyArgon2id L cache l.username l.phc l.password now later).1 = true) :
    verifyArgon2id L l.phc l.password = .ok true ∨
      ∃ l' ∈ logins, L.sha256 l'.text = L.sha256 l.text := by
  dsimp only [Verifier.verifyArgon2id] at hok
  split at hok
  · rename_i hhit
    obtain ⟨exp, hexp, -⟩ := (Option.any_eq_true _ _).mp hhit
    obtain ⟨l', hl', hkey⟩ := h.entry _ _ (L.argonOK.stored_of_find hexp)
    exact .inr ⟨l', hl', hkey.symm⟩
  · split at hok
    · cases hok
    · rename_i ok hverify
      obtain rfl : ok = true := hok
      exact .inl hverify

/-- What argon2id accepts is accepted, whatever the cache holds. -/
theorem Verifier.verifyArgon2id_of_ok {username phc password : Bytes}
    (h : Credential.verifyArgon2id L phc password = .ok true) (cache : ArgonCache)
    (now later : Int) :
    (Verifier.verifyArgon2id L cache username phc password now later).1 = true := by
  dsimp only [Verifier.verifyArgon2id]
  split
  · rfl
  · rw [h]

end Cache

/-! ## A session and a fresh login -/

section Sessions
variable (L : CredentialLibraries)

/-- The status is as the controller writes it, and the name one the API server accepts. -/
structure Formed (mc : MailCredential) : Prop where
  named : 0 ∉ username mc.name mc.ns
  username : mc.status.username = username mc.name mc.ns
  current : ∀ cur ∈ mc.status.current, isGeneratedHash cur.hash = true →
    ∃ password, cur.hash = hashGenerated L password
  previous : ∀ prev ∈ mc.status.previous, isGeneratedHash prev.hash = true →
    ∃ password, prev.hash = hashGenerated L password

/-- The reader answers with the object it is asked for. -/
def Reader.Keyed (reader : Reader) : Prop :=
  ∀ ns name mc, reader ns name = .ok mc → mc.ns = ns ∧ mc.name = name

variable {L} {reader : Reader} {mc : MailCredential} {u password : Bytes} {r : Result} {now : Int}

theorem get_eq_ok {ns name : Bytes} : get reader ns name = .ok mc ↔ reader ns name = .ok mc := by
  unfold get
  cases reader ns name with
  | error err => cases err <;> simp
  | ok mc' => simp

theorem lookup_eq_ok : lookup reader u = .ok mc ↔ ∃ ns name, parseUsername u = some (ns, name) ∧
    reader ns name = .ok mc ∧ usable mc = true ∧ mc.status.username = u := by
  unfold lookup
  cases hparse : parseUsername u with
  | none => simp
  | some p =>
    obtain ⟨ns, name⟩ := p
    simp only [Option.some.injEq, Prod.mk.injEq]
    constructor
    · intro h
      obtain ⟨mc', hget, h⟩ := bind_eq_ok.mp h
      split at h
      · cases h
      · rename_i hno
        obtain rfl := Except.ok.inj h
        simp only [not_or, Bool.not_eq_false, ne_eq, not_not] at hno
        exact ⟨ns, name, ⟨rfl, rfl⟩, get_eq_ok.mp hget, hno⟩
    · rintro ⟨_, _, ⟨rfl, rfl⟩, hget, husable, hname⟩
      exact bind_eq_ok.mpr ⟨mc, get_eq_ok.mpr hget, by simp [husable, hname]⟩

theorem stillValid_eq_ok {p : Bool} : stillValid reader r now = .ok p ↔
    ∃ mc, reader r.ns (nameOf r.username) = .ok mc ∧ mc.uid = r.uid ∧ usable mc = true ∧
      mc.spec.serviceAccountName = r.serviceAccount ∧
      (if mc.generated then hashStillValid mc.status r.hash now = .ok p
      else mc.spec.passwordHash = r.hash ∧ p = false) := by
  constructor
  · intro h
    obtain ⟨mc, hget, h⟩ := bind_eq_ok.mp h
    split at h
    · cases h
    · rename_i hno
      simp only [not_or, Bool.not_eq_false, ne_eq, not_not] at hno
      refine ⟨mc, get_eq_ok.mp hget, hno.1, hno.2.1, hno.2.2, ?_⟩
      split at h
      · rename_i hmode
        rwa [if_pos hmode]
      · rename_i hmode
        rw [if_neg hmode]
        split at h
        · rename_i hhash
          exact ⟨hhash, (Except.ok.inj h).symm⟩
        · cases h
  · rintro ⟨mc, hget, huid, husable, haccount, h⟩
    refine bind_eq_ok.mpr ⟨mc, get_eq_ok.mpr hget, ?_⟩
    rw [if_neg (by simp [huid, husable, haccount])]
    split at h
    · rename_i hmode
      rwa [if_pos hmode]
    · rename_i hmode
      obtain ⟨hhash, rfl⟩ := h
      rw [if_neg hmode, if_pos hhash]

theorem checkGenerated_eq_ok : checkGenerated L mc password now = .ok r ↔
    (∃ cur, mc.status.current = some cur ∧ verifyGenerated L cur.hash password = true ∧
      r = { resultOf mc with hash := cur.hash }) ∨
    (∀ cur, mc.status.current = some cur → verifyGenerated L cur.hash password = false) ∧
      ∃ prev, mc.status.previous = some prev ∧ now < prev.validUntil ∧
        verifyGenerated L prev.hash password = true ∧
        r = { resultOf mc with hash := prev.hash, previous := true } := by
  unfold checkGenerated
  split
  · rename_i cur hcur
    obtain ⟨hsome, hverify⟩ := Option.filter_eq_some_iff.mp hcur
    constructor
    · intro h
      exact .inl ⟨cur, hsome, hverify, (Except.ok.inj h).symm⟩
    · rintro (⟨cur', hsome', -, rfl⟩ | ⟨hno, -⟩)
      · rw [hsome] at hsome'
        rw [Option.some.inj hsome']
      · rw [hno cur hsome] at hverify
        cases hverify
  · rename_i hcur
    have hno : ∀ cur, mc.status.current = some cur →
        verifyGenerated L cur.hash password = false := by
      intro cur hsome
      simpa using Option.filter_eq_none_iff.mp hcur cur hsome
    split
    · rename_i prev hprev
      obtain ⟨hsome, htest⟩ := Option.filter_eq_some_iff.mp hprev
      rw [Bool.and_eq_true, decide_eq_true_eq] at htest
      constructor
      · intro h
        exact .inr ⟨hno, prev, hsome, htest.1, htest.2, (Except.ok.inj h).symm⟩
      · rintro (⟨cur, hsome', hverify, -⟩ | ⟨-, prev', hsome', -, -, rfl⟩)
        · rw [hno cur hsome'] at hverify
          cases hverify
        · rw [hsome] at hsome'
          rw [Option.some.inj hsome']
    · rename_i hprev
      constructor
      · exact nofun
      · rintro (⟨cur, hsome, hverify, -⟩ | ⟨-, prev, hsome, hlt, hverify, -⟩)
        · rw [hno cur hsome] at hverify
          cases hverify
        · have htest := Option.filter_eq_none_iff.mp hprev prev hsome
          simp [hlt, hverify] at htest

theorem hashStillValid_eq_ok {st : MailCredentialStatus} {hash : Bytes} {p : Bool} :
    hashStillValid st hash now = .ok p ↔ isGeneratedHash hash = true ∧
      ((∃ cur, st.current = some cur ∧ cur.hash = hash) ∧ p = false ∨
        (∀ cur, st.current = some cur → cur.hash ≠ hash) ∧
          (∃ prev, st.previous = some prev ∧ prev.hash = hash ∧ now < prev.validUntil) ∧
          p = true) := by
  -- the previous hash counts only where the current one is another
  have hprev : (if st.previous.any fun prev => prev.hash == hash && now < prev.validUntil
      then .ok true else .error .invalid : Except VerifyError Bool) = .ok p ↔
      (∃ prev, st.previous = some prev ∧ prev.hash = hash ∧ now < prev.validUntil) ∧ p = true := by
    cases st.previous with
    | none => simp
    | some prev =>
      by_cases hvalid : prev.hash = hash ∧ now < prev.validUntil
      · simp [hvalid]
      · simp [hvalid]
  unfold hashStillValid
  cases hgenerated : isGeneratedHash hash with
  | false => simp
  | true =>
    rw [if_neg (by simp)]
    cases hcur : st.current with
    | none => simpa using hprev
    | some cur =>
      by_cases hhash : cur.hash = hash
      · simp [hhash]
      · simpa [hhash] using hprev

/-- What a result remembers of the password. -/
structure Remembers (L : CredentialLibraries) (hash password : Bytes) : Prop where
  generated : isGeneratedHash hash = true → hash = hashGenerated L password
  own : isGeneratedHash hash = false → 0 ∉ hash → verifyArgon2id L hash password = .ok true

/-- Within what the controller writes, a verified hash is that of the password. -/
theorem eq_hashGenerated {hash : Bytes}
    (hform : isGeneratedHash hash = true → ∃ s, hash = hashGenerated L s)
    (hverify : verifyGenerated L hash password = true) : hash = hashGenerated L password := by
  obtain ⟨s, rfl⟩ := hform (isGeneratedHash_of_verifyGenerated L hverify)
  exact (verifyGenerated_hashGenerated L s password).mp hverify

theorem verifyGenerated_self (password : Bytes) :
    verifyGenerated L (hashGenerated L password) password = true :=
  (verifyGenerated_hashGenerated L password password).mpr rfl

theorem check_eq_ok {cache : ArgonCache} {later : Int} :
    (check L cache mc password now later).1 = .ok r ↔ password ≠ [] ∧
      (if mc.generated then checkGenerated L mc password now = .ok r
      else (Verifier.verifyArgon2id L cache mc.status.username mc.spec.passwordHash password now
          later).1 = true ∧ r = { resultOf mc with hash := mc.spec.passwordHash }) := by
  unfold check
  by_cases hempty : password = []
  · simp [hempty]
  · rw [if_neg hempty]
    split
    · simp [hempty]
    · simp only [ne_eq, hempty, not_false_eq_true, true_and]
      split
      · rename_i hok
        simp [hok, eq_comm]
      · rename_i hno
        simp [hno]

/-- Whose login a result is. -/
theorem result_of_check {cache : ArgonCache} {later : Int}
    (h : (check L cache mc password now later).1 = .ok r) :
    r.ns = mc.ns ∧ r.serviceAccount = mc.spec.serviceAccountName ∧
      r.username = mc.status.username ∧ r.uid = mc.uid := by
  obtain ⟨-, h⟩ := check_eq_ok.mp h
  split at h
  · rcases checkGenerated_eq_ok.mp h with ⟨cur, -, -, rfl⟩ | ⟨-, prev, -, -, -, rfl⟩ <;>
      exact ⟨rfl, rfl, rfl, rfl⟩
  · obtain ⟨-, rfl⟩ := h
    exact ⟨rfl, rfl, rfl, rfl⟩

/-- The object a login was to is the one the session is checked against. -/
theorem reader_of_lookup (hreader : reader.Keyed) (h : lookup reader u = .ok mc) :
    reader mc.ns (nameOf u) = .ok mc ∧ nameOf u = mc.name ∧ u = username mc.name mc.ns := by
  obtain ⟨ns, name, hparse, hget, -, -⟩ := lookup_eq_ok.mp h
  obtain ⟨rfl, rfl⟩ := hreader ns name mc hget
  have hname : nameOf u = mc.name := by rw [nameOf, hparse]
  exact ⟨hname ▸ hget, hname, username_of_parseUsername hparse⟩

/-- The session check agrees with the login it follows. -/
theorem stillValid_of_check {cache : ArgonCache} {later : Int} (hreader : reader.Keyed)
    (hlookup : lookup reader u = .ok mc)
    (hcheck : (check L cache mc password now later).1 = .ok r) :
    stillValid reader r now = .ok r.previous := by
  obtain ⟨hns, haccount, hname, huid⟩ := result_of_check hcheck
  obtain ⟨-, -, -, -, husable, hu⟩ := lookup_eq_ok.mp hlookup
  have hget : reader r.ns (nameOf r.username) = .ok mc := by
    rw [hns, hname, hu]
    exact (reader_of_lookup hreader hlookup).1
  refine stillValid_eq_ok.mpr ⟨mc, hget, huid.symm, husable, haccount.symm, ?_⟩
  obtain ⟨-, hcheck⟩ := check_eq_ok.mp hcheck
  split at hcheck
  · rename_i hmode
    rw [if_pos hmode, hashStillValid_eq_ok]
    rcases checkGenerated_eq_ok.mp hcheck with
      ⟨cur, hcur, hverify, rfl⟩ | ⟨hno, prev, hprev, hlt, hverify, rfl⟩
    · exact ⟨isGeneratedHash_of_verifyGenerated L hverify, .inl ⟨⟨cur, hcur, rfl⟩, rfl⟩⟩
    · refine ⟨isGeneratedHash_of_verifyGenerated L hverify,
        .inr ⟨fun cur hcur hhash => ?_, ⟨prev, hprev, rfl, hlt⟩, rfl⟩⟩
      -- the same hash as the current one would have matched as the current one
      have hfalse := hno cur hcur
      rw [show cur.hash = prev.hash from hhash, hverify] at hfalse
      cases hfalse
  · rename_i hmode
    obtain ⟨-, rfl⟩ := hcheck
    rw [if_neg hmode]
    exact ⟨rfl, rfl⟩

/-- What a login remembers; with a hash of its own, if its key is not that of another login
before it. -/
theorem Reached.remembers {logins : List Login} {cache : ArgonCache} {later : Int}
    (h : Reached L logins cache) (hformed : Formed L mc)
    (hcheck : (Credential.check L cache mc password now later).1 = .ok r)
    (hdistinct : mc.generated = false → ∀ l ∈ logins,
      L.sha256 l.text =
        L.sha256 (loginText mc.status.username mc.spec.passwordHash password) →
      l.text = loginText mc.status.username mc.spec.passwordHash password) :
    Remembers L r.hash password := by
  obtain ⟨-, hcheck⟩ := check_eq_ok.mp hcheck
  split at hcheck
  · have hhash : r.hash = hashGenerated L password := by
      rcases checkGenerated_eq_ok.mp hcheck with
        ⟨cur, hcur, hverify, rfl⟩ | ⟨-, prev, hprev, -, hverify, rfl⟩
      · exact eq_hashGenerated (hformed.current cur hcur) hverify
      · exact eq_hashGenerated (hformed.previous prev hprev) hverify
    refine ⟨fun _ => hhash, fun hno => ?_⟩
    rw [hhash, isGeneratedHash_hashGenerated] at hno
    cases hno
  · rename_i hmode
    obtain ⟨hok, rfl⟩ := hcheck
    have hname : 0 ∉ mc.status.username := hformed.username ▸ hformed.named
    rcases h.verifyArgon2id (l := ⟨mc.status.username, mc.spec.passwordHash, password⟩) hok with
      hverify | ⟨l, hl, hkey⟩
    · obtain ⟨p, hparse, -⟩ := bind_eq_ok.mp hverify
      refine ⟨fun hyes => ?_, fun _ _ => hverify⟩
      have hno := isGeneratedHash_of_parseArgon2id hparse []
      rw [List.append_nil] at hno
      exact absurd (hno.symm.trans hyes) (by decide)
    · -- the cached login has the same text, and so the same PHC string if there is no NUL in it
      obtain ⟨hlname, hverify⟩ := h.login l hl
      obtain ⟨p, hparse, -⟩ := bind_eq_ok.mp hverify
      have htext : l.text = loginText mc.status.username mc.spec.passwordHash password :=
        hdistinct (by simpa using hmode) l hl hkey
      obtain ⟨-, hrest⟩ := append_cons_inj htext hlname hname
      obtain ⟨more, hphc, hpassword⟩ :=
        append_eq_append_cons hrest (zero_notMem_of_parseArgon2id hparse)
      refine ⟨fun hyes => ?_, fun _ hzero => ?_⟩
      · have hno := isGeneratedHash_of_parseArgon2id hparse more
        rw [← hphc] at hno
        exact absurd (hno.symm.trans hyes) (by decide)
      · have hmore : more = [] := by
          cases more with
          | nil => rfl
          | cons c more =>
            obtain ⟨rfl, -⟩ := List.cons.inj hpassword
            exact absurd (hphc ▸ List.mem_append_right _ List.mem_cons_self) hzero
        subst hmore
        rw [List.append_nil] at hphc
        rw [List.nil_append] at hpassword
        rw [hphc, ← (List.cons.inj hpassword).2]
        exact hverify

/-- A fresh login agrees with the session check. -/
theorem check_of_stillValid {v : MailCredentialValidator} {p : Bool}
    (hne : password ≠ []) (hremembers : Remembers L r.hash password)
    (hget : reader r.ns (nameOf r.username) = .ok mc) (hformed : Formed L mc)
    (hvalid : v.validate L mc = none) (hstill : stillValid reader r now = .ok p)
    (cache : ArgonCache) (later : Int) :
    usable mc = true ∧ mc.spec.serviceAccountName = r.serviceAccount ∧
      ∃ r', (check L cache mc password now later).1 = .ok r' ∧ r'.previous = p := by
  obtain ⟨mc', hget', -, husable, haccount, hstill⟩ := stillValid_eq_ok.mp hstill
  obtain rfl := Except.ok.inj (hget.symm.trans hget')
  refine ⟨husable, haccount, ?_⟩
  cases hmode : mc.generated with
  | true =>
    rw [if_pos hmode] at hstill
    obtain ⟨hgenerated, hhash⟩ := hashStillValid_eq_ok.mp hstill
    have hself := hremembers.generated hgenerated
    rcases hhash with ⟨⟨cur, hcur, hcurhash⟩, rfl⟩ | ⟨hno, ⟨prev, hprev, hprevhash, hlt⟩, rfl⟩
    · refine ⟨{ resultOf mc with hash := cur.hash }, check_eq_ok.mpr ⟨hne, ?_⟩, rfl⟩
      rw [if_pos hmode]
      refine checkGenerated_eq_ok.mpr (.inl ⟨cur, hcur, ?_, rfl⟩)
      rw [hcurhash, hself]
      exact verifyGenerated_self password
    · refine ⟨{ resultOf mc with hash := prev.hash, previous := true },
        check_eq_ok.mpr ⟨hne, ?_⟩, rfl⟩
      rw [if_pos hmode]
      refine checkGenerated_eq_ok.mpr (.inr ⟨fun cur hcur => ?_, prev, hprev, hlt, ?_, rfl⟩)
      · by_contra hverify
        have hcurhash := eq_hashGenerated (hformed.current cur hcur) (by simpa using hverify)
        exact hno cur hcur (hcurhash.trans hself.symm)
      · rw [hprevhash, hself]
        exact verifyGenerated_self password
  | false =>
    rw [if_neg (by simp [hmode])] at hstill
    obtain ⟨hhash, rfl⟩ := hstill
    obtain ⟨params, hparse⟩ := v.parseArgon2id_of_validate hvalid hmode
    rw [hhash] at hparse
    have hno := isGeneratedHash_of_parseArgon2id hparse []
    rw [List.append_nil] at hno
    have hverify := hremembers.own hno (zero_notMem_of_parseArgon2id hparse)
    refine ⟨{ resultOf mc with hash := mc.spec.passwordHash }, check_eq_ok.mpr ⟨hne, ?_⟩, rfl⟩
    rw [if_neg (by simp [hmode]), hhash]
    exact ⟨Verifier.verifyArgon2id_of_ok hverify cache now later, rfl⟩

/-- **A session is valid as long as a fresh login would be.**  Right after a login the
session check gives what the login gave.  Later, on any object of that name, what it
accepts a fresh login with the password accepts, for the same identity and as the same
one of the two passwords.  With a hash of the caller's own, that is, unless SHA-256 has
given the login the key of another one, with another text, that argon2id accepted before. -/
theorem stillValid_agrees {logins : List Login} {cache : ArgonCache} {later : Int}
    (hcache : Reached L logins cache) (hreader : reader.Keyed) (hformed : Formed L mc)
    (hlookup : lookup reader u = .ok mc)
    (hcheck : (check L cache mc password now later).1 = .ok r) :
    stillValid reader r now = .ok r.previous ∧
    ((mc.generated = false →
        ∀ l ∈ logins, L.sha256 l.text = L.sha256 (loginText u mc.spec.passwordHash password) →
          l.text = loginText u mc.spec.passwordHash password) →
      ∀ (reader' : Reader) (mc' : MailCredential) (v : MailCredentialValidator) (now' : Int)
        (p : Bool), reader'.Keyed → reader' mc.ns mc.name = .ok mc' → Formed L mc' →
        v.validate L mc' = none → stillValid reader' r now' = .ok p →
        lookup reader' u = .ok mc' ∧ ∀ (cache' : ArgonCache) (later' : Int),
          ∃ r', (check L cache' mc' password now' later').1 = .ok r' ∧ r'.ns = r.ns ∧
            r'.serviceAccount = r.serviceAccount ∧ r'.previous = p) := by
  refine ⟨stillValid_of_check hreader hlookup hcheck, ?_⟩
  intro hdistinct reader' mc' v now' p hreader' hget' hformed' hvalid hstill
  obtain ⟨-, hnameOf, hu⟩ := reader_of_lookup hreader hlookup
  obtain ⟨ns, name, hparse, hget, -, hname⟩ := lookup_eq_ok.mp hlookup
  obtain ⟨rfl, rfl⟩ := hreader ns name mc hget
  obtain ⟨hns, -, husername, -⟩ := result_of_check hcheck
  rw [← hname] at hdistinct
  have hremembers := hcache.remembers hformed hcheck hdistinct
  have hgetr : reader' r.ns (nameOf r.username) = .ok mc' := by
    rw [hns, husername, hname, hnameOf]
    exact hget'
  have hne : password ≠ [] := (check_eq_ok.mp hcheck).1
  obtain ⟨hns', hname'⟩ := hreader' _ _ _ hget'
  have hfresh := check_of_stillValid hne hremembers hgetr hformed' hvalid hstill
  constructor
  · refine lookup_eq_ok.mpr ⟨mc.ns, mc.name, hparse, hget', (hfresh cache later).1, ?_⟩
    rw [hformed'.username, hns', hname', hu]
  · intro cache' later'
    obtain ⟨-, haccount, r', hr', hprevious⟩ := hfresh cache' later'
    obtain ⟨hrns, hraccount, -, -⟩ := result_of_check hr'
    exact ⟨r', hr', by rw [hrns, hns', hns], by rw [hraccount, haccount], hprevious⟩

end Sessions

/-! ### Two logins -/

section Logins

/-- A reader that knows one object. -/
def oneObject (mc : MailCredential) : Reader :=
  fun ns name => if ns = mc.ns ∧ name = mc.name then .ok mc else .error .notFound

theorem oneObject_keyed (mc : MailCredential) : (oneObject mc).Keyed := by
  intro ns name mc' h
  unfold oneObject at h
  split at h
  · rename_i hkey
    obtain rfl := Except.ok.inj h
    exact ⟨hkey.1.symm, hkey.2.symm⟩
  · cases h

def readyCondition (reason : CredentialReason) : CredentialCondition :=
  ⟨.ready, .true, 1, 0, reason, []⟩

/-- A credential in generated mode, with the password `s3cr3t`. -/
def generatedCredential : MailCredential where
  name := lit "app"
  ns := lit "billing"
  uid := lit "1"
  resourceVersion := 1
  generation := 1
  annotations := []
  spec := ⟨lit "mailer", lit "app-smtp", none, []⟩
  status := { MailCredentialStatus.empty with
    username := lit "app.billing"
    secretName := lit "app-smtp"
    serviceAccountName := lit "mailer"
    current := some ⟨hashGenerated .plain (lit "s3cr3t"), 0⟩
    conditions := [readyCondition .ready] }

theorem generatedCredential_formed : Formed .plain generatedCredential where
  named := by decide
  username := by decide
  current cur hcur _ := by
    obtain rfl := Option.some.inj hcur
    exact ⟨_, rfl⟩
  previous := nofun

/-- The credential once its password has been rotated out. -/
def rotatedCredential : MailCredential :=
  { generatedCredential with
    status := { generatedCredential.status with
      current := some ⟨hashGenerated .plain (lit "n3w"), 0⟩
      previous := some ⟨hashGenerated .plain (lit "s3cr3t"), day⟩ } }

theorem rotatedCredential_formed : Formed .plain rotatedCredential where
  named := by decide
  username := by decide
  current cur hcur _ := by
    obtain rfl := Option.some.inj hcur
    exact ⟨_, rfl⟩
  previous prev hprev _ := by
    obtain rfl := Option.some.inj hprev
    exact ⟨_, rfl⟩

theorem stillValid_agrees_rotated :
    ∃ r', (check .plain .new rotatedCredential (lit "s3cr3t") hour hour).1 = .ok r' ∧
      r'.previous = true := by
  have hlookup : lookup (oneObject generatedCredential) (lit "app.billing") =
      .ok generatedCredential := by decide +kernel
  have hcheck : (check .plain .new generatedCredential (lit "s3cr3t") second second).1 =
      .ok { resultOf generatedCredential with
        hash := hashGenerated .plain (lit "s3cr3t") } := by decide +kernel
  have hagrees := (stillValid_agrees .new (oneObject_keyed generatedCredential)
    generatedCredential_formed hlookup hcheck).2 (fun _ => nofun) (oneObject rotatedCredential)
    rotatedCredential ⟨⟨[], []⟩, true⟩ hour true (oneObject_keyed rotatedCredential)
    (by decide +kernel) rotatedCredential_formed (by decide +kernel) (by decide +kernel)
  obtain ⟨r', hr', -, -, hprevious⟩ := hagrees.2 .new hour
  exact ⟨r', hr', hprevious⟩

/-- The PHC string of the password `secret`. -/
def ownHash : Bytes := lit "$argon2id$v=19$m=19456,t=2,p=1$c2FsdHNhbHQ$c2VjcmV0AAAAAAAAAAAAAA"

/-- A credential with that hash. -/
def ownCredential : MailCredential :=
  { generatedCredential with
    spec := ⟨lit "mailer", [], none, ownHash⟩
    status := { generatedCredential.status with
      secretName := []
      current := some ⟨ownHash, 0⟩
      conditions := [readyCondition .bringYourOwnHash] } }

/-- The cache after a login with the password. -/
def warmCache : ArgonCache :=
  [.add (CredentialLibraries.plain.sha256
    (loginText (lit "app.billing") ownHash (lit "secret"))) (5 * minute)]

/-- Where SHA-256 collides, a session outlives what a fresh login would be let in for:
a wrong password with the key of the right one is accepted as long as the cache holds
that key, and the session check accepts it from then on. -/
theorem stillValid_after_collision :
    ∃ r, Reached .plain [⟨lit "app.billing", ownHash, lit "secret"⟩] warmCache ∧
      Formed .plain ownCredential ∧ lookup (oneObject ownCredential) (lit "app.billing") =
        .ok ownCredential ∧
      (check .plain warmCache ownCredential (lit "guess") second second).1 = .ok r ∧
      (MailCredentialValidator.mk ⟨[], []⟩ true).validate .plain ownCredential = none ∧
      stillValid (oneObject ownCredential) r (6 * minute) = .ok false ∧
      (check .plain warmCache ownCredential (lit "guess") (6 * minute) (6 * minute)).1 =
        .error .invalid := by
  refine ⟨{ resultOf ownCredential with hash := ownHash }, ?_, ?_, by decide +kernel⟩
  · exact Reached.new.remembered ⟨_, _, _⟩ _ (by decide) (by decide +kernel)
  · refine ⟨by decide, by decide, fun cur hcur hgenerated => ?_, nofun⟩
    obtain rfl := Option.some.inj hcur
    exact absurd hgenerated (by decide)

end Logins

end Credential
end Sigillum
