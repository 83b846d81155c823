import Sigillum.Subdomains
import Sigillum.TokenBroker

/-! # Names of token Secrets

`TokenSecretName` in `internal/controller/oauth_broker.go` puts a name together for the
Secret of a backend's tokens.  A name that is too long is cut, and a hash of all of it is
put behind.

The names are valid.  Among the short names and among the long ones no two backends share
a Secret; but what a long name is shortened to may be the name of a backend too, which is
short enough to be left as it is.  Which names are at risk can be told from the names
alone: a stem, a hyphen and 16 digits (`token_secret_name_iff`).
-/
namespace Sigillum
open Bytes TextCodecs Subdomains

namespace Broker

/-- The kinds of backends. -/
def backendKinds : List Bytes := [lit "MailBackend", lit "ClusterMailBackend"]

/-- The name before it is shortened. -/
def fullName (kind backend : Bytes) : Bytes :=
  (if kind = lit "MailBackend" then lit "sigillum-oauth-mb-" else lit "sigillum-oauth-cmb-") ++
    backend

/-- What is kept of a name that is too long. -/
def stem (name : Bytes) : Bytes := (name.take (253 - 17)).rdropWhile fun c => c = 46 ∨ c = 45

section Names
variable (L : TokenLibraries)

/-- The name with a hash in place of its end. -/
def shortened (name : Bytes) : Bytes :=
  stem name ++ 45 :: hexEncode ((L.sha256 name).val.take 8)

theorem tokenSecretName_eq (kind backend : Bytes) :
    tokenSecretName L kind backend =
      if (fullName kind backend).length ≤ 253 then fullName kind backend
      else shortened L (fullName kind backend) := rfl

end Names

/-- A name that is left as it is, and has the form of a shortened one: the stem of a name
that is too long, a hyphen and 16 digits. -/
structure Resembles (name long : Bytes) : Prop where
  short : name.length ≤ 253
  tooLong : 253 < long.length
  form : ∃ digits : Bytes, digits.length = 16 ∧ (∀ c ∈ digits, isLowerHexDigit c = true) ∧
    name = stem long ++ 45 :: digits

/-- The libraries with another hash. -/
def withHash (L : TokenLibraries) (sha256 : Bytes → { sum : Bytes // sum.length = 32 }) :
    TokenLibraries :=
  { L with sha256 := sha256 }

/-- The sums of two names do not collide in the part of them that is used. -/
def CollisionFree (sha256 : Bytes → { sum : Bytes // sum.length = 32 }) (name name' : Bytes) :
    Prop :=
  (sha256 name).val.take 8 = (sha256 name').val.take 8 → name = name'

/-! ## Full names -/

section Full
variable {kind backend : Bytes}

/-- The beginning of a name, and what stands before the backend's name in it. -/
theorem fullName_spec (kind backend : Bytes) : ∃ p, fullName kind backend = p ++ backend ∧
    (46 :: p).IsChain Follows ∧ p.head? = some 115 := by
  have hvalid : ∀ p ∈ [lit "sigillum-oauth-mb-", lit "sigillum-oauth-cmb-"],
      (∀ c ∈ p.tail, isAlnum c = true ∨ c = 45) ∧ p.head? = some 115 := by decide
  have hchain : ∀ p ∈ [lit "sigillum-oauth-mb-", lit "sigillum-oauth-cmb-"],
      (46 :: p).IsChain Follows ∧ p.head? = some 115 := by
    intro p hp
    obtain ⟨hbytes, hhead⟩ := hvalid p hp
    obtain ⟨t, rfl⟩ := List.head?_eq_some_iff.mp hhead
    exact ⟨List.isChain_cons_cons.mpr ⟨.inl (by decide), isChain_of_bytes (by decide) hbytes⟩, rfl⟩
  unfold fullName
  split
  · exact ⟨_, rfl, hchain _ (by simp)⟩
  · exact ⟨_, rfl, hchain _ (by simp)⟩

/-- A full name but for its length is a subdomain. -/
theorem isChain_fullName (kind : Bytes) (h : isSubdomain backend = true) :
    (46 :: fullName kind backend).IsChain Follows ∧
      isAlnum ((fullName kind backend).getLastD 46) = true := by
  obtain ⟨hchain, hlast, -⟩ := isSubdomain_iff.mp h
  obtain ⟨p, hp, hfront, -⟩ := fullName_spec kind backend
  rw [hp]
  refine ⟨isChain_append_iff.mpr ⟨hfront, hchain.tail, fun b hb => ?_⟩, ?_⟩
  · exact .inl (isAlnum_head hchain b hb)
  · have hne : backend ≠ [] := by
      rintro rfl
      exact absurd hlast (by decide)
    rw [List.getLastD_eq_getLast?] at hlast ⊢
    rwa [List.getLast?_append_of_ne_nil _ hne]

/-- The kinds stay apart. -/
theorem fullName_inj {kind' backend' : Bytes} (hk : kind ∈ backendKinds)
    (hk' : kind' ∈ backendKinds) (h : fullName kind backend = fullName kind' backend') :
    kind = kind' ∧ backend = backend' := by
  have hprefixes : ∀ k ∈ backendKinds, ∀ k' ∈ backendKinds, k ≠ k' →
      ((if k = lit "MailBackend" then lit "sigillum-oauth-mb-" else lit "sigillum-oauth-cmb-").take
        16) ≠ (if k' = lit "MailBackend" then lit "sigillum-oauth-mb-"
          else lit "sigillum-oauth-cmb-").take 16 := by decide
  have hlength : ∀ k : Bytes, 16 ≤ (if k = lit "MailBackend" then lit "sigillum-oauth-mb-"
      else lit "sigillum-oauth-cmb-").length := fun k => by split <;> decide
  have hkind : kind = kind' := by
    by_contra hne
    refine hprefixes kind hk kind' hk' hne ?_
    have htake := congrArg (List.take 16) h
    rwa [fullName, fullName, List.take_append_of_le_length (hlength kind),
      List.take_append_of_le_length (hlength kind')] at htake
  subst hkind
  exact ⟨rfl, List.append_cancel_left h⟩

end Full

/-! ## Shortened names -/

section Shortened
variable {L : TokenLibraries} {name : Bytes}

theorem isAlnum_of_mem_hexEncode {s : Bytes} : ∀ c ∈ hexEncode s, isAlnum c = true := by
  have hdigit : ∀ n < 256, isLowerHexDigit (UInt8.ofNat n) = true →
      isAlnum (UInt8.ofNat n) = true := by decide +kernel
  intro c hc
  have halnum := hdigit c.toNat c.toNat_lt
  rw [UInt8.ofNat_toNat] at halnum
  exact halnum (isLowerHexDigit_of_mem_hexEncode c hc)

/-- The hash behind a shortened name is 16 digits long. -/
theorem length_sum (L : TokenLibraries) (name : Bytes) :
    (hexEncode ((L.sha256 name).val.take 8)).length = 16 := by
  rw [length_hexEncode, List.length_take, (L.sha256 name).property]
  rfl

theorem length_stem_le (name : Bytes) : (stem name).length ≤ 236 := by
  have hprefix : stem name <+: name.take (253 - 17) := List.rdropWhile_prefix _ _
  have hlength := hprefix.length_le
  rw [List.length_take] at hlength
  omega

/-- The stem ends in a letter or a digit. -/
theorem isAlnum_stem (hchain : (46 :: name).IsChain Follows) (hhead : name.head? = some 115) :
    (46 :: stem name).IsChain Follows ∧ isAlnum ((stem name).getLastD 46) = true := by
  have hprefix : stem name <+: name :=
    (List.rdropWhile_prefix _ _).trans (List.take_prefix _ _)
  obtain ⟨rest, hrest⟩ := hprefix
  have hstem : (46 :: stem name).IsChain Follows := by
    rw [← hrest] at hchain
    exact (isChain_append_iff.mp hchain).1
  have hne : stem name ≠ [] := by
    obtain ⟨t, rfl⟩ := List.head?_eq_some_iff.mp hhead
    intro hnil
    exact absurd (List.rdropWhile_eq_nil_iff.mp hnil 115 List.mem_cons_self) (by decide)
  refine ⟨hstem, ?_⟩
  have hlast : (stem name).getLastD 46 = (stem name).getLast hne := by
    rw [List.getLastD_eq_getLast?, List.getLast?_eq_some_getLast hne]
    rfl
  have hkept := List.rdropWhile_last_not (fun c => decide (c = 46 ∨ c = 45))
    (name.take (253 - 17)) hne
  rw [hlast]
  rcases byte_of_isChain hstem _ (List.getLast_mem hne) with halnum | hhyphen | hdot
  · exact halnum
  · exact absurd (decide_eq_true (.inr hhyphen)) hkept
  · exact absurd (decide_eq_true (.inl hdot)) hkept

/-- **A shortened name is a subdomain.** -/
theorem isSubdomain_shortened (hchain : (46 :: name).IsChain Follows)
    (hhead : name.head? = some 115) : isSubdomain (shortened L name) = true := by
  obtain ⟨hstem, hlast⟩ := isAlnum_stem hchain hhead
  have hsum := length_sum L name
  have hdigits : ∀ c ∈ hexEncode ((L.sha256 name).val.take 8), isAlnum c = true :=
    fun c => isAlnum_of_mem_hexEncode c
  unfold shortened
  generalize hexEncode ((L.sha256 name).val.take 8) = sum at hsum hdigits ⊢
  have hne : sum ≠ [] := List.ne_nil_of_length_eq_add_one hsum
  refine isSubdomain_iff.mpr ⟨isChain_append_iff.mpr ⟨hstem, ?_, ?_⟩, ?_, ?_⟩
  · exact isChain_of_bytes (by decide) fun c hc => .inl (hdigits c hc)
  · intro b hb
    obtain rfl := Option.some.inj hb
    refine .inr (.inl ⟨rfl, fun hdot => ?_⟩)
    rw [hdot] at hlast
    exact absurd hlast (by decide)
  · rw [List.getLastD_eq_getLast?, List.getLast?_append_cons,
      List.getLast?_cons_of_ne_nil hne, List.getLast?_eq_some_getLast hne]
    exact hdigits _ (List.getLast_mem hne)
  · have hle := length_stem_le name
    rw [List.length_append, List.length_cons, hsum]
    omega

/-- Names that are shortened alike have the same hash. -/
theorem sum_eq_of_shortened {name' : Bytes} (h : shortened L name = shortened L name') :
    (L.sha256 name).val.take 8 = (L.sha256 name').val.take 8 := by
  have hlength : (45 :: hexEncode ((L.sha256 name).val.take 8)).length =
      (45 :: hexEncode ((L.sha256 name').val.take 8)).length := by
    rw [List.length_cons, List.length_cons, length_sum, length_sum]
  obtain ⟨-, hsum⟩ := List.append_inj' h hlength
  have hdecode := congrArg hexDecode (List.cons.inj hsum).2
  simpa using hdecode

end Shortened

/-! ## Secrets -/

/-- The name of a Secret is valid. -/
theorem isSubdomain_tokenSecretName (L : TokenLibraries) (kind : Bytes) {backend : Bytes}
    (h : isSubdomain backend = true) :
    isSubdomain (tokenSecretName L kind backend) = true := by
  obtain ⟨hchain, hlast⟩ := isChain_fullName kind h
  rw [tokenSecretName_eq]
  split
  · rename_i hshort
    exact isSubdomain_iff.mpr ⟨hchain, hlast, hshort⟩
  · obtain ⟨p, hp, -, hhead⟩ := fullName_spec kind backend
    refine isSubdomain_shortened hchain ?_
    rw [hp, List.head?_append, hhead]
    rfl

/-- A shortened name has the form a name must not have. -/
theorem resembles_of_shortened {L : TokenLibraries} {name long : Bytes} (hshort : name.length ≤ 253)
    (hlong : ¬ long.length ≤ 253) (h : name = shortened L long) : Resembles name long :=
  ⟨hshort, Nat.not_le.mp hlong, _, length_sum L long,
    fun c hc => isLowerHexDigit_of_mem_hexEncode c hc, h⟩

/-- For every name of the form there is a hash that shortens the long name to it, and sets
the two apart. -/
theorem Resembles.exists_hash {name long : Bytes} (h : Resembles name long) :
    ∃ sha256, CollisionFree sha256 name long ∧
      ∀ L : TokenLibraries, name = shortened (withHash L sha256) long := by
  obtain ⟨hshort, hlong, digits, hlength, hdigits, hform⟩ := h
  obtain ⟨s, hs, rfl⟩ := exists_hexEncode (n := 8) hlength hdigits
  have hne : name ≠ long := by
    rintro rfl
    omega
  -- the sum of every other name has another first byte
  have hpad : ∀ t : Bytes, t.length = 8 → (t ++ List.replicate 24 0).length = 32 := by
    intro t ht
    rw [List.length_append, ht, List.length_replicate]
  have htake : ∀ t : Bytes, t.length = 8 → (t ++ List.replicate 24 0).take 8 = t := by
    intro t ht
    rw [← ht, List.take_left]
  have hother : (s.map (· + 1)).length = 8 := by rw [List.length_map, hs]
  refine ⟨fun x => if x = long then ⟨_, hpad s hs⟩ else ⟨_, hpad _ hother⟩, ?_, ?_⟩
  · intro hsum
    simp only [if_neg hne, if_true, htake _ hs, htake _ hother] at hsum
    obtain ⟨c, t, rfl⟩ := List.exists_cons_of_length_eq_add_one hs
    exact absurd (List.cons.inj hsum).1 (by simp)
  · intro L
    simp only [shortened, withHash, if_true, htake _ hs]
    exact hform

/-- A backend with a short name and one with a long name share a Secret if the hash has it. -/
theorem tokenSecretName_eq_of_shortened {L : TokenLibraries} {kind backend kind' backend' : Bytes}
    (hshort : (fullName kind backend).length ≤ 253) (hlong : 253 < (fullName kind' backend').length)
    (h : fullName kind backend = shortened L (fullName kind' backend')) :
    tokenSecretName L kind backend = tokenSecretName L kind' backend' := by
  rw [tokenSecretName_eq, tokenSecretName_eq, if_pos hshort, if_neg (Nat.not_le.mpr hlong), h]

/-- Backends with one Secret under a hash that sets their names apart. -/
theorem Resembles.collide {kind backend kind' backend' : Bytes}
    (h : Resembles (fullName kind backend) (fullName kind' backend')) :
    ∃ sha256, CollisionFree sha256 (fullName kind backend) (fullName kind' backend') ∧
      (kind, backend) ≠ (kind', backend') ∧ ∀ L : TokenLibraries,
        tokenSecretName (withHash L sha256) kind backend =
          tokenSecretName (withHash L sha256) kind' backend' := by
  obtain ⟨sha256, hfree, hsame⟩ := h.exists_hash
  refine ⟨sha256, hfree, ?_, fun L => tokenSecretName_eq_of_shortened h.short h.tooLong (hsame L)⟩
  intro heq
  obtain ⟨rfl, rfl⟩ := Prod.mk.inj heq
  exact absurd h.short (Nat.not_le.mpr h.tooLong)

theorem CollisionFree.symm {sha256 : Bytes → { sum : Bytes // sum.length = 32 }}
    {name name' : Bytes} (h : CollisionFree sha256 name name') : CollisionFree sha256 name' name :=
  fun hsum => (h hsum.symm).symm

/-- **Which backends keep their tokens apart.**  Whatever the hash is, as long as it does
not collide on the two names, their Secrets have valid names, and different ones; exactly
if neither name is short and has the form the other one, too long, is shortened to. -/
theorem token_secret_name_iff (L : TokenLibraries) (kind backend kind' backend' : Bytes)
    (hk : kind ∈ backendKinds) (hk' : kind' ∈ backendKinds)
    (hb : isSubdomain backend = true) (hb' : isSubdomain backend' = true) :
    (∀ sha256, CollisionFree sha256 (fullName kind backend) (fullName kind' backend') →
      isSubdomain (tokenSecretName (withHash L sha256) kind backend) = true ∧
      isSubdomain (tokenSecretName (withHash L sha256) kind' backend') = true ∧
      ((kind, backend) ≠ (kind', backend') →
        tokenSecretName (withHash L sha256) kind backend ≠
          tokenSecretName (withHash L sha256) kind' backend')) ↔
      ¬ Resembles (fullName kind backend) (fullName kind' backend') ∧
        ¬ Resembles (fullName kind' backend') (fullName kind backend) := by
  -- names of the same length class are told apart
  have hinj : fullName kind backend = fullName kind' backend' →
      (kind, backend) = (kind', backend') := fun h => by
    obtain ⟨rfl, rfl⟩ := fullName_inj hk hk' h
    rfl
  constructor
  · intro hapart
    refine ⟨fun h => ?_, fun h => ?_⟩
    · obtain ⟨sha256, hfree, hne, hsame⟩ := h.collide
      exact (hapart sha256 hfree).2.2 hne (hsame L)
    · obtain ⟨sha256, hfree, hne, hsame⟩ := h.collide
      exact (hapart sha256 hfree.symm).2.2 hne.symm (hsame L).symm
  · rintro ⟨hform, hform'⟩ sha256 hfree
    refine ⟨isSubdomain_tokenSecretName _ kind hb, isSubdomain_tokenSecretName _ kind' hb',
      fun hne hsame => ?_⟩
    rw [tokenSecretName_eq, tokenSecretName_eq] at hsame
    split at hsame <;> split at hsame
    · exact hne (hinj hsame)
    · rename_i hshort hlong
      exact hform (resembles_of_shortened hshort hlong hsame)
    · rename_i hlong hshort
      exact hform' (resembles_of_shortened hshort hlong hsame.symm)
    · exact hne (hinj (hfree (sum_eq_of_shortened hsame)))

/-- Stand-ins with a hash that tells names of different lengths apart. -/
def lengthHash : TokenLibraries :=
  { TokenLibraries.plain with
    sha256 := fun s => ⟨UInt8.ofNat s.length :: List.replicate 31 0, by simp⟩ }

/-- A short name and the longest one, of the same kind. -/
theorem token_secret_name_iff_longest :
    tokenSecretName lengthHash (lit "MailBackend") (lit "outlook") ≠
      tokenSecretName lengthHash (lit "MailBackend") (List.replicate 253 97) := by
  have hform : ∀ name long : Bytes, name.length ≠ (stem long).length + 17 →
      ¬ Resembles name long := by
    rintro name long hne ⟨-, -, digits, hlength, -, rfl⟩
    exact hne (by rw [List.length_append, List.length_cons, hlength])
  have h := (token_secret_name_iff lengthHash (lit "MailBackend") (lit "outlook")
    (lit "MailBackend") (List.replicate 253 97) (by decide) (by decide) (by decide)
    (by decide +kernel)).mpr ⟨hform _ _ (by decide +kernel), hform _ _ (by decide +kernel)⟩
  exact (h lengthHash.sha256 (fun hsum => absurd hsum (by decide +kernel))).2.2 (by decide)

/-- A backend with the longest name there is, and one that is named after its Secret. -/
theorem longest_name_collides :
    isSubdomain (List.replicate 253 97) = true ∧
      isSubdomain (List.replicate 218 97 ++ lit "-0f00000000000000") = true ∧
      (lengthHash.sha256 (fullName (lit "MailBackend") (List.replicate 253 97))).val.take 8 ≠
        (lengthHash.sha256 (fullName (lit "MailBackend")
          (List.replicate 218 97 ++ lit "-0f00000000000000"))).val.take 8 ∧
      tokenSecretName lengthHash (lit "MailBackend") (List.replicate 253 97) =
        tokenSecretName lengthHash (lit "MailBackend")
          (List.replicate 218 97 ++ lit "-0f00000000000000") := by
  decide +kernel

end Broker
end Sigillum
