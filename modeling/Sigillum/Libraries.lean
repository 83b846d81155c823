import Sigillum.Runes

/-! # What the program takes from elsewhere

Errors, and the functions the program calls in libraries of its own.  An error
is its text together with the sentinels `errors.Is` finds in it and the delay
`errors.As` finds attached to it.

The libraries are one parameter, `Libraries`.  Its functions are arbitrary but
for what the laws among its fields state, each a documented property.
-/
namespace Sigillum
open Runes

/-- The sentinel errors of `internal/driver`. -/
inductive Sentinel where
  | noReadyEndpoint
  | upstreamTransient
  | upstreamPermanent
  | recipientNotInEnvelope
  deriving DecidableEq, Repr

structure Err where
  text : Bytes
  is : List Sentinel
  /-- What `WithRetryAfter` attached to the error or one it wraps; `0` if nothing. -/
  retryAfter : Int
  deriving DecidableEq, Repr

/-- `errors.New`, and `fmt.Errorf` without `%w`. -/
def Err.new (text : Bytes) : Err := ⟨text, [], 0⟩

/-- `fmt.Errorf` with `%w` at the end. -/
def Err.wrap (text : Bytes) (err : Err) : Err := { err with text := text ++ err.text }

/-- The text of a sentinel. -/
def Sentinel.text : Sentinel → Bytes
  | .noReadyEndpoint => Bytes.lit "no ready endpoint"
  | .upstreamTransient => Bytes.lit "upstream transient error"
  | .upstreamPermanent => Bytes.lit "upstream permanent error"
  | .recipientNotInEnvelope => Bytes.lit "header recipient is not an envelope recipient"

/-- What follows a step is reached only if the step returns. -/
theorem bind_eq_ok {ε α β : Type} {x : Except ε α} {f : α → Except ε β} {b : β} :
    x >>= f = .ok b ↔ ∃ a, x = .ok a ∧ f a = .ok b := by
  cases x with
  | error err => exact ⟨nofun, nofun⟩
  | ok a =>
    constructor
    · exact fun h => ⟨a, rfl, h⟩
    · rintro ⟨a', h, hf⟩
      obtain rfl := Except.ok.inj h
      exact hf

/-- What a loop returns, it returns for an element. -/
theorem mem_of_mapM_eq_ok {ε α β : Type} {f : α → Except ε β} {l : List α} {bs : List β}
    (h : l.mapM f = .ok bs) : ∀ b ∈ bs, ∃ a ∈ l, f a = .ok b := by
  induction l generalizing bs with
  | nil =>
    obtain rfl := Except.ok.inj h
    nofun
  | cons a l ih =>
    rw [List.mapM_cons, bind_eq_ok] at h
    obtain ⟨b, hb, h⟩ := h
    obtain ⟨rest, hrest, h⟩ := bind_eq_ok.mp h
    obtain rfl := Except.ok.inj h
    refine List.forall_mem_cons.mpr ⟨⟨a, List.mem_cons_self, hb⟩, fun b' hb' => ?_⟩
    obtain ⟨a', ha', hfa'⟩ := ih hrest b' hb'
    exact ⟨a', List.mem_cons_of_mem _ ha', hfa'⟩

/-- A loop returns if every step does. -/
theorem exists_mapM_eq_ok_iff {ε α β : Type} {f : α → Except ε β} {l : List α} :
    (∃ bs, l.mapM f = .ok bs) ↔ ∀ a ∈ l, ∃ b, f a = .ok b := by
  induction l with
  | nil => exact iff_of_true ⟨[], rfl⟩ nofun
  | cons a l ih =>
    rw [List.forall_mem_cons, ← ih]
    constructor
    · rintro ⟨bs, h⟩
      rw [List.mapM_cons, bind_eq_ok] at h
      obtain ⟨b, hb, h⟩ := h
      obtain ⟨rest, hrest, -⟩ := bind_eq_ok.mp h
      exact ⟨⟨b, hb⟩, rest, hrest⟩
    · rintro ⟨⟨b, hb⟩, rest, hrest⟩
      exact ⟨b :: rest, by rw [List.mapM_cons, hb, hrest]; rfl⟩

/-- What every step of a loop keeps, the loop keeps. -/
theorem foldlM_keeps {ε α β : Type} {f : β → α → Except ε β} {I : β → Prop}
    (hstep : ∀ b a b', I b → f b a = .ok b' → I b') {l : List α} {b b' : β} (hb : I b)
    (h : l.foldlM f b = .ok b') : I b' := by
  induction l generalizing b with
  | nil =>
    obtain rfl := Except.ok.inj h
    exact hb
  | cons a l ih =>
    rw [List.foldlM_cons, bind_eq_ok] at h
    obtain ⟨b₁, hb₁, hrest⟩ := h
    exact ih (hstep b a b₁ hb hb₁) hrest

/-- `mail.Address`, also the driver's `Address`: a display name and an addr-spec. -/
structure Address where
  name : Bytes
  address : Bytes
  deriving DecidableEq, Repr

/-- `metav1.LabelSelectorRequirement`. -/
structure LabelRequirement where
  key : Bytes
  operator : Bytes
  values : List Bytes
  deriving DecidableEq, Repr

/-- `LabelSelectorSubject`.  The maps of labels are given by their entries. -/
structure LabelSelector where
  matchLabels : List (Bytes × Bytes)
  matchExpressions : List LabelRequirement
  deriving DecidableEq, Repr

/-! ## Errors of objects -/

namespace Field

/-- `field.Path.Child`. -/
def child (path : Bytes) (name : String) : Bytes := path ++ [46] ++ Bytes.lit name

/-- `field.Path.Index`. -/
def index (path : Bytes) (i : Nat) : Bytes := path ++ [91] ++ Bytes.lit (toString i) ++ [93]

inductive ErrorType where
  | required
  | forbidden
  | invalid (value : Bytes)
  | invalidSelector (value : LabelSelector)
  | notSupported (value : Bytes) (supported : List Bytes)
  deriving DecidableEq, Repr

/-- `field.Error`: what is wrong, where, and the detail. -/
structure Error where
  type : ErrorType
  field : Bytes
  detail : Bytes
  deriving DecidableEq, Repr

def required (field detail : Bytes) : Error := ⟨.required, field, detail⟩
def forbidden (field detail : Bytes) : Error := ⟨.forbidden, field, detail⟩
def invalid (field value detail : Bytes) : Error := ⟨.invalid value, field, detail⟩

def notSupported (field value : Bytes) (supported : List Bytes) : Error :=
  ⟨.notSupported value supported, field, []⟩

end Field

/-- `apierrors.NewInvalid`: the kind and the name of the object, and its field errors. -/
structure InvalidObject where
  kind : Bytes
  name : Bytes
  errors : List Field.Error
  deriving DecidableEq, Repr

/-! ## The parameter -/

/-- A byte of a lower-case host name: a letter, a digit, `-` or `.`. -/
def isHostByte (c : UInt8) : Bool :=
  (97 ≤ c && c ≤ 122) || (48 ≤ c && c ≤ 57) || c == 45 || c == 46

structure Libraries where
  unicode : Unicode
  /-- `mail.ParseAddress`. -/
  parseAddress : Bytes → Except Err Address
  /-- `mail.ParseAddressList`. -/
  parseAddressList : Bytes → Except Err (List Address)
  /-- `validation.IsDNS1123Subdomain`: what is wrong with a name. -/
  isDNS1123Subdomain : Bytes → List Bytes
  /-- `metav1.LabelSelectorAsSelector`, with the selector's `Matches`. -/
  labelSelectorAsSelector : LabelSelector → Except Err (List (Bytes × Bytes) → Bool)
  /-- Whether `uuid.Parse` accepts its argument. -/
  isUUID : Bytes → Bool
  /-- The text of the error `apierrors.NewInvalid` makes. -/
  invalidText : InvalidObject → Bytes
  /-- Whether `x509.CertPool.AppendCertsFromPEM` finds a certificate. -/
  appendCertsFromPEM : Bytes → Bool
  /-- `mime.ParseMediaType`: the media type and its parameters. -/
  parseMediaType : Bytes → Except Err (Bytes × List (Bytes × Bytes))
  /-- `mime.FormatMediaType`; empty if the type or a parameter is not valid. -/
  formatMediaType : Bytes → List (Bytes × Bytes) → Bytes
  /-- An address that is returned as it is given is a bare addr-spec, without white space. -/
  notMem_of_bare : ∀ r, parseAddress r = .ok ⟨[], r⟩ → r ≠ [] ∧ ∀ c ∈ [32, 9, 13, 10], c ∉ r
  /-- Spaces and tabs around an address do not matter. -/
  parseAddress_trim : ∀ s a, parseAddress (Bytes.trim s) = .ok a ↔ parseAddress s = .ok a
  /-- Spaces and tabs around a list of addresses do not matter. -/
  parseAddressList_trim : ∀ s as,
    parseAddressList (Bytes.trim s) = .ok as ↔ parseAddressList s = .ok as
  /-- The empty string is no list of addresses. -/
  parseAddressList_nil : ∀ as, parseAddressList [] ≠ .ok as
  /-- Bare addresses with commas between them are a list of these addresses. -/
  parseAddressList_bare : ∀ rs, rs ≠ [] → (∀ r ∈ rs, parseAddress r = .ok ⟨[], r⟩) →
    parseAddressList (List.intercalate [44, 32] rs) = .ok (rs.map fun r => ⟨[], r⟩)
  /-- A DNS subdomain is made of lower-case letters, digits, `-` and `.`. -/
  hostBytes_of_isDNS1123Subdomain : ∀ s, isDNS1123Subdomain s = [] → ∀ c ∈ s, isHostByte c = true
  /-- A DNS subdomain ends in a letter or a digit, so it is not empty. -/
  isDNS1123Subdomain_ne_nil : ∀ s, isDNS1123Subdomain s = [] → s ≠ []

/-! ## An instance -/

/-- A byte of an address made of letters, digits, `-`, `.`, `@` and what is not ASCII. -/
def isPlainByte (c : UInt8) : Bool := isHostByte (Bytes.lowerByte c) || c == 64 || 0x80 ≤ c

/-- Such an address, with one `@`. -/
def plainAddress (s : Bytes) : Except Err Address :=
  if (Bytes.trim s).count 64 = 1 ∧ (Bytes.trim s).all isPlainByte then .ok ⟨[], Bytes.trim s⟩
  else .error (.new (Bytes.lit "mail: missing '@' or angle-addr"))

/-- Such addresses with commas between them. -/
def plainAddresses (s : Bytes) : Except Err (List Address) :=
  ((Bytes.trim s).splitOn 44).mapM plainAddress

theorem plainAddress_trim (s : Bytes) : plainAddress (Bytes.trim s) = plainAddress s := by
  rw [plainAddress, Bytes.trim_trim, plainAddress]

theorem plainAddress_eq_bare {r : Bytes} (h : plainAddress r = .ok ⟨[], r⟩) :
    r ≠ [] ∧ ∀ c ∈ r, isPlainByte c = true := by
  unfold plainAddress at h
  split at h
  · rename_i hr
    have htrim : Bytes.trim r = r := congrArg Address.address (Except.ok.inj h)
    rw [htrim] at hr
    refine ⟨?_, List.all_eq_true.mp hr.2⟩
    rintro rfl
    cases hr.1
  · cases h

theorem intercalate_comma_space (r : Bytes) (rs : List Bytes) :
    List.intercalate [44, 32] (r :: rs) = List.intercalate [44] (r :: rs.map (32 :: ·)) := by
  induction rs generalizing r with
  | nil => simp
  | cons r' rs ih =>
    rw [List.intercalate_cons_cons, List.map_cons, List.intercalate_cons_cons, ih]
    cases rs with
    | nil => simp
    | cons r'' rs => simp [List.intercalate_cons_cons]

theorem getLast?_intercalate {sep : Bytes} {rs : List Bytes} (h : ∀ r ∈ rs, r ≠ []) {c : UInt8}
    (hc : c ∈ (List.intercalate sep rs).getLast?) : ∃ r ∈ rs, c ∈ r := by
  induction rs with
  | nil => cases hc
  | cons r rs ih =>
    cases rs with
    | nil =>
      rw [List.intercalate_singleton] at hc
      exact ⟨r, List.mem_cons_self, List.mem_of_getLast? hc⟩
    | cons r' rs =>
      have hne : List.intercalate sep (r' :: rs) ≠ [] := by
        have hr' := h r' (by simp)
        cases rs with
        | nil => simpa using hr'
        | cons r'' rs => simp [List.intercalate_cons_cons, hr']
      rw [List.intercalate_cons_cons, List.getLast?_append_of_ne_nil _ hne] at hc
      obtain ⟨s, hs, hmem⟩ := ih (fun s hs => h s (List.mem_cons_of_mem _ hs)) hc
      exact ⟨s, List.mem_cons_of_mem _ hs, hmem⟩

theorem trim_intercalate {rs : List Bytes} (h : ∀ r ∈ rs, r ≠ [] ∧ ∀ c ∈ r, Bytes.isWSP c = false) :
    Bytes.trim (List.intercalate [44, 32] rs) = List.intercalate [44, 32] rs := by
  refine Bytes.trim_eq_self (fun c hc => ?_) fun c hc => ?_
  · cases rs with
    | nil => cases hc
    | cons r rs =>
      obtain ⟨hne, hall⟩ := h r List.mem_cons_self
      obtain ⟨d, r, rfl⟩ := List.exists_cons_of_ne_nil hne
      have hd : d = c := by
        cases rs with
        | nil => simpa using hc
        | cons r' rs => simpa [List.intercalate_cons_cons] using hc
      exact hall c (hd ▸ List.mem_cons_self)
  · obtain ⟨r, hr, hmem⟩ := getLast?_intercalate (fun r hr => (h r hr).1) hc
    exact (h r hr).2 c hmem

theorem plainAddresses_bare {rs : List Bytes} (hne : rs ≠ [])
    (h : ∀ r ∈ rs, plainAddress r = .ok ⟨[], r⟩) :
    plainAddresses (List.intercalate [44, 32] rs) = .ok (rs.map fun r => ⟨[], r⟩) := by
  have hbytes : ∀ r ∈ rs, ∀ c ∈ r, c ≠ 44 ∧ Bytes.isWSP c = false := by
    intro r hr c hc
    have hplain := (plainAddress_eq_bare (h r hr)).2 c hc
    constructor
    · rintro rfl
      exact absurd hplain (by decide)
    · by_contra hwsp
      simp only [Bytes.isWSP, Bool.not_eq_false, Bool.or_eq_true, beq_iff_eq] at hwsp
      rcases hwsp with rfl | rfl <;> exact absurd hplain (by decide)
  have hparts : ∀ l : List Bytes, (∀ r ∈ l, r ∈ rs) →
      (l.map (32 :: ·)).mapM plainAddress = .ok (l.map fun r => (⟨[], r⟩ : Address)) := by
    intro l hl
    induction l with
    | nil => rfl
    | cons r l ih =>
      have hr := hl r List.mem_cons_self
      rw [List.map_cons, List.mapM_cons, ← plainAddress_trim, Bytes.trim_cons_of_isWSP (by decide),
        plainAddress_trim, h r hr, ih fun r' hr' => hl r' (List.mem_cons_of_mem _ hr')]
      rfl
  rw [plainAddresses, trim_intercalate fun r hr =>
    ⟨(plainAddress_eq_bare (h r hr)).1, fun c hc => (hbytes r hr c hc).2⟩]
  obtain ⟨r, rs, rfl⟩ := List.exists_cons_of_ne_nil hne
  rw [intercalate_comma_space, List.splitOn_intercalate]
  · rw [List.mapM_cons, h r List.mem_cons_self,
      hparts rs fun r' hr' => List.mem_cons_of_mem _ hr']
    rfl
  · intro part hpart
    rcases List.mem_cons.mp hpart with rfl | hpart
    · exact fun hc => (hbytes _ List.mem_cons_self _ hc).1 rfl
    · obtain ⟨r', hr', rfl⟩ := List.mem_map.mp hpart
      have hcomma : 44 ∉ r' := fun hc => (hbytes r' (List.mem_cons_of_mem _ hr') _ hc).1 rfl
      simpa using hcomma
  · exact List.cons_ne_nil _ _

/-- Small stand-ins, exact on host names and plain ASCII addresses. -/
def Libraries.plain : Libraries where
  unicode := .latin1
  parseAddress := plainAddress
  parseAddressList := plainAddresses
  isDNS1123Subdomain s :=
    if s ≠ [] ∧ s.all isHostByte then [] else [Bytes.lit "a lowercase RFC 1123 subdomain"]
  labelSelectorAsSelector _ := .ok fun _ => false
  isUUID s := s.length == 36
  invalidText o := o.kind ++ Bytes.lit ".sigillum.dev \"" ++ o.name ++ Bytes.lit "\" is invalid"
  appendCertsFromPEM pem := pem != []
  parseMediaType s :=
    if s = [] then .error (.new (Bytes.lit "mime: no media type"))
    else if s.all fun c => isHostByte c || c == 47 then .ok (s, [])
    else .error (.new (Bytes.lit "mime: unexpected content after media subtype"))
  formatMediaType t params := t ++ params.flatMap fun p => Bytes.lit "; " ++ p.1 ++ [61] ++ p.2
  notMem_of_bare r h := by
    obtain ⟨hne, hall⟩ := plainAddress_eq_bare h
    have hwhite : ∀ c ∈ [32, 9, 13, 10], ¬ isPlainByte c = true := by decide
    exact ⟨hne, fun c hc hmem => hwhite c hc (hall c hmem)⟩
  parseAddress_trim s a := by rw [plainAddress_trim]
  parseAddressList_trim s as := by rw [plainAddresses, Bytes.trim_trim, plainAddresses]
  parseAddressList_nil _ := nofun
  parseAddressList_bare _ hne h := plainAddresses_bare hne h
  hostBytes_of_isDNS1123Subdomain s h := by
    split at h
    · rename_i hs
      exact List.all_eq_true.mp hs.2
    · cases h
  isDNS1123Subdomain_ne_nil s h := by
    split at h
    · rename_i hs
      exact hs.1
    · cases h

theorem parseMediaType_plain {ct mt : Bytes} {params : List (Bytes × Bytes)}
    (h : Libraries.plain.parseMediaType ct = .ok (mt, params)) :
    mt = ct ∧ params = [] ∧ ∀ c ∈ ct, (isHostByte c || c == 47) = true := by
  simp only [Libraries.plain] at h
  split at h
  · cases h
  · split at h
    · rename_i hbytes
      obtain ⟨hmt, hparams⟩ := Prod.mk.inj (Except.ok.inj h)
      exact ⟨hmt.symm, hparams.symm, List.all_eq_true.mp hbytes⟩
    · cases h

end Sigillum
