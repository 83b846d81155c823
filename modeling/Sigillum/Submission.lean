import Sigillum.AddressHeader
import Sigillum.HeaderBlock
import Sigillum.Mailbox

/-! # Submitted messages

`parseMessage` in `internal/smtpproxy/session.go`: the header addresses of a
message the SMTP proxy relays, which the policy then checks.  The proxy relays
the bytes it was given, so what matters is which fields of these bytes the check
covers (`Covered`).

The check goes by canonical names.  A name with a byte that is no token character
keeps its spelling, and white space in front of the colon is such a byte, so a
field spelled so passes unseen; `covered_iff` says that this is all that does.
-/
namespace Sigillum
open Runes Bytes HeaderBlock

/-- The errors of `mail.Header.AddressList`. -/
inductive HeaderError where
  | notPresent
  | parse (err : Err)
  deriving DecidableEq, Repr

def HeaderError.text : HeaderError → Bytes
  | .notPresent => lit "mail: header not in message"
  | .parse err => err.text

/-- `mail.Header.Get`: the first value. -/
def headerGet (h : List HeaderBlock.Field) (key : Bytes) : Bytes := (values h key).head?.getD []

/-- What `parseMessage` returns of the header. -/
structure AddressHeaders where
  fromAddr : Bytes
  sender : Bytes
  replyTo : List Bytes
  deriving DecidableEq, Repr

/-- The address of the Sender field, if there is one. -/
def AddressHeaders.senders (hdr : AddressHeaders) : List Bytes :=
  if hdr.sender = [] then [] else [hdr.sender]

section Parse
variable (L : Libraries)

/-- `mail.Header.AddressList`. -/
def addressList (h : List HeaderBlock.Field) (key : Bytes) : Except HeaderError (List Address) :=
  if headerGet h key = [] then .error .notPresent
  else match L.parseAddressList (headerGet h key) with
  | .error err => .error (.parse err)
  | .ok list => .ok list

/-- `addressField`. -/
def addressField (h : List HeaderBlock.Field) (key : Bytes) : Except Bytes (List Bytes) :=
  match addressList L h key with
  | .error err => .error err.text
  | .ok list =>
    match validateAddressHeader L (headerGet h key) list.length with
    | some err => .error err.text
    | none =>
      match list.findSome? fun a => validateMailbox L.unicode a.address with
      | some err => .error err.text
      | none => .ok (list.map (·.address))

def errNoFrom : Err := .new (lit "message has no valid From header")

/-- The address of the From field. -/
def fromField (h : List HeaderBlock.Field) : Except Err Bytes :=
  if (values h (lit "From")).length = 0 then .error errNoFrom
  else match addressField L h (lit "From") with
  | .error err => .error (.new (lit "invalid From header: " ++ err))
  | .ok [] => .error errNoFrom
  | .ok [a] => .ok a
  | .ok _ => .error (.new (lit "multiple From addresses are not allowed"))

/-- The address of the Sender field; empty if there is none. -/
def senderField (h : List HeaderBlock.Field) : Except Err Bytes :=
  if 0 < (values h (lit "Sender")).length then
    match addressField L h (lit "Sender") with
    | .error err => .error (.new (lit "invalid Sender header: " ++ err))
    | .ok [a] => .ok a
    | .ok _ => .error (.new (lit "the Sender header must hold exactly one address"))
  else .ok []

/-- The addresses of the Reply-To field. -/
def replyToField (h : List HeaderBlock.Field) : Except Err (List Bytes) :=
  if 0 < (values h (lit "Reply-To")).length then
    match addressField L h (lit "Reply-To") with
    | .error err => .error (.new (lit "invalid Reply-To header: " ++ err))
    | .ok list => .ok list
  else .ok []

/-- The checks on the names of the fields; of several `Resent-` fields the error
may name any. -/
def checkNames (h : List HeaderBlock.Field) : Except Err Unit :=
  match h.find? fun f => (lit "Resent-").isPrefixOf f.name with
  | some f => .error (.new (f.name ++ lit " header fields are not allowed"))
  | none =>
    match [lit "From", lit "Sender", lit "Reply-To"].find? fun k => 1 < (values h k).length with
    | some k => .error (.new (lit "multiple " ++ k ++ lit " header fields are not allowed"))
    | none => .ok ()

/-- `parseMessage`. -/
def parseMessage (raw : Bytes) : Except Err (HeaderBlock.Message × AddressHeaders) := do
  match readMessage raw with
  | .error err => .error (.new (lit "malformed message header: " ++ err))
  | .ok msg =>
    checkNames msg.header
    let fromAddr ← fromField L msg.header
    let sender ← senderField L msg.header
    let replyTo ← replyToField L msg.header
    .ok (msg, ⟨fromAddr, sender, replyTo⟩)

end Parse

/-! ## The fields of the raw message -/

/-- The name of a field without the white space before its colon, in lower case. -/
def fieldName (f : HeaderBlock.Field) : Bytes := asciiLower (f.name.rdropWhile isWSP)

/-- The fields of a message with a name. -/
def named (raw name : Bytes) : List HeaderBlock.Field :=
  (fields raw).filter fun f => fieldName f == name

/-- The addresses that can be read from the value of a field. -/
def addressesOf (L : Libraries) (value : Bytes) : List Bytes :=
  match L.parseAddressList value with
  | .error _ => []
  | .ok list => list.map (·.address)

/-- The addresses of the fields with a name. -/
def addressesNamed (L : Libraries) (raw name : Bytes) : List Bytes :=
  (named raw name).flatMap fun f => addressesOf L f.value

/-- The check covers every sender field of the message: there is one From, at most
one Sender and Reply-To and no Resent- field, and the addresses returned are those
of these fields. -/
structure Covered (L : Libraries) (raw : Bytes) (hdr : AddressHeaders) : Prop where
  oneFrom : (named raw (lit "from")).length = 1
  oneSender : (named raw (lit "sender")).length ≤ 1
  oneReplyTo : (named raw (lit "reply-to")).length ≤ 1
  noResent : ∀ f ∈ fields raw, ¬ lit "resent-" <+: fieldName f
  fromAddr : addressesNamed L raw (lit "from") = [hdr.fromAddr]
  sender : addressesNamed L raw (lit "sender") = hdr.senders
  replyTo : addressesNamed L raw (lit "reply-to") = hdr.replyTo

/-- A field whose name the check is about. -/
def IsSenderField (f : HeaderBlock.Field) : Prop :=
  fieldName f ∈ [lit "from", lit "sender", lit "reply-to"] ∨ lit "resent-" <+: fieldName f

/-- A field the check misses without harm: the only Sender or Reply-To, and without
an address. -/
def Harmless (L : Libraries) (raw : Bytes) (f : HeaderBlock.Field) : Prop :=
  fieldName f ∈ [lit "sender", lit "reply-to"] ∧ named raw (fieldName f) = [f] ∧
    addressesOf L f.value = []

instance (f : HeaderBlock.Field) : Decidable (IsSenderField f) :=
  inferInstanceAs (Decidable (_ ∨ _))

instance (L : Libraries) (raw : Bytes) (f : HeaderBlock.Field) : Decidable (Harmless L raw f) :=
  inferInstanceAs (Decidable (_ ∧ _))

/-! ## What is accepted -/

section Accepted
variable {L : Libraries} {raw : Bytes} {msg : HeaderBlock.Message} {hdr : AddressHeaders}

/-- What holds of a message that `parseMessage` accepts. -/
structure Parsed (L : Libraries) (raw : Bytes) (msg : HeaderBlock.Message) (hdr : AddressHeaders) :
    Prop where
  read : readMessage raw = .ok msg
  noResent : ∀ f ∈ msg.header, ¬ lit "Resent-" <+: f.name
  single : ∀ k ∈ [lit "From", lit "Sender", lit "Reply-To"], (values msg.header k).length ≤ 1
  fromField : fromField L msg.header = .ok hdr.fromAddr
  senderField : senderField L msg.header = .ok hdr.sender
  replyToField : replyToField L msg.header = .ok hdr.replyTo

theorem checkNames_eq_ok {h : List HeaderBlock.Field} (hok : checkNames h = .ok ()) :
    (∀ f ∈ h, ¬ lit "Resent-" <+: f.name) ∧
      ∀ k ∈ [lit "From", lit "Sender", lit "Reply-To"], (values h k).length ≤ 1 := by
  unfold checkNames at hok
  split at hok
  · cases hok
  · rename_i hresent
    split at hok
    · cases hok
    · rename_i hmany
      refine ⟨fun f hf hpre => ?_, fun k hk => ?_⟩
      · exact List.find?_eq_none.mp hresent f hf (List.isPrefixOf_iff_prefix.mpr hpre)
      · simpa using List.find?_eq_none.mp hmany k hk

theorem parseMessage_eq_ok (h : parseMessage L raw = .ok (msg, hdr)) : Parsed L raw msg hdr := by
  unfold parseMessage at h
  split at h
  · cases h
  · rename_i msg' hread
    cases hnames : checkNames msg'.header with
    | error err =>
      rw [hnames] at h
      cases h
    | ok u =>
      obtain ⟨hresent, hsingle⟩ := checkNames_eq_ok hnames
      cases hfrom : fromField L msg'.header with
      | error err =>
        rw [hnames, hfrom] at h
        cases h
      | ok fromAddr =>
        cases hsender : senderField L msg'.header with
        | error err =>
          rw [hnames, hfrom, hsender] at h
          cases h
        | ok sender =>
          cases hreplyTo : replyToField L msg'.header with
          | error err =>
            rw [hnames, hfrom, hsender, hreplyTo] at h
            cases h
          | ok replyTo =>
            rw [hnames, hfrom, hsender, hreplyTo] at h
            obtain ⟨rfl, rfl⟩ := Prod.mk.inj (Except.ok.inj h)
            exact ⟨hread, hresent, hsingle, hfrom, hsender, hreplyTo⟩

/-- A field that is checked holds the addresses that are returned, and these are mailboxes. -/
theorem addressField_eq_ok {h : List HeaderBlock.Field} {key value : Bytes} {out : List Bytes}
    (hvalue : values h key = [value]) (hok : addressField L h key = .ok out) :
    addressesOf L value = out ∧ ∀ a ∈ out, validateMailbox L.unicode a = none := by
  have hget : headerGet h key = value := by rw [headerGet, hvalue]; rfl
  unfold addressField addressList at hok
  rw [hget] at hok
  split at hok
  · cases hok
  · rename_i list hlist
    split at hlist
    · cases hlist
    · split at hlist
      · cases hlist
      · rename_i list' hparse
        obtain rfl := Except.ok.inj hlist
        split at hok
        · cases hok
        · split at hok
          · cases hok
          · rename_i hmailboxes
            obtain rfl := Except.ok.inj hok
            refine ⟨by rw [addressesOf, hparse], fun a ha => ?_⟩
            obtain ⟨addr, haddr, rfl⟩ := List.mem_map.mp ha
            exact List.findSome?_eq_none_iff.mp hmailboxes addr haddr

theorem fieldName_of_token {f : HeaderBlock.Field} (h : f.name.all isTokenByte = true) :
    fieldName f = asciiLower f.name := by
  rw [fieldName, rdropWhile_isWSP_of_token h]

/-- The fields the check sees under a name: those spelled with token characters. -/
def seen (raw name : Bytes) : List HeaderBlock.Field :=
  (named raw name).filter fun f => f.name.all isTokenByte

/-- The values under a canonical name are those of the fields seen. -/
theorem values_eq_seen (h : Parsed L raw msg hdr) (key : Bytes)
    (hkey : key ∈ [lit "From", lit "Sender", lit "Reply-To"]) :
    values msg.header key = (seen raw (asciiLower key)).map (·.value) := by
  have hcanonical : ∀ k ∈ [lit "From", lit "Sender", lit "Reply-To"],
      k.all isTokenByte = true ∧ canonicalFrom true k = k ∧ k ≠ [] := by decide
  obtain ⟨htoken, hcanon, hne⟩ := hcanonical key hkey
  rw [values_header h.read htoken hcanon hne, seen, named, List.filter_filter]
  congr 1
  refine List.filter_congr fun f _ => ?_
  rw [Bool.eq_iff_iff, Bool.and_eq_true, beq_iff_eq, beq_iff_eq]
  constructor
  · intro hname
    have hf : f.name.all isTokenByte = true := by
      rw [← all_isTokenByte_asciiLower, hname, all_isTokenByte_asciiLower, htoken]
    exact ⟨hf, (fieldName_of_token hf).trans hname⟩
  · rintro ⟨hf, hname⟩
    exact (fieldName_of_token hf).symm.trans hname

/-- Under each name there is at most one value, that of the one field seen. -/
theorem seen_cases (h : Parsed L raw msg hdr) (key : Bytes)
    (hkey : key ∈ [lit "From", lit "Sender", lit "Reply-To"]) :
    (values msg.header key = [] ∧ seen raw (asciiLower key) = []) ∨
      ∃ f, values msg.header key = [f.value] ∧ seen raw (asciiLower key) = [f] := by
  have hvalues := values_eq_seen h key hkey
  have hlength := h.single key hkey
  rw [hvalues, List.length_map] at hlength
  cases hseen : seen raw (asciiLower key) with
  | nil =>
    rw [hseen] at hvalues
    exact .inl ⟨hvalues, rfl⟩
  | cons f fs =>
    rw [hseen] at hvalues hlength
    obtain rfl : fs = [] :=
      List.length_eq_zero_iff.mp (Nat.le_zero.mp (Nat.le_of_succ_le_succ hlength))
    exact .inr ⟨f, hvalues, rfl⟩

/-- The From field seen holds the address returned. -/
theorem seen_from (h : Parsed L raw msg hdr) :
    ∃ f, seen raw (lit "from") = [f] ∧ addressesOf L f.value = [hdr.fromAddr] := by
  have hfield := h.fromField
  unfold Sigillum.fromField at hfield
  rcases seen_cases h (lit "From") (by decide) with ⟨hvalues, -⟩ | ⟨f, hvalues, hseen⟩
  · rw [hvalues] at hfield
    cases hfield
  · rw [hvalues, if_neg (by simp)] at hfield
    split at hfield
    · cases hfield
    · cases hfield
    · rename_i a haddr
      obtain rfl := Except.ok.inj hfield
      exact ⟨f, hseen, (addressField_eq_ok hvalues haddr).1⟩
    · cases hfield

/-- The check sees at most one field of a name, and returns its addresses. -/
def SeenAs (L : Libraries) (raw name : Bytes) (out : List Bytes) : Prop :=
  (seen raw name = [] ∧ out = []) ∨ ∃ f, seen raw name = [f] ∧ addressesOf L f.value = out

theorem SeenAs.eq_nil {name : Bytes} {out : List Bytes} (h : SeenAs L raw name out)
    (hnil : seen raw name = []) : out = [] := by
  rcases h with ⟨-, hout⟩ | ⟨f, hf, -⟩
  · exact hout
  · rw [hnil] at hf
    cases hf

theorem seenAs_sender (h : Parsed L raw msg hdr) : SeenAs L raw (lit "sender") hdr.senders := by
  have hfield := h.senderField
  unfold Sigillum.senderField at hfield
  rcases seen_cases h (lit "Sender") (by decide) with ⟨hvalues, hseen⟩ | ⟨f, hvalues, hseen⟩
  · rw [hvalues, if_neg (by simp)] at hfield
    exact .inl ⟨hseen, if_pos (Except.ok.inj hfield).symm⟩
  · rw [hvalues, if_pos (by simp)] at hfield
    split at hfield
    · cases hfield
    · rename_i a haddr
      obtain rfl := Except.ok.inj hfield
      obtain ⟨haddrs, hmailbox⟩ := addressField_eq_ok hvalues haddr
      obtain ⟨localPart, domain, hm⟩ := validateMailbox_spec (hmailbox _ List.mem_cons_self)
      have hne : hdr.sender ≠ [] := by
        rw [hm.eq]
        simp
      exact .inr ⟨f, hseen, by rw [haddrs, AddressHeaders.senders, if_neg hne]⟩
    · cases hfield

theorem seenAs_replyTo (h : Parsed L raw msg hdr) : SeenAs L raw (lit "reply-to") hdr.replyTo := by
  have hfield := h.replyToField
  unfold Sigillum.replyToField at hfield
  rcases seen_cases h (lit "Reply-To") (by decide) with ⟨hvalues, hseen⟩ | ⟨f, hvalues, hseen⟩
  · rw [hvalues, if_neg (by simp)] at hfield
    exact .inl ⟨hseen, (Except.ok.inj hfield).symm⟩
  · rw [hvalues, if_pos (by simp)] at hfield
    split at hfield
    · cases hfield
    · rename_i list haddr
      obtain rfl := Except.ok.inj hfield
      exact .inr ⟨f, hseen, (addressField_eq_ok hvalues haddr).1⟩

/-- Fields that are not seen do not count only if there are none. -/
theorem token_of_length_le {name : Bytes} {f : HeaderBlock.Field} (hf : f ∈ named raw name)
    (hle : (named raw name).length ≤ (seen raw name).length) : f.name.all isTokenByte = true := by
  have heq := List.filter_sublist.eq_of_length_le hle
  have hmem : f ∈ seen raw name := by
    rw [seen, heq]
    exact hf
  exact (List.mem_filter.mp hmem).2

/-- The fields of a name are all seen, or the one field there is is harmless. -/
theorem seen_eq_named {name : Bytes} (hname : name ∈ [lit "from", lit "sender", lit "reply-to"])
    (h : ∀ f ∈ fields raw, IsSenderField f → f.name.all isTokenByte = true ∨ Harmless L raw f) :
    seen raw name = named raw name ∨
      name ∈ [lit "sender", lit "reply-to"] ∧ seen raw name = [] ∧
        (named raw name).length ≤ 1 ∧ addressesNamed L raw name = [] := by
  by_cases hall : ∀ f ∈ named raw name, f.name.all isTokenByte = true
  · exact .inl (List.filter_eq_self.mpr hall)
  · push Not at hall
    obtain ⟨f, hf, htoken⟩ := hall
    obtain ⟨hfields, hfname⟩ := List.mem_filter.mp hf
    obtain rfl : fieldName f = name := beq_iff_eq.mp hfname
    rcases h f hfields (.inl hname) with htoken' | ⟨hsender, honly, hnone⟩
    · exact absurd htoken' htoken
    · refine .inr ⟨hsender, ?_, by rw [honly]; exact Nat.le_refl 1, ?_⟩
      · rw [seen, honly, List.filter_cons, if_neg htoken]
        rfl
      · rw [addressesNamed, honly, List.flatMap_cons, hnone]
        rfl

/-- A field that is not seen is harmless if it is the only one of its name and no
addresses are returned for that name. -/
theorem harmless_of_not_token {f : HeaderBlock.Field} (hf : f ∈ named raw (fieldName f))
    (hname : fieldName f ∈ [lit "sender", lit "reply-to"])
    (htoken : ¬ f.name.all isTokenByte = true) (hlength : (named raw (fieldName f)).length ≤ 1)
    (hnone : seen raw (fieldName f) = [] → addressesNamed L raw (fieldName f) = []) :
    Harmless L raw f := by
  obtain ⟨g, hg⟩ := List.length_eq_one_iff.mp
    (Nat.le_antisymm hlength (List.length_pos_iff.mpr (List.ne_nil_of_mem hf)))
  rw [hg] at hf
  obtain rfl := List.mem_singleton.mp hf
  have hseen : seen raw (fieldName f) = [] := by
    rw [seen, hg, List.filter_cons, if_neg htoken]
    rfl
  have haddrs := hnone hseen
  rw [addressesNamed, hg, List.flatMap_cons] at haddrs
  exact ⟨hname, hg, (List.append_eq_nil_iff.mp haddrs).1⟩

/-- A field with a name of token characters does not start with `Resent-`. -/
theorem not_resent_of_token (h : Parsed L raw msg hdr) {f : HeaderBlock.Field}
    (hf : f ∈ fields raw) (htoken : f.name.all isTokenByte = true) :
    ¬ lit "resent-" <+: fieldName f := by
  intro hresent
  rw [fieldName_of_token htoken] at hresent
  have hcanonical : lit "Resent-" <+: canonicalKey f.name :=
    canonicalFrom_isPrefix htoken hresent
  refine h.noResent ⟨canonicalKey f.name, f.value⟩ ?_ hcanonical
  rw [(readMessage_eq_ok h.read).2.2]
  refine List.mem_filter.mpr ⟨List.mem_map.mpr ⟨f, hf, rfl⟩, ?_⟩
  rw [decide_eq_true_eq]
  rintro (hnil : canonicalKey f.name = [])
  rw [hnil] at hcanonical
  exact absurd (List.prefix_nil.mp hcanonical) (by decide)

/-- A sender field that the check does not see leaves it incomplete, unless harmless. -/
theorem harmless_of_covered (h : Parsed L raw msg hdr) (hcovered : Covered L raw hdr)
    {f : HeaderBlock.Field} (hf : f ∈ fields raw) (hsender : IsSenderField f)
    (htoken : ¬ f.name.all isTokenByte = true) : Harmless L raw f := by
  rcases hsender with hname | hresent
  · have hnamed : f ∈ named raw (fieldName f) := List.mem_filter.mpr ⟨hf, beq_self_eq_true _⟩
    simp only [List.mem_cons, List.not_mem_nil, or_false] at hname
    rcases hname with hname | hname | hname
    · -- there is one From, and it is the one seen
      obtain ⟨g, hg, -⟩ := seen_from h
      rw [hname] at hnamed
      exact absurd (token_of_length_le hnamed (by rw [hcovered.oneFrom, hg]; exact Nat.le_refl 1))
        htoken
    · refine harmless_of_not_token hnamed (by rw [hname]; decide) htoken ?_ ?_
      · rw [hname]
        exact hcovered.oneSender
      · rw [hname, hcovered.sender]
        exact (seenAs_sender h).eq_nil
    · refine harmless_of_not_token hnamed (by rw [hname]; decide) htoken ?_ ?_
      · rw [hname]
        exact hcovered.oneReplyTo
      · rw [hname, hcovered.replyTo]
        exact (seenAs_replyTo h).eq_nil
  · exact absurd hresent (hcovered.noResent f hf)

/-- If what is not seen is harmless, what is seen is all there is. -/
theorem SeenAs.named {name : Bytes} {out : List Bytes} (h : SeenAs L raw name out)
    (hname : name ∈ [lit "from", lit "sender", lit "reply-to"])
    (hplain : ∀ f ∈ fields raw, IsSenderField f →
      f.name.all isTokenByte = true ∨ Harmless L raw f) :
    (named raw name).length ≤ 1 ∧ addressesNamed L raw name = out := by
  rcases seen_eq_named hname hplain with heq | ⟨-, hnil, hlength, haddrs⟩
  · rw [addressesNamed, ← heq]
    rcases h with ⟨hnil, rfl⟩ | ⟨f, hf, haddrs⟩
    · rw [hnil]
      exact ⟨Nat.zero_le 1, rfl⟩
    · rw [hf, List.flatMap_cons, haddrs]
      exact ⟨Nat.le_refl 1, List.append_nil out⟩
  · rw [h.eq_nil hnil]
    exact ⟨hlength, haddrs⟩

theorem covered_of_plain (h : Parsed L raw msg hdr)
    (hplain : ∀ f ∈ fields raw, IsSenderField f →
      f.name.all isTokenByte = true ∨ Harmless L raw f) : Covered L raw hdr := by
  have hfrom : ∃ f, named raw (lit "from") = [f] ∧ addressesOf L f.value = [hdr.fromAddr] := by
    rcases seen_eq_named (show lit "from" ∈ _ by decide) hplain with heq | ⟨hname, -⟩
    · rw [← heq]
      exact seen_from h
    · exact absurd hname (by decide)
  obtain ⟨f, hf, hfromAddr⟩ := hfrom
  obtain ⟨honeSender, hsender⟩ := (seenAs_sender h).named (by decide) hplain
  obtain ⟨honeReplyTo, hreplyTo⟩ := (seenAs_replyTo h).named (by decide) hplain
  refine ⟨by rw [hf]; rfl, honeSender, honeReplyTo, fun g hg hresent => ?_, ?_, hsender, hreplyTo⟩
  · rcases hplain g hg (.inr hresent) with htoken | hharmless
    · exact not_resent_of_token h hg htoken hresent
    · have hstart : ∀ n ∈ [lit "sender", lit "reply-to"], ¬ lit "resent-" <+: n := by decide
      exact hstart _ hharmless.1 hresent
  · rw [addressesNamed, hf, List.flatMap_cons, hfromAddr]
    rfl

end Accepted

/-- **What the check covers.**  Of an accepted message the check covers every sender
field exactly if each of them has a name of token characters, but for a lone Sender
or Reply-To without an address. -/
theorem covered_iff (L : Libraries) (raw : Bytes) (msg : HeaderBlock.Message) (hdr : AddressHeaders)
    (haccepted : parseMessage L raw = .ok (msg, hdr)) :
    Covered L raw hdr ↔
      ∀ f ∈ fields raw, IsSenderField f → f.name.all isTokenByte = true ∨ Harmless L raw f := by
  have h := parseMessage_eq_ok haccepted
  constructor
  · intro hcovered f hf hsender
    by_cases htoken : f.name.all isTokenByte = true
    · exact .inl htoken
    · exact .inr (harmless_of_covered h hcovered hf hsender htoken)
  · exact covered_of_plain h

/-- A message with a folded Reply-To, in mixed case. -/
def replyToMessage : Bytes :=
  lit "From: app@billing.example\r\nreply-TO: a@x.example,\r\n b@x.example\r\n\r\nbody\r\n"

/-- The addresses its check returns. -/
def replyToHeaders : AddressHeaders :=
  ⟨lit "app@billing.example", [], [lit "a@x.example", lit "b@x.example"]⟩

theorem covered_iff_replyToMessage :
    (parseMessage .plain replyToMessage).map Prod.snd = .ok replyToHeaders ∧
      Covered .plain replyToMessage replyToHeaders := by
  have hparse : parseMessage .plain replyToMessage = .ok
      (⟨[⟨lit "From", lit "app@billing.example"⟩,
          ⟨lit "Reply-To", lit "a@x.example, b@x.example"⟩], lit "body\r\n"⟩, replyToHeaders) := by
    decide +kernel
  exact ⟨by rw [hparse]; rfl, (covered_iff .plain _ _ _ hparse).mpr (by decide +kernel)⟩

/-- A message with a space before the colon of its Sender field. -/
def spacedMessage : Bytes :=
  lit "From: app@billing.example\r\nSender : attacker@evil.example\r\n\r\nbody\r\n"

/-- It is accepted as one without a Sender. -/
theorem spacedMessage_not_covered :
    (parseMessage .plain spacedMessage).map Prod.snd = .ok ⟨lit "app@billing.example", [], []⟩ ∧
      ¬ Covered .plain spacedMessage ⟨lit "app@billing.example", [], []⟩ := by
  refine ⟨by decide +kernel, fun hcovered => ?_⟩
  have hsender := hcovered.sender
  revert hsender
  decide +kernel

end Sigillum
