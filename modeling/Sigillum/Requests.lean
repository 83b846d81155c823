import Sigillum.AssembledHeader
import Sigillum.Submission

/-! # Requests of the REST API

`internal/apiserver/messages.go`: how the addresses and the headers of a request are
checked before its message goes to the gateway.  The maps of headers are given by
their entries in the order a loop comes to them, and every loop may have its own.

The policy sees the From, the Sender and the Reply-To addresses that are returned
here, while the driver sends the header that `assembleMessage` writes.  The two go by
different notions of a header name; `addresses_checked_iff` says when they agree.
-/
namespace Sigillum
open Runes Bytes HeaderBlock

/-- `requestBody`, without the attachments. -/
structure RequestBody where
  fromAddr : Bytes
  toAddrs : List Bytes
  cc : List Bytes
  bcc : List Bytes
  subject : Bytes
  body : Body
  headers : List (Bytes × Bytes)
  deriving DecidableEq, Repr

/-- A problem with the payload: the title and the detail of the answer. -/
structure Problem where
  title : Bytes
  detail : Bytes
  deriving DecidableEq, Repr

section Checks
variable (L : Libraries)

/-- `parseAddress`. -/
def parseAddress (s : Bytes) : Except Err Address :=
  match L.parseAddress (trimSpace s) with
  | .error err => .error (.wrap (quote L.unicode s ++ lit ": ") err)
  | .ok a =>
    match validateMailbox L.unicode a.address with
    | some err => .error err
    | none => .ok a

/-- `parseAddressList`. -/
def parseAddressList (addrs : List Bytes) : Except Err (List Address) := addrs.mapM (parseAddress L)

/-- A header that has to hold one address, as From and Sender do. -/
def parseAddressHeader (s : Bytes) : Except Err Address := do
  let a ← parseAddress L s
  match validateAddressHeader L s 1 with
  | some err => .error err
  | none => .ok a

/-- An error as the detail of a problem. -/
def problem {α : Type} (title : Bytes) : Except Err α → Except Problem α
  | .error err => .error ⟨title, err.text⟩
  | .ok a => .ok a

/-- The message for a request, as `handleSendMessage` builds it. -/
def requestMessage (msgID : Bytes) (req : RequestBody) (atts : List Attachment) :
    Except Problem Message := do
  let fromAddr ← problem (lit "Invalid 'from' address") (parseAddressHeader L req.fromAddr)
  let toAddrs ← problem (lit "Invalid 'to' address") (parseAddressList L req.toAddrs)
  let cc ← problem (lit "Invalid 'cc' address") (parseAddressList L req.cc)
  let bcc ← problem (lit "Invalid 'bcc' address") (parseAddressList L req.bcc)
  let msg : Message :=
    { messageID := lit "<" ++ msgID ++ lit "@sigillum.local>"
      fromAddr, toAddrs, cc, bcc
      subject := req.subject
      body := req.body
      attachments := atts
      headers := req.headers }
  if msg.recipients.length = 0 then
    .error ⟨lit "At least one recipient required", lit "provide one of to, cc or bcc"⟩
  else .ok msg

/-- The loop of `validateRequestHeaders`; `seen` are the canonical names so far. -/
def validateHeadersFrom (seen : List Bytes) : List (Bytes × Bytes) → Except Err Unit
  | [] => .ok ()
  | (k, v) :: h =>
    if containsInjectionChars k then .error (.new (lit "header key contains CR, LF, or NUL"))
    else if containsInjectionChars v then
      .error (.new (lit "header " ++ quote L.unicode k ++ lit " value contains CR, LF, or NUL"))
    else if maxHeaderLine < k.length + 2 + v.length then
      .error (.new (lit "header " ++ quote L.unicode k ++
        lit " line exceeds 998 characters (field name, \": \" and value)"))
    else if canonicalKey k ∈ seen then
      .error (.new (lit "header " ++ quote L.unicode (canonicalKey k) ++
        lit " given more than once"))
    else if (lit "Resent-").isPrefixOf (canonicalKey k) then
      .error (.new (lit "header " ++ quote L.unicode (canonicalKey k) ++ lit " is not allowed"))
    else validateHeadersFrom (canonicalKey k :: seen) h

/-- `validateRequestHeaders`. -/
def validateRequestHeaders (h : List (Bytes × Bytes)) : Except Err Unit :=
  validateHeadersFrom L [] h

/-- The Sender header of a request. -/
def senderHeader (v : Bytes) : Except Err Bytes :=
  match parseAddressHeader L v with
  | .error err => .error (.wrap (lit "header \"Sender\": ") err)
  | .ok a => .ok a.address

/-- The Reply-To header of a request. -/
def replyToHeader (v : Bytes) : Except Err (List Bytes) :=
  let wrap := Err.wrap (lit "header \"Reply-To\": ")
  match L.parseAddressList v with
  | .error err => .error (wrap err)
  | .ok list =>
    match validateAddressHeader L v list.length with
    | some err => .error (wrap err)
    | none =>
      match list.findSome? fun a => validateMailbox L.unicode a.address with
      | some err => .error (wrap err)
      | none => .ok (list.map (·.address))

/-- The loop of `addressHeaders`, for one header. -/
def addressHeader (found : Bytes × List Bytes) (kv : Bytes × Bytes) :
    Except Err (Bytes × List Bytes) :=
  if canonicalKey kv.1 = lit "Sender" then do
    let sender ← senderHeader L kv.2
    .ok (sender, found.2)
  else if canonicalKey kv.1 = lit "Reply-To" then do
    let list ← replyToHeader L kv.2
    .ok (found.1, found.2 ++ list)
  else .ok found

/-- `addressHeaders`: the address of Sender, empty if there is none, and those of Reply-To. -/
def addressHeaders (h : List (Bytes × Bytes)) : Except Err (Bytes × List Bytes) :=
  h.foldlM (addressHeader L) ([], [])

end Checks

/-! ## The address headers of a message -/

section Sent
variable (L : Libraries)

/-- The fields of a message with a name, unfolded. -/
def sentFields (raw name : Bytes) : List HeaderBlock.Field :=
  (unfoldedFields raw).filter fun f => fieldName f == name

/-- The address a field holds, if it holds one. -/
def addressIn (value : Bytes) : Option Bytes :=
  match L.parseAddress value with
  | .error _ => none
  | .ok a => some a.address

/-- The addresses a field lists. -/
def addressesIn (value : Bytes) : Option (List Bytes) :=
  match L.parseAddressList value with
  | .error _ => none
  | .ok list => some (list.map (·.address))

/-- Every address header of the message is one that is checked: one From with the From
address, no Resent- field, and a Sender and a Reply-To field exactly if addresses for
them are returned, with these addresses. -/
structure AddressesChecked (raw fromAddr sender : Bytes) (replyTo : List Bytes) : Prop where
  oneFrom : ∃ f, sentFields raw (lit "from") = [f] ∧ HoldsAddress f.value fromAddr
  noResent : ∀ f ∈ unfoldedFields raw, ¬ lit "resent-" <+: fieldName f
  sender : (sentFields raw (lit "sender") = [] ∧ sender = []) ∨
    ∃ f, sentFields raw (lit "sender") = [f] ∧ addressIn L f.value = some sender
  replyTo : (sentFields raw (lit "reply-to") = [] ∧ replyTo = []) ∨
    ∃ f, sentFields raw (lit "reply-to") = [f] ∧ addressesIn L f.value = some replyTo

/-- The headers whose names and values the checks and the assembly read alike: a name that
starts with `Resent-` is made of token characters, and a Sender holds the same address
with and without the white space around it. -/
structure ReadAlike (headers : List (Bytes × Bytes)) : Prop where
  resent : ∀ kv ∈ headers, lit "resent-" <+: asciiLower kv.1 → kv.1.all isTokenByte = true
  sender : ∀ kv ∈ headers, canonicalKey kv.1 = lit "Sender" →
    addressIn L kv.2 = addressIn L (trimSpace kv.2)

end Sent

/-! ## What the checks establish -/

section Accepted
variable {L : Libraries}

theorem parseAddress_eq_ok {s : Bytes} {a : Address} (h : parseAddress L s = .ok a) :
    L.parseAddress (trimSpace s) = .ok a ∧
      ∃ localPart domain, IsMailbox a.address localPart domain := by
  unfold parseAddress at h
  split at h
  · cases h
  · rename_i a' hparse
    split at h
    · cases h
    · rename_i hmailbox
      obtain rfl := Except.ok.inj h
      exact ⟨hparse, validateMailbox_spec hmailbox⟩

theorem parseAddressHeader_eq_ok {s : Bytes} {a : Address} (h : parseAddressHeader L s = .ok a) :
    parseAddress L s = .ok a := by
  obtain ⟨a', hparse, h⟩ := bind_eq_ok.mp h
  split at h
  · cases h
  · rw [hparse, Except.ok.inj h]

theorem parseAddressList_eq_ok {addrs : List Bytes} {list : List Address}
    (h : parseAddressList L addrs = .ok list) :
    ∀ a ∈ list, ∃ localPart domain, IsMailbox a.address localPart domain := by
  intro a ha
  obtain ⟨s, -, hparse⟩ := mem_of_mapM_eq_ok h a ha
  exact (parseAddress_eq_ok hparse).2

theorem problem_eq_ok {α : Type} {title : Bytes} {x : Except Err α} {a : α}
    (h : problem title x = .ok a) : x = .ok a := by
  cases x with
  | error err => cases h
  | ok b => exact congrArg Except.ok (Except.ok.inj h)

/-- The message of a request has the request's headers, and mailboxes for addresses. -/
theorem requestMessage_eq_ok {msgID : Bytes} {req : RequestBody} {atts : List Attachment}
    {msg : Message} (h : requestMessage L msgID req atts = .ok msg) :
    msg.WellAddressed ∧ msg.messageID = lit "<" ++ msgID ++ lit "@sigillum.local>" ∧
      parseAddress L req.fromAddr = .ok msg.fromAddr ∧ msg.headers = req.headers := by
  obtain ⟨fromAddr, hfrom, h⟩ := bind_eq_ok.mp h
  obtain ⟨toAddrs, hto, h⟩ := bind_eq_ok.mp h
  obtain ⟨cc, hcc, h⟩ := bind_eq_ok.mp h
  obtain ⟨bcc, -, h⟩ := bind_eq_ok.mp h
  have hparse := parseAddressHeader_eq_ok (problem_eq_ok hfrom)
  dsimp only at h
  split at h
  · cases h
  · obtain rfl := Except.ok.inj h
    exact ⟨⟨(parseAddress_eq_ok hparse).2, parseAddressList_eq_ok (problem_eq_ok hto),
      parseAddressList_eq_ok (problem_eq_ok hcc)⟩, rfl, hparse, rfl⟩

/-- What is checked of each header. -/
theorem validateHeadersFrom_cons {seen : List Bytes} {kv : Bytes × Bytes} {h : List (Bytes × Bytes)}
    (hok : validateHeadersFrom L seen (kv :: h) = .ok ()) :
    (¬ containsInjectionChars kv.2 = true ∧ kv.1.length + 2 + kv.2.length ≤ maxHeaderLine) ∧
      canonicalKey kv.1 ∉ seen ∧ ¬ lit "Resent-" <+: canonicalKey kv.1 ∧
      validateHeadersFrom L (canonicalKey kv.1 :: seen) h = .ok () := by
  obtain ⟨k, v⟩ := kv
  rw [validateHeadersFrom] at hok
  split at hok
  · cases hok
  · split at hok
    · cases hok
    · rename_i hvalue
      split at hok
      · cases hok
      · rename_i hlen
        split at hok
        · cases hok
        · rename_i hseen
          split at hok
          · cases hok
          · rename_i hresent
            rw [List.isPrefixOf_iff_prefix] at hresent
            exact ⟨⟨hvalue, Nat.not_lt.mp hlen⟩, hseen, hresent, hok⟩

/-- No two headers have one canonical name, and none a name that starts with `Resent-`. -/
theorem validateHeadersFrom_eq_ok {seen : List Bytes} {h : List (Bytes × Bytes)}
    (hok : validateHeadersFrom L seen h = .ok ()) :
    (∀ kv ∈ h, ¬ lit "Resent-" <+: canonicalKey kv.1) ∧
      (∀ kv ∈ h, canonicalKey kv.1 ∉ seen) ∧ (h.map fun kv => canonicalKey kv.1).Nodup := by
  induction h generalizing seen with
  | nil => exact ⟨nofun, nofun, List.nodup_nil⟩
  | cons kv h ih =>
    obtain ⟨-, hseen, hresent, hrest⟩ := validateHeadersFrom_cons hok
    obtain ⟨hresents, hfresh, hnodup⟩ := ih hrest
    refine ⟨List.forall_mem_cons.mpr ⟨hresent, hresents⟩,
      List.forall_mem_cons.mpr ⟨hseen, fun kv hkv hmem =>
        hfresh kv hkv (List.mem_cons_of_mem _ hmem)⟩,
      List.nodup_cons.mpr ⟨fun hmem => ?_, hnodup⟩⟩
    obtain ⟨kv, hkv, heq⟩ := List.mem_map.mp hmem
    exact hfresh kv hkv (heq ▸ List.mem_cons_self)

/-- Values are of one line, and so short that a line has room for them. -/
theorem validateHeadersFrom_lines {seen : List Bytes} {h : List (Bytes × Bytes)}
    (hok : validateHeadersFrom L seen h = .ok ()) :
    ∀ kv ∈ h, ¬ containsInjectionChars kv.2 = true ∧
      kv.1.length + 2 + kv.2.length ≤ maxHeaderLine := by
  induction h generalizing seen with
  | nil => exact List.forall_mem_nil _
  | cons kv h ih =>
    obtain ⟨hline, -, -, hrest⟩ := validateHeadersFrom_cons hok
    exact List.forall_mem_cons.mpr ⟨hline, ih hrest⟩

theorem senderHeader_eq_ok {v sender : Bytes} (h : senderHeader L v = .ok sender) :
    addressIn L (trimSpace v) = some sender := by
  unfold senderHeader at h
  split at h
  · cases h
  · rename_i a hparse
    obtain rfl := Except.ok.inj h
    rw [addressIn, (parseAddress_eq_ok (parseAddressHeader_eq_ok hparse)).1]

theorem replyToHeader_eq_ok {v : Bytes} {list : List Bytes} (h : replyToHeader L v = .ok list) :
    addressesIn L v = some list := by
  unfold replyToHeader at h
  dsimp only at h
  split at h
  · cases h
  · rename_i addrs hparse
    split at h
    · cases h
    · split at h
      · cases h
      · obtain rfl := Except.ok.inj h
        rw [addressesIn, hparse]

theorem addressHeader_eq_ok {kv : Bytes × Bytes} {before after : Bytes × List Bytes}
    (h : addressHeader L before kv = .ok after) :
    (canonicalKey kv.1 = lit "Sender" ∧ addressIn L (trimSpace kv.2) = some after.1 ∧
        after.2 = before.2) ∨
      (canonicalKey kv.1 = lit "Reply-To" ∧ after.1 = before.1 ∧
        ∃ list, addressesIn L kv.2 = some list ∧ after.2 = before.2 ++ list) ∨
      (canonicalKey kv.1 ≠ lit "Sender" ∧ canonicalKey kv.1 ≠ lit "Reply-To" ∧ after = before) := by
  unfold addressHeader at h
  split at h
  · rename_i hsender
    obtain ⟨sender, hok, h⟩ := bind_eq_ok.mp h
    obtain rfl := Except.ok.inj h
    exact .inl ⟨hsender, senderHeader_eq_ok hok, rfl⟩
  · rename_i hsender
    split at h
    · rename_i hreplyTo
      obtain ⟨list, hok, h⟩ := bind_eq_ok.mp h
      obtain rfl := Except.ok.inj h
      exact .inr (.inl ⟨hreplyTo, rfl, list, replyToHeader_eq_ok hok, rfl⟩)
    · rename_i hreplyTo
      exact .inr (.inr ⟨hsender, hreplyTo, (Except.ok.inj h).symm⟩)

/-- What the loop over the headers finds, if no name is there twice. -/
structure Found (L : Libraries) (h : List (Bytes × Bytes)) (before after : Bytes × List Bytes) :
    Prop where
  sender : ∀ kv ∈ h, canonicalKey kv.1 = lit "Sender" → addressIn L (trimSpace kv.2) = some after.1
  noSender : (∀ kv ∈ h, canonicalKey kv.1 ≠ lit "Sender") → after.1 = before.1
  replyTo : ∀ kv ∈ h, canonicalKey kv.1 = lit "Reply-To" →
    ∃ list, addressesIn L kv.2 = some list ∧ after.2 = before.2 ++ list
  noReplyTo : (∀ kv ∈ h, canonicalKey kv.1 ≠ lit "Reply-To") → after.2 = before.2

theorem foldlM_addressHeader_eq_ok {h : List (Bytes × Bytes)} {before after : Bytes × List Bytes}
    (hnodup : (h.map fun kv => canonicalKey kv.1).Nodup)
    (hok : h.foldlM (addressHeader L) before = .ok after) : Found L h before after := by
  induction h generalizing before with
  | nil =>
    obtain rfl := Except.ok.inj hok
    exact ⟨nofun, fun _ => rfl, nofun, fun _ => rfl⟩
  | cons kv h ih =>
    obtain ⟨hfresh, hnodup⟩ := List.nodup_cons.mp hnodup
    have hother : ∀ kv' ∈ h, canonicalKey kv'.1 ≠ canonicalKey kv.1 := fun kv' hkv' heq =>
      hfresh (List.mem_map.mpr ⟨kv', hkv', heq⟩)
    rw [List.foldlM_cons, bind_eq_ok] at hok
    obtain ⟨between, hstep, hrest⟩ := hok
    have hfound := ih hnodup hrest
    have hne : lit "Sender" ≠ lit "Reply-To" := by decide
    rcases addressHeader_eq_ok hstep with
      ⟨hkey, haddress, hsame⟩ | ⟨hkey, hsame, list, haddresses, hlist⟩ | ⟨hsender, hreplyTo, rfl⟩
    · -- no other header is a Sender, so that this one's address stays
      have hlast := hfound.noSender fun kv' hkv' => hkey ▸ hother kv' hkv'
      exact
        { sender := List.forall_mem_cons.mpr ⟨fun _ => hlast ▸ haddress, hfound.sender⟩
          noSender := fun hnone => absurd hkey (hnone kv List.mem_cons_self)
          replyTo := List.forall_mem_cons.mpr
            ⟨fun hreplyTo => absurd (hkey.symm.trans hreplyTo) hne, hsame ▸ hfound.replyTo⟩
          noReplyTo := fun hnone =>
            (hfound.noReplyTo (List.forall_mem_cons.mp hnone).2).trans hsame }
    · have hlast := hfound.noReplyTo fun kv' hkv' => hkey ▸ hother kv' hkv'
      refine
        { sender := List.forall_mem_cons.mpr
            ⟨fun hsender => absurd (hsender.symm.trans hkey) hne, hfound.sender⟩
          noSender := fun hnone => (hfound.noSender (List.forall_mem_cons.mp hnone).2).trans hsame
          replyTo := List.forall_mem_cons.mpr
            ⟨fun _ => ⟨list, haddresses, hlast.trans hlist⟩, fun kv' hkv' hreplyTo => ?_⟩
          noReplyTo := fun hnone => absurd hkey (hnone kv List.mem_cons_self) }
      exact absurd (hreplyTo.trans hkey.symm) (hother kv' hkv')
    · exact
        { sender := List.forall_mem_cons.mpr ⟨fun h => absurd h hsender, hfound.sender⟩
          noSender := fun hnone => hfound.noSender (List.forall_mem_cons.mp hnone).2
          replyTo := List.forall_mem_cons.mpr ⟨fun h => absurd h hreplyTo, hfound.replyTo⟩
          noReplyTo := fun hnone => hfound.noReplyTo (List.forall_mem_cons.mp hnone).2 }

end Accepted

/-! ## The header that is sent -/

section Sending
variable {L : Libraries} {msg : Message} {hdr : MIMEHeader} {out : Bytes}

/-- What is read from an assembled message: its header, whose fields are each of one line. -/
structure Assembled (L : Libraries) (msg : Message) (hdr : MIMEHeader) (out : Bytes) : Prop where
  out : ∃ body, out = sentText hdr body
  entry : ∀ f ∈ hdr.entries, IsName f.1 ∧ Unbroken f.2
  name_cases : ∀ f ∈ hdr.entries, f.1 ∈ managedNames ∨
    ∃ kv ∈ msg.headers, isReservedHeader L kv.1 = false ∧ f.1 = canonicalKey kv.1
  fromField : (lit "From", formatAddress msg.fromAddr) ∈ hdr.entries
  custom : (msg.headers.map fun kv => canonicalKey kv.1).Nodup →
    ∀ kv ∈ msg.headers, isReservedHeader L kv.1 = false → (canonicalKey kv.1, kv.2) ∈ hdr.entries

theorem assembled_of_assembleMessage {e : Entropy} {heloDomain id : Bytes}
    (hmsg : msg.WellAddressed) (hid : msg.messageID ≠ []) (hunbroken : Unbroken msg.messageID)
    (h : assembleMessage L e msg heloDomain = .ok (out, id)) : ∃ hdr, Assembled L msg hdr out := by
  obtain ⟨-, -, custom, hdr, body, hstages, rfl, -⟩ := (assembleMessage_eq_ok_iff hid).mp h
  have hheaded := headed_of_assembleBody hstages.headers hstages.described
  have hfrom := hheaded.managed (lit "From", formatAddress msg.fromAddr) (by simp [managedFields])
  have hkey : canonicalKey (lit "From") = lit "From" := by decide
  rw [hkey] at hfrom
  exact ⟨hdr, ⟨body, rfl⟩, hheaded.entry hunbroken hmsg, fun f => hheaded.name_cases, hfrom,
    hheaded.distinct⟩

/-- The fields that are read from the message sent are those of its header. -/
theorem Assembled.unfoldedFields (h : Assembled L msg hdr out) :
    unfoldedFields out = hdr.sorted.map fun e => ⟨e.1, trim e.2⟩ := by
  obtain ⟨body, rfl⟩ := h.out
  exact unfoldedFields_lines (fun e he => (h.entry e (MIMEHeader.mem_sorted.mp he)).1)
    (fun e he => (h.entry e (MIMEHeader.mem_sorted.mp he)).2) body

theorem fieldName_of_isName {name value : Bytes} (h : IsName name) :
    fieldName ⟨name, value⟩ = asciiLower name := by
  have hname : name.rdropWhile isWSP = name := by
    rw [List.rdropWhile_eq_self_iff]
    intro hne hwsp
    have hbyte := (h.2 _ (List.getLast_mem hne)).1.1
    unfold isWSP at hwsp
    grind
  rw [fieldName, hname]

/-- Of a name there is the field of the header with its canonical form. -/
theorem Assembled.sentFields (h : Assembled L msg hdr out) {key : Bytes}
    (htoken : key.all isTokenByte = true) (hkey : canonicalFrom true key = key) :
    sentFields out (asciiLower key) =
      (hdr.sorted.filter fun e => e.1 == key).map fun e => ⟨e.1, trim e.2⟩ := by
  rw [Sigillum.sentFields, h.unfoldedFields, List.filter_map]
  congr 1
  refine List.filter_congr fun e he => ?_
  have hmem := MIMEHeader.mem_sorted.mp he
  have hcanonical := hdr.canonical e hmem
  rw [Function.comp_apply, fieldName_of_isName (h.entry _ hmem).1, Bool.eq_iff_iff, beq_iff_eq,
    beq_iff_eq, ← canonicalKey_eq_iff htoken hkey, hcanonical]

/-- The header under a name is sent as a field. -/
theorem Assembled.sentFields_eq_singleton (h : Assembled L msg hdr out) {key value : Bytes}
    (htoken : key.all isTokenByte = true) (hkey : canonicalFrom true key = key)
    (hmem : (key, value) ∈ hdr.entries) :
    Sigillum.sentFields out (asciiLower key) = [⟨key, trim value⟩] := by
  rw [h.sentFields htoken hkey, MIMEHeader.filter_sorted hmem]
  rfl

/-- A header of the caller's that the assembly does not manage is sent, if it is given. -/
theorem Assembled.sentFields_custom (h : Assembled L msg hdr out)
    (hnodup : (msg.headers.map fun kv => canonicalKey kv.1).Nodup) {key : Bytes}
    (hkey : key ∈ [lit "Sender", lit "Reply-To"]) :
    ((∀ kv ∈ msg.headers, canonicalKey kv.1 ≠ key) ∧
      Sigillum.sentFields out (asciiLower key) = []) ∨
      ∃ kv ∈ msg.headers, canonicalKey kv.1 = key ∧
        Sigillum.sentFields out (asciiLower key) = [⟨key, trim kv.2⟩] := by
  have hfacts : ∀ n ∈ [lit "Sender", lit "Reply-To"], n.all isTokenByte = true ∧
      canonicalFrom true n = n ∧ n ∉ managedNames ∧ (∀ c ∈ n, c < 0x80) ∧
      asciiLower n ∉ reservedHeaders := by decide
  obtain ⟨htoken, hcanonical, hmanaged, hascii, hreserved⟩ := hfacts key hkey
  by_cases hgiven : ∃ kv ∈ msg.headers, canonicalKey kv.1 = key
  · obtain ⟨kv, hkv, rfl⟩ := hgiven
    have hfree : isReservedHeader L kv.1 = false := by
      rw [isReservedHeader, toLower_of_canonicalKey hascii, ← Bool.not_eq_true,
        List.contains_iff_mem]
      exact hreserved
    exact .inr ⟨kv, hkv, rfl,
      h.sentFields_eq_singleton htoken hcanonical (h.custom hnodup kv hkv hfree)⟩
  · push Not at hgiven
    refine .inl ⟨hgiven, ?_⟩
    rw [h.sentFields htoken hcanonical, List.map_eq_nil_iff, List.filter_eq_nil_iff]
    intro e he heq
    obtain rfl := beq_iff_eq.mp heq
    rcases h.name_cases e (MIMEHeader.mem_sorted.mp he) with hname | ⟨kv, hkv, -, hname⟩
    · exact hmanaged hname
    · exact hgiven kv hkv hname.symm

/-- Trimming leaves the address a value ends in. -/
theorem HoldsAddress.trim {value address localPart domain : Bytes}
    (hm : IsMailbox address localPart domain) (h : HoldsAddress value address) :
    HoldsAddress (trim value) address := by
  have hplain : ∀ c ∈ address, isWSP c = false := by
    intro c hc
    by_contra hwsp
    simp only [isWSP, Bool.not_eq_false, Bool.or_eq_true, beq_iff_eq] at hwsp
    rw [hm.eq, List.mem_append, List.mem_cons] at hc
    rcases hc with hc | rfl | hc
    · have hbyte := hm.localPart_bytes c hc
      rcases hwsp with rfl | rfl <;> exact absurd hbyte (by decide)
    · revert hwsp
      decide
    · have hbyte := hm.domain.bytes hc
      rcases hwsp with rfl | rfl <;> exact absurd hbyte (by decide)
  rcases h with rfl | ⟨phrase, rfl⟩
  · left
    exact trim_eq_self (fun c hc => hplain c (List.mem_of_head? hc))
      fun c hc => hplain c (List.mem_of_getLast? hc)
  · right
    have hopen : lit "<" = [60] := by decide
    have hclose : lit ">" = [62] := by decide
    refine ⟨phrase.dropWhile isWSP, ?_⟩
    rw [hopen, hclose, List.append_assoc, List.append_assoc, List.singleton_append,
      trim_append_cons (by decide), List.append_assoc, List.append_assoc, List.singleton_append]
    intro d hd
    rw [← List.cons_append, List.getLast?_concat] at hd
    obtain rfl := Option.some.inj hd
    decide

theorem addressIn_trim (v : Bytes) : addressIn L (Bytes.trim v) = addressIn L v := by
  unfold addressIn
  cases hparse : L.parseAddress v with
  | ok a => rw [(L.parseAddress_trim v a).mpr hparse]
  | error err =>
    cases htrim : L.parseAddress (Bytes.trim v) with
    | error err' => rfl
    | ok a =>
      rw [(L.parseAddress_trim v a).mp htrim] at hparse
      cases hparse

theorem addressesIn_trim (v : Bytes) : addressesIn L (Bytes.trim v) = addressesIn L v := by
  unfold addressesIn
  cases hparse : L.parseAddressList v with
  | ok list => rw [(L.parseAddressList_trim v list).mpr hparse]
  | error err =>
    cases htrim : L.parseAddressList (Bytes.trim v) with
    | error err' => rfl
    | ok list =>
      rw [(L.parseAddressList_trim v list).mp htrim] at hparse
      cases hparse

/-- A header that starts with `Resent-` in any case is not one the assembly manages. -/
theorem not_reserved_of_resent {k : Bytes} (h : lit "resent-" <+: asciiLower k) :
    isReservedHeader L k = false := by
  have hnot : ∀ n ∈ reservedHeaders, n.head? ≠ some 114 := by decide
  obtain ⟨t, ht⟩ := h
  cases k with
  | nil => cases ht
  | cons c k =>
    have hc : lowerByte c = 114 := (List.cons.inj ht).1.symm
    have hascii : c < 0x80 := by
      unfold lowerByte at hc
      grind
    rw [isReservedHeader, ← Bool.not_eq_true, List.contains_iff_mem, Unicode.toLower_cons hascii,
      hc]
    exact fun hmem => hnot _ hmem rfl

/-- A Resent- field is sent exactly if a header has such a name and is not refused. -/
theorem Assembled.noResent_iff (h : Assembled L msg hdr out)
    (hnodup : (msg.headers.map fun kv => canonicalKey kv.1).Nodup)
    (hrefused : ∀ kv ∈ msg.headers, ¬ lit "Resent-" <+: canonicalKey kv.1) :
    (∀ f ∈ HeaderBlock.unfoldedFields out, ¬ lit "resent-" <+: fieldName f) ↔
      ∀ kv ∈ msg.headers, lit "resent-" <+: asciiLower kv.1 → kv.1.all isTokenByte = true := by
  have hmanaged : ∀ n ∈ managedNames, ¬ lit "resent-" <+: asciiLower n := by decide
  rw [h.unfoldedFields]
  constructor
  · intro hnone kv hkv hresent
    have hentry := h.custom hnodup kv hkv (not_reserved_of_resent hresent)
    refine absurd ?_ (hnone _ (List.mem_map.mpr ⟨_, MIMEHeader.mem_sorted.mpr hentry, rfl⟩))
    rw [fieldName_of_isName (h.entry _ hentry).1, asciiLower_canonicalKey]
    exact hresent
  · intro htoken f hf hresent
    obtain ⟨e, he, rfl⟩ := List.mem_map.mp hf
    have hmem := MIMEHeader.mem_sorted.mp he
    rw [fieldName_of_isName (h.entry _ hmem).1] at hresent
    rcases h.name_cases e hmem with hname | ⟨kv, hkv, -, hname⟩
    · exact hmanaged _ hname hresent
    · rw [hname, asciiLower_canonicalKey] at hresent
      exact hrefused kv hkv (canonicalFrom_isPrefix (htoken kv hkv hresent) hresent)

theorem Assembled.oneFrom (h : Assembled L msg hdr out) (hmsg : msg.WellAddressed) :
    ∃ f, Sigillum.sentFields out (lit "from") = [f] ∧
      HoldsAddress f.value msg.fromAddr.address := by
  obtain ⟨localPart, domain, hm⟩ := hmsg.fromAddr
  have hlower : lit "from" = asciiLower (lit "From") := by decide
  refine ⟨⟨lit "From", trim (formatAddress msg.fromAddr)⟩, ?_, (formatAddress_spec hm).2.trim hm⟩
  rw [hlower]
  exact h.sentFields_eq_singleton (by decide) (by decide) h.fromField

section Found
variable {addressed : List (Bytes × Bytes)} {sender : Bytes} {replyTo : List Bytes}

/-- The Reply-To field sent lists the addresses returned. -/
theorem Assembled.replyTo_checked (h : Assembled L msg hdr out)
    (hnodup : (msg.headers.map fun kv => canonicalKey kv.1).Nodup)
    (hperm : addressed.Perm msg.headers) (hfound : Found L addressed ([], []) (sender, replyTo)) :
    (Sigillum.sentFields out (lit "reply-to") = [] ∧ replyTo = []) ∨
      ∃ f, Sigillum.sentFields out (lit "reply-to") = [f] ∧
        addressesIn L f.value = some replyTo := by
  have hlower : lit "reply-to" = asciiLower (lit "Reply-To") := by decide
  rw [hlower]
  rcases h.sentFields_custom hnodup (show lit "Reply-To" ∈ _ by decide) with
    ⟨hnone, hfields⟩ | ⟨kv, hkv, hkey, hfields⟩
  · exact .inl ⟨hfields, hfound.noReplyTo fun kv hkv => hnone kv (hperm.mem_iff.mp hkv)⟩
  · obtain ⟨list, hlist, heq⟩ := hfound.replyTo kv (hperm.mem_iff.mpr hkv) hkey
    refine .inr ⟨_, hfields, ?_⟩
    rw [addressesIn_trim, hlist, show replyTo = list from heq]

/-- The Sender field sent holds the address returned, unless the white space that is
removed before it is read matters. -/
theorem Assembled.sender_checked_iff (h : Assembled L msg hdr out)
    (hnodup : (msg.headers.map fun kv => canonicalKey kv.1).Nodup)
    (hperm : addressed.Perm msg.headers) (hfound : Found L addressed ([], []) (sender, replyTo)) :
    ((Sigillum.sentFields out (lit "sender") = [] ∧ sender = []) ∨
        ∃ f, Sigillum.sentFields out (lit "sender") = [f] ∧ addressIn L f.value = some sender) ↔
      ∀ kv ∈ msg.headers, canonicalKey kv.1 = lit "Sender" →
        addressIn L kv.2 = addressIn L (trimSpace kv.2) := by
  have hlower : lit "sender" = asciiLower (lit "Sender") := by decide
  rw [hlower]
  rcases h.sentFields_custom hnodup (show lit "Sender" ∈ _ by decide) with
    ⟨hnone, hfields⟩ | ⟨kv, hkv, hkey, hfields⟩
  · constructor
    · exact fun _ kv hkv hkey => absurd hkey (hnone kv hkv)
    · exact fun _ => .inl ⟨hfields, hfound.noSender fun kv hkv => hnone kv (hperm.mem_iff.mp hkv)⟩
  · have hreturned := hfound.sender kv (hperm.mem_iff.mpr hkv) hkey
    have hread : addressIn L (trim kv.2) = addressIn L kv.2 := addressIn_trim kv.2
    rw [hfields]
    constructor
    · rintro (⟨hnil, -⟩ | ⟨f, hf, haddress⟩) kv' hkv' hkey'
      · cases hnil
      · obtain rfl : kv' = kv :=
          List.inj_on_of_nodup_map hnodup hkv' hkv (hkey'.trans hkey.symm)
        rw [← (List.cons.inj hf).1, hread] at haddress
        rw [haddress, hreturned]
    · intro halike
      refine .inr ⟨_, rfl, ?_⟩
      rw [hread, halike kv hkv hkey, hreturned]

end Found

end Sending

/-- **Which address headers are checked.**  Let a request pass the checks and its message
be assembled, with the headers in any order for each loop.  Every address header of the
message sent is one that is checked exactly if its headers are read alike. -/
theorem addresses_checked_iff (L : Libraries) (e : Entropy) (req : RequestBody)
    (atts : List Attachment) (msgID heloDomain : Bytes) (msg : Message)
    (validated addressed sent : List (Bytes × Bytes)) (sender out id : Bytes) (replyTo : List Bytes)
    (hid : Unbroken msgID) (hmsg : requestMessage L msgID req atts = .ok msg)
    (hvalidated : validated.Perm req.headers) (haddressed : addressed.Perm req.headers)
    (hsent : sent.Perm req.headers) (hvalid : validateRequestHeaders L validated = .ok ())
    (haddress : addressHeaders L addressed = .ok (sender, replyTo))
    (hout : assembleMessage L e { msg with headers := sent } heloDomain = .ok (out, id)) :
    AddressesChecked L out msg.fromAddr.address sender replyTo ↔ ReadAlike L req.headers := by
  obtain ⟨hwell, hmessageID, -, -⟩ := requestMessage_eq_ok hmsg
  obtain ⟨hrefused, -, hnodup⟩ := validateHeadersFrom_eq_ok hvalid
  have hwell' : Message.WellAddressed { msg with headers := sent } :=
    ⟨hwell.fromAddr, hwell.toAddrs, hwell.cc⟩
  have hne : msg.messageID ≠ [] := by
    rw [hmessageID]
    simp [lit]
  have hunbroken : Unbroken msg.messageID := by
    rw [hmessageID, unbroken_append, unbroken_append]
    exact ⟨⟨by decide, hid⟩, by decide⟩
  obtain ⟨hdr, h⟩ := assembled_of_assembleMessage hwell' hne hunbroken hout
  -- all loops see the same headers, with distinct canonical names
  have hkeys : ∀ {h : List (Bytes × Bytes)}, h.Perm req.headers →
      (h.map fun kv => canonicalKey kv.1).Nodup := fun hperm =>
    ((hperm.trans hvalidated.symm).map _).nodup_iff.mpr hnodup
  have hfound := foldlM_addressHeader_eq_ok (hkeys haddressed) haddress
  have hperm := haddressed.trans hsent.symm
  have hresent := h.noResent_iff (hkeys hsent) fun kv hkv =>
    hrefused kv ((hsent.trans hvalidated.symm).mem_iff.mp hkv)
  have hsender := h.sender_checked_iff (hkeys hsent) hperm hfound
  constructor
  · intro hchecked
    exact ⟨fun kv hkv => hresent.mp hchecked.noResent kv (hsent.mem_iff.mpr hkv),
      fun kv hkv => hsender.mp hchecked.sender kv (hsent.mem_iff.mpr hkv)⟩
  · intro halike
    exact ⟨h.oneFrom hwell', hresent.mpr fun kv hkv => halike.resent kv (hsent.mem_iff.mp hkv),
      hsender.mpr fun kv hkv => halike.sender kv (hsent.mem_iff.mp hkv),
      h.replyTo_checked (hkeys hsent) hperm hfound⟩

/-! Requests that differ in their headers only. -/

def sampleEntropy : Entropy where
  date := lit "Mon, 02 Jan 2006 15:04:05 +0000"
  messageID := []
  mixed := []
  alternative := []
  related := []
  date_text := by decide

def sampleRequest (headers : List (Bytes × Bytes)) : RequestBody where
  fromAddr := lit "app@billing.example"
  toAddrs := [lit "a@x.example"]
  cc := []
  bcc := []
  subject := []
  body := ⟨lit "text", []⟩
  headers := headers

def sampleMessage (headers : List (Bytes × Bytes)) : Message where
  messageID := lit "<1f@sigillum.local>"
  fromAddr := ⟨[], lit "app@billing.example"⟩
  toAddrs := [⟨[], lit "a@x.example"⟩]
  cc := []
  bcc := []
  subject := []
  body := ⟨lit "text", []⟩
  attachments := []
  headers := headers

/-- What is sent for them, with the caller's headers `before` and `after` To. -/
def sampleSent (before after : Bytes) : Bytes :=
  lit "Content-Transfer-Encoding: quoted-printable\r\nContent-Type: text/plain; charset=utf-8\r\n" ++
    lit "Date: Mon, 02 Jan 2006 15:04:05 +0000\r\nFrom: app@billing.example\r\n" ++
    lit "Message-Id: <1f@sigillum.local>\r\nMime-Version: 1.0\r\n" ++ before ++
    lit "To: a@x.example\r\n" ++ after ++ lit "\r\ntext"

/-- Headers the caller may set, and the same in another order. -/
def replyToEntries : List (Bytes × Bytes) :=
  [(lit "reply-TO", lit "b@x.example, c@x.example"), (lit "X-Tag", lit "1")]

def replyToSent : Bytes :=
  sampleSent (lit "Reply-To: b@x.example, c@x.example\r\n") (lit "X-Tag: 1\r\n")

theorem addresses_checked_iff_replyTo :
    (assembleMessage .plain sampleEntropy (sampleMessage replyToEntries.reverse) []).map Prod.fst =
        .ok replyToSent ∧
      AddressesChecked .plain replyToSent (lit "app@billing.example") []
        [lit "b@x.example", lit "c@x.example"] := by
  have hsent : assembleMessage .plain sampleEntropy (sampleMessage replyToEntries.reverse) [] =
      .ok (replyToSent, lit "<1f@sigillum.local>") := by decide +kernel
  refine ⟨by rw [hsent]; rfl, ?_⟩
  exact (addresses_checked_iff .plain sampleEntropy (sampleRequest replyToEntries) [] (lit "1f") []
    (sampleMessage replyToEntries) replyToEntries replyToEntries replyToEntries.reverse _ _ _ _
    (by decide) (by decide +kernel) (.refl _) (.refl _) (List.reverse_perm _) (by decide +kernel)
    (by decide +kernel) hsent).mpr ⟨by decide +kernel, by decide +kernel⟩

/-- A name with a byte that is no token character. -/
def resentEntries : List (Bytes × Bytes) := [(lit "resent-from(", lit "eve@y.example")]

/-- It passes all checks and is sent. -/
theorem resentEntries_not_checked :
    requestMessage .plain (lit "1f") (sampleRequest resentEntries) [] =
        .ok (sampleMessage resentEntries) ∧
      validateRequestHeaders .plain resentEntries = .ok () ∧
      addressHeaders .plain resentEntries = .ok ([], []) ∧
      assembleMessage .plain sampleEntropy (sampleMessage resentEntries) [] =
        .ok (sampleSent [] (lit "resent-from(: eve@y.example\r\n"), lit "<1f@sigillum.local>") ∧
      ¬ AddressesChecked .plain (sampleSent [] (lit "resent-from(: eve@y.example\r\n"))
        (lit "app@billing.example") [] [] := by
  refine ⟨by decide +kernel, by decide +kernel, by decide +kernel, by decide +kernel, fun h => ?_⟩
  have hnone := h.noResent
  revert hnone
  decide +kernel

/-- A Sender that starts with a no-break space. -/
def nbspEntries : List (Bytes × Bytes) := [(lit "Sender", [0xC2, 0xA0] ++ lit "eve@y.example")]

/-- The address that is checked is not the one in the value that is sent. -/
theorem nbspEntries_not_alike :
    validateRequestHeaders .plain nbspEntries = .ok () ∧
      addressHeaders .plain nbspEntries = .ok (lit "eve@y.example", []) ∧
      nbspEntries.map (fun kv => addressIn .plain kv.2) =
        [some ([0xC2, 0xA0] ++ lit "eve@y.example")] := by decide +kernel

end Sigillum
