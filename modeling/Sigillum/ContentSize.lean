import Sigillum.Libraries
import Sigillum.HeaderBlock
import Sigillum.TransferEncodings

/-! # The size of a message

`contentSize` in `internal/smtpproxy/size.go` measures a submitted message for
`maxSizeBytes`: its length, less what transfer encodings add to the content of its
parts.

A message is a tree of parts (`Tree`), as the readers of `mime/multipart` take it
apart.  These readers and the decoders are a parameter, `MimeReader`: parts are
disjoint ranges of the body they are read from, and a decoder does not return more
bytes than it reads.  `contentSize_exact` says what is measured, in terms of the tree:
either everything, or everything but the overhead of the encoded leaves.
-/
namespace Sigillum.Mime
open Runes Bytes HeaderBlock

/-! ## Readers -/

/-- What a reader yields, and whether it then fails instead of coming to its end. -/
structure Stream where
  bytes : Bytes
  fails : Bool
  deriving DecidableEq, Repr

/-- What `NextRawPart` returns. -/
structure RawPart where
  header : List HeaderBlock.Field
  body : Stream
  deriving DecidableEq, Repr

/-- Disjoint ranges of a text, in order. -/
inductive Pieces : List Bytes → Bytes → Prop where
  | nil (rest : Bytes) : Pieces [] rest
  | cons (gap piece : Bytes) {pieces : List Bytes} {rest : Bytes} (h : Pieces pieces rest) :
      Pieces (piece :: pieces) (gap ++ (piece ++ rest))

structure MimeReader where
  /-- The parts `NextRawPart` returns one after the other, and whether it then returns
  `io.EOF` and not another error. -/
  parts : Bytes → Stream → List RawPart × Bool
  /-- What `base64.NewDecoder` yields, unless it fails. -/
  base64 : Bytes → Option Bytes
  /-- What `quotedprintable.NewReader` yields, unless it fails. -/
  quotedPrintable : Bytes → Option Bytes
  /-- The bytes of each part are handed out once. -/
  pieces_parts : ∀ boundary s, Pieces ((parts boundary s).1.map (·.body.bytes)) s.bytes
  /-- A line that delimits it stands before every part. -/
  length_lt_of_mem_parts : ∀ boundary s, ∀ p ∈ (parts boundary s).1,
    p.body.bytes.length < s.bytes.length
  length_base64 : ∀ s t, base64 s = some t → t.length ≤ s.length
  length_quotedPrintable : ∀ s t, quotedPrintable s = some t → t.length ≤ s.length

/-- A transfer encoding `encodingSavings` tells apart. -/
inductive Encoding where
  | base64
  | quotedPrintable
  | other
  deriving DecidableEq, Repr

/-! ## The measure -/

/-- `maxMIMEDepth`. -/
def maxMIMEDepth : Nat := 16

/-- `textproto.MIMEHeader.Get`, for a key in canonical form. -/
def headerGet (h : List HeaderBlock.Field) (key : Bytes) : Bytes := (values h key).head?.getD []

/-- The loop over the parts: the sum of what each saves, if none fails. -/
def sumParts (savings : RawPart → Option Int) (atEOF : Bool) : List RawPart → Int → Option Int
  | [], total => if atEOF then some total else none
  | p :: ps, total =>
    match savings p with
    | none => none
    | some n => sumParts savings atEOF ps (total + n)

section Measure
variable (M : MimeReader) (L : Libraries)

/-- The encoding of a leaf. -/
def transferEncoding (h : List HeaderBlock.Field) : Encoding :=
  let name := L.unicode.toLower (trimSpace (headerGet h (lit "Content-Transfer-Encoding")))
  if name = lit "base64" then .base64
  else if name = lit "quoted-printable" then .quotedPrintable
  else .other

/-- The boundary parameter of a multipart, empty if it has none; `none` for a leaf. -/
def multipartBoundary (h : List HeaderBlock.Field) : Option Bytes :=
  match L.parseMediaType (headerGet h (lit "Content-Type")) with
  | .error _ => none
  | .ok (mediaType, params) =>
    if (lit "multipart/").isPrefixOf mediaType then
      some (((params.find? fun p => p.1 == lit "boundary").map Prod.snd).getD [])
    else none

def Encoding.decode : Encoding → Bytes → Option Bytes
  | .base64, s => M.base64 s
  | .quotedPrintable, s => M.quotedPrintable s
  | .other, s => some s

/-- `io.Copy` from the decoder of a leaf, if it comes to the end: then all of the body
has been read. -/
def decodeLeaf (e : Encoding) (body : Stream) : Option Bytes :=
  if body.fails then none else e.decode M body.bytes

/-- `encodingSavings`. -/
def encodingSavings (h : List HeaderBlock.Field) (body : Stream) (depth : Nat) : Option Int :=
  if maxMIMEDepth < depth then none
  else match multipartBoundary L h with
  | some boundary =>
    if boundary = [] then none
    else
      let (parts, atEOF) := M.parts boundary body
      sumParts (fun p => encodingSavings p.header p.body (depth + 1)) atEOF parts 0
  | none =>
    (decodeLeaf M (transferEncoding L h) body).map fun decoded =>
      (body.bytes.length : Int) - decoded.length
termination_by maxMIMEDepth + 1 - depth

/-- `contentSize`. -/
def contentSize (msg : HeaderBlock.Message) (rawLen : Nat) : Int :=
  match encodingSavings M L msg.header ⟨msg.body, false⟩ 0 with
  | none => rawLen
  | some savings => if savings < 0 ∨ (rawLen : Int) < savings then rawLen else rawLen - savings

end Measure

/-! ## Trees of parts -/

/-- A part that is no multipart. -/
structure Leaf where
  encoding : Encoding
  body : Stream
  deriving DecidableEq, Repr

mutual
/-- A message or a part of one. -/
inductive Tree where
  | leaf (l : Leaf)
  /-- A multipart without the parameter that says how to read it. -/
  | unbounded
  | multipart (parts : Parts)
/-- The parts of a multipart, as they are read: at the end there is the end of the body
or an error. -/
inductive Parts where
  | finished
  | failed
  | part (t : Tree) (rest : Parts)
end

mutual
/-- The leaves, in order. -/
def Tree.leaves : Tree → List Leaf
  | .leaf l => [l]
  | .unbounded => []
  | .multipart parts => parts.leaves
def Parts.leaves : Parts → List Leaf
  | .finished => []
  | .failed => []
  | .part t rest => t.leaves ++ rest.leaves
end

mutual
/-- Something is wrong with a tree at a depth: it is too deep, a leaf cannot be decoded, a
multipart has no boundary, or reading its parts fails. -/
inductive Tree.Faulty (M : MimeReader) : Nat → Tree → Prop where
  | deep {d : Nat} {t : Tree} (h : maxMIMEDepth < d) : Tree.Faulty M d t
  | leaf {d : Nat} {l : Leaf} (h : decodeLeaf M l.encoding l.body = none) :
      Tree.Faulty M d (.leaf l)
  | unbounded {d : Nat} : Tree.Faulty M d .unbounded
  | parts {d : Nat} {parts : Parts} (h : Parts.Faulty M (d + 1) parts) :
      Tree.Faulty M d (.multipart parts)
inductive Parts.Faulty (M : MimeReader) : Nat → Parts → Prop where
  | failed {d : Nat} : Parts.Faulty M d .failed
  | here {d : Nat} {t : Tree} {rest : Parts} (h : Tree.Faulty M d t) :
      Parts.Faulty M d (.part t rest)
  | there {d : Nat} {t : Tree} {rest : Parts} (h : Parts.Faulty M d rest) :
      Parts.Faulty M d (.part t rest)
end

mutual
/-- The tree of a header and a body. -/
inductive Tree.Reads (M : MimeReader) (L : Libraries) :
    List HeaderBlock.Field → Stream → Tree → Prop where
  | leaf {h : List HeaderBlock.Field} {s : Stream} (hleaf : multipartBoundary L h = none) :
      Tree.Reads M L h s (.leaf ⟨transferEncoding L h, s⟩)
  | unbounded {h : List HeaderBlock.Field} {s : Stream}
      (hnone : multipartBoundary L h = some []) : Tree.Reads M L h s .unbounded
  | multipart {h : List HeaderBlock.Field} {s : Stream} {boundary : Bytes} {parts : Parts}
      (hsome : multipartBoundary L h = some boundary) (hne : boundary ≠ [])
      (hparts : Parts.Reads M L (M.parts boundary s).1 (M.parts boundary s).2 parts) :
      Tree.Reads M L h s (.multipart parts)
inductive Parts.Reads (M : MimeReader) (L : Libraries) : List RawPart → Bool → Parts → Prop where
  | finished : Parts.Reads M L [] true .finished
  | failed : Parts.Reads M L [] false .failed
  | part {p : RawPart} {ps : List RawPart} {atEOF : Bool} {t : Tree} {rest : Parts}
      (ht : Tree.Reads M L p.header p.body t) (hrest : Parts.Reads M L ps atEOF rest) :
      Parts.Reads M L (p :: ps) atEOF (.part t rest)
end

/-- What the encoding of a leaf adds to its content. -/
def Leaf.overhead (M : MimeReader) (l : Leaf) : Int :=
  l.body.bytes.length - ((l.encoding.decode M l.body.bytes).getD []).length

/-- The overhead of all leaves. -/
def overhead (M : MimeReader) : List Leaf → Int
  | [] => 0
  | l :: leaves => l.overhead M + overhead M leaves

/-! ## What is saved -/

section Savings
variable {M : MimeReader} {L : Libraries}

theorem overhead_append (ls ls' : List Leaf) :
    overhead M (ls ++ ls') = overhead M ls + overhead M ls' := by
  induction ls with
  | nil => simp [overhead]
  | cons l ls ih =>
    rw [List.cons_append, overhead, overhead, ih]
    omega

/-- Only encoded leaves have an overhead. -/
theorem overhead_filter (ls : List Leaf) :
    overhead M (ls.filter fun l => l.encoding ≠ .other) = overhead M ls := by
  induction ls with
  | nil => rfl
  | cons l ls ih =>
    by_cases hother : l.encoding = .other
    · have hzero : l.overhead M = 0 := by simp [Leaf.overhead, hother, Encoding.decode]
      rw [List.filter_cons_of_neg (by simp [hother]), ih, overhead, hzero, Int.zero_add]
    · rw [List.filter_cons_of_pos (by simp [hother]), overhead, overhead, ih]

theorem encodingSavings_leaf {l : Leaf} {decoded : Bytes}
    (h : decodeLeaf M l.encoding l.body = some decoded) :
    (l.body.bytes.length : Int) - decoded.length = overhead M [l] := by
  unfold decodeLeaf at h
  split at h
  · cases h
  · simp [overhead, Leaf.overhead, h]

mutual
/-- **What `encodingSavings` returns** for a tree: nothing if it is faulty, and otherwise
the overhead of its leaves. -/
theorem Tree.savings (t : Tree) {h : List HeaderBlock.Field} {s : Stream} {d : Nat}
    (hreads : Tree.Reads M L h s t) :
    (t.Faulty M d → encodingSavings M L h s d = none) ∧
      (¬ t.Faulty M d → encodingSavings M L h s d = some (overhead M t.leaves)) := by
  rw [encodingSavings]
  -- the depth is looked at first, for leaves too
  by_cases hdeep : maxMIMEDepth < d
  · rw [if_pos hdeep]
    exact ⟨fun _ => rfl, fun hsound => absurd (.deep hdeep) hsound⟩
  · rw [if_neg hdeep]
    cases t with
    | leaf l =>
      cases hreads with
      | leaf hleaf =>
        rw [hleaf]
        cases hdecode : decodeLeaf M (transferEncoding L h) s with
        | none => exact ⟨fun _ => rfl, fun hsound => absurd (.leaf hdecode) hsound⟩
        | some decoded =>
          have hsaved := encodingSavings_leaf (l := ⟨transferEncoding L h, s⟩) hdecode
          refine ⟨fun hfaulty => ?_, fun _ => congrArg some hsaved⟩
          cases hfaulty with
          | deep hd => exact absurd hd hdeep
          | leaf hnone =>
            rw [hdecode] at hnone
            cases hnone
    | unbounded =>
      cases hreads with
      | unbounded hnone =>
        rw [hnone]
        exact ⟨fun _ => rfl, fun hsound => absurd .unbounded hsound⟩
    | multipart parts =>
      cases hreads with
      | multipart hsome hne hparts =>
        rw [hsome]
        dsimp only
        rw [if_neg hne]
        obtain ⟨hfaulty, hsound⟩ := Parts.savings parts 0 (d := d + 1) hparts
        refine ⟨fun h => hfaulty ?_, fun h => ?_⟩
        · cases h with
          | deep hd => exact absurd hd hdeep
          | parts hparts => exact hparts
        · rw [hsound fun hparts => h (.parts hparts), Int.zero_add]
          rfl
theorem Parts.savings (parts : Parts) (total : Int) {raw : List RawPart} {atEOF : Bool} {d : Nat}
    (hreads : Parts.Reads M L raw atEOF parts) :
    (parts.Faulty M d →
        sumParts (fun p => encodingSavings M L p.header p.body d) atEOF raw total = none) ∧
      (¬ parts.Faulty M d →
        sumParts (fun p => encodingSavings M L p.header p.body d) atEOF raw total =
          some (total + overhead M parts.leaves)) := by
  cases parts with
  | finished =>
    cases hreads
    constructor
    · intro hfaulty
      cases hfaulty
    · intro _
      simp [sumParts, Parts.leaves, overhead]
  | failed =>
    cases hreads
    exact ⟨fun _ => rfl, fun hsound => absurd .failed hsound⟩
  | part t rest =>
    cases hreads with
    | part ht hrest =>
      rw [sumParts]
      obtain ⟨hfaulty, hsound⟩ := Tree.savings t (d := d) ht
      by_cases ht' : t.Faulty M d
      · rw [hfaulty ht']
        exact ⟨fun _ => rfl, fun h => absurd (.here ht') h⟩
      · rw [hsound ht']
        dsimp only
        obtain ⟨hfaulty', hsound'⟩ := Parts.savings rest
          (total + overhead M t.leaves) (d := d) hrest
        refine ⟨fun h => hfaulty' ?_, fun h => ?_⟩
        · cases h with
          | here h => exact absurd h ht'
          | there h => exact h
        · rw [hsound' fun hrest => h (.there hrest), Parts.leaves, overhead_append, Int.add_assoc]
end

end Savings

/-! ## Ranges of the body -/

theorem Pieces.prepend {pieces : List Bytes} {s : Bytes} (h : Pieces pieces s) (gap : Bytes) :
    Pieces pieces (gap ++ s) := by
  cases h with
  | nil => exact .nil _
  | cons gap' piece h =>
    rw [← List.append_assoc]
    exact .cons (gap ++ gap') piece h

theorem Pieces.append {pieces pieces' : List Bytes} {s s' : Bytes} (h : Pieces pieces s)
    (h' : Pieces pieces' s') : Pieces (pieces ++ pieces') (s ++ s') := by
  induction h with
  | nil rest => exact h'.prepend rest
  | cons gap piece _ ih =>
    rw [List.append_assoc, List.append_assoc]
    exact .cons gap piece ih

theorem pieces_self (s : Bytes) : Pieces [s] s := by
  have h := Pieces.cons [] s (.nil [])
  rwa [List.append_nil, List.nil_append] at h

section Ranges
variable {M : MimeReader} {L : Libraries}

mutual
/-- **The leaves own disjoint ranges** of the body. -/
theorem Tree.pieces (t : Tree) {h : List HeaderBlock.Field} {s : Stream}
    (hreads : Tree.Reads M L h s t) : Pieces (t.leaves.map (·.body.bytes)) s.bytes := by
  cases t with
  | leaf l =>
    cases hreads
    exact pieces_self s.bytes
  | unbounded => exact .nil _
  | multipart parts =>
    cases hreads with
    | multipart hsome hne hparts => exact Parts.pieces parts hparts (M.pieces_parts _ _)
theorem Parts.pieces (parts : Parts) {raw : List RawPart} {atEOF : Bool} {s : Bytes}
    (hreads : Parts.Reads M L raw atEOF parts) (h : Pieces (raw.map (·.body.bytes)) s) :
    Pieces (parts.leaves.map (·.body.bytes)) s := by
  cases parts with
  | finished => exact .nil _
  | failed => exact .nil _
  | part t rest =>
    cases hreads with
    | part ht hrest =>
      cases h with
      | cons gap piece h =>
        rw [Parts.leaves, List.map_append]
        -- what stands between the parts belongs to none of them
        exact ((Tree.pieces t ht).append (Parts.pieces rest hrest h)).prepend gap
end

/-- A leaf adds at most its length. -/
theorem Leaf.overhead_bounds (l : Leaf) :
    0 ≤ l.overhead M ∧ l.overhead M ≤ l.body.bytes.length := by
  unfold Leaf.overhead
  have hle : ∀ t, l.encoding.decode M l.body.bytes = some t → t.length ≤ l.body.bytes.length := by
    intro t ht
    cases he : l.encoding with
    | base64 => exact M.length_base64 _ _ (by rwa [he] at ht)
    | quotedPrintable => exact M.length_quotedPrintable _ _ (by rwa [he] at ht)
    | other =>
      rw [he] at ht
      rw [← Option.some.inj ht]
  cases hdecode : l.encoding.decode M l.body.bytes with
  | none => simp
  | some t =>
    have := hle t hdecode
    simp only [Option.getD_some]
    omega

theorem overhead_bounds {leaves : List Leaf} {s : Bytes}
    (h : Pieces (leaves.map (·.body.bytes)) s) :
    0 ≤ overhead M leaves ∧ overhead M leaves ≤ s.length := by
  induction leaves generalizing s with
  | nil => simp [overhead]
  | cons l leaves ih =>
    rw [List.map_cons] at h
    cases h with
    | cons gap piece h =>
      have hl := l.overhead_bounds (M := M)
      have hrest := ih h
      rw [overhead]
      simp only [List.length_append]
      omega

theorem exists_parts {raw : List RawPart} (atEOF : Bool)
    (h : ∀ p ∈ raw, ∃ t, Tree.Reads M L p.header p.body t) :
    ∃ parts, Parts.Reads M L raw atEOF parts := by
  induction raw with
  | nil =>
    cases atEOF with
    | true => exact ⟨.finished, .finished⟩
    | false => exact ⟨.failed, .failed⟩
  | cons p ps ih =>
    obtain ⟨⟨t, ht⟩, hps⟩ := List.forall_mem_cons.mp h
    obtain ⟨rest, hrest⟩ := ih hps
    exact ⟨.part t rest, .part ht hrest⟩

/-- Every body is read as a tree: parts are shorter than what they are parts of. -/
theorem exists_tree (M : MimeReader) (L : Libraries) (h : List HeaderBlock.Field) (s : Stream) :
    ∃ t, Tree.Reads M L h s t := by
  induction hn : s.bytes.length using Nat.strong_induction_on generalizing h s with
  | _ n ih =>
    cases hboundary : multipartBoundary L h with
    | none => exact ⟨_, .leaf hboundary⟩
    | some boundary =>
      by_cases hne : boundary = []
      · subst hne
        exact ⟨_, .unbounded hboundary⟩
      · have hparts : ∀ p ∈ (M.parts boundary s).1, ∃ t, Tree.Reads M L p.header p.body t :=
          fun p hp => ih _ (hn ▸ M.length_lt_of_mem_parts boundary s p hp) p.header p.body rfl
        obtain ⟨parts, hparts⟩ := exists_parts (M.parts boundary s).2 hparts
        exact ⟨_, .multipart hboundary hne hparts⟩

end Ranges

theorem length_body_le {raw : Bytes} {msg : HeaderBlock.Message} (h : readMessage raw = .ok msg) :
    msg.body.length ≤ raw.length := by
  obtain ⟨-, -, hbody⟩ := readFields_of_readMessage h
  have hsplit := congrArg List.flatten (headerLines_append_afterHeader raw)
  rw [rawLines_flatten, List.flatten_append] at hsplit
  have htail : (afterHeader raw).tail.flatten.length ≤ (afterHeader raw).flatten.length := by
    cases afterHeader raw with
    | nil => exact Nat.le_refl _
    | cons l ls =>
      rw [List.tail_cons, List.flatten_cons, List.length_append]
      exact Nat.le_add_left _ _
  have hlength := congrArg List.length hsplit
  rw [List.length_append] at hlength
  rw [hbody]
  omega

/-- **What is measured.**  The size of a message is at least 0 and at most its length.
Its leaves are disjoint ranges of the body.  If the tree has a fault anywhere, the size is
the length of the message; otherwise it is the length less what the Base64 and
quoted-printable leaves are longer than their contents. -/
theorem contentSize_exact (M : MimeReader) (L : Libraries) (raw : Bytes)
    (msg : HeaderBlock.Message) (hread : readMessage raw = .ok msg) :
    (0 ≤ contentSize M L msg raw.length ∧ contentSize M L msg raw.length ≤ raw.length) ∧
      ∃ t, Tree.Reads M L msg.header ⟨msg.body, false⟩ t ∧
        Pieces (t.leaves.map (·.body.bytes)) msg.body ∧
        (t.Faulty M 0 → contentSize M L msg raw.length = raw.length) ∧
        (¬ t.Faulty M 0 → contentSize M L msg raw.length =
          raw.length - overhead M (t.leaves.filter fun l => l.encoding ≠ .other)) := by
  obtain ⟨t, ht⟩ := exists_tree M L msg.header ⟨msg.body, false⟩
  have hpieces := Tree.pieces t ht
  obtain ⟨hnonneg, hle⟩ := overhead_bounds (M := M) hpieces
  have hbody := length_body_le hread
  obtain ⟨hfaulty, hsound⟩ := Tree.savings t (d := 0) ht
  have hfull : t.Faulty M 0 → contentSize M L msg raw.length = raw.length := by
    intro h
    rw [contentSize, hfaulty h]
  have hexact : ¬ t.Faulty M 0 →
      contentSize M L msg raw.length = raw.length - overhead M t.leaves := by
    intro h
    rw [contentSize, hsound h]
    dsimp only at hle ⊢
    -- `contentSize` guards against savings beyond the message: there are none
    rw [if_neg (by omega)]
  refine ⟨?_, t, ht, hpieces, hfull, fun h => by rw [overhead_filter, hexact h]⟩
  by_cases h : t.Faulty M 0
  · rw [hfull h]
    omega
  · rw [hexact h]
    dsimp only at hle
    omega

/-- Twelve bytes in Base64, and five in quoted-printable. -/
def helloParts : List RawPart :=
  [⟨[⟨lit "Content-Transfer-Encoding", lit "base64"⟩], ⟨lit "aGVsbG8gd29ybGQh", false⟩⟩,
    ⟨[⟨lit "Content-Transfer-Encoding", lit "quoted-printable"⟩], ⟨lit "caf=C3=A9", false⟩⟩]

def helloBody : Bytes :=
  lit "--b\r\nContent-Transfer-Encoding: base64\r\n\r\n" ++ (lit "aGVsbG8gd29ybGQh" ++
    (lit "\r\n--b\r\nContent-Transfer-Encoding: quoted-printable\r\n\r\n" ++ (lit "caf=C3=A9" ++
      lit "\r\n--b--\r\n")))

theorem length_helloParts : ∀ p ∈ helloParts, p.body.bytes.length < helloBody.length := by
  decide +kernel

/-- Small stand-ins: decoders of one line, and a reader that knows one body. -/
def MimeReader.plain : MimeReader where
  parts boundary s :=
    if boundary = lit "b" ∧ s = ⟨helloBody, false⟩ then (helloParts, true) else ([], false)
  base64 := EncodedWords.base64Decode
  quotedPrintable := TransferEncodings.quotedText
  pieces_parts boundary s := by
    split
    · rename_i h
      rw [h.2]
      exact .cons _ _ (.cons _ _ (.nil _))
    · exact .nil _
  length_lt_of_mem_parts boundary s p hp := by
    split at hp
    · rename_i h
      rw [h.2]
      exact length_helloParts p hp
    · cases hp
  length_base64 _ _ h := TransferEncodings.length_base64Decode h
  length_quotedPrintable _ _ h := TransferEncodings.length_quotedText h

/-- `Libraries.plain`, with one media type more. -/
def helloLibraries : Libraries :=
  { Libraries.plain with
    parseMediaType := fun s =>
      if s = lit "multipart/mixed; boundary=b" then
        .ok (lit "multipart/mixed", [(lit "boundary", lit "b")])
      else Libraries.plain.parseMediaType s }

def helloParsed : HeaderBlock.Message where
  header := [⟨lit "Content-Type", lit "multipart/mixed; boundary=b"⟩]
  body := helloBody

def helloMessage : Bytes :=
  lit "Content-Type: multipart/mixed; boundary=b\r\n\r\n" ++ helloBody

/-- Of a message with two parts, what each of the encodings adds is not counted. -/
theorem contentSize_exact_hello :
    readMessage helloMessage = .ok helloParsed ∧
      contentSize .plain helloLibraries helloParsed helloMessage.length ≤ helloMessage.length ∧
      contentSize .plain helloLibraries helloParsed helloMessage.length =
        helloMessage.length - 4 - 4 := by
  have hread : readMessage helloMessage = .ok helloParsed := by decide +kernel
  refine ⟨hread, (contentSize_exact .plain helloLibraries helloMessage helloParsed hread).1.2, ?_⟩
  have hboundary : multipartBoundary helloLibraries helloParsed.header = some (lit "b") := by
    decide +kernel
  have hleaves : ∀ p ∈ helloParts,
      encodingSavings .plain helloLibraries p.header p.body 1 = some 4 := by
    intro p hp
    rw [encodingSavings]
    revert p
    decide +kernel
  have hparts : MimeReader.plain.parts (lit "b") ⟨helloBody, false⟩ = (helloParts, true) := by
    simp [MimeReader.plain]
  have hsavings : encodingSavings .plain helloLibraries helloParsed.header
      ⟨helloParsed.body, false⟩ 0 = some 8 := by
    rw [encodingSavings, if_neg (by decide), hboundary]
    show (if lit "b" = [] then none else sumParts _
      (MimeReader.plain.parts (lit "b") ⟨helloBody, false⟩).2
      (MimeReader.plain.parts (lit "b") ⟨helloBody, false⟩).1 0) = some 8
    rw [if_neg (by decide), hparts]
    simp only [helloParts, List.forall_mem_cons] at hleaves
    simp only [helloParts, sumParts, hleaves.1, hleaves.2.1]
    rfl
  rw [contentSize, hsavings]
  decide +kernel

end Sigillum.Mime
