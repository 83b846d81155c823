import Sigillum.CEL
import Sigillum.TextCodecs

/-! # The text of expressions

Reading the text of an expression: its tokens, and the operators with their precedence,
from the conditional, which binds least, to `.`, `[]` and calls.

A string that `encoding/json` has written is a literal of the language, and reading it
gives the string back (`parseText_jsonString`), but for bytes that are not UTF-8: those
are written as the replacement character.
-/
namespace CEL
open Bytes Runes EncodedWords TextCodecs

/-! ## Tokens -/

inductive Token where
  | ident (name : Bytes)
  | str (s : Bytes)
  | lparen
  | rparen
  | lbrack
  | rbrack
  | comma
  | dot
  | question
  | colon
  | bang
  | eqeq
  | neq
  | andand
  | oror
  /-- The operator `in`. -/
  | isIn
  deriving DecidableEq, Repr

/-- What a character stands for after a backslash. -/
def simpleEscape (c : UInt8) : Option UInt8 :=
  [(97, 7), (98, 8), (102, 12), (110, 10), (114, 13), (116, 9), (118, 11), (92, 92), (63, 63),
    (34, 34), (39, 39), (96, 96)].lookup c

/-- The code point of four digits, unless it is half of a pair. -/
def hexRune (a b c d : UInt8) : Option Nat := do
  let high := (← fromHex a).toNat * 16 + (← fromHex b).toNat
  let low := (← fromHex c).toNat * 16 + (← fromHex d).toNat
  let r := high * 256 + low
  if 0xD800 ≤ r ∧ r ≤ 0xDFFF then none else some r

/-- What stands after a backslash: its bytes, and how many characters it takes. -/
def readEscape : Bytes → Option (Bytes × Nat)
  | 117 :: a :: b :: c :: d :: _ => (hexRune a b c d).map fun r => (encodeRune r, 5)
  | c :: _ => (simpleEscape c).map fun b => ([b], 1)
  | [] => none

/-- A literal from the `skip`-th character up to its closing quote, and what follows it. -/
def lexString (q : UInt8) : Nat → Bytes → Option (Bytes × Bytes)
  | _, [] => none
  | 0, c :: s =>
    if c = q then some ([], s)
    else if c = 92 then
      (readEscape s).bind fun e => (lexString q e.2 s).map fun p => (e.1 ++ p.1, p.2)
    else if c = 10 ∨ c = 13 then none
    else (lexString q 0 s).map fun p => (c :: p.1, p.2)
  | skip + 1, _ :: s => lexString q skip s

def isIdentStart (c : UInt8) : Bool :=
  (97 ≤ c && c ≤ 122) || (65 ≤ c && c ≤ 90) || c == 95

def isIdentChar (c : UInt8) : Bool := isIdentStart c || (48 ≤ c && c ≤ 57)

/-- A token that is neither a name nor a literal, and what follows it. -/
def lexSymbol : Bytes → Option (Token × Bytes)
  | 61 :: 61 :: s => some (.eqeq, s)
  | 33 :: 61 :: s => some (.neq, s)
  | 38 :: 38 :: s => some (.andand, s)
  | 124 :: 124 :: s => some (.oror, s)
  | 33 :: s => some (.bang, s)
  | 40 :: s => some (.lparen, s)
  | 41 :: s => some (.rparen, s)
  | 91 :: s => some (.lbrack, s)
  | 93 :: s => some (.rbrack, s)
  | 44 :: s => some (.comma, s)
  | 46 :: s => some (.dot, s)
  | 63 :: s => some (.question, s)
  | 58 :: s => some (.colon, s)
  | _ => none

/-- At most `n` tokens and spaces. -/
def lexFrom : Nat → Bytes → Option (List Token)
  | _, [] => some []
  | 0, _ :: _ => none
  | n + 1, c :: s =>
    if c = 32 then lexFrom n s
    else if c = 34 ∨ c = 39 then
      (lexString c 0 s).bind fun p => (lexFrom n p.2).map (.str p.1 :: ·)
    else if isIdentStart c then
      let name := (c :: s).takeWhile isIdentChar
      (lexFrom n ((c :: s).dropWhile isIdentChar)).map
        ((if name = lit "in" then .isIn else .ident name) :: ·)
    else (lexSymbol (c :: s)).bind fun p => (lexFrom n p.2).map (p.1 :: ·)

/-! ## Operators -/

/-- What is read: an expression whose operators bind at least so much, or what follows
the start of one. -/
inductive Level where
  | cond
  | or
  | and
  | relation
  | unary
  | member
  | after (e : Expr)

/-- The rest of a list of literals. -/
def parseStrings : List Token → Option (List Bytes × List Token)
  | .rbrack :: ts => some ([], ts)
  | .str s :: .rbrack :: ts => some ([s], ts)
  | .str s :: .comma :: ts => (parseStrings ts).map fun p => (s :: p.1, p.2)
  | _ => none

/-- Read an expression, nested at most `n` deep. -/
def parse : Nat → Level → List Token → Option (Expr × List Token)
  | 0, _, _ => none
  | n + 1, .cond, ts => do
    let (c, ts) ← parse n .or ts
    match ts with
    | .question :: ts =>
      let (a, ts) ← parse n .or ts
      match ts with
      | .colon :: ts =>
        let (b, ts) ← parse n .cond ts
        some (.cond c a b, ts)
      | _ => none
    | ts => some (c, ts)
  | n + 1, .or, ts => do
    let (a, ts) ← parse n .and ts
    match ts with
    | .oror :: ts =>
      let (b, ts) ← parse n .or ts
      some (.or a b, ts)
    | ts => some (a, ts)
  | n + 1, .and, ts => do
    let (a, ts) ← parse n .relation ts
    match ts with
    | .andand :: ts =>
      let (b, ts) ← parse n .and ts
      some (.and a b, ts)
    | ts => some (a, ts)
  | n + 1, .relation, ts => do
    let (a, ts) ← parse n .unary ts
    match ts with
    | .eqeq :: ts =>
      let (b, ts) ← parse n .unary ts
      some (.eq a b, ts)
    | .neq :: ts =>
      let (b, ts) ← parse n .unary ts
      some (.ne a b, ts)
    | .isIn :: ts =>
      let (b, ts) ← parse n .unary ts
      some (.mem a b, ts)
    | ts => some (a, ts)
  | n + 1, .unary, ts =>
    match ts with
    | .bang :: ts => do
      let (e, ts) ← parse n .unary ts
      some (.not e, ts)
    | ts => parse n .member ts
  | n + 1, .member, ts =>
    match ts with
    | .str s :: ts => parse n (.after (.string s)) ts
    | .lbrack :: ts => do
      let (items, ts) ← parseStrings ts
      parse n (.after (.strings items)) ts
    | .lparen :: ts => do
      let (e, ts) ← parse n .cond ts
      match ts with
      | .rparen :: ts => parse n (.after e) ts
      | _ => none
    | .ident name :: .lparen :: ts => do
      let (e, ts) ← parse n .cond ts
      match e, ts with
      | .select e field, .rparen :: ts =>
        if name = lit "has" then parse n (.after (.has e field)) ts else none
      | _, _ => none
    | .ident name :: ts => parse n (.after (.ident name)) ts
    | _ => none
  | n + 1, .after e, ts =>
    match ts with
    | .dot :: .ident name :: .lparen :: .ident x :: .comma :: ts => do
      let (body, ts) ← parse n .cond ts
      match ts with
      | .rparen :: ts =>
        if name = lit "exists" then parse n (.after (.any e x body)) ts
        else if name = lit "all" then parse n (.after (.all e x body)) ts
        else none
      | _ => none
    | .dot :: .ident name :: .lparen :: ts => do
      let (arg, ts) ← parse n .cond ts
      match ts with
      | .rparen :: ts =>
        if name = lit "startsWith" then parse n (.after (.startsWith e arg)) ts else none
      | _ => none
    | .dot :: .ident name :: ts => parse n (.after (.select e name)) ts
    | .lbrack :: ts => do
      let (key, ts) ← parse n .cond ts
      match ts with
      | .rbrack :: ts => parse n (.after (.index e key)) ts
      | _ => none
    | ts => some (e, ts)

/-- The expression of a text. -/
def parseText (s : Bytes) : Option Expr := do
  let ts ← lexFrom s.length s
  match ← parse (8 * (ts.length + 1)) .cond ts with
  | (e, []) => some e
  | _ => none

/-- What a text evaluates to. -/
def evalText (s : Bytes) (env : Env) : Result :=
  match parseText s with
  | some e => eval e env
  | none => .error .malformed

theorem evalText_of_parse {s : Bytes} {e : Expr} (h : parseText s = some e) (env : Env) :
    evalText s env = eval e env := by
  rw [evalText, h]

/-! ## Literals that `encoding/json` writes -/

/-- The code points with an escape of their own. -/
def jsonEscapes : List (Nat × UInt8) :=
  [(34, 34), (92, 92), (8, 98), (12, 102), (10, 110), (13, 114), (9, 116)]

/-- A code point inside a JSON string, with the escapes that are safe in HTML. -/
def jsonRune (r : Nat) : Bytes :=
  match jsonEscapes.lookup r with
  | some c => [92, c]
  | none =>
    if r < 0x20 ∨ r = 38 ∨ r = 60 ∨ r = 62 ∨ r = 0x2028 ∨ r = 0x2029 then 92 :: 117 :: hex 4 r
    else encodeRune r

def jsonFrom : Nat → Bytes → Bytes
  | _, [] => []
  | 0, b :: s =>
    let p := decodeRune (b :: s)
    (if p = (runeError, 1) then 92 :: 117 :: hex 4 runeError else jsonRune p.1) ++
      jsonFrom (p.2 - 1) s
  | skip + 1, _ :: s => jsonFrom skip s

/-- `json.Marshal` of a string. -/
def jsonString (s : Bytes) : Bytes := [34] ++ jsonFrom 0 s ++ [34]

/-- `json.Marshal` of a list of strings. -/
def jsonStrings (items : List Bytes) : Bytes :=
  [91] ++ List.intercalate [44] (items.map jsonString) ++ [93]

/-- The string with the replacement character for each byte that is not UTF-8. -/
def toValidUTF8 (s : Bytes) : Bytes := (runes s).flatMap encodeRune

section Literals
variable {s rest : Bytes}

theorem hex_four (r : Nat) : hex 4 r = [lowerHex (r / 4096 % 16), lowerHex (r / 256 % 16),
    lowerHex (r / 16 % 16), lowerHex (r % 16)] := by
  simp [hex, lowerHex, List.range_succ]

theorem hexRune_hex {r : Nat} (h : r < 0x10000) (hpair : ¬ (0xD800 ≤ r ∧ r ≤ 0xDFFF)) :
    hexRune (lowerHex (r / 4096 % 16)) (lowerHex (r / 256 % 16)) (lowerHex (r / 16 % 16))
      (lowerHex (r % 16)) = some r := by
  have hdigit : ∀ d, d % 16 < 16 := fun d => Nat.mod_lt d (by decide)
  have htoNat : ∀ d, (UInt8.ofNat (d % 16)).toNat = d % 16 := by
    intro d
    rw [UInt8.toNat_ofNat']
    have := hdigit d
    omega
  have hsum : ((r / 4096 % 16) * 16 + r / 256 % 16) * 256 + ((r / 16 % 16) * 16 + r % 16) = r := by
    omega
  simp only [hexRune, fromHex_lowerHex (hdigit _), Option.bind_eq_bind, Option.bind_some, htoNat,
    hsum, if_neg hpair]

/-- A character that stands for itself. -/
def Plain (c : UInt8) : Prop := c ≠ 34 ∧ c ≠ 92 ∧ c ≠ 10 ∧ c ≠ 13

theorem lexString_plain (h : ∀ c ∈ s, Plain c) :
    lexString 34 0 (s ++ rest) = (lexString 34 0 rest).map fun p => (s ++ p.1, p.2) := by
  induction s with
  | nil => simp
  | cons c s ih =>
    obtain ⟨⟨hquote, hslash, hlf, hcr⟩, hrest⟩ := List.forall_mem_cons.mp h
    rw [List.cons_append, lexString, if_neg hquote, if_neg hslash, if_neg (by simp [hlf, hcr]),
      ih hrest, Option.map_map]
    rfl

theorem lexString_escape {c : UInt8} {r : Nat}
    (h : readEscape (c :: rest) = some (encodeRune r, 1)) :
    lexString 34 0 (92 :: c :: rest) =
      (lexString 34 0 rest).map fun p => (encodeRune r ++ p.1, p.2) := by
  rw [lexString, if_neg (by decide), if_pos rfl, h]
  rfl

theorem lexString_hex {r : Nat} (h : r < 0x10000) (hpair : ¬ (0xD800 ≤ r ∧ r ≤ 0xDFFF)) :
    lexString 34 0 (92 :: 117 :: (hex 4 r ++ rest)) =
      (lexString 34 0 rest).map fun p => (encodeRune r ++ p.1, p.2) := by
  rw [hex_four, lexString, if_neg (by decide), if_pos rfl, List.cons_append, List.cons_append,
    List.cons_append, List.cons_append, List.nil_append, readEscape, hexRune_hex h hpair]
  rfl

/-- What stands for a code point is read as the code point. -/
theorem lexString_jsonRune (r : Nat) :
    lexString 34 0 (jsonRune r ++ rest) =
      (lexString 34 0 rest).map fun p => (encodeRune r ++ p.1, p.2) := by
  unfold jsonRune
  split
  · rename_i c hescape
    have hread : ∀ e ∈ jsonEscapes, readEscape (e.2 :: rest) = some (encodeRune e.1, 1) := by
      intro e he
      simp only [jsonEscapes, List.mem_cons, List.not_mem_nil, or_false] at he
      rcases he with rfl | rfl | rfl | rfl | rfl | rfl | rfl <;> rfl
    obtain ⟨before, after, htable, -⟩ := List.lookup_eq_some_iff.mp hescape
    exact lexString_escape (hread (r, c) (htable ▸ List.mem_append_right _ List.mem_cons_self))
  · rename_i hnone
    split
    · exact lexString_hex (by omega) (by omega)
    · -- no byte of the code point ends the literal or starts an escape
      refine lexString_plain fun c hc => ?_
      have hne : ∀ b : UInt8, b < 0x80 → r ≠ b.toNat → c ≠ b := by
        rintro b hb hr rfl
        exact hr (eq_of_mem_encodeRune hb hc)
      have hother : ∀ e ∈ jsonEscapes, r ≠ e.1 := by
        intro e he hr
        have hlookup := List.lookup_eq_none_iff.mp hnone e he
        simp [hr] at hlookup
      exact ⟨hne 34 (by decide) (hother (34, 34) (by decide)),
        hne 92 (by decide) (hother (92, 92) (by decide)),
        hne 10 (by decide) (hother (10, 110) (by decide)),
        hne 13 (by decide) (hother (13, 114) (by decide))⟩

theorem jsonFrom_eq (skip : Nat) (s : Bytes) : jsonFrom skip s = jsonFrom 0 (s.drop skip) := by
  induction skip generalizing s with
  | zero => rfl
  | succ skip ih =>
    cases s with
    | nil => rfl
    | cons b s => exact ih s

theorem jsonFrom_cons (b : UInt8) (s : Bytes) :
    jsonFrom 0 (b :: s) =
      (if decodeRune (b :: s) = (runeError, 1) then 92 :: 117 :: hex 4 runeError
        else jsonRune (decodeRune (b :: s)).1) ++
      jsonFrom 0 ((b :: s).drop (decodeRune (b :: s)).2) := by
  have hpos := decodeRune_width_pos (List.cons_ne_nil b s)
  obtain ⟨w, hw⟩ : ∃ w, (decodeRune (b :: s)).2 = w + 1 := ⟨_, (Nat.sub_add_cancel hpos).symm⟩
  rw [jsonFrom, jsonFrom_eq, hw]
  rfl

/-- **A JSON string is a literal**, for the string with its invalid bytes replaced. -/
theorem lexString_jsonFrom (s rest : Bytes) :
    lexString 34 0 (jsonFrom 0 s ++ 34 :: rest) = some (toValidUTF8 s, rest) := by
  induction s using runes_induction with
  | nil => rfl
  | cons b s ih =>
    have hvalid : toValidUTF8 (b :: s) = encodeRune (decodeRune (b :: s)).1 ++
        toValidUTF8 ((b :: s).drop (decodeRune (b :: s)).2) := by
      rw [toValidUTF8, runes_cons, List.flatMap_cons]
      rfl
    rw [jsonFrom_cons, List.append_assoc, hvalid]
    split
    · rename_i hinvalid
      rw [List.cons_append, List.cons_append, lexString_hex (by decide) (by decide), ih, hinvalid]
      rfl
    · rw [lexString_jsonRune, ih]
      rfl

/-- A JSON string is one token. -/
theorem lexFrom_jsonString (n : Nat) (s rest : Bytes) :
    lexFrom (n + 1) (jsonString s ++ rest) =
      (lexFrom n rest).map (.str (toValidUTF8 s) :: ·) := by
  have hopen : jsonString s ++ rest = 34 :: (jsonFrom 0 s ++ 34 :: rest) := by
    simp [jsonString]
  rw [hopen, lexFrom, if_neg (by decide), if_pos (.inl rfl), lexString_jsonFrom, Option.bind_some]

/-- **A string is read back.** -/
theorem parseText_jsonString (s : Bytes) :
    parseText (jsonString s) = some (.string (toValidUTF8 s)) := by
  have hlex : lexFrom (jsonString s).length (jsonString s) = some [.str (toValidUTF8 s)] := by
    have hlen : (jsonString s).length = (jsonFrom 0 s).length + 1 + 1 := by
      simp [jsonString]
    have htoken := lexFrom_jsonString ((jsonFrom 0 s).length + 1) s []
    rw [List.append_nil] at htoken
    rw [hlen, htoken]
    rfl
  rw [parseText, hlex]
  rfl

/-- The tokens of a list of literals, from its first on. -/
def literalTokens : List Bytes → List Token
  | [] => [.rbrack]
  | [s] => [.str s, .rbrack]
  | s :: items => .str s :: .comma :: literalTokens items

theorem parseStrings_literalTokens (items : List Bytes) :
    parseStrings (literalTokens items) = some (items, []) := by
  induction items with
  | nil => rfl
  | cons s items ih =>
    cases items with
    | nil => rfl
    | cons t items =>
      rw [literalTokens, parseStrings, ih]
      · rfl
      · exact nofun

/-- The text of a list behind its opening bracket. -/
theorem items_cons (s t : Bytes) (items : List Bytes) :
    List.intercalate [44] ((s :: t :: items).map jsonString) ++ [93] =
      jsonString s ++ 44 :: (List.intercalate [44] ((t :: items).map jsonString) ++ [93]) := by
  simp [List.intercalate]

theorem lexFrom_items (items : List Bytes) {n : Nat} (h : (literalTokens items).length ≤ n) :
    lexFrom n (List.intercalate [44] (items.map jsonString) ++ [93]) =
      some (literalTokens (items.map toValidUTF8)) := by
  induction items generalizing n with
  | nil =>
    obtain ⟨m, rfl⟩ : ∃ m, n = m + 1 := Nat.exists_eq_add_of_le' h
    cases m <;> rfl
  | cons s items ih =>
    cases items with
    | nil =>
      obtain ⟨m, rfl⟩ : ∃ m, n = m + 1 + 1 := Nat.exists_eq_add_of_le' h
      have htext : List.intercalate [44] ([s].map jsonString) ++ [93] = jsonString s ++ [93] := by
        simp [List.intercalate]
      have hend : lexFrom (m + 1) [93] = some [.rbrack] := by cases m <;> rfl
      rw [htext, lexFrom_jsonString, hend]
      rfl
    | cons t items =>
      simp only [literalTokens, List.length_cons] at h
      obtain ⟨m, rfl⟩ : ∃ m, n = m + 1 + 1 := ⟨n - 2, by omega⟩
      have hrest := ih (n := m) (by omega)
      have hcomma : ∀ rest, lexFrom (m + 1) (44 :: rest) = (lexFrom m rest).map (.comma :: ·) :=
        fun _ => rfl
      rw [items_cons, lexFrom_jsonString, hcomma, hrest]
      rfl

/-- There is room for the tokens. -/
theorem length_literalTokens_le (items : List Bytes) :
    (literalTokens items).length ≤
      (List.intercalate [44] (items.map jsonString) ++ [93]).length := by
  induction items with
  | nil => exact Nat.le_refl _
  | cons s items ih =>
    cases items with
    | nil => simp [literalTokens, List.intercalate, jsonString]
    | cons t items =>
      have hquotes : 2 ≤ (jsonString s).length := by simp [jsonString]
      rw [items_cons, List.length_append, List.length_cons, literalTokens, List.length_cons,
        List.length_cons]
      · omega
      · exact nofun

theorem parse_strings (n : Nat) {ts : List Token} {items : List Bytes}
    (h : parseStrings ts = some (items, [])) :
    parse (n + 7) .cond (.lbrack :: ts) = some (.strings items, []) := by
  have hafter : parse (n + 1) (.after (.strings items)) [] = some (.strings items, []) := by
    rw [parse]
    all_goals exact nofun
  have hmember : parse (n + 2) .member (.lbrack :: ts) = some (.strings items, []) := by
    rw [parse, h]
    exact hafter
  have hunary : parse (n + 3) .unary (.lbrack :: ts) = some (.strings items, []) := by
    rw [parse]
    · exact hmember
    · exact nofun
  have hrelation : parse (n + 4) .relation (.lbrack :: ts) = some (.strings items, []) := by
    rw [parse, hunary]
    rfl
  have hand : parse (n + 5) .and (.lbrack :: ts) = some (.strings items, []) := by
    rw [parse, hrelation]
    rfl
  have hor : parse (n + 6) .or (.lbrack :: ts) = some (.strings items, []) := by
    rw [parse, hand]
    rfl
  rw [parse, hor]
  rfl

/-- **A list of strings is read back.** -/
theorem parseText_jsonStrings (items : List Bytes) :
    parseText (jsonStrings items) = some (.strings (items.map toValidUTF8)) := by
  have htext : jsonStrings items =
      91 :: (List.intercalate [44] (items.map jsonString) ++ [93]) := rfl
  have hopen : ∀ n rest, lexFrom (n + 1) (91 :: rest) = (lexFrom n rest).map (.lbrack :: ·) :=
    fun _ _ => rfl
  have hlex : lexFrom (jsonStrings items).length (jsonStrings items) =
      some (.lbrack :: literalTokens (items.map toValidUTF8)) := by
    rw [htext, List.length_cons, hopen, lexFrom_items items (length_literalTokens_le items)]
    rfl
  have hparse := parse_strings (8 * (literalTokens (items.map toValidUTF8)).length + 9)
    (parseStrings_literalTokens (items.map toValidUTF8))
  rw [parseText, hlex, Option.bind_eq_bind, Option.bind_some, List.length_cons]
  have hfuel : 8 * ((literalTokens (items.map toValidUTF8)).length + 1 + 1) =
      8 * (literalTokens (items.map toValidUTF8)).length + 9 + 7 := by omega
  rw [hfuel, hparse]
  rfl

end Literals
end CEL
