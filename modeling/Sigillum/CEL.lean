import Sigillum.Runes

/-! # The Common Expression Language

The part of CEL that admission policies are written in here: strings, lists and maps,
`has`, comparisons of strings, conditionals, and `exists` and `all` over a list or the
keys of a map.

Evaluating an expression gives a value or an error.  `&&` and `||` are symmetric: where
one side decides the outcome, the other may be an error, and so for the elements that
`exists` and `all` look at.  A name may be bound to a record of results, of which one
that is an error is one only where it is used.
-/
namespace CEL
open Bytes

/-! ## Expressions and values -/

inductive Expr where
  | string (s : Bytes)
  /-- A list of string literals. -/
  | strings (items : List Bytes)
  | ident (name : Bytes)
  /-- `e.field`. -/
  | select (e : Expr) (field : Bytes)
  /-- `has(e.field)`. -/
  | has (e : Expr) (field : Bytes)
  /-- `e[key]`. -/
  | index (e key : Expr)
  /-- `e.startsWith(start)`. -/
  | startsWith (e start : Expr)
  /-- `range.exists(x, body)`. -/
  | any (range : Expr) (x : Bytes) (body : Expr)
  /-- `range.all(x, body)`. -/
  | all (range : Expr) (x : Bytes) (body : Expr)
  | not (e : Expr)
  | and (a b : Expr)
  | or (a b : Expr)
  /-- `c ? a : b`. -/
  | cond (c a b : Expr)
  | eq (a b : Expr)
  | ne (a b : Expr)
  /-- `a in b`. -/
  | mem (a b : Expr)
  deriving DecidableEq, Repr

inductive Value where
  | null
  | bool (b : Bool)
  | string (s : Bytes)
  | bytes (s : Bytes)
  | list (items : List Value)
  | map (fields : List (Bytes × Value))

inductive Error where
  /-- A text that is no expression. -/
  | malformed
  | undeclared (name : Bytes)
  | noSuchKey (key : Bytes)
  | noSuchOverload
  deriving DecidableEq, Repr

abbrev Result := Except Error Value

/-- What a name is bound to: a value, or a record with fields that are computed when they
are used. -/
inductive Binding where
  | value (v : Value)
  | record (fields : List (Bytes × Result))

abbrev Env := List (Bytes × Binding)

/-! ## Operations on results -/

namespace Result

/-- An operation on a map. -/
def onMap (r : Result) (f : List (Bytes × Value) → Result) : Result :=
  match r with
  | .ok (.map fields) => f fields
  | .ok _ => .error .noSuchOverload
  | .error err => .error err

/-- The value at a key. -/
def field (r : Result) (key : Bytes) : Result :=
  r.onMap fun fields => match fields.lookup key with
    | some v => .ok v
    | none => .error (.noSuchKey key)

def hasField (r : Result) (key : Bytes) : Result :=
  r.onMap fun fields => .ok (.bool (fields.lookup key).isSome)

/-- An operation on two strings. -/
def onStrings (a b : Result) (f : Bytes → Bytes → Bool) : Result :=
  match a, b with
  | .ok (.string s), .ok (.string t) => .ok (.bool (f s t))
  | .error err, _ => .error err
  | _, .error err => .error err
  | _, _ => .error .noSuchOverload

def not : Result → Result
  | .ok (.bool b) => .ok (.bool !b)
  | .ok _ => .error .noSuchOverload
  | .error err => .error err

/-- One side that is false decides. -/
def and (a b : Result) : Result :=
  match a, b with
  | .ok (.bool false), _ => .ok (.bool false)
  | _, .ok (.bool false) => .ok (.bool false)
  | .ok (.bool true), .ok (.bool true) => .ok (.bool true)
  | .error err, _ => .error err
  | _, .error err => .error err
  | _, _ => .error .noSuchOverload

/-- One side that is true decides. -/
def or (a b : Result) : Result :=
  match a, b with
  | .ok (.bool true), _ => .ok (.bool true)
  | _, .ok (.bool true) => .ok (.bool true)
  | .ok (.bool false), .ok (.bool false) => .ok (.bool false)
  | .error err, _ => .error err
  | _, .error err => .error err
  | _, _ => .error .noSuchOverload

def cond (c a b : Result) : Result :=
  match c with
  | .ok (.bool true) => a
  | .ok (.bool false) => b
  | .ok _ => .error .noSuchOverload
  | .error err => .error err

/-- A string among those of a list, or among the keys of a map. -/
def mem (a b : Result) : Result :=
  match a, b with
  | .ok (.string s), .ok (.list items) =>
    .ok (.bool (items.any fun | .string t => s == t | _ => false))
  | .ok (.string s), .ok (.map fields) => .ok (.bool (fields.lookup s).isSome)
  | .error err, _ => .error err
  | _, .error err => .error err
  | _, _ => .error .noSuchOverload

/-- What `exists` and `all` go through. -/
def elements : Result → Except Error (List Value)
  | .ok (.list items) => .ok items
  | .ok (.map fields) => .ok (fields.map fun f => .string f.1)
  | .ok _ => .error .noSuchOverload
  | .error err => .error err

end Result

/-! ## Evaluation -/

/-- The value of a name. -/
def ident (name : Bytes) (env : Env) : Result :=
  match env.lookup name with
  | some (.value v) => .ok v
  | some (.record _) => .error .noSuchOverload
  | none => .error (.undeclared name)

/-- The fields of a record. -/
def record : Expr → Env → Option (List (Bytes × Result))
  | .ident name, env =>
    match env.lookup name with
    | some (.record fields) => some fields
    | _ => none
  | _, _ => none

def eval : Expr → Env → Result
  | .string s, _ => .ok (.string s)
  | .strings items, _ => .ok (.list (items.map .string))
  | .ident name, env => ident name env
  | .select e field, env =>
    match record e env with
    | some fields => (fields.lookup field).getD (.error (.noSuchKey field))
    | none => (eval e env).field field
  | .has e field, env => (eval e env).hasField field
  | .index e key, env =>
    match eval key env with
    | .ok (.string k) => (eval e env).field k
    | .ok _ => .error .noSuchOverload
    | .error err => .error err
  | .startsWith e start, env => (eval e env).onStrings (eval start env) fun s t => t.isPrefixOf s
  | .any range x body, env =>
    match (eval range env).elements with
    | .ok items =>
      (items.map fun v => eval body ((x, .value v) :: env)).foldr .or (.ok (.bool false))
    | .error err => .error err
  | .all range x body, env =>
    match (eval range env).elements with
    | .ok items =>
      (items.map fun v => eval body ((x, .value v) :: env)).foldr .and (.ok (.bool true))
    | .error err => .error err
  | .not e, env => (eval e env).not
  | .and a b, env => (eval a env).and (eval b env)
  | .or a b, env => (eval a env).or (eval b env)
  | .cond c a b, env => (eval c env).cond (eval a env) (eval b env)
  | .eq a b, env => (eval a env).onStrings (eval b env) (· == ·)
  | .ne a b, env => (eval a env).onStrings (eval b env) (· != ·)
  | .mem a b, env => (eval a env).mem (eval b env)

/-- The expression is true. -/
def Holds (e : Expr) (env : Env) : Prop := eval e env = .ok (.bool true)

/-! ## Rules -/

namespace Result
variable {a b : Result} {x y : Bool} {s t : Bytes}

@[simp] theorem onMap_map (fields : List (Bytes × Value)) (f : List (Bytes × Value) → Result) :
    onMap (.ok (.map fields)) f = f fields := rfl

@[simp] theorem onStrings_string (f : Bytes → Bytes → Bool) :
    onStrings (.ok (.string s)) (.ok (.string t)) f = .ok (.bool (f s t)) := rfl

@[simp] theorem not_bool : not (.ok (.bool x)) = .ok (.bool !x) := rfl

@[simp] theorem and_bool : and (.ok (.bool x)) (.ok (.bool y)) = .ok (.bool (x && y)) := by
  cases x <;> cases y <;> rfl

@[simp] theorem false_and : and (.ok (.bool false)) b = .ok (.bool false) := by
  unfold and
  rfl

@[simp] theorem or_bool : or (.ok (.bool x)) (.ok (.bool y)) = .ok (.bool (x || y)) := by
  cases x <;> cases y <;> rfl

@[simp] theorem true_or : or (.ok (.bool true)) b = .ok (.bool true) := by
  unfold or
  rfl

@[simp] theorem cond_bool : cond (.ok (.bool x)) a b = if x then a else b := by
  cases x <;> rfl

theorem foldr_or_bool {α : Type} (f : α → Bool) (items : List α) :
    (items.map fun v => (.ok (.bool (f v)) : Result)).foldr or (.ok (.bool false)) =
      .ok (.bool (items.any f)) := by
  induction items with
  | nil => rfl
  | cons v items ih => rw [List.map_cons, List.foldr_cons, ih, or_bool, List.any_cons]

theorem foldr_and_bool {α : Type} (f : α → Bool) (items : List α) :
    (items.map fun v => (.ok (.bool (f v)) : Result)).foldr and (.ok (.bool true)) =
      .ok (.bool (items.all f)) := by
  induction items with
  | nil => rfl
  | cons v items ih => rw [List.map_cons, List.foldr_cons, ih, and_bool, List.all_cons]

/-- A string among literals. -/
theorem mem_strings (s : Bytes) (items : List Bytes) :
    mem (.ok (.string s)) (.ok (.list (items.map .string))) = .ok (.bool (items.any (s == ·))) := by
  rw [mem, List.any_map]
  rfl

end Result

/-! ### Operators -/

section Operators
variable (a b c : Expr) (env : Env)

theorem eval_string (s : Bytes) : eval (.string s) env = .ok (.string s) := rfl

theorem eval_strings (items : List Bytes) :
    eval (.strings items) env = .ok (.list (items.map .string)) := rfl

theorem eval_has (field : Bytes) :
    eval (.has a field) env = (eval a env).hasField field := rfl

theorem eval_startsWith : eval (.startsWith a b) env =
    (eval a env).onStrings (eval b env) fun s t => t.isPrefixOf s := rfl

theorem eval_not : eval (.not a) env = (eval a env).not := rfl

theorem eval_and : eval (.and a b) env = (eval a env).and (eval b env) := rfl

theorem eval_or : eval (.or a b) env = (eval a env).or (eval b env) := rfl

theorem eval_cond : eval (.cond c a b) env = (eval c env).cond (eval a env) (eval b env) := rfl

theorem eval_eq : eval (.eq a b) env = (eval a env).onStrings (eval b env) (· == ·) := rfl

theorem eval_ne : eval (.ne a b) env = (eval a env).onStrings (eval b env) (· != ·) := rfl

theorem eval_mem : eval (.mem a b) env = (eval a env).mem (eval b env) := rfl

end Operators

/-! ### Names -/

section Names
variable {env : Env} {name field : Bytes}

theorem eval_ident {v : Value} (h : env.lookup name = some (.value v)) :
    eval (.ident name) env = .ok v := by
  rw [eval, ident, h]

theorem eval_select_value {v : Value} (h : env.lookup name = some (.value v)) :
    eval (.select (.ident name) field) env = Result.field (.ok v) field := by
  rw [eval, record, h]
  exact congrArg (Result.field · field) (eval_ident h)

theorem eval_select_record {fields : List (Bytes × Result)} {r : Result}
    (h : env.lookup name = some (.record fields)) (hfield : fields.lookup field = some r) :
    eval (.select (.ident name) field) env = r := by
  rw [eval, record, h]
  show (fields.lookup field).getD _ = r
  rw [hfield, Option.getD_some]

end Names

/-! ### Quantifiers -/

section Quantifiers
variable {α : Type} {l : List α} {val : α → Value} {f : α → Bool} {range body : Expr} {x : Bytes}
  {env : Env}

theorem eval_any_map (hrange : (eval range env).elements = .ok (l.map val))
    (hbody : ∀ a, eval body ((x, .value (val a)) :: env) = .ok (.bool (f a))) :
    eval (.any range x body) env = .ok (.bool (l.any f)) := by
  rw [eval, hrange, ← Result.foldr_or_bool]
  show ((l.map val).map _).foldr _ _ = _
  rw [List.map_map]
  exact congrArg (List.foldr _ _) (List.map_congr_left fun a _ => hbody a)

theorem eval_all_map (hrange : (eval range env).elements = .ok (l.map val))
    (hbody : ∀ a, eval body ((x, .value (val a)) :: env) = .ok (.bool (f a))) :
    eval (.all range x body) env = .ok (.bool (l.all f)) := by
  rw [eval, hrange, ← Result.foldr_and_bool]
  show ((l.map val).map _).foldr _ _ = _
  rw [List.map_map]
  exact congrArg (List.foldr _ _) (List.map_congr_left fun a _ => hbody a)

end Quantifiers

end CEL
