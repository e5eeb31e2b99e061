import LoopSafety.Json.Basic

/-! Reading records, names and tagged alternatives out of JSON values.

A record is an object or the array of its fields in order. Unknown members are skipped; a known
member may not be repeated. A tagged alternative is taken apart after its whole text has been
buffered, which bounds its nesting and makes names inside it a little more liberal. -/
namespace LoopSafety.Json

def bool? : Json → Option Bool
  | bool b => some b
  | _ => none

def string? : Json → Option String
  | str s => some s
  | _ => none

def float? : Json → Option Float
  | int n => some (Float.ofInt n)
  | real x => some x
  | _ => none

def int64? : Json → Option Int64
  | int n => if Int64.minValue.toInt ≤ n ∧ n ≤ Int64.maxValue.toInt then some (Int64.ofInt n) else none
  | _ => none

def int32? : Json → Option Int32
  | int n => if Int32.minValue.toInt ≤ n ∧ n ≤ Int32.maxValue.toInt then some (Int32.ofInt n) else none
  | _ => none

def uint32? : Json → Option UInt32
  | int n => if 0 ≤ n ∧ n.toNat < UInt32.size then some (UInt32.ofNat n.toNat) else none
  | _ => none

def uint64? : Json → Option UInt64
  | int n => if 0 ≤ n ∧ n.toNat < UInt64.size then some (UInt64.ofNat n.toNat) else none
  | _ => none

def list? {α : Type} (item? : Json → Option α) : Json → Option (List α)
  | arr items => items.mapM item?
  | _ => none

/-- Null stands for an absent value. -/
def nullable? {α : Type} (item? : Json → Option α) : Json → Option (Option α)
  | null => some none
  | j => (item? j).map some

/-- The members of an object whose keys are free, in order. -/
def dictionary? {α : Type} (item? : Json → Option α) : Json → Option (List (String × α))
  | obj members => members.mapM fun (k, j) => (item? j).map ((k, ·))
  | _ => none

/-- When a field of a record may be left out: never, from an object, or also from the end of an
array. -/
inductive Presence where
  | required | optional | defaulted
  deriving DecidableEq

structure Field where
  name : String
  presence : Presence

def Field.required (name : String) : Field := ⟨name, .required⟩
def Field.optional (name : String) : Field := ⟨name, .optional⟩
def Field.defaulted (name : String) : Field := ⟨name, .defaulted⟩

/-- The value of a field among the members of an object. -/
def member? (f : Field) (members : List (String × Json)) : Option (Option Json) :=
  match members.filter (·.1 == f.name) with
  | [] => if f.presence = .required then none else some none
  | [(_, j)] => some (some j)
  | _ => none

def positional? : List Field → List Json → Option (List (Option Json))
  | [], [] => some []
  | [], _ :: _ => none
  | f :: fs, [] => if f.presence = .defaulted then (positional? fs []).map (none :: ·) else none
  | _ :: fs, j :: js => (positional? fs js).map (some j :: ·)

/-- The values of the given fields in order, `none` for each that is left out. -/
def record? (fields : List Field) : Json → Option (List (Option Json))
  | obj members => fields.mapM fun f => member? f members
  | arr items => positional? fields items
  | _ => none

/-- The value of a field that must be there. -/
def needed {α : Type} (value? : Json → Option α) (field : Option Json) : Option α :=
  field.bind value?

/-- The value of a field that may be missing or null. -/
def maybe {α : Type} (value? : Json → Option α) : Option Json → Option (Option α)
  | none => some none
  | some j => nullable? value? j

/-- The value of a field that has a default. -/
def orElse {α : Type} (default : α) (value? : Json → Option α) : Option Json → Option α
  | none => some default
  | some j => value? j

/-- Whether a value has been buffered as part of a tagged alternative. -/
inductive Source where
  | direct | buffered
  deriving DecidableEq

/-- A name of an enumeration, alone or as the only key of an object with an empty payload. -/
def named? {α : Type} (source : Source) (ofName? : String → Option α) : Json → Option α
  | str s => ofName? s
  | obj [(s, null)] => ofName? s
  | obj [(s, obj [])] => if source = .buffered then ofName? s else none
  | _ => none

/-- The tag: its name, or inside a buffered value also its position among the names. -/
def tag? (source : Source) (names : List String) : Json → Option String
  | str s => if names.contains s then some s else none
  | int n => if source = .buffered ∧ 0 ≤ n then names[n.toNat]? else none
  | _ => none

/-- Take a tagged alternative apart into its tag and the record of its other members. The limit
counts the containers that may be open inside it, and nothing inside it is skipped unread. -/
def tagged? (source : Source) (limit : Nat) (key : String) (names : List String) (j : Json) :
    Option (String × Json) :=
  if limit < j.nesting || !j.isReadable then none
  else match j with
    | obj members =>
      match members.filter (·.1 == key) with
      | [(_, t)] => (tag? source names t).map (·, obj (members.filter (·.1 != key)))
      | _ => none
    | arr (t :: items) => (tag? source names t).map (·, arr items)
    | _ => none

/-- The payload of an alternative that has no members of its own: members of an object are
skipped. -/
def emptyRecord? : Json → Option Unit
  | obj _ => some ()
  | arr [] => some ()
  | _ => none

end LoopSafety.Json
