import LoopSafety.Json.Token

/-! Reading a JSON text: the open containers form a stack that each token acts on. -/
namespace LoopSafety.Json

/-- A container that is still open, its finished parts in reverse. An object may have a key that
stands for no text. -/
inductive Container where
  | arr (items : List Json)
  | obj (members : List (Option String × Json))
  | member (members : List (Option String × Json)) (key : Option String)

/-- An object whose keys are all texts. -/
def ofMembers (members : List (Option String × Json)) : Json :=
  match members.mapM fun (key, j) => key.map (·, j) with
  | some members => obj members
  | none => valueless

/-- What may come next. -/
inductive Expects where
  | value
  | firstItem
  | key
  | firstKey
  | colon
  | separator
  | nothing (result : Json)

structure Parsing where
  stack : List Container
  expects : Expects

namespace Parsing

/-- A value is complete: it joins the innermost container, or is the result. -/
def complete (j : Json) : List Container → Parsing
  | [] => ⟨[], .nothing j⟩
  | .arr items :: stack => ⟨.arr (j :: items) :: stack, .separator⟩
  | .obj members :: stack => ⟨.obj members :: stack, .separator⟩
  | .member members key :: stack => ⟨.obj ((key, j) :: members) :: stack, .separator⟩

/-- The start of a value. -/
def beginValue (stack : List Container) : Token → Option Parsing
  | .scalar j => some (complete j stack)
  | .string s => some (complete (s.elim .valueless .str) stack)
  | .beginArray => some ⟨.arr [] :: stack, .firstItem⟩
  | .beginObject => some ⟨.obj [] :: stack, .firstKey⟩
  | _ => none

def beginKey : List Container → Token → Option Parsing
  | .obj members :: stack, .string key => some ⟨.member members key :: stack, .colon⟩
  | _, _ => none

def close : List Container → Token → Option Parsing
  | .arr items :: stack, .endArray => some (complete (.arr items.reverse) stack)
  | .obj members :: stack, .endObject => some (complete (ofMembers members.reverse) stack)
  | _, _ => none

def step (p : Parsing) (t : Token) : Option Parsing :=
  match p.expects, t with
  | .value, t => beginValue p.stack t
  | .firstItem, .endArray => close p.stack t
  | .firstItem, t => beginValue p.stack t
  | .key, t => beginKey p.stack t
  | .firstKey, .endObject => close p.stack t
  | .firstKey, t => beginKey p.stack t
  | .colon, .colon => some { p with expects := .value }
  | .separator, .comma =>
    match p.stack with
    | .arr _ :: _ => some { p with expects := .value }
    | .obj _ :: _ => some { p with expects := .key }
    | _ => none
  | .separator, t => close p.stack t
  | _, _ => none

def result? (p : Parsing) : Option Json :=
  match p.expects with
  | .nothing j => some j
  | _ => none

end Parsing

/-- The value of a token sequence; none if it is not exactly one value. -/
def ofTokens? (tokens : List Token) : Option Json := do
  let final ← tokens.foldlM Parsing.step ⟨[], .value⟩
  final.result?

/-- The value of a JSON text. -/
def parse? (text : String) : Option Json := Token.ofText? text >>= ofTokens?

/-- The value of a JSON text given as bytes. -/
def parseBytes? (bytes : Bytes) : Option Json := Token.ofBytes? bytes >>= ofTokens?

end LoopSafety.Json
