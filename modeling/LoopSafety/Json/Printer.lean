import LoopSafety.Json.Basic
import LoopSafety.Decimal

/-! JSON texts: on one line without blanks, and indented by two. What has no value is written as
null. -/
namespace LoopSafety.Json

def hexDigit (n : Nat) : Char := (Nat.toDigits 16 n).headD '0'

/-- Quotes, backslashes and control characters are escaped; everything else stands for itself. -/
def escapeChar (c : Char) : List Char :=
  match c with
  | '"' => ['\\', '"']
  | '\\' => ['\\', '\\']
  | '\x08' => ['\\', 'b']
  | '\x0c' => ['\\', 'f']
  | '\n' => ['\\', 'n']
  | '\r' => ['\\', 'r']
  | '\t' => ['\\', 't']
  | c =>
    if c.toNat < 0x20 then ['\\', 'u', '0', '0', hexDigit (c.toNat / 16), hexDigit (c.toNat % 16)]
    else [c]

def quote (s : String) : String := "\"" ++ String.ofList (s.toList.flatMap escapeChar) ++ "\""

/-- A real that is not finite has no JSON text and becomes null. -/
def realText (x : Float) : String := if x.isFinite then Decimal.data x else "null"

mutual

def compact : Json → String
  | null | valueless => "null"
  | bool b => toString b
  | int n => toString n
  | real x => realText x
  | str s => quote s
  | arr items => "[" ++ compactItems items ++ "]"
  | obj members => "\x7b" ++ compactMembers members ++ "\x7d"

def compactItems : List Json → String
  | [] => ""
  | [j] => j.compact
  | j :: js => j.compact ++ "," ++ compactItems js

def compactMembers : List (String × Json) → String
  | [] => ""
  | [(k, j)] => quote k ++ ":" ++ j.compact
  | (k, j) :: ms => quote k ++ ":" ++ j.compact ++ "," ++ compactMembers ms

end

def newline (depth : Nat) : String := "\n" ++ String.ofList (List.replicate (2 * depth) ' ')

mutual

/-- The indented text of a value that stands at a depth; empty containers stay on one line. -/
def pretty (depth : Nat) : Json → String
  | null | valueless => "null"
  | bool b => toString b
  | int n => toString n
  | real x => realText x
  | str s => quote s
  | arr [] => "[]"
  | arr items => "[" ++ prettyItems (depth + 1) items ++ newline depth ++ "]"
  | obj [] => "\x7b\x7d"
  | obj members => "\x7b" ++ prettyMembers (depth + 1) members ++ newline depth ++ "\x7d"

def prettyItems (depth : Nat) : List Json → String
  | [] => ""
  | [j] => newline depth ++ j.pretty depth
  | j :: js => newline depth ++ j.pretty depth ++ "," ++ prettyItems depth js

def prettyMembers (depth : Nat) : List (String × Json) → String
  | [] => ""
  | [(k, j)] => newline depth ++ quote k ++ ": " ++ j.pretty depth
  | (k, j) :: ms =>
    newline depth ++ quote k ++ ": " ++ j.pretty depth ++ "," ++ prettyMembers depth ms

end

end LoopSafety.Json
