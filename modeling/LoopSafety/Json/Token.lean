import LoopSafety.Json.Basic
import LoopSafety.Text.Bytes

/-! The tokens of a JSON text. One pass over the characters collects scalars and strings; each is
then read as a whole, strictly: no leading zeros, no raw control characters. A string with a lone
surrogate and a number out of range are well formed but have no value.

A real is read from the digits that fit in one 64-bit word, as a double scaled once by a power of
ten: fast, and in the last place not always the nearest double. -/
namespace LoopSafety.Json

inductive Token where
  | beginObject | endObject | beginArray | endArray | colon | comma
  | scalar (value : Json)
  | string (text : Option String)

namespace Token

def isBlank (c : Char) : Bool := c == ' ' || c == '\t' || c == '\n' || c == '\r'

def punctuation? : Char → Option Token
  | '\x7b' => some beginObject
  | '\x7d' => some endObject
  | '[' => some beginArray
  | ']' => some endArray
  | ':' => some colon
  | ',' => some comma
  | _ => none

def natOfDigits (ds : List Char) : Nat := ds.foldl (fun n c => 10 * n + (c.toNat - '0'.toNat)) 0

/-- A fraction is a point and at least one digit. -/
def fraction? : List Char → Option (List Char × List Char)
  | '.' :: rest =>
    let digits := rest.takeWhile Char.isDigit
    if digits.isEmpty then none else some (digits, rest.dropWhile Char.isDigit)
  | rest => some ([], rest)

/-- An exponent is a mark, an optional sign and at least one digit, and ends the number. -/
def exponent? : List Char → Option (Option (Bool × Nat))
  | [] => some none
  | mark :: rest =>
    if mark == 'e' || mark == 'E' then
      let (negative, digits) := match rest with
        | '+' :: ds => (false, ds)
        | '-' :: ds => (true, ds)
        | ds => (false, ds)
      if digits.isEmpty || !digits.all Char.isDigit then none
      else some (some (negative, natOfDigits digits))
    else none

/-- Digits read so far: the leading ones as a 64-bit word, and the power of ten that scales it. -/
structure Digits where
  word : Nat := 0
  power : Int := 0

/-- Append digits while they fit in the word. Also returns the digits that do not. -/
def Digits.append (d : Digits) : List Char → Digits × List Char
  | [] => (d, [])
  | c :: cs =>
    let word := 10 * d.word + (c.toNat - '0'.toNat)
    if word < UInt64.size then append { d with word } cs else (d, c :: cs)

/-- The digits before and after the point. Whole digits beyond the word keep their weight,
fraction digits beyond it are dropped. -/
def Digits.ofParts (whole fraction : List Char) : Digits :=
  let (d, lost) := append {} whole
  let d := { d with power := lost.length }
  let (d, unused) := d.append fraction
  { d with power := d.power - (fraction.length - unused.length : Nat) }

def powerOfTen (n : Nat) : Float := Float.ofScientific 1 false n

/-- Divide by powers of ten that are doubles, the largest first. -/
def shrink (x : Float) (n : Nat) : Float :=
  if n ≤ 308 then x / powerOfTen n
  else if x == 0 then x
  else shrink (x / powerOfTen 308) (n - 308)
termination_by n

/-- `x * 10 ^ n`; none if it is out of range. -/
def scale? (x : Float) (n : Int) : Option Float :=
  if n < 0 then some (shrink x (-n).toNat)
  else if 308 < n then if x == 0 then some x else none
  else
    let y := x * powerOfTen n.toNat
    if y.isInf then none else some y

/-- The double that digits and an exponent stand for; none if it is out of range. An exponent
beyond 32 bits is out of range or gives zero. -/
def Digits.toFloat? (d : Digits) : Option (Bool × Nat) → Option Float
  | none => scale? (Float.ofNat d.word) d.power
  | some (negative, n) =>
    if Nat.pow 2 31 ≤ n then if negative || d.word = 0 then some 0 else none
    else scale? (Float.ofNat d.word) (if negative then d.power - n else d.power + n)

/-- A number: whole part without leading zeros, then fraction and exponent. A negative zero and a
whole number beyond 64 bits are reals. -/
def number? (negative : Bool) (cs : List Char) : Option Json := do
  let whole := cs.takeWhile Char.isDigit
  if whole.isEmpty || (whole.head? == some '0' && whole.length != 1) then none
  let (fraction, rest) ← fraction? (cs.dropWhile Char.isDigit)
  let exponent ← exponent? rest
  let n := natOfDigits whole
  let isWhole := fraction.isEmpty && exponent.isNone
  if isWhole && negative && 0 < n && n ≤ Nat.pow 2 63 then some (int (-n))
  else if isWhole && !negative && n < UInt64.size then some (int n)
  else match (Digits.ofParts whole fraction).toFloat? exponent with
    | some x => some (real (if negative then -x else x))
    | none => some valueless

/-- A word or a number. -/
def scalar? (cs : List Char) : Option Json :=
  if cs = "null".toList then some null
  else if cs = "true".toList then some (bool true)
  else if cs = "false".toList then some (bool false)
  else match cs with
    | '-' :: rest => number? true rest
    | _ => number? false cs

def hexDigit? (c : Char) : Option Nat :=
  if c.isDigit then some (c.toNat - '0'.toNat)
  else if 'a' ≤ c ∧ c ≤ 'f' then some (c.toNat - 'a'.toNat + 10)
  else if 'A' ≤ c ∧ c ≤ 'F' then some (c.toNat - 'A'.toNat + 10)
  else none

def unit16? (a b c d : Char) : Option Nat := do
  return (((← hexDigit? a) * 16 + (← hexDigit? b)) * 16 + (← hexDigit? c)) * 16 + (← hexDigit? d)

/-- The character of an escape other than `\u`. -/
def simpleEscape? : Char → Option Char
  | '"' => some '"'
  | '\\' => some '\\'
  | '/' => some '/'
  | 'b' => some '\x08'
  | 'f' => some '\x0c'
  | 'n' => some '\n'
  | 'r' => some '\r'
  | 't' => some '\t'
  | _ => none

/-- A code point outside the surrogates. -/
def scalarChar? (n : Nat) : Option Char := if n.isValidChar then some (Char.ofNat n) else none

/-- The characters that the inside of a string literal stands for. -/
def unescape : List Char → Option (List Char)
  | [] => some []
  | '\\' :: 'u' :: a :: b :: c :: d :: '\\' :: 'u' :: e :: f :: g :: h :: rest => do
    let high ← unit16? a b c d
    let low ← unit16? e f g h
    if 0xD800 ≤ high ∧ high < 0xDC00 then
      if 0xDC00 ≤ low ∧ low < 0xE000 then
        let code ← scalarChar? (0x10000 + (high - 0xD800) * 0x400 + (low - 0xDC00))
        return code :: (← unescape rest)
      else none
    else
      let first ← scalarChar? high
      return first :: (← unescape ('\\' :: 'u' :: e :: f :: g :: h :: rest))
  | '\\' :: 'u' :: a :: b :: c :: d :: rest => do
    let code ← scalarChar? (← unit16? a b c d)
    return code :: (← unescape rest)
  | '\\' :: c :: rest => do return (← simpleEscape? c) :: (← unescape rest)
  | c :: rest => do
    if c.toNat < 0x20 || c == '\\' then none else return c :: (← unescape rest)

/-- The inside of a string literal is well formed: what follows each backslash is an escape, and no
control character stands raw. -/
def wellEscaped : List Char → Bool
  | [] => true
  | '\\' :: 'u' :: a :: b :: c :: d :: rest => (unit16? a b c d).isSome && wellEscaped rest
  | '\\' :: c :: rest => (simpleEscape? c).isSome && wellEscaped rest
  | c :: rest => 0x20 ≤ c.toNat && c != '\\' && wellEscaped rest

/-- What the characters since the last complete token belong to; collected in reverse. -/
inductive Pending where
  | nothing
  | scalar (reversed : List Char)
  | string (reversed : List Char)
  | escape (reversed : List Char)

/-- Complete a pending scalar. -/
def finish (tokens : List Token) : Pending → Option (List Token)
  | .nothing => some tokens
  | .scalar reversed => do return .scalar (← scalar? reversed.reverse) :: tokens
  | .string _ | .escape _ => none

/-- The text of a string literal, given how the characters inside it are encoded. -/
def literal? (decode : List Char → Option (List Char)) (body : List Char) : Option String := do
  return String.ofList (← unescape (← decode body))

/-- Take one character; tokens are collected in reverse. -/
def step (decode : List Char → Option (List Char)) (tokens : List Token) (c : Char) :
    Pending → Option (List Token × Pending)
  | .string reversed =>
    if c == '"' then
      let body := reversed.reverse
      if wellEscaped body then some (.string (literal? decode body) :: tokens, .nothing) else none
    else if c == '\\' then some (tokens, .escape (c :: reversed))
    else some (tokens, .string (c :: reversed))
  | .escape reversed => some (tokens, .string (c :: reversed))
  | pending =>
    if isBlank c then do return (← finish tokens pending, .nothing)
    else if c == '"' then do return (← finish tokens pending, .string [])
    else match punctuation? c, pending with
      | some p, _ => do return (p :: (← finish tokens pending), .nothing)
      | none, .scalar reversed => some (tokens, .scalar (c :: reversed))
      | none, _ => some (tokens, .scalar [c])

def scan (decode : List Char → Option (List Char)) :
    List Char → List Token → Pending → Option (List Token)
  | [], tokens, pending => (finish tokens pending).map List.reverse
  | c :: cs, tokens, pending =>
    match step decode tokens c pending with
    | some (tokens, pending) => scan decode cs tokens pending
    | none => none

def ofText? (text : String) : Option (List Token) := scan some text.toList [] .nothing

/-- Only the strings that are used need to encode a text. -/
def ofBytes? (bytes : Bytes) : Option (List Token) :=
  scan (fun body => (Bytes.decode body).mapM id) bytes [] .nothing

end Token

end LoopSafety.Json
