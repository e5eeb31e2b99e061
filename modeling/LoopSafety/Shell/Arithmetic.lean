import LoopSafety.Text.Bytes

/-! Integer expressions of scripts: their reading, and their value as a signed 64-bit word. -/
namespace LoopSafety.Shell.Arithmetic

inductive Token where
  | number (value : Int64)
  | name (name : String)
  | operator (symbol : String)
  | unknown
  deriving DecidableEq

inductive Expr where
  | number (value : Int64)
  | name (name : String)
  | unary (symbol : String) (operand : Expr)
  | binary (symbol : String) (left right : Expr)
  | conditional (condition consequence alternative : Expr)
  /-- Assign a value, or what an operator makes of the old and the new one. -/
  | assign (name : String) (symbol : Option String) (value : Expr)

def operators : List String :=
  ["<<=", ">>=", "<<", ">>", "<=", ">=", "==", "!=", "&&", "||", "*=", "/=", "%=", "+=", "-=",
    "&=", "^=", "|=", "*", "/", "%", "+", "-", "<", ">", "=", "!", "~", "&", "^", "|", "?", ":",
    "(", ")"]

def digitValue (c : Char) : Nat :=
  if c.isDigit then c.toNat - '0'.toNat
  else if 'a' ≤ c && c ≤ 'z' then c.toNat - 'a'.toNat + 10
  else if 'A' ≤ c && c ≤ 'Z' then c.toNat - 'A'.toNat + 10
  else 36

def natOf (base : Nat) (digits : Bytes) : Nat :=
  digits.foldl (fun n c => base * n + digitValue c) 0

/-- A number with the base that its start tells, and the text after it. -/
def number : Bytes → Nat × Bytes
  | '0' :: x :: d :: rest =>
    if (x == 'x' || x == 'X') && digitValue d < 16 then
      let digits := (d :: rest).takeWhile (digitValue · < 16)
      (natOf 16 digits, (d :: rest).drop digits.length)
    else
      let digits := (x :: d :: rest).takeWhile (digitValue · < 8)
      (natOf 8 digits, (x :: d :: rest).drop digits.length)
  | '0' :: rest =>
    let digits := rest.takeWhile (digitValue · < 8)
    (natOf 8 digits, rest.drop digits.length)
  | text =>
    let digits := text.takeWhile Char.isDigit
    (natOf 10 digits, text.drop digits.length)

def isBlank (c : Char) : Bool := c == ' ' || (9 ≤ c.toNat && c.toNat ≤ 13)

/-- The value of a whole text as a number; none if it is not one, or is out of range. -/
def integer? (text : Bytes) : Option Int64 :=
  let body := text.dropWhile isBlank
  if body.isEmpty then some 0
  else
    let (negative, digits) := match body with
      | '-' :: rest => (true, rest)
      | '+' :: rest => (false, rest)
      | rest => (false, rest)
    if !digits.head?.any Char.isDigit then none
    else
      let (n, rest) := number digits
      let value : Int := if negative then -n else n
      if (rest.dropWhile isBlank).isEmpty && Int64.minValue.toInt ≤ value && value ≤ Int64.maxValue.toInt
      then some (Int64.ofInt value)
      else none

def tokens : Nat → Bytes → List Token
  | 0, _ => []
  | _, [] => []
  | fuel + 1, c :: cs =>
    if isBlank c then tokens fuel cs
    else if c.isDigit then
      let (n, rest) := number (c :: cs)
      .number (Int64.ofInt (min n Int64.maxValue.toInt)) :: tokens fuel rest
    else if c.isAlpha || c == '_' then
      let part (d : Char) : Bool := d.isAlphanum || d == '_'
      .name (String.ofList (c :: cs.takeWhile part)) :: tokens fuel (cs.dropWhile part)
    else
      match operators.find? fun symbol => symbol.toList.isPrefixOf (c :: cs) with
      | some symbol => .operator symbol :: tokens fuel ((c :: cs).drop symbol.length)
      | none => .unknown :: tokens fuel cs

/-- How tightly a two-place operator binds. -/
def precedence? : String → Option Nat
  | "||" => some 1
  | "&&" => some 2
  | "|" => some 3
  | "^" => some 4
  | "&" => some 5
  | "==" | "!=" => some 6
  | "<" | "<=" | ">" | ">=" => some 7
  | "<<" | ">>" => some 8
  | "+" | "-" => some 9
  | "*" | "/" | "%" => some 10
  | _ => none

/-- The operator of an assignment such as `+=`. -/
def assignment? : String → Option (Option String)
  | "=" => some none
  | symbol =>
    if ["<<=", ">>=", "*=", "/=", "%=", "+=", "-=", "&=", "^=", "|="].contains symbol
    then some (some (symbol.dropEnd 1).toString) else none

/-- The fault is the text of the complaint. -/
abbrev Parse := Except String

mutual

def whole : Nat → List Token → Parse (Expr × List Token)
  | 0, _ => .error "expecting primary"
  | fuel + 1, ts =>
    match ts with
    | .name name :: .operator symbol :: rest =>
      match assignment? symbol with
      | some operation => do
        let (value, rest) ← whole fuel rest
        return (.assign name operation value, rest)
      | none => conditional fuel ts
    | _ => conditional fuel ts

def conditional : Nat → List Token → Parse (Expr × List Token)
  | 0, _ => .error "expecting primary"
  | fuel + 1, ts => do
    let (condition, rest) ← binary fuel 1 ts
    match rest with
    | .operator "?" :: rest =>
      let (consequence, rest) ← whole fuel rest
      match rest with
      | .operator ":" :: rest =>
        let (alternative, rest) ← conditional fuel rest
        return (.conditional condition consequence alternative, rest)
      | _ => .error "expecting ':'"
    | _ => return (condition, rest)

/-- Operators that bind at least as tightly as a given level. -/
def binary : Nat → Nat → List Token → Parse (Expr × List Token)
  | 0, _, _ => .error "expecting primary"
  | fuel + 1, level, ts => do
    let (left, rest) ← primary fuel ts
    chain fuel level left rest

def chain : Nat → Nat → Expr → List Token → Parse (Expr × List Token)
  | 0, _, _, _ => .error "expecting primary"
  | fuel + 1, level, left, ts =>
    match ts with
    | .operator symbol :: rest =>
      match precedence? symbol with
      | some p =>
        if level ≤ p then do
          let (right, rest) ← binary fuel (p + 1) rest
          chain fuel level (.binary symbol left right) rest
        else return (left, ts)
      | none => return (left, ts)
    | _ => return (left, ts)

def primary : Nat → List Token → Parse (Expr × List Token)
  | 0, _ => .error "expecting primary"
  | fuel + 1, ts =>
    match ts with
    | .number value :: rest => return (.number value, rest)
    | .name name :: rest => return (.name name, rest)
    | .operator "(" :: rest => do
      let (e, rest) ← whole fuel rest
      match rest with
      | .operator ")" :: rest => return (e, rest)
      | _ => .error "expecting ')'"
    | .operator symbol :: rest =>
      if ["+", "-", "!", "~"].contains symbol then do
        let (e, rest) ← primary fuel rest
        return (.unary symbol e, rest)
      else .error "expecting primary"
    | _ => .error "expecting primary"

end

def parse (text : Bytes) : Parse Expr := do
  let ts := tokens (text.length + 1) text
  let (e, rest) ← whole (8 * ts.length + 16) ts
  if rest.isEmpty then return e else .error "expecting EOF"

def truth (b : Bool) : Int64 := if b then 1 else 0

def applyUnary : String → Int64 → Int64
  | "-", a => -a
  | "!", a => truth (a == 0)
  | "~", a => ~~~a
  | _, a => a

/-- None for a division by zero. -/
def applyBinary? (symbol : String) (a b : Int64) : Option Int64 :=
  match symbol with
  | "*" => some (a * b)
  | "/" => if b == 0 then none else some (a / b)
  | "%" => if b == 0 then none else some (a % b)
  | "+" => some (a + b)
  | "-" => some (a - b)
  | "<<" => some (a <<< b)
  | ">>" => some (a >>> b)
  | "<" => some (truth (a < b))
  | "<=" => some (truth (a ≤ b))
  | ">" => some (truth (b < a))
  | ">=" => some (truth (b ≤ a))
  | "==" => some (truth (a == b))
  | "!=" => some (truth (a != b))
  | "&" => some (a &&& b)
  | "^" => some (a ^^^ b)
  | "|" => some (a ||| b)
  | _ => some b

end LoopSafety.Shell.Arithmetic
