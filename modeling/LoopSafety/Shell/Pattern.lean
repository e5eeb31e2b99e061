import LoopSafety.Text.Bytes

/-! Patterns that texts and file names are matched against. -/
namespace LoopSafety.Shell

/-- Members of a bracket expression. -/
inductive Member where
  | range (low high : Char)
  | named (name : String)
  deriving DecidableEq, Repr

/-- The named classes, of bytes below 128. -/
def isInClass (name : String) (c : Char) : Bool :=
  let n := c.toNat
  match name with
  | "alpha" => c.isAlpha
  | "digit" => c.isDigit
  | "alnum" => c.isAlphanum
  | "upper" => c.isUpper
  | "lower" => c.isLower
  | "space" => c == ' ' || (9 ≤ n && n ≤ 13)
  | "blank" => c == ' ' || c == '\t'
  | "punct" => 33 ≤ n && n < 127 && !c.isAlphanum
  | "print" => 32 ≤ n && n < 127
  | "graph" => 33 ≤ n && n < 127
  | "cntrl" => n < 32 || n == 127
  | "xdigit" => c.isDigit || ('a' ≤ c && c ≤ 'f') || ('A' ≤ c && c ≤ 'F')
  | _ => false

def Member.contains (c : Char) : Member → Bool
  | range low high => low ≤ c && c ≤ high
  | named name => isInClass name c

/-- A character of a pattern, and whether it stands for itself. -/
abbrev PatternChar := Char × Bool

namespace Pattern

inductive Item where
  | exactly (c : Char)
  | any
  | many
  | oneOf (negated : Bool) (members : List Member)
  deriving DecidableEq, Repr

/-- The members of a bracket expression up to its end, and what follows it. -/
def members? : Nat → Bool → List PatternChar → Option (List Member × List PatternChar)
  | 0, _, _ => none
  | _, _, [] => none
  | fuel + 1, first, (c, quoted) :: rest => do
    if c == ']' && !quoted && !first then return ([], rest)
    match c, rest with
    | '[', (':', false) :: rest' =>
      let name := rest'.takeWhile fun d => d.1 != ':'
      match rest'.drop name.length with
      | (':', _) :: (']', _) :: after =>
        let (more, after) ← members? fuel false after
        return (.named (String.ofList (name.map (·.1))) :: more, after)
      | _ =>
        let (more, after) ← members? fuel false rest
        return (.range c c :: more, after)
    | _, ('-', false) :: (d, dq) :: rest' =>
      if d == ']' && !dq then
        let (more, after) ← members? fuel false rest
        return (.range c c :: more, after)
      else
        let (more, after) ← members? fuel false rest'
        return (.range c d :: more, after)
    | _, _ =>
      let (more, after) ← members? fuel false rest
      return (.range c c :: more, after)

/-- A bracket that is never closed stands for itself. -/
def items : Nat → List PatternChar → List Item
  | 0, _ => []
  | _, [] => []
  | fuel + 1, (c, true) :: rest => .exactly c :: items fuel rest
  | fuel + 1, ('*', false) :: rest => .many :: items fuel rest
  | fuel + 1, ('?', false) :: rest => .any :: items fuel rest
  | fuel + 1, ('[', false) :: rest =>
    let (negated, inside) := match rest with
      | ('!', false) :: inside | ('^', false) :: inside => (true, inside)
      | inside => (false, inside)
    match members? (inside.length + 1) true inside with
    | some (members, after) => .oneOf negated members :: items fuel after
    | none => .exactly '[' :: items fuel rest
  | fuel + 1, (c, false) :: rest => .exactly c :: items fuel rest

def suffixes : Bytes → List Bytes
  | [] => [[]]
  | c :: cs => (c :: cs) :: suffixes cs

def matchesItems : List Item → Bytes → Bool
  | [], bytes => bytes.isEmpty
  | .many :: rest, bytes => (suffixes bytes).any (matchesItems rest)
  | _ :: _, [] => false
  | .exactly c :: rest, d :: bytes => c == d && matchesItems rest bytes
  | .any :: rest, _ :: bytes => matchesItems rest bytes
  | .oneOf negated members :: rest, d :: bytes =>
    (members.any (·.contains d) != negated) && matchesItems rest bytes

end Pattern

abbrev Pattern := List Pattern.Item

namespace Pattern

def ofChars (cs : List PatternChar) : Pattern := items (cs.length + 1) cs

/-- A pattern that only one text matches is no pattern. -/
def isLiteral (p : Pattern) : Bool := p.all fun
  | .exactly _ => true
  | _ => false

/-- The pattern matches the whole text. -/
def fits (p : Pattern) (bytes : Bytes) : Bool := matchesItems p bytes

/-- Take away the longest or shortest start or end of a text that fits. -/
def trim (p : Pattern) (atEnd longest : Bool) (bytes : Bytes) : Bytes :=
  let cuts := List.range (bytes.length + 1)
  let ascending := longest == atEnd
  let candidates := if ascending then cuts else cuts.reverse
  let hit := candidates.find? fun n => p.fits (if atEnd then bytes.drop n else bytes.take n)
  match hit with
  | some n => if atEnd then bytes.take n else bytes.drop n
  | none => bytes

end Pattern

end LoopSafety.Shell
