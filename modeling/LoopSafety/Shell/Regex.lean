import LoopSafety.Shell.Pattern

/-! Regular expressions over bytes, in the basic and the extended notation. Of the matches that
start first, the longest counts. -/
namespace LoopSafety.Shell

inductive Regex where
  | nothing
  | any
  | byte (c : Char)
  | oneOf (negated : Bool) (members : List Member)
  | seq (first second : Regex)
  | alt (first second : Regex)
  | repeated (body : Regex) (least : Nat) (most : Option Nat)
  | group (number : Nat) (body : Regex)
  /-- The text of an earlier group again. -/
  | again (number : Nat)
  | atStart
  | atEnd
  /-- Between a word character and another; at the start of a word, at its end, or either. -/
  | wordEdge (start stop : Bool)
  | noEdge

namespace Regex

/-! Reading -/

/-- How expressions are written. -/
structure Style where
  /-- Operators stand without backslashes. -/
  extended : Bool := false
  /-- An operator out of place is a fault, and escapes stand for control characters. -/
  strict : Bool := false

/-- What was met so far in an expression. -/
structure Tally where
  groups : Nat := 0
  warnings : List String := []

def isWordChar (c : Char) : Bool := c.isAlphanum || c == '_'

def wordMembers : List Member := [.named "alnum", .range '_' '_']

namespace Style

/-- A bar between alternatives. -/
def bar? (y : Style) : Bytes → Option Bytes
  | '|' :: rest => if y.extended then some rest else none
  | '\\' :: '|' :: rest => if y.extended then none else some rest
  | _ => none

def opening? (y : Style) : Bytes → Option Bytes
  | '(' :: rest => if y.extended then some rest else none
  | '\\' :: '(' :: rest => if y.extended then none else some rest
  | _ => none

def closing? (y : Style) : Bytes → Option Bytes
  | ')' :: rest => if y.extended then some rest else none
  | '\\' :: ')' :: rest => if y.extended then none else some rest
  | _ => none

/-- The opening brace of an interval. -/
def brace? (y : Style) : Bytes → Option Bytes
  | '\x7b' :: rest => if y.extended then some rest else none
  | '\\' :: '\x7b' :: rest => if y.extended then none else some rest
  | _ => none

/-- What follows the closing brace of an interval. -/
def braceEnd? (y : Style) : Bytes → Option Bytes
  | '\x7d' :: rest => if y.extended then some rest else none
  | '\\' :: '\x7d' :: rest => if y.extended then none else some rest
  | _ => none

/-- The bounds of an interval after its opening brace, or why there are none. -/
def interval (y : Style) (text : Bytes) : Except String (Nat × Option Nat × Bytes) := do
  let natOf (ds : Bytes) : Nat := ds.foldl (fun n c => 10 * n + (c.toNat - '0'.toNat)) 0
  let low := text.takeWhile Char.isDigit
  let rest := text.drop low.length
  let (high, rest) ← match rest with
    | ',' :: rest =>
      let ds := rest.takeWhile Char.isDigit
      pure (if ds.isEmpty then none else some (natOf ds), rest.drop ds.length)
    | rest =>
      if !low.isEmpty then pure (some (natOf low), rest)
      else if rest.isEmpty then .error "Unmatched \\\x7b"
      else .error "Invalid content of \\\x7b\\\x7d"
  match y.braceEnd? rest with
  | none =>
    .error (if rest.isEmpty then "Unmatched \\\x7b" else "Invalid content of \\\x7b\\\x7d")
  | some rest =>
    if high.any (· < natOf low) then .error "Invalid content of \\\x7b\\\x7d"
    else if 32767 < high.getD (natOf low) then .error "Regular expression too big"
    else return (natOf low, high, rest)

/-- An interval that is no interval stands for itself in the extended notation. -/
def isPlainBrace (y : Style) (text : Bytes) : Bool :=
  let body := text.dropWhile fun c => c.isDigit || c == ','
  y.extended && (y.braceEnd? body).isNone

/-- The operators that repeat what stands before them. -/
def repetition? (y : Style) (text : Bytes) : Except String (Option (Nat × Option Nat × Bytes)) :=
  match y.brace? text with
  | some inside => if y.isPlainBrace inside then .ok none else some <$> y.interval inside
  | none =>
    match text with
    | '*' :: rest => .ok (some (0, none, rest))
    | '+' :: rest => .ok (if y.extended then some (1, none, rest) else none)
    | '?' :: rest => .ok (if y.extended then some (0, some 1, rest) else none)
    | '\\' :: '+' :: rest => .ok (if y.extended then none else some (1, none, rest))
    | '\\' :: '?' :: rest => .ok (if y.extended then none else some (0, some 1, rest))
    | _ => .ok none

def repetitions (y : Style) : Nat → Regex → Bytes → Except String (Regex × Bytes)
  | 0, r, rest => .ok (r, rest)
  | fuel + 1, r, rest => do
    match ← y.repetition? rest with
    | some (least, most, rest) => y.repetitions fuel (.repeated r least most) rest
    | none => return (r, rest)

/-- What a backslash and a character stand for outside of brackets. -/
def escaped (y : Style) (groups : Nat) (c : Char) : Except String Regex :=
  match c with
  | 'w' => .ok (.oneOf false wordMembers)
  | 'W' => .ok (.oneOf true wordMembers)
  | 's' => .ok (.oneOf false [.named "space"])
  | 'S' => .ok (.oneOf true [.named "space"])
  | 'b' => .ok (.wordEdge true true)
  | '<' => .ok (.wordEdge true false)
  | '>' => .ok (.wordEdge false true)
  | 'B' => .ok .noEdge
  | '\x60' => .ok .atStart
  | '\'' => .ok .atEnd
  | 'n' => .ok (.byte (if y.strict then '\n' else 'n'))
  | 't' => .ok (.byte (if y.strict then '\t' else 't'))
  | c =>
    let number := c.toNat - '0'.toNat
    if !c.isDigit || c == '0' then .ok (.byte c)
    else if groups < number then .error "Invalid back reference"
    else .ok (.again number)

/-- The names of classes are known, and ranges go upwards. -/
def checkMember : Member → Except String Unit
  | .named name =>
    if (List.range 128).any fun n => isInClass name (Char.ofNat n) then .ok ()
    else .error "Invalid character class name"
  | .range low high => if low ≤ high then .ok () else .error "Invalid range end"

/-- A bracket expression after its opening bracket. -/
def bracket (text : Bytes) : Except String (Regex × Bytes) := do
  let (negated, inside) := match text with
    | '^' :: inside => (true, inside)
    | inside => (false, inside)
  match Pattern.members? (inside.length + 1) true (inside.map (·, false)) with
  | some (members, after) =>
    let after := after.map (·.1)
    let body := inside.take (inside.length - after.length - 1)
    if 1 < body.length && body.head? == some ':' && body.getLast? == some ':' then
      .error "character class syntax is [[:space:]], not [:space:]"
    members.forM checkMember
    return (.oneOf negated members, after)
  | none =>
    .error (if inside.isEmpty then "Invalid regular expression"
      else "Unmatched [, [^, [:, [., or [=")

mutual

/-- Alternatives. -/
def alternatives (y : Style) : Nat → Bytes → Tally → Except String (Regex × Bytes × Tally)
  | 0, _, _ => .error "Regular expression too big"
  | fuel + 1, text, tally => do
    let (first, rest, tally) ← y.sequence fuel true text tally
    match y.bar? rest with
    | some rest =>
      let (second, rest, tally) ← y.alternatives fuel rest tally
      return (.alt first second, rest, tally)
    | none => return (first, rest, tally)

/-- Atoms one after another; at the start there is nothing to repeat. -/
def sequence (y : Style) : Nat → Bool → Bytes → Tally → Except String (Regex × Bytes × Tally)
  | 0, _, _, _ => .error "Regular expression too big"
  | fuel + 1, first, text, tally => do
    if text.isEmpty || (y.bar? text).isSome || (y.closing? text).isSome then
      return (.nothing, text, tally)
    match first && y.extended, ← y.repetition? text with
    | true, some (_, _, rest) =>
      if y.strict then .error "Invalid preceding regular expression"
      let sign := match text with
        | '\x7b' :: _ => "\x7b...\x7d"
        | _ => String.ofList (text.take 1)
      let warnings := tally.warnings ++ ["warning: " ++ sign ++ " at start of expression"]
      y.sequence fuel true rest { tally with warnings }
    | _, _ =>
      let (r, rest, tally, anchor) ← y.atom fuel first text tally
      let (r, rest) ← if anchor then pure (r, rest) else y.repetitions rest.length r rest
      let (more, rest, tally) ← y.sequence fuel anchor rest tally
      return (.seq r more, rest, tally)

/-- One atom, and whether it is an anchor at the start. -/
def atom (y : Style) : Nat → Bool → Bytes → Tally → Except String (Regex × Bytes × Tally × Bool)
  | 0, _, _, _ => .error "Regular expression too big"
  | fuel + 1, first, text, tally =>
    match y.opening? text with
    | some rest => do
      let number := tally.groups + 1
      let (r, rest, tally) ← y.alternatives fuel rest { tally with groups := number }
      match y.closing? rest with
      | some rest => return (.group number r, rest, tally, false)
      | none => .error "Unmatched ( or \\("
    | none =>
      match text with
      | [] => .ok (.nothing, [], tally, false)
      | '^' :: rest =>
        if first || y.extended then .ok (.atStart, rest, tally, true)
        else .ok (.byte '^', rest, tally, false)
      | '$' :: rest =>
        let last := rest.isEmpty || (y.bar? rest).isSome || (y.closing? rest).isSome
        if last || y.extended then .ok (.atEnd, rest, tally, false)
        else .ok (.byte '$', rest, tally, false)
      | '.' :: rest => .ok (.any, rest, tally, false)
      | '[' :: rest => do
        let (r, rest) ← bracket rest
        return (r, rest, tally, false)
      | '\\' :: c :: rest => do return (← y.escaped tally.groups c, rest, tally, false)
      | '\\' :: [] => .error "Trailing backslash"
      | c :: rest => .ok (.byte c, rest, tally, false)

end

/-- A closing parenthesis on its own stands for itself in the extended notation, unless that is
strict. -/
def chain (y : Style) : Nat → Bytes → Tally → Except String (Regex × Tally)
  | 0, _, _ => .error "Regular expression too big"
  | fuel + 1, text, tally => do
    let (r, rest, tally) ← y.alternatives (8 * text.length + 16) text tally
    match rest with
    | [] => return (r, tally)
    | c :: rest =>
      if !y.extended || y.strict then .error "Unmatched ) or \\)"
      let (more, tally) ← y.chain fuel rest tally
      return (.seq r (.seq (.byte c) more), tally)

end Style

/-- Read an expression, with the number of its groups and what is odd about it. -/
def parse (y : Style) (text : Bytes) : Except String (Regex × Tally) :=
  y.chain (text.length + 1) text {}

/-! Matching -/

/-- A place in a text, with what the groups before it matched. -/
structure Spot where
  before : Option Char := none
  rest : Bytes
  position : Nat := 0
  groups : List (Nat × Bytes) := []

namespace Spot

def advance (s : Spot) (n : Nat) : Spot :=
  { s with before := if n = 0 then s.before else s.rest[n - 1]?
           rest := s.rest.drop n
           position := s.position + n }

end Spot

def sameByte (ignoreCase : Bool) (a b : Char) : Bool :=
  a == b || (ignoreCase && a.toLower == b.toLower)

/-- Whether a byte is matched by an expression for single bytes. -/
def single? (ignoreCase : Bool) : Regex → Option (Char → Bool)
  | any => some fun _ => true
  | byte c => some (sameByte ignoreCase c)
  | oneOf negated members => some fun c =>
    let hit (c : Char) : Bool := members.any (·.contains c)
    (hit c || (ignoreCase && (hit c.toLower || hit c.toUpper))) != negated
  | _ => none

/-- All ways to repeat a step, the longest first. A step that goes nowhere is not repeated. -/
def repeatStep (step : Spot → List Spot) : Nat → Nat → Option Nat → Spot → List Spot
  | 0, least, _, s => if least = 0 then [s] else []
  | fuel + 1, least, most, s =>
    let further :=
      if most = some 0 then []
      else (step s).flatMap fun t =>
        if t.position = s.position then if least ≤ 1 then [t] else []
        else repeatStep step fuel (least - 1) (most.map (· - 1)) t
    if least = 0 then further ++ [s] else further

/-- All ways to match from a place, in the order of preference. -/
def run (ignoreCase : Bool) : Regex → Spot → List Spot
  | nothing, s => [s]
  | seq a b, s => (run ignoreCase a s).flatMap (run ignoreCase b)
  | alt a b, s => run ignoreCase a s ++ run ignoreCase b s
  | repeated body least most, s =>
    match single? ignoreCase body with
    | some test =>
      let longest := (s.rest.takeWhile test).length
      let longest := most.elim longest (min longest)
      if longest < least then []
      else (List.range (longest + 1 - least)).map fun k => s.advance (longest - k)
    | none => repeatStep (run ignoreCase body) (s.rest.length + least + 1) least most s
  | group number body, s =>
    (run ignoreCase body s).map fun t =>
      let text := s.rest.take (t.position - s.position)
      { t with groups := (number, text) :: t.groups.filter (·.1 != number) }
  | again number, s =>
    match s.groups.lookup number with
    | some text => if text.isPrefixOf s.rest then [s.advance text.length] else []
    | none => []
  | atStart, s => if s.position = 0 then [s] else []
  | atEnd, s => if s.rest.isEmpty then [s] else []
  | wordEdge start stop, s =>
    let inside := s.before.any isWordChar
    let ahead := s.rest.head?.any isWordChar
    if (start && !inside && ahead) || (stop && inside && !ahead) then [s] else []
  | noEdge, s => if s.before.any isWordChar == s.rest.head?.any isWordChar then [s] else []
  | any, s => one (fun _ => true) s
  | byte c, s => one (sameByte ignoreCase c) s
  | oneOf negated members, s =>
    one ((single? ignoreCase (.oneOf negated members)).getD fun _ => false) s
where
  one (test : Char → Bool) (s : Spot) : List Spot :=
    match s.rest with
    | c :: _ => if test c then [s.advance 1] else []
    | [] => []

/-- The longest match from a place. -/
def longest? (r : Regex) (ignoreCase : Bool) (s : Spot) : Option Spot :=
  (r.run ignoreCase { s with groups := [] }).foldl
    (fun best t => match best with
      | some b => if b.position < t.position then some t else best
      | none => some t) none

/-- The first match at a place or after it: where it starts and where it ends. -/
def search? (r : Regex) (ignoreCase : Bool) : Nat → Spot → Option (Spot × Spot)
  | 0, _ => none
  | fuel + 1, s =>
    match r.longest? ignoreCase s with
    | some t => some (s, t)
    | none => if s.rest.isEmpty then none else r.search? ignoreCase fuel (s.advance 1)

def find? (r : Regex) (ignoreCase : Bool) (s : Spot) : Option (Spot × Spot) :=
  r.search? ignoreCase (s.rest.length + 1) s

/-- The text that stands for itself. -/
def ofText (text : Bytes) : Regex := text.foldr (fun c r => .seq (.byte c) r) .nothing

end Regex

end LoopSafety.Shell
