import LoopSafety.Shell.Regex
import LoopSafety.Shell.Tool.Basic

/-! Tools on numbers. -/
namespace LoopSafety.Shell.Tool

def integer? (text : Bytes) : Option Int :=
  match text with
  | '-' :: ds => (nat? ds).map fun n => -(n : Int)
  | '+' :: ds => (nat? ds).map (↑·)
  | ds => (nat? ds).map (↑·)

def countUp (first step last : Int) : Nat → List Int
  | 0 => []
  | fuel + 1 =>
    if (0 < step && last < first) || (step < 0 && first < last) || step = 0 then []
    else first :: countUp (first + step) step last fuel

/-- Leading zeros up to a width. -/
def zeroPad (width : Nat) (n : Int) : Bytes :=
  let digits := (toString n.natAbs).toList
  let sign := if n < 0 then ['-'] else []
  sign ++ List.replicate (width - sign.length - digits.length) '0' ++ digits

/-- The words of `seq` up to its numbers, which may start with a minus sign. -/
def seqOptions : Arguments → List Bytes → Except OptionFault Arguments
  | a, ['-', 's'] :: text :: rest => seqOptions { a with options := ('s', text) :: a.options } rest
  | _, [['-', 's']] => .error (.missing 's')
  | a, ['-', 'w'] :: rest => seqOptions { a with options := ('w', []) :: a.options } rest
  | a, word :: rest =>
    match word with
    | '-' :: 's' :: text => seqOptions { a with options := ('s', text) :: a.options } rest
    | '-' :: c :: _ =>
      if c.isDigit || c == '.' then .ok { a with operands := word :: rest }
      else .error (.unknown c)
    | _ => .ok { a with operands := word :: rest }
  | a, [] => .ok a

def seq : Tool := fun name args => do
  match seqOptions {} args with
  | .error fault => usage name fault.message
  | .ok a =>
    match a.operands.mapM integer?, a.operands with
    | _, _ :: _ :: _ :: extra :: _ => usage name (Bytes.ofText "extra operand " ++ inQuotes extra)
    | none, numbers =>
      let bad := numbers.find? fun n => (integer? n).isNone
      usage name (Bytes.ofText "invalid floating point argument: " ++ inQuotes (bad.getD []))
    | some values, _ =>
      let bounds : Option (Int × Int × Int) := match values with
        | [last] => some (1, 1, last)
        | [first, last] => some (first, 1, last)
        | [first, step, last] => some (first, step, last)
        | _ => none
      match bounds with
      | none => usage name (Bytes.ofText "missing operand")
      | some (first, step, last) =>
        if step = 0 then
          usage name (Bytes.ofText "invalid Zero increment value: " ++
            inQuotes ((a.operands[1]?).getD []))
        else
          let ns := countUp first step last 100000
          let texts := ns.map fun n => (toString n).toList
          let width := if a.has 'w' then texts.foldl (fun w t => max w t.length) 0 else 0
          let separator := (a.get? 's').getD ['\n']
          if !ns.isEmpty then
            print (List.intercalate separator (ns.map (zeroPad width)) ++ ['\n'])
          return 0

/-- Waiting takes no time here, but the time is checked. -/
def sleep : Tool := withArguments { letters := "" } 1 fun name a => do
  let isBad (text : Bytes) : Bool :=
    let digits := text.takeWhile fun c => c.isDigit || c == '.'
    let units := ["", "s", "m", "h", "d"]
    digits.isEmpty || !units.contains (String.ofList (text.drop digits.length))
  if a.operands.isEmpty then usage name (Bytes.ofText "missing operand")
  else
    match a.operands.find? isBad with
    | some text => usage name (Bytes.ofText "invalid time interval " ++ inQuotes text)
    | none => return 0

/-! Expressions over arguments -/

/-- Why an expression has no value; it may end too early. -/
inductive ReckonFault where
  | text (message : String)
  | ended (what : String)

abbrev Reckon := Except ReckonFault

def isTrue (value : Bytes) : Bool := !value.isEmpty && integer? value != some 0

def truthText (b : Bool) : Bytes := if b then ['1'] else ['0']

def reckon (symbol : String) (a b : Bytes) : Reckon Bytes :=
  let compared (test : Ordering → Bool) : Bytes :=
    match integer? a, integer? b with
    | some x, some y => truthText (test (compare x y))
    | _, _ => truthText (test (compareOfLessAndEq a b))
  match symbol with
  | "|" => .ok (if isTrue a then a else if isTrue b then b else ['0'])
  | "&" => .ok (if isTrue a && isTrue b then a else ['0'])
  | "=" | "==" => .ok (compared (· == .eq))
  | "!=" => .ok (compared (· != .eq))
  | "<" => .ok (compared (· == .lt))
  | "<=" => .ok (compared (· != .gt))
  | ">" => .ok (compared (· == .gt))
  | ">=" => .ok (compared (· != .lt))
  | ":" =>
    match Regex.parse {} b with
    | .error message => .error (.text message)
    | .ok (r, tally) =>
      let grouped := 0 < tally.groups
      match r.longest? false { rest := a } with
      | some stop =>
        .ok (if grouped then (stop.groups.lookup 1).getD [] else natText stop.position)
      | none => .ok (if grouped then [] else ['0'])
  | symbol =>
    match integer? a, integer? b with
    | some x, some y =>
      let text (n : Int) : Reckon Bytes := .ok (toString n).toList
      match symbol with
      | "+" => text (x + y)
      | "-" => text (x - y)
      | "*" => text (x * y)
      | "/" => if y = 0 then .error (.text "division by zero") else text (x.tdiv y)
      | _ => if y = 0 then .error (.text "division by zero") else text (x.tmod y)
    | _, _ => .error (.text "non-integer argument")

/-- How tightly an operator binds. -/
def tightness? (word : Bytes) : Option Nat :=
  match String.ofList word with
  | "|" => some 1
  | "&" => some 2
  | "=" | "==" | "!=" | "<" | "<=" | ">" | ">=" => some 3
  | "+" | "-" => some 4
  | "*" | "/" | "%" => some 5
  | ":" => some 6
  | _ => none

mutual

def reckonFrom : Nat → Nat → List Bytes → Reckon (Bytes × List Bytes)
  | 0, _, _ => .error (.text "syntax error")
  | fuel + 1, level, words => do
    let (a, rest) ← operand fuel words
    reckonChain fuel level a rest

def reckonChain : Nat → Nat → Bytes → List Bytes → Reckon (Bytes × List Bytes)
  | 0, _, _, _ => .error (.text "syntax error")
  | fuel + 1, level, a, words =>
    match words with
    | op :: rest =>
      match tightness? op with
      | some p =>
        if level ≤ p then do
          let (b, rest) ← reckonFrom fuel (p + 1) rest
          reckonChain fuel level (← reckon (String.ofList op) a b) rest
        else .ok (a, words)
      | none => .ok (a, words)
    | [] => .ok (a, [])

def operand : Nat → List Bytes → Reckon (Bytes × List Bytes)
  | 0, _ => .error (.text "syntax error")
  | fuel + 1, words =>
    match words with
    | [] => .error (.ended "missing argument")
    | word :: rest =>
      match String.ofList word, rest with
      | "(", rest => do
        let (a, rest) ← reckonFrom fuel 1 rest
        match rest with
        | [')'] :: rest => return (a, rest)
        | [] => .error (.ended "expecting ')'")
        | word :: _ => .error (.text ("syntax error: expecting ')' instead of '" ++
            String.ofList word ++ "'"))
      | ")", _ => .error (.text "syntax error: unexpected ')'")
      | "+", text :: rest => .ok (text, rest)
      | "length", [] | "match", [] | "substr", [] | "index", [] | "+", [] =>
        .error (.ended "missing argument")
      | "length", text :: rest => .ok (natText text.length, rest)
      | "match", text :: pattern :: rest => do return (← reckon ":" text pattern, rest)
      | "substr", text :: start :: count :: rest =>
        match nat? start, nat? count with
        | some s, some n => .ok (if s = 0 then [] else (text.drop (s - 1)).take n, rest)
        | _, _ => .ok ([], rest)
      | "index", text :: chars :: rest =>
        .ok (natText ((text.findIdx? chars.contains).elim 0 (· + 1)), rest)
      | _, rest => .ok (word, rest)

end

def expr : Tool := fun name args => do
  if args.isEmpty then
    let _ ← usage name (Bytes.ofText "missing operand")
    return 2
  match reckonFrom (8 * args.length + 8) 1 args with
  | .error (.text message) => complain name (Bytes.ofText message); return 2
  | .error (.ended what) =>
    complain name (Bytes.ofText ("syntax error: " ++ what ++ " after ") ++
      inQuotes (args.getLast?.getD []))
    return 2
  | .ok (value, []) =>
    print (value ++ ['\n'])
    return if isTrue value then 0 else 1
  | .ok (_, word :: _) =>
    complain name (Bytes.ofText "syntax error: unexpected argument " ++ inQuotes word)
    return 2

end LoopSafety.Shell.Tool
