import LoopSafety.Shell.Regex
import LoopSafety.Shell.Tool.Basic

/-! Finding lines. -/
namespace LoopSafety.Shell.Tool

/-- What counts as a match in a line. -/
structure Finder where
  patterns : List Regex
  ignoreCase : Bool := false
  wholeLine : Bool := false
  wholeWord : Bool := false

namespace Finder

/-- Matches of one pattern from a place that meet the conditions, the longest first. -/
def hits (f : Finder) (r : Regex) (s : Regex.Spot) : List Regex.Spot :=
  let all := r.run f.ignoreCase { s with groups := [] }
  let all := all.mergeSort fun a b => b.position ≤ a.position
  all.filter fun t =>
    (!f.wholeLine || (s.position = 0 && t.rest.isEmpty)) &&
    (!f.wholeWord || !(s.before.any Regex.isWordChar || t.rest.head?.any Regex.isWordChar))

/-- The first match at a place or after it, and of these the longest. -/
def find? (f : Finder) : Nat → Regex.Spot → Option (Regex.Spot × Regex.Spot)
  | 0, _ => none
  | fuel + 1, s =>
    let ends := f.patterns.flatMap fun r => (f.hits r s).take 1
    match (ends.mergeSort fun a b => b.position ≤ a.position).head? with
    | some t => some (s, t)
    | none => if s.rest.isEmpty then none else f.find? fuel (s.advance 1)

def first? (f : Finder) (line : Bytes) : Option (Regex.Spot × Regex.Spot) :=
  f.find? (line.length + 1) { rest := line }

/-- All matches of a line that are not empty. -/
def all (f : Finder) : Nat → Regex.Spot → List Bytes
  | 0, _ => []
  | fuel + 1, s =>
    match f.find? (s.rest.length + 1) s with
    | none => []
    | some (start, stop) =>
      if start.position = stop.position then
        if start.rest.isEmpty then [] else f.all fuel (start.advance 1)
      else start.rest.take (stop.position - start.position) :: f.all fuel stop

end Finder

def grepUsage : String :=
  "Usage: grep [OPTION]... PATTERNS [FILE]...\nTry 'grep --help' for more information.\n"

/-- The lines of one file, each with its number and whether it matches. -/
def markLines (f : Finder) (inverted : Bool) (bytes : Bytes) : List (Bytes × Nat × Bool) :=
  (((lines bytes).map (·.1)).zipIdx 1).map fun (line, n) =>
    (line, n, (f.first? line).isSome != inverted)

/-- How many lines to show before a matching line and after it, if any are asked for. -/
structure Surroundings where
  before : Nat := 0
  after : Nat := 0

/-- The options set the lines before, after, or on both sides. The fault is a bad number. -/
def Surroundings.ofOptions (a : Arguments) : Except Bytes (Option Surroundings) := do
  let count? (option : Char) : Except Bytes (Option Nat) :=
    match a.get? option with
    | none => .ok none
    | some text => match nat? text with
      | some n => .ok (some n)
      | none => .error text
  match ← count? 'B', ← count? 'A', ← count? 'C' with
  | none, none, none => return none
  | b, a, c => return some { before := b.getD (c.getD 0), after := a.getD (c.getD 0) }

def Surroundings.includes (s : Surroundings) (hits : List Nat) (n : Nat) : Bool :=
  hits.any fun hit => hit ≤ n + s.before && n ≤ hit + s.after

def grepWith (extended fixed : Bool) (name : Bytes) (a : Arguments) : Run Nat := do
  let given := (a.options.filter (·.1 == 'e')).map (·.2)
  let (texts, operands) := match given, a.operands with
    | [], text :: operands => ([text], operands)
    | given, operands => (given, operands)
  let refuse (message : Bytes) : Run Nat := do
    complain name message
    return 2
  if texts.isEmpty then
    complainText grepUsage
    return 2
  let texts := texts.flatMap fun text => ((String.ofList text).splitOn "\n").map String.toList
  let extended := (extended || a.has 'E') && !a.has 'G'
  let parsed := texts.mapM fun text =>
    if fixed || a.has 'F' then .ok (Regex.ofText text, {}) else Regex.parse { extended } text
  match parsed, Surroundings.ofOptions a, (a.get? 'm').map Tool.nat? with
  | _, .error text, _ => refuse (text ++ Bytes.ofText ": invalid context length argument")
  | _, _, some none => refuse (Bytes.ofText "invalid max count")
  | .error message, _, _ => refuse (Bytes.ofText message)
  | .ok parsed, .ok surroundings, most =>
    for warning in parsed.flatMap (·.2.warnings) do complain name (Bytes.ofText warning)
    let f : Finder := { patterns := parsed.map (·.1), ignoreCase := a.has 'i' || a.has 'y'
                        wholeLine := a.has 'x', wholeWord := a.has 'w' }
    let tell (path : Bytes) (fault : FileFault) : Run Unit :=
      if a.has 's' then pure () else complain name (path ++ [':', ' '] ++ Bytes.ofText fault.reason)
    let (found, faults) ← readOperands operands tell
    let named := (1 < operands.length || a.has 'H') && !a.has 'h'
    let mut any := false
    let mut shown := false
    for (path, bytes) in found do
      let title := if path = ['-'] then Bytes.ofText "(standard input)" else path
      let marked := markLines f (a.has 'v') bytes
      let hits := (marked.filter (·.2.2)).map (·.2.1)
      let hits := match most with
        | some (some n) => hits.take n
        | _ => hits
      if !hits.isEmpty then any := true
      let label (sep : Char) (n : Nat) : Bytes :=
        (if named then title ++ [sep] else []) ++ if a.has 'n' then natText n ++ [sep] else []
      if a.has 'q' then pure ()
      else if a.has 'l' then if !hits.isEmpty then print (title ++ ['\n'])
      else if a.has 'L' then if hits.isEmpty then print (title ++ ['\n'])
      else if a.has 'c' then
        print ((if named then title ++ [':'] else []) ++ natText hits.length ++ ['\n'])
      else if a.has 'o' then
        if !a.has 'v' then
          for (line, n, _) in marked.filter fun e => hits.contains e.2.1 do
            for hit in f.all (line.length + 1) { rest := line } do
              print (label ':' n ++ hit ++ ['\n'])
      else
        let mut last := 0
        for (line, n, _) in marked.filter fun e => (surroundings.getD {}).includes hits e.2.1 do
          if surroundings.isSome && shown && last + 1 ≠ n then print (Bytes.ofText "--\n")
          print (label (if hits.contains n then ':' else '-') n ++ line ++ ['\n'])
          last := n
          shown := true
    if any && a.has 'q' then return 0
    return if faults != 0 then 2 else if any then 0 else 1

/-- The patterns are basic expressions unless the tool or its options say otherwise. -/
def grepAs (extended fixed : Bool) : Tool := fun name args => do
  let table : OptionTable :=
    { letters := "EFGivclLnoqsxwhHyaU", withText := "emABC"
      long := [("quiet", 'q'), ("silent", 'q'), ("count", 'c'), ("ignore-case", 'i'),
        ("invert-match", 'v'), ("extended-regexp", 'E'), ("fixed-strings", 'F'),
        ("basic-regexp", 'G'), ("only-matching", 'o'), ("line-number", 'n'), ("word-regexp", 'w'),
        ("line-regexp", 'x'), ("no-messages", 's'), ("regexp", 'e'), ("max-count", 'm'),
        ("files-with-matches", 'l'), ("files-without-match", 'L'), ("with-filename", 'H'),
        ("no-filename", 'h'), ("text", 'a'), ("binary", 'U'), ("after-context", 'A'),
        ("before-context", 'B'), ("context", 'C')] }
  match arguments table (args.length + 1) args with
  | .ok a => grepWith extended fixed name a
  | .error fault =>
    if fault.asksHelp then
      printText grepUsage
      return 0
    complain name fault.message
    complainText grepUsage
    return 2

def grep : Tool := grepAs false false

end LoopSafety.Shell.Tool
