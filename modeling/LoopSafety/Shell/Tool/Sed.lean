import LoopSafety.Shell.Regex
import LoopSafety.Shell.Tool.Characters

/-! Editing lines by a script. -/
namespace LoopSafety.Shell.Tool

namespace Editor

inductive Address where
  | number (n : Nat)
  | last
  /-- Every so many lines from some line on. -/
  | stride (first step : Nat)
  /-- Lines that match; without an expression, the one that was used last. -/
  | expression (r : Option Regex) (ignoreCase : Bool)
  /-- So many lines after the start of a range. -/
  | following (n : Nat)

structure Selector where
  first : Option Address := none
  second : Option Address := none
  negated : Bool := false

/-- How the case of replaced text changes: that of the next character, or of all up to the end. -/
inductive CaseChange where
  | upper | lower | upperOne | lowerOne | stop

inductive Replacement where
  | text (bytes : Bytes)
  | group (n : Nat)
  | case (change : CaseChange)

inductive Operation where
  /-- Go on after the given instruction if the line is not selected. -/
  | block (stop : Nat)
  | substitute (r : Option Regex) (ignoreCase : Bool) (replacement : List Replacement)
      (occurrence : Nat) (everywhere shows : Bool)
  | exchangeChars (source target : Bytes)
  | display | displayFirst | delete | deleteFirst
  | quit (status : Nat) (shows : Bool)
  | lineNumber
  | next | joinNext
  | hold | holdMore | recall | recallMore | exchange
  | append (text : Bytes) | insert (text : Bytes) | change (text : Bytes)
  | jump (label : Bytes) | jumpIfChanged (label : Bytes) | jumpUnlessChanged (label : Bytes)
  | label (name : Bytes)

structure Instruction where
  selector : Selector
  operation : Operation

/-! Reading scripts -/

/-- A fault with the number of characters read. -/
structure Fault where
  position : Nat
  message : String

/-- The text of a script with what is left of it, and the notation of its expressions. -/
structure Source where
  length : Nat
  extended : Bool

def Source.fault {α : Type} (s : Source) (rest : Bytes) (message : String) : Except Fault α :=
  .error ⟨s.length - rest.length, message⟩

def skipSpace (text : Bytes) : Bytes := text.dropWhile fun c => c == ' ' || c == '\t'

def skipGaps (text : Bytes) : Bytes :=
  text.dropWhile fun c => c == ' ' || c == '\t' || c == ';' || c == '\n'

/-- Text up to a delimiter. The delimiter may be escaped, and stands for itself in brackets. -/
def delimited (delimiter : Char) (brackets : Bool) : Nat → Bool → Bytes → Option (Bytes × Bytes)
  | 0, _, _ => none
  | _, _, [] => none
  | fuel + 1, inside, '\\' :: c :: rest => do
    let (text, after) ← delimited delimiter brackets fuel inside rest
    if c == delimiter && !inside then return (c :: text, after)
    else if c == 'n' && !inside && !brackets then return ('\\' :: 'n' :: text, after)
    else return ('\\' :: c :: text, after)
  | fuel + 1, inside, c :: rest =>
    if c == delimiter && !inside then some ([], rest)
    else if c == '\n' && brackets && !inside then none
    else do
      let inside := if !brackets then false
        else if inside then c != ']' else c == '['
      let (text, after) ← delimited delimiter brackets fuel inside rest
      return (c :: text, after)

def until? (delimiter : Char) (brackets : Bool) (text : Bytes) : Option (Bytes × Bytes) :=
  delimited delimiter brackets (text.length + 1) false text

/-- An expression with the number of its groups; an empty one stands for the one used last. -/
def expression (s : Source) (rest text : Bytes) : Except Fault (Option (Regex × Nat)) :=
  if text.isEmpty then .ok none
  else match Regex.parse { extended := s.extended, strict := true } text with
    | .ok (r, tally) => .ok (some (r, tally.groups))
    | .error message => s.fault rest message

def address? (s : Source) : Bytes → Except Fault (Option (Address × Bytes))
  | '$' :: rest => .ok (some (.last, rest))
  | '/' :: rest =>
    match until? '/' true rest with
    | none => s.fault [] "unterminated address regex"
    | some (text, after) => do
      let r := (← expression s after text).map (·.1)
      match after with
      | 'I' :: after => return some (.expression r true, after)
      | after => return some (.expression r false, after)
  | '\\' :: c :: rest =>
    match until? c true rest with
    | none => s.fault [] "unterminated address regex"
    | some (text, after) => do
      return some (.expression ((← expression s after text).map (·.1)) false, after)
  | text =>
    let ds := text.takeWhile Char.isDigit
    if ds.isEmpty then .ok none
    else
      let n := Arithmetic.natOf 10 ds
      match text.drop ds.length with
      | '~' :: rest =>
        let step := rest.takeWhile Char.isDigit
        .ok (some (.stride n (Arithmetic.natOf 10 step), rest.drop step.length))
      | rest => .ok (some (.number n, rest))

def selector (s : Source) (text : Bytes) : Except Fault (Selector × Bytes) := do
  let finish (sel : Selector) (rest : Bytes) : Except Fault (Selector × Bytes) :=
    match skipSpace rest with
    | '!' :: rest =>
      match skipSpace rest with
      | '!' :: rest => s.fault rest "multiple \x60!'s"
      | rest => .ok ({ sel with negated := true }, rest)
    | rest => .ok (sel, rest)
  match ← address? s text with
  | none => finish {} text
  | some (first, rest) =>
    match skipSpace rest with
    | ',' :: rest =>
      match skipSpace rest with
      | '+' :: rest =>
        let ds := rest.takeWhile Char.isDigit
        let sel := { first := some first, second := some (.following (Arithmetic.natOf 10 ds)) }
        finish sel (rest.drop ds.length)
      | rest =>
        match ← address? s rest with
        | some (second, rest) => finish { first := some first, second := some second } rest
        | none => s.fault rest "unexpected \x60,'"
    | _ => finish { first := some first } rest

/-- Line zero may only start a range up to a match. -/
def Selector.misusesZero (sel : Selector) : Bool :=
  match sel.first, sel.second with
  | some (.number 0), some (.expression ..) => false
  | some (.number 0), _ => true
  | _, _ => false

/-- The parts of a replacement text. -/
def replacement : Bytes → List Replacement
  | [] => []
  | '&' :: rest => .group 0 :: replacement rest
  | '\\' :: c :: rest =>
    (if c.isDigit then .group (c.toNat - '0'.toNat)
     else if c == 'n' then .text ['\n']
     else if c == 't' then .text ['\t']
     else match c with
       | 'U' => .case .upper
       | 'L' => .case .lower
       | 'u' => .case .upperOne
       | 'l' => .case .lowerOne
       | 'E' => .case .stop
       | c => .text [c]) :: replacement rest
  | c :: rest => .text [c] :: replacement rest

/-- The highest group that a replacement names. -/
def highestGroup (parts : List Replacement) : Nat :=
  parts.foldl (fun n part => match part with
    | .group k => max n k
    | _ => n) 0

/-- The flags after a substitution. -/
structure Flags where
  everywhere : Bool := false
  shows : Bool := false
  ignoreCase : Bool := false
  occurrence : Option Nat := none

def isEnd (text : Bytes) : Bool :=
  match text with
  | [] => true
  | c :: _ => c == ';' || c == '\n' || c == '\x7d' || c == '#'

def flags (s : Source) : Nat → Flags → Bytes → Except Fault (Flags × Bytes)
  | 0, f, text => .ok (f, text)
  | _, f, [] => .ok (f, [])
  | fuel + 1, f, c :: rest =>
    if c == 'g' then
      if f.everywhere then s.fault rest "multiple \x60g' options to \x60s' command"
      else flags s fuel { f with everywhere := true } rest
    else if c == 'p' then
      if f.shows then s.fault rest "multiple \x60p' options to \x60s' command"
      else flags s fuel { f with shows := true } rest
    else if c == 'i' || c == 'I' then flags s fuel { f with ignoreCase := true } rest
    else if c.isDigit then
      let ds := (c :: rest).takeWhile Char.isDigit
      let after := (c :: rest).drop ds.length
      let n := Arithmetic.natOf 10 ds
      if f.occurrence.isSome then s.fault after "multiple number options to \x60s' command"
      else if n = 0 then s.fault after "number option to \x60s' command may not be zero"
      else flags s fuel { f with occurrence := some n } after
    else if isEnd (skipSpace (c :: rest)) then .ok (f, c :: rest)
    else s.fault rest "unknown option to \x60s'"

/-- The text of an insertion: after a backslash and a line end, or on the same line. -/
def insertion (text : Bytes) : Bytes × Bytes :=
  let body := match skipSpace text with
    | '\\' :: rest =>
      match skipSpace rest with
      | '\n' :: rest => rest
      | rest => rest
    | rest => rest
  go (body.length + 1) body
where
  go : Nat → Bytes → Bytes × Bytes
    | 0, text => ([], text)
    | _, [] => ([], [])
    | fuel + 1, '\\' :: c :: rest => let (t, after) := go fuel rest; (c :: t, after)
    | fuel + 1, c :: rest =>
      if c == '\n' then ([], rest) else let (t, after) := go fuel rest; (c :: t, after)

/-- A command after its address. -/
def operation (s : Source) (text : Bytes) : Except Fault (Operation × Bytes) := do
  let plain (op : Operation) (rest : Bytes) : Except Fault (Operation × Bytes) :=
    if isEnd (skipSpace rest) then .ok (op, rest)
    else s.fault (rest.drop 1) "extra characters after command"
  let labelled (op : Bytes → Operation) (rest : Bytes) : Operation × Bytes :=
    let rest := skipSpace rest
    let name := rest.takeWhile fun c => c != ';' && c != '\n' && c != ' ' && c != '\x7d'
    (op name, rest.drop name.length)
  match text with
  | [] => s.fault [] "missing command"
  | c :: rest =>
    match c with
    | 'p' => plain .display rest
    | 'P' => plain .displayFirst rest
    | 'd' => plain .delete rest
    | 'D' => plain .deleteFirst rest
    | '=' => plain .lineNumber rest
    | 'n' => plain .next rest
    | 'N' => plain .joinNext rest
    | 'h' => plain .hold rest
    | 'H' => plain .holdMore rest
    | 'g' => plain .recall rest
    | 'G' => plain .recallMore rest
    | 'x' => plain .exchange rest
    | 'q' | 'Q' =>
      let rest := skipSpace rest
      let ds := rest.takeWhile Char.isDigit
      plain (.quit (Arithmetic.natOf 10 ds) (c == 'q')) (rest.drop ds.length)
    | 'a' | 'i' | 'c' =>
      if (skipSpace rest).isEmpty then s.fault rest "expected \\ after \x60a', \x60c' or \x60i'"
      else
        let (body, rest) := insertion rest
        let op := if c == 'a' then Operation.append else if c == 'i' then .insert else .change
        return (op (body ++ ['\n']), rest)
    | 'b' => return labelled .jump rest
    | 't' => return labelled .jumpIfChanged rest
    | 'T' => return labelled .jumpUnlessChanged rest
    | ':' =>
      let rest := skipSpace rest
      let name := rest.takeWhile fun c => c != ';' && c != '\n' && c != ' '
      if name.isEmpty then s.fault rest "\":\" lacks a label"
      return (.label name, rest.drop name.length)
    | 's' =>
      match rest with
      | [] => s.fault [] "unterminated \x60s' command"
      | delimiter :: rest =>
        match until? delimiter true rest with
        | none => s.fault [] "unterminated \x60s' command"
        | some (pattern, rest) =>
          match until? delimiter false rest with
          | none => s.fault [] "unterminated \x60s' command"
          | some (target, rest) =>
            let (f, rest) ← flags s rest.length {} rest
            let r ← expression s rest pattern
            let parts := replacement target
            let highest := highestGroup parts
            if r.any (·.2 < highest) then
              s.fault rest
                ("invalid reference \\" ++ toString highest ++ " on \x60s' command's RHS")
            return (.substitute (r.map (·.1)) f.ignoreCase parts (f.occurrence.getD 1) f.everywhere
              f.shows, rest)
    | 'y' =>
      match rest with
      | [] => s.fault [] "unterminated \x60y' command"
      | delimiter :: rest =>
        match until? delimiter false rest with
        | none => s.fault [] "unterminated \x60y' command"
        | some (source, rest) =>
          match until? delimiter false rest with
          | none => s.fault [] "unterminated \x60y' command"
          | some (target, rest) =>
            let (source, target) := (plainChars source, plainChars target)
            if source.length != target.length then
              s.fault rest "strings for \x60y' command are different lengths"
            else return (.exchangeChars source target, rest)
    | c => s.fault rest ("unknown command: \x60" ++ c.toString ++ "'")
where
  plainChars : Bytes → Bytes
    | '\\' :: 'n' :: rest => '\n' :: plainChars rest
    | '\\' :: c :: rest => c :: plainChars rest
    | c :: rest => c :: plainChars rest
    | [] => []

/-- The instructions of a script in a row. An opening brace says where its block ends. -/
def instructions (s : Source) :
    Nat → Nat → Nat → Bytes → Except Fault (List Instruction × Bytes)
  | 0, _, _, _ => .ok ([], [])
  | fuel + 1, depth, index, text =>
    match skipGaps text with
    | [] => if depth = 0 then .ok ([], []) else .error ⟨0, "unmatched \x60\x7b'"⟩
    | '#' :: rest => instructions s fuel depth index (rest.dropWhile (· != '\n'))
    | '\x7d' :: rest =>
      if depth = 0 then s.fault rest "unexpected \x60\x7d'" else .ok ([], rest)
    | text => do
      let (sel, rest) ← selector s text
      if sel.misusesZero then s.fault (rest.drop 1) "invalid usage of line address 0"
      match rest with
      | '\x7b' :: rest =>
        let (body, rest) ← instructions s fuel (depth + 1) (index + 1) rest
        let stop := index + 1 + body.length
        let (more, rest) ← instructions s fuel depth stop rest
        return (⟨sel, .block stop⟩ :: body ++ more, rest)
      | rest =>
        let (op, rest) ← operation s rest
        let (more, rest) ← instructions s fuel depth (index + 1) rest
        return (⟨sel, op⟩ :: more, rest)

def read (extended : Bool) (text : Bytes) : Except Fault (List Instruction) := do
  let (is, _) ← instructions ⟨text.length, extended⟩ (2 * text.length + 8) 0 0 text
  return is

/-! Running -/

structure State where
  lines : List (Bytes × Bool)
  number : Nat := 0
  space : Bytes := []
  ended : Bool := true
  held : Bytes := []
  changed : Bool := false
  /-- Text to be written after the current line. -/
  queue : Bytes := []
  /-- For each instruction whether its range is open, and where it started. -/
  ranges : List (Nat × Nat) := []
  lastExpression : Option Regex := none
  output : Bytes := []
  /-- The last line written had no end, which it gets if more follows. -/
  owesNewline : Bool := false

namespace State

def put (s : State) (bytes : Bytes) : State :=
  if bytes.isEmpty then s
  else { s with output := s.output ++ (if s.owesNewline then ['\n'] else []) ++ bytes
                owesNewline := false }

def showSpace (s : State) : State :=
  let s := s.put (s.space ++ if s.ended then ['\n'] else [])
  -- an empty last line without its end shows nothing
  { s with owesNewline := !s.ended }

def isLast (s : State) : Bool := s.lines.isEmpty

/-- Move on to the next line. -/
def load? (s : State) : Option State :=
  match s.lines with
  | [] => none
  | (line, ended) :: rest =>
    some { s with lines := rest, number := s.number + 1, space := line, ended }

end State

def matchesAddress (s : State) : Address → Bool × State
  | .number n => (s.number = n, s)
  | .last => (s.isLast, s)
  | .stride first step =>
    (if step = 0 then s.number = first else first ≤ s.number && (s.number - first) % step = 0, s)
  | .expression r ignoreCase =>
    match r.or s.lastExpression with
    | some r =>
      ((r.find? ignoreCase { rest := s.space }).isSome, { s with lastExpression := some r })
    | none => (false, s)
  | .following _ => (true, s)

/-- Whether a range that starts on this line goes on after it. -/
def goesOn (s : State) : Address → Bool
  | .number n => s.number < n
  | .following n => 0 < n
  | .last => !s.isLast
  | _ => true

def closes (s : State) (start : Nat) : Address → Bool × State
  | .following n => (start + n ≤ s.number, s)
  | .number n => (n ≤ s.number, s)
  | a => matchesAddress s a

def selects (index : Nat) (sel : Selector) (s : State) : Bool × State :=
  let (hit, s) := match sel.first, sel.second with
    | none, _ => (true, s)
    | some a, none => matchesAddress s a
    | some a, some b =>
      match s.ranges.lookup index with
      | some start =>
        let (closed, s) := closes s start b
        let s := if closed then { s with ranges := s.ranges.filter (·.1 != index) } else s
        -- a range by number that is already passed covers no further line
        match b with
        | .number n => if n < s.number then matchesAddress s a else (true, s)
        | _ => (true, s)
      | none =>
        let (hit, s) : Bool × State := match a with
          | .number 0 => (s.number = 1, s)
          | a => matchesAddress s a
        if hit then
          let fromZero := match a with
            | .number 0 => true
            | _ => false
          let closedAtOnce := fromZero && (matchesAddress s b).1
          if goesOn s b && !closedAtOnce then
            (true, { s with ranges := (index, s.number) :: s.ranges })
          else (true, s)
        else (false, s)
  (hit != sel.negated, s)

/-- The case of text under a lasting change and one for its first character. -/
def changeCase (lasting once : CaseChange) (bytes : Bytes) : Bytes :=
  let turn : CaseChange → Char → Char
    | .upper, c | .upperOne, c => c.toUpper
    | .lower, c | .lowerOne, c => c.toLower
    | .stop, c => c
  match bytes with
  | [] => []
  | c :: rest =>
    turn (match once with
      | .stop => lasting
      | once => once) c :: rest.map (turn lasting)

/-- The text of a replacement, with the changes of case that are in force. -/
def fill (whole : Bytes) (groups : List (Nat × Bytes)) :
    CaseChange → CaseChange → List Replacement → Bytes
  | _, _, [] => []
  | lasting, once, part :: parts =>
    let put (bytes : Bytes) : Bytes :=
      changeCase lasting once bytes ++
        fill whole groups lasting (if bytes.isEmpty then once else .stop) parts
    match part with
    | .text bytes => put bytes
    | .group 0 => put whole
    | .group n => put ((groups.lookup n).getD [])
    | .case .upperOne => fill whole groups lasting .upperOne parts
    | .case .lowerOne => fill whole groups lasting .lowerOne parts
    | .case change => fill whole groups change .stop parts

/-- Replace the chosen matches; `n` counts them from one, and `after` is where the last ended. -/
def replaceFrom (r : Regex) (ignoreCase : Bool) (parts : List Replacement) (occurrence : Nat)
    (everywhere : Bool) : Nat → Nat → Option Nat → Regex.Spot → Bytes × Bool
  | 0, _, _, s => (s.rest, false)
  | fuel + 1, n, after, s =>
    match r.find? ignoreCase s with
    | none => (s.rest, false)
    | some (start, stop) =>
      let passed := s.rest.take (start.position - s.position)
      let whole := start.rest.take (stop.position - start.position)
      let empty := whole.isEmpty
      if empty && after == some start.position then
        -- an empty match right after another one does not count
        match start.rest with
        | [] => (passed, false)
        | c :: _ =>
          let (more, done) :=
            replaceFrom r ignoreCase parts occurrence everywhere fuel n none (start.advance 1)
          (passed ++ c :: more, done)
      else
        let chosen := if everywhere then occurrence ≤ n else n = occurrence
        let new := if chosen then fill whole stop.groups .stop .stop parts else whole
        if chosen && !everywhere then (passed ++ new ++ stop.rest, true)
        else if empty then
          match start.rest with
          | [] => (passed ++ new, chosen)
          | c :: _ =>
            let (more, done) := replaceFrom r ignoreCase parts occurrence everywhere fuel
              (n + 1) none (start.advance 1)
            (passed ++ new ++ c :: more, done || chosen)
        else
          let (more, done) := replaceFrom r ignoreCase parts occurrence everywhere fuel (n + 1)
            (some stop.position) stop
          (passed ++ new ++ more, done || chosen)

/-- What happens after an instruction. -/
inductive Next where
  | goOn
  | goTo (index : Nat)
  | endCycle (shows : Bool)
  /-- Start again without reading a line. -/
  | restart
  | stop (status : Nat) (shows : Bool)

def labelIndex (program : Array Instruction) (name : Bytes) : Option Nat :=
  if name.isEmpty then some program.size
  else program.findIdx? fun i => match i.operation with
    | .label other => other == name
    | _ => false

def perform (program : Array Instruction) (quiet : Bool) (s : State) : Operation → State × Next
  | .block _ | .label _ => (s, .goOn)
  | .display => (s.showSpace, .goOn)
  | .displayFirst => (s.put (s.space.takeWhile (· != '\n') ++ ['\n']), .goOn)
  | .delete => (s, .endCycle false)
  | .deleteFirst =>
    if s.space.contains '\n' then
      ({ s with space := (s.space.dropWhile (· != '\n')).drop 1 }, .restart)
    else (s, .endCycle false)
  | .quit status shows => (s, .stop status shows)
  | .lineNumber => (s.put (natText s.number ++ ['\n']), .goOn)
  | .next =>
    if s.isLast then (s, .stop 0 true)
    else
      let s := if quiet then s else s.showSpace
      let s := { s.put s.queue with queue := [] }
      ((s.load?).getD s, .goOn)
  | .joinNext =>
    if s.isLast then (s, .stop 0 true)
    else
      let before := s.space
      let s := (s.load?).getD s
      ({ s with space := before ++ '\n' :: s.space }, .goOn)
  | .hold => ({ s with held := s.space }, .goOn)
  | .holdMore => ({ s with held := s.held ++ '\n' :: s.space }, .goOn)
  | .recall => ({ s with space := s.held }, .goOn)
  | .recallMore => ({ s with space := s.space ++ '\n' :: s.held }, .goOn)
  | .exchange => ({ s with space := s.held, held := s.space }, .goOn)
  | .append text => ({ s with queue := s.queue ++ text }, .goOn)
  | .insert text => (s.put text, .goOn)
  | .change text => (s.put text, .endCycle false)
  | .exchangeChars source target =>
    ({ s with space := s.space.map (replaceChar source target) }, .goOn)
  | .jump name => (s, .goTo ((labelIndex program name).getD program.size))
  | .jumpIfChanged name =>
    if s.changed then
      ({ s with changed := false }, .goTo ((labelIndex program name).getD program.size))
    else (s, .goOn)
  | .jumpUnlessChanged name =>
    if s.changed then ({ s with changed := false }, .goOn)
    else (s, .goTo ((labelIndex program name).getD program.size))
  | .substitute r ignoreCase parts occurrence everywhere shows =>
    match r.or s.lastExpression with
    | none => (s, .goOn)
    | some r =>
      let s := { s with lastExpression := some r }
      let (space, done) := replaceFrom r ignoreCase parts occurrence everywhere
        (2 * s.space.length + 2) 1 none { rest := s.space }
      if done then
        let s := { s with space, changed := true }
        (if shows then s.showSpace else s, .goOn)
      else (s, .goOn)

/-- Run instructions on the current line. -/
def cycle (program : Array Instruction) (quiet : Bool) : Nat → Nat → State → State × Next
  | 0, _, s => (s, .stop 1 false)
  | fuel + 1, index, s =>
    match program[index]? with
    | none => (s, .endCycle true)
    | some i =>
      let (hit, s) := selects index i.selector s
      if !hit then
        match i.operation with
        | .block stop => cycle program quiet fuel stop s
        | _ => cycle program quiet fuel (index + 1) s
      else
        -- a changed range is replaced as a whole
        let (s, next) : State × Next := match i.operation with
          | .change text =>
            if i.selector.second.isSome && !i.selector.negated && (s.ranges.lookup index).isSome
            then (s, .endCycle false)
            else (s.put text, .endCycle false)
          | op => perform program quiet s op
        match next with
        | .goOn => cycle program quiet fuel (index + 1) s
        | .goTo target => cycle program quiet fuel target s
        | result => (s, result)

def finishLine (quiet shows : Bool) (s : State) : State :=
  let s := if shows && !quiet then s.showSpace else s
  { s.put s.queue with queue := [] }

/-- Run a program on all lines, and say with what status it ends. -/
def run (program : Array Instruction) (quiet : Bool) : Nat → Bool → State → State × Nat
  | 0, _, s => (s, 0)
  | fuel + 1, reload, s =>
    match if reload then s.load? else some s with
    | none => (s, 0)
    | some s =>
      let s := if reload then { s with changed := false } else s
      match cycle program quiet 100000 0 s with
      | (s, .stop status shows) => (finishLine quiet shows s, status)
      | (s, .restart) => run program quiet fuel false { s.put s.queue with queue := [] }
      | (s, .endCycle shows) => run program quiet fuel true (finishLine quiet shows s)
      | (s, _) => run program quiet fuel true s

/-- A label that is jumped to but not there. -/
def missingLabel? (program : Array Instruction) : Option Bytes :=
  program.toList.findSome? fun i =>
    match i.operation with
    | .jump name | .jumpIfChanged name | .jumpUnlessChanged name =>
      if (labelIndex program name).isNone then some name else none
    | _ => none

/-- Whether an instruction needs an earlier expression that is not there. -/
def lacksExpression (program : Array Instruction) : Bool :=
  let uses (i : Instruction) : List (Option Regex) :=
    let of : Option Address → List (Option Regex)
      | some (.expression r _) => [r]
      | _ => []
    of i.selector.first ++ of i.selector.second ++ match i.operation with
      | .substitute r .. => [r]
      | _ => []
  match (program.toList.flatMap uses).head? with
  | some none => true
  | _ => false

end Editor

/-- The lines to edit: those of all operands, up to a folder among them. -/
structure Gathered where
  lines : List (Bytes × Bool) := []
  missing : Bool := false
  folder : Option Bytes := none

def gather (name : Bytes) : Gathered → List Bytes → Run Gathered
  | g, [] => return g
  | g, path :: rest => do
    match ← readOperand path with
    | .ok bytes => gather name { g with lines := g.lines ++ lines bytes } rest
    | .error .isADirectory => return { g with folder := some path }
    | .error fault =>
      complain name (Bytes.ofText "can't read " ++ path ++ [':', ' '] ++ Bytes.ofText fault.reason)
      gather name { g with missing := true } rest

/-- Edit the lines of the operands. -/
def edit (name : Bytes) (program : Array Editor.Instruction) (quiet : Bool)
    (operands : List Bytes) : Run Nat := do
  let g ← gather name {} (if operands.isEmpty then [['-']] else operands)
  let (final, status) :=
    Editor.run program quiet (2 * g.lines.length + 100000) true { lines := g.lines }
  print final.output
  match g.folder with
  | some path =>
    complain name (Bytes.ofText "read error on " ++ path ++ Bytes.ofText ": Is a directory")
    return 4
  | none => return if status != 0 then status else if g.missing then 2 else 0

def sed : Tool :=
  withArguments { letters := "nErsuz", withText := "e", long := [("quiet", 'n'), ("silent", 'n'),
      ("expression", 'e'), ("regexp-extended", 'E')] } 1 fun name a => do
    let given := (a.options.filter (·.1 == 'e')).map (·.2)
    let (script, operands) := match given, a.operands with
      | [], text :: operands => (some text, operands)
      | [], [] => (none, [])
      | given, operands => (some (List.intercalate ['\n'] given), operands)
    let expressionFault (position : Nat) (message : String) : Run Nat := do
      let place := "-e expression #1, char " ++ toString position
      complain name (Bytes.ofText (place ++ ": " ++ message))
      return 1
    match script with
    | none =>
      complainText ("Usage: sed [OPTION]... \x7bscript-only-if-no-other-script\x7d " ++
        "[input-file]...\n\n")
      return 1
    | some script =>
      match Editor.read (a.has 'E' || a.has 'r') script with
      | .error fault => expressionFault fault.position fault.message
      | .ok is =>
        let program := is.toArray
        match Editor.missingLabel? program with
        | some label =>
          complain name (Bytes.ofText "can't find label for jump to \x60" ++ label ++ ['\''])
          return 4
        | none =>
          if Editor.lacksExpression program then
            expressionFault 0 "no previous regular expression"
          else
            let quiet := a.has 'n' || "#n\n".toList.isPrefixOf (script ++ ['\n'])
            edit name program quiet operands

end LoopSafety.Shell.Tool
