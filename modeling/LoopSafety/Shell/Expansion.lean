import LoopSafety.Shell.Arithmetic
import LoopSafety.Shell.Machine
import LoopSafety.Shell.Pattern
import LoopSafety.Shell.Reader

/-! What words stand for: parameters, the output of scripts and arithmetic are put in, the result is
split into fields, fields that are patterns become file names, and quotes are taken away. -/
namespace LoopSafety.Shell

/-- A character of an expanded word. -/
inductive Cell where
  /-- Quoted characters stand for themselves; only what an unquoted expansion gave is split. -/
  | char (c : Char) (quoted splits : Bool)
  /-- One field ends and the next begins. -/
  | boundary
  /-- Here was a quoted text, which makes a field even if it is empty. -/
  | mark
  deriving DecidableEq

namespace Cell

def ofBytes (bytes : Bytes) (quoted splits : Bool) : List Cell := bytes.map (char · quoted splits)

/-- The value of an expansion. -/
def ofValue (quoted : Bool) (bytes : Bytes) : List Cell := ofBytes bytes quoted !quoted

/-- The characters alone; fields are joined by blanks. -/
def text : List Cell → Bytes
  | [] => []
  | char c .. :: rest => c :: text rest
  | boundary :: rest => ' ' :: text rest
  | mark :: rest => text rest

def pattern : List Cell → List PatternChar
  | [] => []
  | char c quoted _ :: rest => (c, quoted) :: pattern rest
  | _ :: rest => pattern rest

/-- What an unquoted expansion gives may be split, also where its word is literal. -/
def splitting : Cell → Cell
  | char c false _ => char c false true
  | cell => cell

end Cell

/-- The parts of the interpreter that work on what lies inside a command or word. The flag says that
somebody looks at how the command ends. -/
structure Below where
  run : Bool → Command → Run Unit
  expand : Word → Run (List Cell)

/-- The value of a parameter that is one text. -/
def parameter? (name : String) : Run (Option Bytes) := do
  let s ← shell
  match name with
  | "#" => return some (Bytes.ofText (toString s.arguments.length))
  | "?" => return some (Bytes.ofText (toString s.status))
  | "$" => return some (Bytes.ofText "4242")
  | "!" => return s.job.map fun _ => Bytes.ofText "4243"
  | "-" => return some s.options
  | "0" => return some s.name
  | name =>
    match name.toNat? with
    | some n => return if n = 0 then some s.name else s.arguments[n - 1]?
    | none => valueOf? name

/-- Run the lines of a script; a fault in it ends the shell. -/
def runText (below : Below) (tested : Bool) (text : Bytes) : Run Unit := do
  let (lines, fault) := readScript text
  for line in lines do
    if !(← shell).options.contains 'n' then below.run tested line
  match fault with
  | none => pure ()
  | some fault =>
    changeShell fun s => { s with line := fault.line }
    fail (Bytes.ofText fault.message)

/-- Run an action as the whole of a shell, up to its end and what it left to do there. -/
def toTheEnd (below : Below) (action : Run Unit) : Run Unit := do
  try action catch _ => pure ()
  match (← shell).traps.lookup 0 with
  | none => pure ()
  | some text =>
    let status := (← shell).status
    setTrap 0 none
    try
      runText below false text
      setStatus status
    catch
      | .exiting => pure ()
      | _ => setStatus status

/-- Run a command with its output caught. -/
def capture (below : Below) (command : Command) : Run Bytes := do
  let i ← openStream (.sink [])
  apart do
    connect 1 i
    toTheEnd below (below.run false command)
  changeShell fun s => { s with captured := some s.status }
  match (← get).streams[i]? with
  | some (.sink written) => return written
  | _ => return []

def dropLineEnds (bytes : Bytes) : Bytes := (bytes.reverse.dropWhile (· == '\n')).reverse

def integerText (value : Int64) : Bytes := Bytes.ofText (toString value.toInt)

def illegalNumber {α : Type} (text : Bytes) : Run α :=
  fail (Bytes.ofText "Illegal number: " ++ text)

namespace Arithmetic

def fault {α : Type} (source : Bytes) (message : String) : Run α :=
  fail (Bytes.ofText ("arithmetic expression: " ++ message ++ ": \"") ++ source ++ ['"'])

/-- The value of an expression whose text is `source`. -/
def evaluate (source : Bytes) : Expr → Run Int64
  | .number value => return value
  | .name name => do
    let text := (← valueOf? name).getD []
    match integer? text with
    | some value => return value
    | none => illegalNumber text
  | .unary symbol e => do return applyUnary symbol (← evaluate source e)
  | .binary "&&" a b => do
    if (← evaluate source a) == 0 then return 0
    return truth ((← evaluate source b) != 0)
  | .binary "||" a b => do
    if (← evaluate source a) != 0 then return 1
    return truth ((← evaluate source b) != 0)
  | .binary symbol a b => do
    let a ← evaluate source a
    let b ← evaluate source b
    match applyBinary? symbol a b with
    | some value => return value
    | none => fault source "division by zero"
  | .conditional c a b => do
    if (← evaluate source c) != 0 then evaluate source a else evaluate source b
  | .assign name operation e => do
    let new ← evaluate source e
    let value ← match operation with
      | none => pure new
      | some symbol => do
        let old ← evaluate source (.name name)
        match applyBinary? symbol old new with
        | some value => pure value
        | none => fault source "division by zero"
    Shell.assign name (integerText value)
    return value

end Arithmetic

def arithmetic (source : Bytes) : Run Int64 :=
  match Arithmetic.parse source with
  | .ok e => Arithmetic.evaluate source e
  | .error message => Arithmetic.fault source message

/-- All arguments: quoted they are fields, or one text with the first separator between. -/
def argumentCells (joined quoted : Bool) : Run (List Cell) := do
  let arguments := (← shell).arguments
  if joined && quoted then
    let between := (← separators).take 1
    return Cell.ofBytes (List.intercalate between arguments) true false
  let cells := arguments.map fun a =>
    (if quoted then [Cell.mark] else []) ++ Cell.ofValue quoted a
  return List.intercalate [Cell.boundary] cells

def isArgumentList (name : String) : Bool := name = "@" || name = "*"

/-- The cells of a parameter, if it has a value that counts. -/
def parameterCells? (name : String) (orEmpty quoted : Bool) : Run (Option (List Cell)) := do
  if isArgumentList name then
    let cells ← argumentCells (name = "*") quoted
    let missing := (← shell).arguments.isEmpty || (orEmpty && (Cell.text cells).isEmpty)
    return if missing then none else some cells
  match ← parameter? name with
  | none => return none
  | some value => return if orEmpty && value.isEmpty then none else some (Cell.ofValue quoted value)

def unset {α : Type} (name : String) (message : Bytes) : Run α :=
  fail (Bytes.ofText name ++ [':', ' '] ++ message)

def notSet : Bytes := Bytes.ofText "parameter not set"

def expandParameter (below : Below) (name : String) (quoted : Bool) : Use → Run (List Cell)
  | .value => do
    match ← parameterCells? name false quoted with
    | some cells => return cells
    | none =>
      if (← hasOption 'u') && !isArgumentList name then unset name notSet
      return []
  | .length => do
    if isArgumentList name then
      return Cell.ofValue quoted (Bytes.ofText (toString (← shell).arguments.length))
    match ← parameter? name with
    | some value => return Cell.ofValue quoted (Bytes.ofText (toString value.length))
    | none =>
      if ← hasOption 'u' then unset name notSet
      return Cell.ofValue quoted ['0']
  | .default orEmpty word => do
    match ← parameterCells? name orEmpty quoted with
    | some cells => return cells
    | none => return (← below.expand word).map fun c => if quoted then c else c.splitting
  | .assign orEmpty word => do
    match ← parameterCells? name orEmpty quoted with
    | some cells => return cells
    | none =>
      let value := Cell.text (← below.expand word)
      if !isName name.toList then unset name (Bytes.ofText "bad variable name")
      assign name value
      return Cell.ofValue quoted value
  | .demand orEmpty word => do
    match ← parameterCells? name orEmpty quoted with
    | some cells => return cells
    | none =>
      let message := Cell.text (← below.expand word)
      if !message.isEmpty then unset name message
      else unset name (notSet ++ if orEmpty then Bytes.ofText " or null" else [])
  | .replace orEmpty word => do
    match ← parameterCells? name orEmpty quoted with
    | some _ => return (← below.expand word).map fun c => if quoted then c else c.splitting
    | none => return []
  | .trim atEnd longest word => do
    let pattern := Pattern.ofChars (Cell.pattern (← below.expand word))
    match ← parameterCells? name false quoted with
    | some cells => return Cell.ofValue quoted (pattern.trim atEnd longest (Cell.text cells))
    | none =>
      if (← hasOption 'u') && !isArgumentList name then unset name notSet
      return []
  | .malformed => fail (Bytes.ofText "Bad substitution")

def expandPart (below : Below) : Part → Run (List Cell)
  | .text bytes quoted => do
    return (if quoted then [Cell.mark] else []) ++ Cell.ofBytes bytes quoted false
  | .home => do
    return Cell.ofBytes ((← valueOf? "HOME").getD ['~']) true false
  | .parameter name use quoted => expandParameter below name quoted use
  | .output script quoted => do
    let bytes ← capture below script
    return Cell.ofValue quoted (dropLineEnds (bytes.filter (· != '\x00')))
  | .arithmetic inner quoted => do
    let value ← arithmetic (Cell.text (← below.expand inner))
    return Cell.ofValue quoted (integerText value)

def expandWord (below : Below) (w : Word) : Run (List Cell) := do
  return (← w.mapM (expandPart below)).flatten

/-- A word where it cannot be more than one field. -/
def expandText (below : Below) (w : Word) : Run Bytes := do
  return Cell.text (← expandWord below w)

/-- A field under construction, latest cell first. -/
structure Splitting where
  fields : List (List Cell) := []
  current : List Cell := []
  started : Bool := false
  /-- A blank ended the field before, so a separator that follows belongs to the same gap. -/
  afterBlank : Bool := false

namespace Splitting

def close (s : Splitting) (afterBlank : Bool) : Splitting :=
  { fields := s.current.reverse :: s.fields, afterBlank }

def step (separators : Bytes) (s : Splitting) : Cell → Splitting
  | .boundary => if s.started then s.close false else s
  | .mark => { s with started := true }
  | .char c quoted splits =>
    if splits && separators.contains c then
      if c == ' ' || c == '\t' || c == '\n' then if s.started then s.close true else s
      else if s.started || !s.afterBlank then s.close false
      else { s with afterBlank := false }
    else { s with current := .char c quoted splits :: s.current, started := true }

end Splitting

def splitFields (separators : Bytes) (cells : List Cell) : List (List Cell) :=
  let s := cells.foldl (Splitting.step separators) {}
  (if s.started then s.close false else s).fields.reverse

/-! File names -/

/-- The names in a folder, in order. -/
def namesIn (d : Disk) (folder : Path) : List String :=
  let paths := d.files.keys ++ Disk.systemFolders ++ d.folders ++
    Disk.programs.map fun name => ["usr", "bin", name]
  let names := paths.filterMap fun path =>
    if folder.isPrefixOf path then path[folder.length]? else none
  (names.mergeSort fun a b => a ≤ b).eraseDups

/-- The paths that follow a list of patterns, one a step, from what has been found so far. -/
def followPatterns (d : Disk) (here : Path) : List (List PatternChar) → List Bytes → List Bytes
  | [], found => found
  | step :: rest, found =>
    let literal := step.map (·.1)
    let pattern := Pattern.ofChars step
    let next (start : Bytes) : List Bytes :=
      if pattern.isLiteral then [start ++ literal]
      else
        let folder := if start.isEmpty then ['.'] else start
        match d.place here (Bytes.toText folder) with
        | .folder path =>
          let hidden := literal.head? == some '.'
          ((namesIn d path).map Bytes.ofText).filterMap fun name =>
            if (hidden || name.head? != some '.') && pattern.fits name then some (start ++ name)
            else none
        | _ => []
    let slash (p : Bytes) : Bytes := if rest.isEmpty then p else p ++ ['/']
    followPatterns d here rest ((found.flatMap next).map slash)

def splitSlashes : List PatternChar → List (List PatternChar)
  | [] => [[]]
  | (c, quoted) :: rest =>
    match splitSlashes rest with
    | [] => [[(c, quoted)]]
    | first :: more => if c == '/' then [] :: first :: more else ((c, quoted) :: first) :: more

/-- A field that is a pattern becomes the names of the files that it fits, if there are any. -/
def fileNames (field : List Cell) : Run (List Bytes) := do
  let chars := Cell.pattern field
  if (Pattern.ofChars chars).isLiteral || (← hasOption 'f') then return [Cell.text field]
  let m ← get
  let found := followPatterns m.disk m.shell.folder (splitSlashes chars) [[]]
  let exist := found.filter fun path =>
    match m.disk.place m.shell.folder (Bytes.toText path) with
    | .vacant .. | .nowhere _ => false
    | _ => true
  return if exist.isEmpty then [Cell.text field] else exist

/-- The fields that words stand for. -/
def expandFields (below : Below) (words : List Word) : Run (List Bytes) := do
  let separators ← separators
  let fields ← words.mapM fun w => do
    let fields := splitFields separators (← expandWord below w)
    return (← fields.mapM fileNames).flatten
  return fields.flatten

end LoopSafety.Shell
