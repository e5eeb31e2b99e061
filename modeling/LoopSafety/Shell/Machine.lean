import LoopSafety.Shell.Disk
import LoopSafety.Shell.Script

/-! The state in which scripts run: open streams, which all parts of a run share, and what belongs
to one shell. -/
namespace LoopSafety.Shell

/-- Something that can be read from or written to. -/
inductive Stream where
  | source (rest : Bytes)
  | sink (written : Bytes)
  | null
  | full
  | file (path : Path) (opening : Opening) (position : Nat)

structure Variable where
  value : Option Bytes := none
  exported : Bool := false
  readOnly : Bool := false

/-- Two shells of one language, which differ in how they complain and in what they print. -/
inductive Dialect where
  | dash | bash
  deriving DecidableEq, Repr

/-- The single-letter options that are on. -/
abbrev Options := List Char

structure ShellState where
  /-- The name under which the shell was started. -/
  name : Bytes
  dialect : Dialect := .dash
  arguments : List Bytes := []
  bindings : Table String Variable := ∅
  functions : Table String Command := ∅
  options : Options := []
  /-- How the last command ended. -/
  status : Nat := 0
  /-- How the last script whose output was taken ended, within one command. -/
  captured : Option Nat := none
  /-- Which stream each channel is connected to. -/
  channels : List (Nat × Nat) := [(0, 0), (1, 1), (2, 2)]
  folder : Path := Disk.home
  line : Nat := 1
  /-- The builtin command that is running. -/
  builtin : Option Bytes := none
  /-- Variables that running functions restore, innermost function first. -/
  locals : List (List (String × Option Variable)) := []
  loops : Nat := 0
  /-- What to run on which signal; the end of the shell counts as signal zero. -/
  traps : List (Nat × Bytes) := []
  /-- How the last command in the background ended. -/
  job : Option Nat := none
  /-- Where the search for option letters stands: the next argument, and the letters of the one
  before it that are used up. -/
  optionPlace : Nat × Option Nat := (1, none)

structure Machine where
  disk : Disk
  streams : Array Stream
  shell : ShellState
  /-- Why the output was refused, if it was. -/
  refusal : Option FileFault := none

/-- What stops a script before its end. -/
inductive Jump where
  | breaking (levels : Nat)
  | continuing (levels : Nat)
  | returning
  | exiting
  deriving DecidableEq

abbrev Run := ExceptT Jump (StateM Machine)

def shell : Run ShellState := do return (← get).shell

def changeShell (f : ShellState → ShellState) : Run Unit :=
  modify fun m => { m with shell := f m.shell }

def setStatus (status : Nat) : Run Unit := changeShell fun s => { s with status }

/-- End the running shell. -/
def exitWith {α : Type} (status : Nat) : Run α := do
  setStatus status
  throw .exiting

def hasOption (option : Char) : Run Bool := do return (← shell).options.contains option

/-! Streams -/

def openStream (s : Stream) : Run Nat :=
  modifyGet fun m => (m.streams.size, { m with streams := m.streams.push s })

def streamOf? (channel : Nat) : Run (Option (Nat × Stream)) := do
  let m ← get
  match m.shell.channels.lookup channel with
  | none => return none
  | some i => return m.streams[i]?.map (i, ·)

def setStream (i : Nat) (s : Stream) : Run Unit :=
  modify fun m => { m with streams := m.streams.setIfInBounds i s }

def connect (channel stream : Nat) : Run Unit :=
  changeShell fun s =>
    { s with channels := (channel, stream) :: s.channels.filter (·.1 != channel) }

def disconnect (channel : Nat) : Run Unit :=
  changeShell fun s => { s with channels := s.channels.filter (·.1 != channel) }

def contents (m : Machine) (path : Path) : Bytes := (m.disk.files.get? path).getD []

/-- All that can be read from a stream. -/
def Stream.available (m : Machine) : Stream → Bytes
  | .source rest => rest
  | .file path .read position | .file path .readWrite position => (contents m path).drop position
  | _ => []

def Stream.advance (n : Nat) : Stream → Stream
  | .source rest => .source (rest.drop n)
  | .file path opening position => .file path opening (position + n)
  | s => s

/-- Read what `count` makes of the bytes at hand: it says how many are taken. -/
def readWith (channel : Nat) (count : Bytes → Nat) : Run (Option Bytes) := do
  match ← streamOf? channel with
  | none => return none
  | some (i, s) =>
    let bytes := s.available (← get)
    let n := count bytes
    setStream i (s.advance n)
    return some (bytes.take n)

def readAll (channel : Nat) : Run (Option Bytes) := readWith channel List.length

/-- Write to a channel; a channel that is closed or full refuses. -/
def write (channel : Nat) (bytes : Bytes) : Run Bool := do
  match ← streamOf? channel with
  | none => return bytes.isEmpty
  | some (i, s) =>
    match s with
    | .sink written => setStream i (.sink (written ++ bytes)); return true
    | .null => return true
    | .full => return bytes.isEmpty
    | .source _ | .file _ .read _ => return bytes.isEmpty
    | .file path opening position =>
      let m ← get
      let old := contents m path
      let start := if opening = .append then old.length else position
      let new := old.take start ++ bytes ++ old.drop (start + bytes.length)
      set { m with disk := { m.disk with files := m.disk.files.insert path new } }
      setStream i (.file path opening (start + bytes.length))
      return true

/-- Write to the output; it is kept in mind if that is refused. -/
def print (bytes : Bytes) : Run Unit := do
  if !(← write 1 bytes) then
    let closed := (← streamOf? 1).isNone
    modify fun m => { m with refusal := some (if closed then .badChannel else .deviceFull) }

def printText (text : String) : Run Unit := print (Bytes.ofText text)

def complainText (text : String) : Run Unit := do let _ ← write 2 (Bytes.ofText text)

def complainBytes (bytes : Bytes) : Run Unit := do let _ ← write 2 bytes

/-- A complaint of the shell names the shell, the line and the running builtin command. -/
def complain (message : Bytes) : Run Unit := do
  let s ← shell
  let line := match s.dialect with
    | .dash => toString s.line
    | .bash => "line " ++ toString s.line
  let place := s.name ++ Bytes.ofText (": " ++ line ++ ": ")
  complainBytes (place ++ s.builtin.elim [] (· ++ [':', ' ']) ++ message ++ ['\n'])

/-- A complaint that ends the shell. -/
def fail {α : Type} (message : Bytes) : Run α := do
  complain message
  exitWith 2

def setTrap (signal : Nat) (action : Option Bytes) : Run Unit :=
  changeShell fun s =>
    let others := s.traps.filter (·.1 != signal)
    { s with traps := action.elim others fun text => (signal, text) :: others }

/-- Run in a shell of its own: what happens to streams and files stays, the rest is forgotten. Of
the traps only those that ignore a signal stay in force. -/
def apart (action : Run Unit) : Run Unit := do
  let before ← shell
  changeShell fun s => { s with traps := s.traps.filter (·.2.isEmpty) }
  try action catch _ => pure ()
  let status := (← shell).status
  changeShell fun _ => { before with status }

/-! Variables -/

def valueOf? (name : String) : Run (Option Bytes) := do
  return (← shell).bindings.get? name >>= (·.value)

def assign (name : String) (value : Bytes) : Run Unit := do
  let s ← shell
  let old := (s.bindings.get? name).getD {}
  if old.readOnly then
    fail (Bytes.ofText (name ++ ": is read only"))
  else
    let exported := old.exported || s.options.contains 'a'
    let bindings := s.bindings.insert name { old with value := some value, exported }
    changeShell fun s => { s with bindings }

/-- What separates fields: blanks, unless the script says otherwise. -/
def separators : Run Bytes := do return (← valueOf? "IFS").getD [' ', '\t', '\n']

end LoopSafety.Shell
