import LoopSafety.Shell.Condition
import LoopSafety.Shell.Expansion
import LoopSafety.Shell.Format
import LoopSafety.Shell.Reader
import LoopSafety.Shell.Tool.Basic

/-! Commands that the shell carries out itself. -/
namespace LoopSafety.Shell

namespace Builtin

/-- A complaint that does not end the shell. -/
def refuse (message : Bytes) : Run Unit := do
  complain message
  setStatus 2

/-- Print, and complain if the output is refused. -/
def write (command bytes : Bytes) : Run Unit := do
  modify fun m => { m with refusal := none }
  print bytes
  if (← get).refusal.isSome then
    complain (command ++ Bytes.ofText ": I/O error")
    setStatus 1

def number? (text : Bytes) : Option Nat :=
  match Tool.nat? text with
  | some n => if n < Nat.pow 2 31 then some n else none
  | none => none

def number (text : Bytes) : Run Nat :=
  match number? text with
  | some n => pure n
  | none => illegalNumber text

/-- The status that an ending command names, or else the last one. -/
def statusOf (args : List Bytes) : Run Nat := do
  match args with
  | [] => return (← shell).status
  | text :: _ => return (← number text) % 256

/-- How many loops to leave. -/
def levels (args : List Bytes) : Run Nat := do
  match args with
  | [] => return 1
  | text :: _ =>
    let n ← number text
    if n = 0 then illegalNumber text else return n

def printf (args : List Bytes) : Run Unit := do
  match args with
  | [] | [['-', '-']] => refuse (Bytes.ofText "usage: printf format [arg ...]")
  | ['-', '-'] :: template :: rest => printed template rest
  | ('-' :: c :: _) :: _ => refuse (Bytes.ofText "Illegal option -" ++ [c])
  | template :: rest => printed template rest
where
  printed (template : Bytes) (args : List Bytes) : Run Unit := do
    let p := Format.formatted .shell template args
    for message in p.complaints do complain message
    setStatus p.status
    write (Bytes.ofText "printf") p.output

def test (bracket : Bool) (args : List Bytes) : Run Unit := do
  if bracket && args.getLast? != some [']'] then refuse (Bytes.ofText "missing ]")
  else
    let words := if bracket then args.dropLast else args
    match Condition.holds (← get) words with
    | .ok truth => setStatus (if truth then 0 else 1)
    | .error fault => refuse fault.message

/-! Variables -/

/-- `name` or `name=value`. -/
def binding (word : Bytes) : String × Option Bytes :=
  let name := String.ofList (word.takeWhile (· != '='))
  (name, if word.contains '=' then some ((word.dropWhile (· != '=')).drop 1) else none)

def badName {α : Type} (name : String) : Run α :=
  fail (Bytes.ofText (name ++ ": bad variable name"))

def change (name : String) (f : Variable → Variable) : Run Unit :=
  changeShell fun s =>
    { s with bindings := s.bindings.insert name (f ((s.bindings.get? name).getD {})) }

/-- Assign and mark variables. -/
def mark (f : Variable → Variable) (args : List Bytes) : Run Unit := do
  for word in args do
    if word != ['-', 'p'] && word != ['-', '-'] then
      let (name, value) := binding word
      if !isName name.toList then badName name
      match value with
      | some value => assign name value
      | none => pure ()
      change name f
  setStatus 0

/-- A text between single quotes; those in it stand between double quotes. -/
def quoted (text : Bytes) : Bytes :=
  let pieces := text.flatMap fun c => if c == '\'' then Bytes.ofText "'\"'\"'" else [c]
  ['\''] ++ pieces ++ ['\'']

/-- Show the variables that are marked, or mark some. -/
def markOrList (command : String) (marked : Variable → Bool) (f : Variable → Variable)
    (args : List Bytes) : Run Unit := do
  if args.any fun a => a != ['-', 'p'] then mark f args
  else
    let found := (← shell).bindings.entries.filter fun e => marked e.2
    for (name, v) in found.mergeSort fun a b => decide (a.1 ≤ b.1) do
      let value := v.value.elim [] fun value => '=' :: quoted value
      print (Bytes.ofText (command ++ " " ++ name) ++ value ++ ['\n'])
    setStatus 0

def unsetNames (args : List Bytes) : Run Unit := do
  let (functions, names) := match args with
    | ['-', 'f'] :: rest => (true, rest)
    | ['-', 'v'] :: rest => (false, rest)
    | rest => (false, rest)
  for word in names do
    let name := String.ofList word
    let s ← shell
    if functions then
      let functions : Table String Command := ⟨s.functions.entries.filter (·.1 != name)⟩
      changeShell fun s => { s with functions }
    else
      if !isName word then badName name
      if (s.bindings.get? name).any (·.readOnly) then fail (word ++ Bytes.ofText ": is read only")
      let bindings : Table String Variable := ⟨s.bindings.entries.filter (·.1 != name)⟩
      changeShell fun s => { s with bindings }
  setStatus 0

/-- Variables that the running function gives back when it ends. -/
def localNames (args : List Bytes) : Run Unit := do
  let s ← shell
  match s.locals with
  | [] => refuse (Bytes.ofText "not in a function"); throw .exiting
  | _ =>
    for word in args do
      let (name, value) := binding word
      if !isName name.toList then badName name
      changeShell fun s =>
        match s.locals with
        | frame :: outer =>
          { s with locals := ((name, s.bindings.get? name) :: frame) :: outer }
        | [] => s
      match value with
      | some value => assign name value
      | none => pure ()
    setStatus 0

/-! Options and arguments -/

def optionNames : List (String × Char) :=
  [("allexport", 'a'), ("errexit", 'e'), ("noclobber", 'C'), ("noexec", 'n'), ("noglob", 'f'),
    ("nounset", 'u'), ("verbose", 'v'), ("xtrace", 'x'), ("ignoreeof", 'I'), ("monitor", 'm'),
    ("notify", 'b'), ("stdin", 's'), ("vi", 'V'), ("emacs", 'E'), ("interactive", 'i'),
    ("nolog", 'L'), ("debug", 'D'), ("privileged", 'p')]

def optionLetters : List Char := "aefuvxnCbmisIVEp".toList

def switch (on : Bool) (c : Char) : Run Unit :=
  changeShell fun s =>
    let others := s.options.filter (· != c)
    { s with options := if on then others ++ [c] else others }

/-- Take options; the rest becomes the arguments, if there is any or a double dash says so. -/
def setOptions : Nat → List Bytes → Run (Option (List Bytes))
  | 0, _ => return none
  | _, [] => return none
  | fuel + 1, word :: rest => do
    match word with
    | ['-', '-'] => return some rest
    | ['-'] => switch false 'x'; switch false 'v'; return if rest.isEmpty then none else some rest
    | sign :: letters =>
      if sign != '-' && sign != '+' || letters.isEmpty then return some (word :: rest)
      let on := sign == '-'
      if letters = ['o'] then
        match rest with
        | name :: rest =>
          match optionNames.lookup (String.ofList name) with
          | some c => switch on c; setOptions fuel rest
          | none => fail (Bytes.ofText ("Illegal option " ++ String.ofList [sign] ++ "o ") ++ name)
        | [] => return none
      else
        for c in letters do
          if optionLetters.contains c then switch on c
          else fail (Bytes.ofText "Illegal option " ++ [sign, c])
        setOptions fuel rest
    | [] => return some (word :: rest)

/-- Set options and arguments. -/
def settings (args : List Bytes) : Run Unit := do
  match ← setOptions (args.length + 1) args with
  | some arguments => changeShell fun s => { s with arguments }
  | none => pure ()
  setStatus 0

def shift (args : List Bytes) : Run Unit := do
  let n ← match args with
    | [] => pure 1
    | text :: _ => number text
  let s ← shell
  if s.arguments.length < n then fail (Bytes.ofText "can't shift that many")
  changeShell fun s => { s with arguments := s.arguments.drop n, status := 0 }

/-! Reading a line -/

/-- A line up to its end, with backslashes that protect what follows; a protected line end joins
two lines. Returns the characters, each with whether it is protected, and how many bytes were
read. -/
def inputLine (raw : Bool) : Bytes → List (Char × Bool) × Nat × Bool
  | [] => ([], 0, false)
  | '\n' :: _ => ([], 1, true)
  | '\\' :: rest =>
    if raw then
      let (cs, n, ended) := inputLine raw rest
      (('\\', false) :: cs, n + 1, ended)
    else match rest with
      | '\n' :: rest =>
        let (cs, n, ended) := inputLine raw rest
        (cs, n + 2, ended)
      | c :: rest =>
        let (cs, n, ended) := inputLine raw rest
        ((c, true) :: cs, n + 2, ended)
      | [] => ([], 1, false)
  | c :: rest =>
    let (cs, n, ended) := inputLine raw rest
    ((c, false) :: cs, n + 1, ended)

def isBlankSeparator (separators : Bytes) (c : Char × Bool) : Bool :=
  !c.2 && separators.contains c.1 && (c.1 == ' ' || c.1 == '\t' || c.1 == '\n')

/-- One field for each name; the last one takes the rest of the line. -/
def assignFields (separators : Bytes) : List String → List (Char × Bool) → List (String × Bytes)
  | [], _ => []
  | [name], cs =>
    let cs := cs.dropWhile (isBlankSeparator separators)
    let cs := (cs.reverse.dropWhile (isBlankSeparator separators)).reverse
    -- a single separator at the end belongs to the field before it
    let inner := cs.dropLast
    let isSeparator (c : Char × Bool) : Bool := !c.2 && separators.contains c.1
    let cs := if cs.getLast?.any isSeparator && !inner.any isSeparator then inner else cs
    [(name, cs.map (·.1))]
  | name :: names, cs =>
    let cs := cs.dropWhile (isBlankSeparator separators)
    let isSeparator (c : Char × Bool) : Bool := !c.2 && separators.contains c.1
    let field := cs.takeWhile fun c => !isSeparator c
    let rest := (cs.drop field.length).dropWhile (isBlankSeparator separators)
    let rest := match rest with
      | c :: more => if isSeparator c then more else rest
      | [] => []
    (name, field.map (·.1)) :: assignFields separators names rest

def read (args : List Bytes) : Run Unit := do
  let raw := args.any fun a => a == ['-', 'r']
  let names := (args.filter fun a => a != ['-', 'r'] && a != ['-', '-']).map String.ofList
  if names.isEmpty then refuse (Bytes.ofText "arg count")
  else
    let bytes ← readWith 0 fun bytes => (inputLine raw bytes).2.1
    let (cs, _, ended) := inputLine raw (bytes.getD [])
    for (name, value) in assignFields (← separators) names cs do
      if !isName name.toList then badName name
      assign name value
    setStatus (if ended then 0 else 1)

/-! Places -/

def pathText (path : Path) : String := "/" ++ "/".intercalate path

def changeFolder (args : List Bytes) : Run Unit := do
  let target ← match args.filter fun a => a != ['-', 'P'] && a != ['-', 'L'] && a != ['-', '-'] with
    | [] => do pure ((← valueOf? "HOME").getD ['/'])
    | ['-'] :: _ => do pure ((← valueOf? "OLDPWD").getD ['.'])
    | path :: _ => pure path
  let m ← get
  match m.disk.place m.shell.folder (Bytes.toText target) with
  | .folder path =>
    assign "OLDPWD" (Bytes.ofText (pathText m.shell.folder))
    assign "PWD" (Bytes.ofText (pathText path))
    changeShell fun s => { s with folder := path, status := 0 }
    if args.getLast? == some ['-'] then printText (pathText path ++ "\n")
  | _ => refuse (Bytes.ofText "can't cd to " ++ target)

/-- The signals by name. -/
def signals : List (String × Nat) :=
  [("EXIT", 0), ("HUP", 1), ("INT", 2), ("QUIT", 3), ("KILL", 9), ("USR1", 10), ("USR2", 12),
    ("PIPE", 13), ("ALRM", 14), ("TERM", 15)]

def signal? (text : Bytes) : Option Nat := (signals.lookup (String.ofList text)).or (Tool.nat? text)

/-- Show the traps, or set what to do on some signals. -/
def trap (args : List Bytes) : Run Unit := do
  let set (action : Option Bytes) (names : List Bytes) : Run Unit := do
    setStatus 0
    for name in names do
      match signal? name with
      | some n => setTrap n action
      | none =>
        complainBytes (Bytes.ofText "trap: " ++ name ++ Bytes.ofText ": bad trap\n")
        setStatus 1
  match if args.head? == some ['-', '-'] then args.drop 1 else args with
  | [] =>
    for (n, action) in (← shell).traps.mergeSort fun a b => decide (a.1 ≤ b.1) do
      let name := (signals.find? (·.2 == n)).elim (toString n) (·.1)
      print (Bytes.ofText "trap -- " ++ quoted action ++ Bytes.ofText (" " ++ name ++ "\n"))
    setStatus 0
  | [signal] => set none [signal]
  | ['-'] :: names => set none names
  | action :: names => set (some action) names

/-- A signal reaches the shell itself, which it ends unless there is a trap for it; there are no
other processes. -/
def kill (below : Below) (args : List Bytes) : Run Unit := do
  let (signal, targets) := match args with
    | ['-', 's'] :: name :: rest => (signal? name, rest)
    | ('-' :: name) :: rest => (signal? name, rest)
    | rest => (some 15, rest)
  let own := (← parameter? "$").getD []
  match signal, targets with
  | some n, [target] =>
    if target = own || target = ['0'] then
      match n, (← shell).traps.lookup n with
      | 0, _ => setStatus 0
      | 9, _ | _, none =>
        setTrap 0 none
        exitWith (128 + n)
      | _, some action =>
        setStatus 0
        runText below false action
    else if (Tool.nat? target).isNone then illegalNumber target
    else
      complain (Bytes.ofText "No such process")
      complainText "\n"
      setStatus 1
  | none, _ => refuse (Bytes.ofText "Illegal option -" ++ ((args.headD []).drop 1).take 1)
  | _, _ =>
    refuse (Bytes.ofText ("Usage: kill [-s sigspec | -signum | -sigspec] [pid | job]... or\n" ++
      "kill -l [exitstatus]"))

/-- How the command in the background ended, if it is asked for. -/
def wait (args : List Bytes) : Run Unit := do
  match args, (← shell).job with
  | [], _ => setStatus 0
  | _, some status => setStatus status
  | _, none => setStatus 127

/-! Option letters among arguments -/

/-- One letter that was found: what it is told as, its argument, and where to go on. -/
structure OptionLetter where
  letter : Char
  argument : Option Bytes := none
  place : Nat × Option Nat
  complaint : Option String := none

/-- The next option letter of some arguments, if there is one; `wanted` lists the letters, with a
colon after those that take an argument, and after a colon in front nothing is complained about. -/
def optionLetter? (wanted : Bytes) (args : List Bytes) (place : Nat × Option Nat) :
    Option OptionLetter := do
  let (index, word, offset) ← match place with
    | (k + 2, some used) =>
      let word := (args[k]?).getD []
      if used < word.length then some (k + 2, word, used) else fresh (k + 2)
    | (k, _) => fresh k
  let c ← word[offset]?
  let after : Nat × Option Nat := (index, some (offset + 1))
  let silent := wanted.head? == some ':'
  match wanted.dropWhile (· != c) with
  | [] =>
    return { letter := '?', argument := if silent then some [c] else none, place := after
             complaint := if silent then none else some ("Illegal option -" ++ c.toString) }
  | _ :: ':' :: _ =>
    let rest := word.drop (offset + 1)
    if !rest.isEmpty then return { letter := c, argument := some rest, place := (index, none) }
    match args[index - 1]? with
    | some text => return { letter := c, argument := some text, place := (index + 1, none) }
    | none =>
      return { letter := if silent then ':' else '?', argument := if silent then some [c] else none
               place := after
               complaint :=
                 if silent then none else some ("No arg for -" ++ c.toString ++ " option") }
  | _ => return { letter := c, argument := some [], place := after }
where
  /-- The argument at an index, if it holds letters. -/
  fresh (k : Nat) : Option (Nat × Bytes × Nat) :=
    match args[k - 1]? with
    | some ('-' :: c :: rest) =>
      if c == '-' && rest.isEmpty then none else some (k + 1, '-' :: c :: rest, 1)
    | _ => none

def getopts (args : List Bytes) : Run Unit := do
  match args with
  | wanted :: name :: rest =>
    let s ← shell
    let words := if rest.isEmpty then s.arguments else rest
    -- a script that sets the index starts over
    let index := ((← valueOf? "OPTIND").bind Tool.nat?).getD 1
    let place := if index = s.optionPlace.1 then s.optionPlace else (max 1 index, none)
    match optionLetter? wanted words place with
    | some found =>
      match found.complaint with
      | some text => complainText (text ++ "\n")
      | none => pure ()
      match found.argument with
      | some text => assign "OPTARG" text
      | none => unsetNames [Bytes.ofText "OPTARG"]
      assign "OPTIND" (Tool.natText found.place.1)
      assign (String.ofList name) [found.letter]
      changeShell fun s => { s with optionPlace := found.place, status := 0 }
    | none =>
      let passed := words[place.1 - 1]? == some ['-', '-']
      let index := if passed then place.1 + 1 else place.1
      assign "OPTIND" (Tool.natText index)
      assign (String.ofList name) ['?']
      changeShell fun s => { s with optionPlace := (index, none), status := 1 }
  | _ => fail (Bytes.ofText "Usage: getopts optstring var [arg]")

/-! Names of commands -/

/-- No command has another name here. -/
def aliases (args : List Bytes) : Run Unit := do
  setStatus 0
  for word in args do
    if !word.contains '=' then
      complainBytes (Bytes.ofText "alias: " ++ word ++ Bytes.ofText " not found\n")
      setStatus 1

end Builtin

end LoopSafety.Shell
