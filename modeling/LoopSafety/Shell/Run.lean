import LoopSafety.Nest.Oracle
import LoopSafety.Shell.Program

/-! Running commands. A run is a function of the files and the input that it is given. -/
namespace LoopSafety.Shell

/-- With the option `e`, a failure that nobody looks at ends the shell. -/
def checkExit (tested : Bool) : Run Unit := do
  let s ← shell
  if !tested && s.options.contains 'e' && s.status != 0 then throw .exiting

/-! Simple commands -/

/-- Run a program apart from the shell. -/
def runExternal (below : Below) (words : List Bytes) : Run Unit := do
  match words with
  | [] => pure ()
  | name :: args =>
    match ← findProgram name with
    | .ok tool => apart (runProgram below (args.length + 2) tool name args)
    | .error fault =>
      if fault = .notFound || fault = .notADirectory then
        let what := match (← shell).dialect with
          | .dash => "not found"
          | .bash => if name.contains '/' then fault.reason else "command not found"
        let what := if name.isEmpty then "Permission denied" else what
        complain (name ++ Bytes.ofText (": " ++ what))
        setStatus 127
      else
        complain (name ++ Bytes.ofText (": " ++ fault.reason))
        setStatus 126

/-- Run a function: its arguments and its local variables last as long as it does. -/
def runFunction (below : Below) (tested : Bool) (body : Command) (arguments : List Bytes) :
    Run Unit := do
  let before ← shell
  changeShell fun s => { s with arguments, loops := 0, locals := [] :: s.locals }
  let restore : Run Unit := changeShell fun s =>
    let kept := (s.locals.headD []).foldl (fun bindings (name, old) =>
      match old with
      | some v => bindings.insert name v
      | none => ⟨bindings.entries.filter (·.1 != name)⟩) s.bindings
    { s with arguments := before.arguments, loops := before.loops, locals := before.locals
             bindings := kept }
  try
    below.run tested body
    restore
  catch
    | .returning => restore
    | jump =>
      restore
      throw jump

/-- How a shell would take a word as a command. -/
def describe (verbose : Bool) (word : Bytes) : Run Unit := do
  let s ← shell
  let name := String.ofList word
  let say (text : String) : Run Unit := do
    print ((if verbose then word ++ Bytes.ofText text else word) ++ ['\n'])
    setStatus 0
  if Reader.keywords.contains name then say " is a shell keyword"
  else if s.functions.contains name then say " is a shell function"
  else if Reader.specialBuiltins.contains name then say " is a special shell builtin"
  else if builtinNames.contains name then say " is a shell builtin"
  else
    match ← findProgram word with
    | .ok tool =>
      let path := if word.contains '/' then word else Bytes.ofText ("/usr/bin/" ++ tool)
      print ((if verbose then word ++ Bytes.ofText " is " else []) ++ path ++ ['\n'])
      setStatus 0
    | .error _ =>
      if verbose then print (word ++ Bytes.ofText ": not found\n")
      setStatus 127
where
  builtinNames : List String :=
    ["alias", "cd", "command", "echo", "false", "getopts", "hash", "jobs", "kill", "local",
      "printf", "pwd", "read", "test", "[", "true", "type", "ulimit", "umask", "unalias", "wait"]

/-- Find the file of a script that is run in the same shell. -/
def source (below : Below) (args : List Bytes) : Run Unit := do
  match args with
  | [] => setStatus 0
  | path :: _ =>
    if !path.contains '/' then fail (path ++ Bytes.ofText ": not found")
    match ← readScriptFile path with
    | .error fault =>
      fail (Bytes.ofText "cannot open " ++ path ++ Bytes.ofText (": " ++ openingFault false fault))
    | .ok text =>
      changeShell fun s => { s with builtin := some path, status := 0 }
      try runText below false text catch
        | .returning => pure ()
        | jump => throw jump

/-- The commands that the shell carries out itself. -/
def builtin? (below : Below) (tested : Bool) (name : String) : Option (List Bytes → Run Unit) :=
  match name with
  | ":" | "true" | "ulimit" | "unalias" | "times" | "jobs" => some fun _ => setStatus 0
  | "umask" => some fun args => do
    if args.isEmpty then printText "0022\n"
    setStatus 0
  | "hash" => some fun args => do
    setStatus 0
    for word in args do
      if (← findProgram word).toOption.isNone then
        complain (word ++ Bytes.ofText ": not found")
        setStatus 1
  | "alias" => some Builtin.aliases
  | "wait" => some Builtin.wait
  | "getopts" => some Builtin.getopts
  | "false" => some fun _ => setStatus 1
  | "echo" => some fun args => do
    setStatus 0
    Builtin.write (Bytes.ofText "echo") (match (← shell).dialect with
      | .dash => Format.shellEcho args
      | .bash => Format.plainEcho args)
  | "printf" => some Builtin.printf
  | "test" => some (Builtin.test false)
  | "[" => some (Builtin.test true)
  | "exit" => some fun args => do exitWith (← Builtin.statusOf args)
  | "return" => some fun args => do
    setStatus (← Builtin.statusOf args)
    throw .returning
  | "break" => some fun args => do
    let n ← Builtin.levels args
    let loops := (← shell).loops
    setStatus 0
    if 0 < loops then throw (.breaking (min n loops))
  | "continue" => some fun args => do
    let n ← Builtin.levels args
    let loops := (← shell).loops
    setStatus 0
    if 0 < loops then throw (.continuing (min n loops))
  | "cd" => some Builtin.changeFolder
  | "pwd" => some fun _ => do
    printText (Builtin.pathText (← shell).folder ++ "\n")
    setStatus 0
  | "eval" => some fun args => do
    let status := (← shell).status
    setStatus (if args.isEmpty then 0 else status)
    runText below tested (List.intercalate [' '] args)
  | "." => some (source below)
  | "export" =>
    some (Builtin.markOrList "export" (·.exported) fun v => { v with exported := true })
  | "readonly" =>
    some (Builtin.markOrList "readonly" (·.readOnly) fun v => { v with readOnly := true })
  | "unset" => some Builtin.unsetNames
  | "local" => some Builtin.localNames
  | "set" => some Builtin.settings
  | "shift" => some Builtin.shift
  | "read" => some Builtin.read
  | "trap" => some Builtin.trap
  | "kill" => some (Builtin.kill below)
  | "type" => some fun args => do
    let mut status := 0
    for word in args do
      describe true word
      status := max status (← shell).status
    setStatus status
  | _ => none

/-- Run a builtin command, whose name goes before its complaints. -/
def runBuiltin (name : Bytes) (body : List Bytes → Run Unit) (args : List Bytes) : Run Unit := do
  let before := (← shell).builtin
  let restore : Run Unit := changeShell fun s => { s with builtin := before }
  changeShell fun s => { s with builtin := some name }
  try
    body args
    restore
  catch jump =>
    restore
    throw jump

/-- Assign variables for as long as an action takes. -/
def withAssignments (assignments : List (String × Bytes)) (action : Run Unit) : Run Unit := do
  let before ← shell
  let old := assignments.map fun (name, _) => (name, before.bindings.get? name)
  for (name, value) in assignments do
    assign name value
    Builtin.change name fun v => { v with exported := true }
  let restore : Run Unit := changeShell fun s =>
    { s with bindings := old.foldl (fun bindings (name, v) =>
      match v with
      | some v => bindings.insert name v
      | none => ⟨bindings.entries.filter (·.1 != name)⟩) s.bindings }
  try
    action
    restore
  catch jump =>
    restore
    throw jump

def assignAll (assignments : List (String × Bytes)) : Run Unit := do
  for (name, value) in assignments do assign name value

/-- Replace the shell by a program, or change its channels for good. -/
def exec (below : Below) (assignments : List (String × Bytes)) (redirects : List Redirect)
    (args : List Bytes) : Run Unit := do
  if !(← redirectAll below redirects) then exitWith 2
  if args.isEmpty then
    assignAll assignments
    setStatus 0
  else
    changeShell fun s => { s with builtin := some (Bytes.ofText "exec"), traps := [] }
    withAssignments assignments (runExternal below args)
    throw .exiting

/-- Run words as a command. Functions are passed over if the script asks for it. -/
def runWords (below : Below) (tested : Bool) (assignments : List (String × Bytes))
    (redirects : List Redirect) : Bool → List Bytes → Run Unit
  | _, [] => pure ()
  | functions, name :: args => do
    let text := String.ofList name
    let isSpecial := Reader.specialBuiltins.contains text
    let ordinary (action : Run Unit) : Run Unit := do
      let _ ← withRedirects below redirects (withAssignments assignments action)
    if text = "exec" then exec below assignments redirects args
    else if text = "command" then
      match args with
      | ['-', 'v'] :: rest => ordinary (do for word in rest.take 1 do describe false word)
      | ['-', 'V'] :: rest => ordinary (do for word in rest.take 1 do describe true word)
      | ['-', 'p'] :: rest => runWords below tested assignments redirects false rest
      | rest => runWords below tested assignments redirects false rest
    else match isSpecial, (← shell).functions.get? text, builtin? below tested text with
      | true, _, some body =>
        let done ← withRedirects below redirects do
          assignAll assignments
          runBuiltin name body args
        if !done then exitWith 2
      | _, some body, b =>
        if functions then ordinary (runFunction below tested body args)
        else match b with
          | some body => ordinary (runBuiltin name body args)
          | none => ordinary (runExternal below (name :: args))
      | _, none, some body => ordinary (runBuiltin name body args)
      | _, none, none => ordinary (runExternal below (name :: args))

/-- With the option `x` commands are shown before they run. -/
def trace (assignments : List (String × Bytes)) (words : List Bytes) : Run Unit := do
  if ← hasOption 'x' then
    let shown := assignments.map fun (name, value) => name.toList ++ '=' :: value
    complainBytes (['+', ' '] ++ List.intercalate [' '] (shown ++ words) ++ ['\n'])

def runSimple (below : Below) (tested : Bool) (line : Nat) (assignments : List (String × Word))
    (words : List Word) (redirects : List Redirect) : Run Unit := do
  changeShell fun s => { s with line, captured := none }
  let args ← expandFields below words
  let values : Run (List (String × Bytes)) := assignments.mapM fun (name, w) => do
    return (name, ← expandText below w)
  if args.isEmpty then
    let done ← withRedirects below redirects do
      for (name, w) in assignments do
        let value ← expandText below w
        trace [(name, value)] []
        assign name value
    if done then setStatus ((← shell).captured.getD 0)
  else
    let values ← values
    trace values args
    runWords below tested values redirects true args
  checkExit tested

/-! Compound commands -/

/-- One round of a loop; false if the loop is left. -/
def round (body : Run Unit) : Run Bool := do
  try
    body
    return true
  catch
    | .breaking n => if n ≤ 1 then return false else throw (.breaking (n - 1))
    | .continuing n => if n ≤ 1 then return true else throw (.continuing (n - 1))
    | jump => throw jump

def inLoop (action : Run Unit) : Run Unit := do
  changeShell fun s => { s with loops := s.loops + 1 }
  let restore : Run Unit := changeShell fun s => { s with loops := s.loops - 1 }
  try
    action
    restore
  catch jump =>
    restore
    throw jump

/-- Rounds of a loop while its condition lets it; the last body says how it ends. -/
def runLoop (below : Below) (tested whileTrue : Bool) (condition body : Command) :
    Nat → Nat → Run Unit
  | 0, status => setStatus status
  | fuel + 1, status => do
    let mut holds := false
    let goesOn ← round (below.run true condition)
    if goesOn then holds := ((← shell).status == 0) == whileTrue
    if !goesOn || !holds then setStatus status
    else
      let goesOn ← round (below.run tested body)
      let status := (← shell).status
      if goesOn then runLoop below tested whileTrue condition body fuel status
      else setStatus status

def runForEach (below : Below) (tested : Bool) (name : String) (body : Command) :
    List Bytes → Run Unit
  | [] => pure ()
  | value :: rest => do
    assign name value
    if ← round (below.run tested body) then runForEach below tested name body rest

/-- The first arm with a pattern that fits. -/
def chooseArm (below : Below) (subject : Bytes) :
    List (List Word × Command) → Run (Option Command)
  | [] => return none
  | (patterns, body) :: rest => do
    for w in patterns do
      let pattern := Pattern.ofChars (Cell.pattern (← expandWord below w))
      if pattern.fits subject then return some body
    chooseArm below subject rest

/-- Each command reads what the one before it wrote. -/
def runPiped (below : Below) (tested : Bool) : List Command → Run Unit
  | [] => pure ()
  | [c] => apart (below.run tested c)
  | c :: rest => do
    let i ← openStream (.sink [])
    apart do
      connect 1 i
      below.run tested c
    let written := match (← get).streams[i]? with
      | some (.sink written) => written
      | _ => []
    let before := (← shell).channels
    connect 0 (← openStream (.source written))
    runPiped below tested rest
    changeShell fun s => { s with channels := before }

def runCommand (below : Below) (tested : Bool) : Command → Run Unit
  | .nothing => pure ()
  | .simple line assignments words redirects =>
    runSimple below tested line assignments words redirects
  | .inTurn a b => do
    below.run tested a
    below.run tested b
  | .both a b => do
    below.run true a
    if (← shell).status = 0 then below.run tested b
  | .either a b => do
    below.run true a
    if (← shell).status != 0 then below.run tested b
  | .negated c => do
    below.run true c
    setStatus (if (← shell).status = 0 then 1 else 0)
  | .background c => do
    apart do
      connect 0 (← openStream .null)
      toTheEnd below (below.run tested c)
    changeShell fun s => { s with job := some s.status, status := 0 }
  | .pipeline cs => do
    runPiped below tested cs
    checkExit tested
  | .subshell line body redirects => do
    changeShell fun s => { s with line }
    apart do
      let _ ← withRedirects below redirects
        (toTheEnd below (below.run tested body))
    checkExit tested
  | .redirected line body redirects => do
    changeShell fun s => { s with line }
    let _ ← withRedirects below redirects (below.run tested body)
    checkExit tested
  | .conditional condition consequence alternative => do
    below.run true condition
    if (← shell).status = 0 then below.run tested consequence
    else match alternative with
      | some c => below.run tested c
      | none => setStatus 0
  | .loop whileTrue condition body =>
    inLoop (runLoop below tested whileTrue condition body 100000 0)
  | .forEach line name words body => do
    changeShell fun s => { s with line }
    let values ← expandFields below words
    setStatus 0
    inLoop (runForEach below tested name body values)
  | .choice line subject arms => do
    changeShell fun s => { s with line }
    let text ← expandText below subject
    match ← chooseArm below text arms with
    | some body =>
      setStatus 0
      below.run tested body
    | none => setStatus 0
  | .define name body => do
    changeShell fun s => { s with functions := s.functions.insert name body, status := 0 }

/-- The interpreter for constructs up to some depth. -/
def level : Nat → Below
  | 0 => { run := fun _ _ => exitWith 2, expand := fun _ => exitWith 2 }
  | n + 1 =>
    { run := fun tested c => runCommand (level n) tested c
      expand := fun w => expandWord (level n) w }

/-! Running a program from outside -/

/-- A file that a program name leads to, or why it cannot be started. An argument takes less than
128 KiB. -/
def start? (disk : Disk) (program : String) (args : List String) : Except FileFault String := do
  if (program :: args).any fun text => text.contains '\x00' then throw .nulByte
  let tool ← if program.contains '/' then
      match disk.place Disk.home program with
      | .program tool => pure tool
      | .vacant .. => throw .notFound
      | .nowhere fault => throw fault
      | _ => throw .denied
    else if 255 < program.utf8ByteSize then throw .nameTooLong
    else if program = "." || program = ".." then throw .denied
    else if Disk.programs.contains program then pure program
    else throw .notFound
  if args.any fun text => 131071 < text.utf8ByteSize then throw .tooManyArguments
  return tool

def environment : Table String Variable := Table.ofList [
  ("PATH", { value := some searchPath, exported := true }),
  ("HOME", { value := some (Bytes.ofText "/root"), exported := true }),
  ("PWD", { value := some (Bytes.ofText (Builtin.pathText Disk.home)), exported := true })]

/-- Run a program on a given input. -/
def run (disk : Disk) (program : String) (args : List String) (input : Bytes) : CommandRun :=
  match start? disk program args with
  | .error fault => .notStarted fault
  | .ok tool =>
    let name := Bytes.ofText program
    let machine : Machine :=
      { disk, streams := #[.source input, .sink [], .sink []]
        shell := { name, bindings := environment } }
    let action := runProgram (level 10000) (args.length + 2) tool name (args.map Bytes.ofText)
    let (_, final) := action.run machine
    let written (i : Nat) : Bytes := match final.streams[i]? with
      | some (.sink bytes) => bytes
      | _ => []
    if final.shell.status = 0 then .printed (written 1)
    else .failed (Bytes.toText (written 2))

end LoopSafety.Shell
