import LoopSafety.Shell.Builtin
import LoopSafety.Shell.Redirection
import LoopSafety.Shell.Tool.Files
import LoopSafety.Shell.Tool.Grep
import LoopSafety.Shell.Tool.Numbers
import LoopSafety.Shell.Tool.Order
import LoopSafety.Shell.Tool.Sed
import LoopSafety.Shell.Tool.Text

/-! Programs: how they are found and what they do. -/
namespace LoopSafety.Shell

def searchPath : Bytes :=
  Bytes.ofText "/usr/local/sbin:/usr/local/bin:/usr/sbin:/usr/bin:/sbin:/bin"

/-- What a command name leads to: a program, or why there is none. -/
def findProgram (name : Bytes) : Run (Except FileFault String) := do
  let m ← get
  let look (path : Bytes) : Except FileFault String :=
    match m.disk.place m.shell.folder (Bytes.toText path) with
    | .program tool => .ok tool
    | .vacant .. => .error .notFound
    | .nowhere fault => .error fault
    | _ => .error .denied
  if name.contains '/' then return look name
  let folders := Tool.splitOn ':' ((← valueOf? "PATH").getD searchPath)
  let found := folders.map fun folder =>
    look ((if folder.isEmpty then ['.'] else folder) ++ '/' :: name)
  match found.find? fun r => r.toOption.isSome with
  | some r => return r
  | none => return .error .notFound

def printfTool : Tool := fun name args => do
  match if args.head? == some ['-', '-'] then args.drop 1 else args with
  | [] => Tool.usage name (Bytes.ofText "missing operand")
  | template :: rest =>
    let p := Format.formatted .program template rest
    for message in p.complaints do Tool.complain name message
    print p.output
    return p.status

/-- As a program, a condition complains in its own words. -/
def conditionFault (words : List Bytes) : Condition.Fault → Bytes
  | .badNumber word => Bytes.ofText "invalid integer " ++ Tool.inQuotes word
  | .unexpected _ =>
    match words with
    | [_, b] => Bytes.ofText "missing argument after " ++ Tool.inQuotes b
    | [_, b, _] => Tool.inQuotes b ++ Bytes.ofText ": binary operator expected"
    | words => Bytes.ofText "extra argument " ++ Tool.inQuotes ((words[1]?).getD [])
  | .lacksOperand word => Bytes.ofText "missing argument after " ++ Tool.inQuotes word
  | .unclosed => Bytes.ofText "')' expected"

def testTool (bracket : Bool) : Tool := fun name args => do
  if bracket && args.getLast? != some [']'] then
    Tool.complain name (Bytes.ofText "missing ']'")
    return 2
  let words := if bracket then args.dropLast else args
  match Condition.holds (← get) words with
  | .ok truth => return if truth then 0 else 1
  | .error fault => Tool.complain name (conditionFault words fault); return 2

/-- The values of variables. -/
def printenv : Tool := Tool.withArguments { letters := "" } 2 fun _ a => do
  let bindings := (← shell).bindings.entries.filter fun e => e.2.exported && e.2.value.isSome
  if a.operands.isEmpty then
    for (key, v) in bindings do print (Bytes.ofText key ++ '=' :: v.value.getD [] ++ ['\n'])
    return 0
  let found := a.operands.map fun key => (bindings.lookup (String.ofList key)).bind (·.value)
  for value in found do
    match value with
    | some value => print (value ++ ['\n'])
    | none => pure ()
  return if found.all Option.isSome then 0 else 1

/-- The tools that need nothing but their arguments and channels. -/
def tools : List (String × Tool) := [
  ("[", testTool true), ("basename", Tool.basename), ("cat", Tool.cat), ("cut", Tool.cut),
  ("dirname", Tool.dirname), ("echo", fun _ args => do print (Format.plainEcho args); return 0),
  ("egrep", Tool.grepAs true false), ("expr", Tool.expr), ("false", fun _ _ => return 1),
  ("fgrep", Tool.grepAs false true), ("grep", Tool.grep), ("head", Tool.head),
  ("mkdir", Tool.makeFolder), ("printenv", printenv), ("printf", printfTool), ("pwd", Tool.pwd),
  ("rm", Tool.remove), ("sed", Tool.sed), ("seq", Tool.seq), ("sleep", Tool.sleep),
  ("sort", Tool.sort), ("tac", Tool.tac), ("tail", Tool.tail), ("tee", Tool.tee),
  ("test", testTool false), ("touch", Tool.touch), ("tr", Tool.tr),
  ("true", fun _ _ => return 0), ("uniq", Tool.uniq), ("wc", Tool.wc)]

/-- The variables that a program inherits. -/
def inherited (s : ShellState) : Table String Variable :=
  ⟨s.bindings.entries.filter fun e => e.2.exported && e.2.value.isSome⟩

/-! A shell as a program -/

/-- How a shell is called: with a script as text, from a file or from its input. -/
inductive Origin where
  | text (script : Bytes)
  | file (path : Bytes)
  | input

/-- Options of a shell, then what it runs, its name and its arguments. -/
structure Invocation where
  options : Options := []
  hasText : Bool := false
  fromInput : Bool := false
  rest : List Bytes := []

/-- Options before the first operand. The fault is the text of the complaint. -/
def Invocation.read : Nat → Invocation → List Bytes → Except Bytes Invocation
  | 0, i, rest => .ok { i with rest }
  | _, i, [] => .ok i
  | fuel + 1, i, word :: rest =>
    match word with
    | ['-', '-'] | ['-'] => .ok { i with rest }
    | sign :: letters =>
      if (sign != '-' && sign != '+') || letters.isEmpty then .ok { i with rest := word :: rest }
      else if letters = ['o'] then
        match rest with
        | name :: rest =>
          match Builtin.optionNames.lookup (String.ofList name) with
          | some c => read fuel { i with options := i.options ++ [c] } rest
          | none => .error (Bytes.ofText "Illegal option " ++ [sign, 'o', ' '] ++ name)
        | [] => .ok i
      else
        match letters.find? fun c => c != 'c' && c != 'l' && !Builtin.optionLetters.contains c with
        | some c => .error (Bytes.ofText "Illegal option " ++ [sign, c])
        | none =>
          let new := letters.filter fun c => c != 'c' && c != 's' && c != 'l'
          let options := if sign == '-' then i.options ++ new
            else i.options.filter fun c => !new.contains c
          let hasText := i.hasText || letters.contains 'c'
          let fromInput := i.fromInput || letters.contains 's'
          read fuel { i with options, hasText, fromInput } rest
    | [] => .ok { i with rest := word :: rest }

/-- The script in a file. A folder opens like a file and holds no commands. -/
def readScriptFile (path : Bytes) : Run (Except FileFault Bytes) := do
  match ← Tool.readPath path with
  | .error .isADirectory => return .ok []
  | script => return script

/-- Run a shell under a name. -/
def shellProgram (below : Below) (dialect : Dialect) (name : Bytes) (args : List Bytes) :
    Run Unit := do
  let start (shellName : Bytes) (arguments : List Bytes) (options : Options) (action : Run Unit) :
      Run Unit := do
    let s ← shell
    changeShell fun _ =>
      { name := shellName, dialect, arguments, options
        bindings := (inherited s).insert "OPTIND" { value := some ['1'] }
        channels := s.channels
        folder := s.folder }
    toTheEnd below action
  let refuse (message : Bytes) : Run Unit := do
    complainBytes (name ++ Bytes.ofText ": 0: " ++ message ++ ['\n'])
    setStatus 2
  match Invocation.read (args.length + 1) {} args with
  | .error message => refuse message
  | .ok i =>
    if i.hasText then
      match i.rest with
      | [] => refuse (Bytes.ofText "-c requires an argument")
      | script :: rest =>
        start (rest.headD name) (rest.drop 1) i.options (runText below false script)
    else
      match i.fromInput, i.rest with
      | false, path :: rest =>
        match ← readScriptFile path with
        | .error fault =>
          refuse (Bytes.ofText "cannot open " ++ path ++
            Bytes.ofText (": " ++ openingFault false fault))
        | .ok script => start path rest i.options (runText below false script)
      | _, rest =>
        let script := (← readAll 0).getD []
        start name rest i.options (runText below false script)

/-- Set variables, then run a program, which is found by its name. -/
def envProgram (run : String → Bytes → List Bytes → Run Unit) (name : Bytes) :
    List Bytes → Run Unit
  | ['-', 'u'] :: key :: rest => do
    let kept := (← shell).bindings.entries.filter (·.1 != String.ofList key)
    changeShell fun s => { s with bindings := ⟨kept⟩ }
    envProgram run name rest
  | [] => do
    for (key, v) in (inherited (← shell)).entries do
      print (Bytes.ofText key ++ '=' :: v.value.getD [] ++ ['\n'])
    setStatus 0
  | word :: rest => do
    if word = ['-', 'i'] || word = ['-'] || word = Bytes.ofText "--ignore-environment" then
      changeShell fun s => { s with bindings := ∅ }
      envProgram run name rest
    else if word = ['-', '-'] then envProgram run name rest
    else if word.head? == some '-' then
      let fault : Tool.OptionFault := match word with
        | '-' :: '-' :: _ => .unknownLong word
        | ['-', 'u'] => .missing 'u'
        | _ => .unknown ((word.drop 1).headD '-')
      let _ ← Tool.usage name fault.message
      setStatus 125
    else if word.contains '=' then
      let (key, value) := Builtin.binding word
      Builtin.change key fun _ => { value, exported := true }
      envProgram run name rest
    else
      match ← findProgram word with
      | .ok tool => run tool word rest
      | .error fault =>
        Tool.complain name (Tool.inQuotes word ++ [':', ' '] ++ Bytes.ofText fault.reason)
        setStatus (if fault = .notFound || fault = .notADirectory then 127 else 126)

/-- Run a program under a name. Programs that run others do so only to some depth. -/
def runProgram (below : Below) : Nat → String → Bytes → List Bytes → Run Unit
  | 0, _, _, _ => setStatus 126
  | fuel + 1, tool, name, args => do
    match tools.lookup tool with
    | some t =>
      modify fun m => { m with refusal := none }
      let status ← t name args
      match (← get).refusal with
      | none => setStatus status
      | some fault =>
        Tool.complain name (Bytes.ofText ("write error: " ++ fault.reason))
        setStatus 1
    | none =>
      if tool = "env" then envProgram (runProgram below fuel) name args
      else shellProgram below (if tool = "bash" then .bash else .dash) name args

end LoopSafety.Shell
