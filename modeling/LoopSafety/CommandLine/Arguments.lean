/-! The arguments of the command line and what they ask for.

An option that takes a value has it attached (`--input=FILE`, `-iFILE`, `-i=FILE`) or in the next
argument, which then must not look like an option. -/
namespace LoopSafety.CommandLine

inductive Switch where
  | input | config | oracle | oracleArg | noScan | scanUniqueness | threshold | sequential
  | output | verbose | edge | help | version
  deriving DecidableEq, Repr

namespace Switch

def long : Switch → String
  | input => "input"
  | config => "config"
  | oracle => "oracle"
  | oracleArg => "oracle-arg"
  | noScan => "no-scan"
  | scanUniqueness => "scan-uniqueness"
  | threshold => "threshold"
  | sequential => "sequential"
  | output => "output"
  | verbose => "verbose"
  | edge => "edge"
  | help => "help"
  | version => "version"

def short? : Switch → Option Char
  | input => some 'i'
  | config => some 'c'
  | output => some 'o'
  | verbose => some 'v'
  | edge => some 'e'
  | help => some 'h'
  | version => some 'V'
  | _ => none

def takesValue : Switch → Bool
  | input | config | oracle | oracleArg | threshold | output | edge => true
  | _ => false

def isRepeatable : Switch → Bool
  | oracleArg | edge => true
  | _ => false

/-- The options of an analysis. -/
def ofAnalyze : List Switch :=
  [input, config, oracle, oracleArg, noScan, scanUniqueness, threshold, sequential, output,
    verbose, help]

/-- The options of a cycle check. -/
def ofCycles : List Switch := [edge, help]

/-- The options in front of a command. -/
def ofProgram : List Switch := [help, version]

end Switch

/-- A number in decimal digits, with an optional plus sign, that fits in 64 bits. -/
def uint64? (text : String) : Option UInt64 :=
  let digits := match text.toList with
    | '+' :: rest => rest
    | cs => cs
  let n := digits.foldl (fun n c => 10 * n + (c.toNat - '0'.toNat)) 0
  if digits.isEmpty || !digits.all Char.isDigit || UInt64.size ≤ n then none else some (UInt64.ofNat n)

/-- A file or program needs a name, a threshold is a number. -/
def Switch.accepts : Switch → String → Bool
  | input, text | config, text | oracle, text | output, text => text ≠ ""
  | threshold, text => (uint64? text).isSome
  | _, _ => true

/-- What the arguments say, in order. Help is full if its long name asks for it. -/
inductive Event where
  | given (switch : Switch) (value : String)
  | help (full : Bool)
  | fault
  deriving DecidableEq, Repr

/-- What an option without a value says. -/
def Switch.alone (s : Switch) (isLong : Bool) : Event :=
  if s = .help then .help isLong else .given s ""

/-- Everything from a hyphen on is an option, a lone hyphen is not. -/
def looksLikeOption (arg : String) : Bool := arg.startsWith "-" && arg != "-"

/-- The value after a short option may be set off by an equals sign. -/
def attached : List Char → String
  | '=' :: rest => String.ofList rest
  | cs => String.ofList cs

/-- Read short options that share a hyphen; the last may still wait for its value. -/
def cluster (switches : List Switch) : List Char → List Event × Option Switch
  | [] => ([], none)
  | c :: rest =>
    match switches.find? fun s => s.short? == some c with
    | none => ([.fault], none)
    | some s =>
      if s.takesValue then
        if rest.isEmpty then ([], some s) else ([.given s (attached rest)], none)
      else
        let (events, waiting) := cluster switches rest
        (s.alone false :: events, waiting)

/-- Read a long option, without its hyphens. -/
def longOption (switches : List Switch) (cs : List Char) : List Event × Option Switch :=
  let name := String.ofList (cs.takeWhile (· != '='))
  let value := (cs.dropWhile (· != '=')).tail?
  match switches.find? (·.long == name), value with
  | none, _ => ([.fault], none)
  | some s, some v =>
    if s.takesValue then ([.given s (String.ofList v)], none) else ([.fault], none)
  | some s, none => if s.takesValue then ([], some s) else ([s.alone true], none)

/-- Read one argument that is not a value: there are no arguments but options. -/
def argument (switches : List Switch) (arg : String) : List Event × Option Switch :=
  match arg.toList with
  | '-' :: '-' :: cs => longOption switches cs
  | '-' :: c :: cs => cluster switches (c :: cs)
  | _ => ([.fault], none)

/-- All events; the option that waits for its value is the first argument. -/
def events (switches : List Switch) : Option Switch → List String → List Event
  | some _, [] => [.fault]
  | none, [] => []
  | some s, arg :: rest =>
    if looksLikeOption arg then [.fault] else .given s arg :: events switches none rest
  | none, arg :: rest =>
    if arg = "--" then (if rest.isEmpty then [] else [.fault])
    else
      let (found, waiting) := argument switches arg
      found ++ events switches waiting rest

abbrev Settings := List (Switch × String)

def Settings.value? (s : Settings) (switch : Switch) : Option String :=
  (s.find? (·.1 == switch)).map (·.2)

def Settings.has (s : Settings) (switch : Switch) : Bool := s.any (·.1 == switch)

def Settings.values (s : Settings) (switch : Switch) : List String :=
  (s.filter (·.1 == switch)).map (·.2)

/-- What help is asked about. -/
inductive Topic where
  | program | analyze | cycles | help
  deriving DecidableEq, Repr

def Topic.ofName? : String → Option Topic
  | "analyze" => some .analyze
  | "cycles" => some .cycles
  | "help" => some .help
  | _ => none

/-- What ends the reading of arguments early. -/
inductive Stop where
  | usage
  | help (topic : Topic) (full : Bool)
  | version
  deriving DecidableEq, Repr

/-- Take the events in order up to the first that is wrong or asks for help. -/
def settle (topic : Topic) : Settings → List Event → Except Stop Settings
  | settings, [] => .ok settings
  | _, .fault :: _ => .error .usage
  | _, .help full :: _ => .error (.help topic full)
  | settings, .given s value :: rest =>
    if s = .version then .error .version
    else if !s.accepts value || (!s.isRepeatable && settings.has s) then .error .usage
    else settle topic (settings ++ [(s, value)]) rest

structure AnalyzeRequest where
  input : String
  config : Option String := none
  /-- A program and its arguments. -/
  oracle : Option (String × List String) := none
  noScan : Bool := false
  scanUniqueness : Bool := false
  threshold : Option UInt64 := none
  sequential : Bool := false
  output : Option String := none
  verbose : Bool := false
  deriving DecidableEq, Repr

inductive Request where
  | analyze (r : AnalyzeRequest)
  | cycles (edges : List String)
  deriving DecidableEq, Repr

def AnalyzeRequest.ofSettings? (s : Settings) : Option AnalyzeRequest := do
  return {
    input := ← s.value? .input
    config := s.value? .config
    oracle := (s.value? .oracle).map fun program => (program, s.values .oracleArg)
    noScan := s.has .noScan
    scanUniqueness := s.has .scanUniqueness
    threshold := (s.value? .threshold).bind uint64?
    sequential := s.has .sequential
    output := s.value? .output
    verbose := s.has .verbose }

/-- The first argument names the command. -/
def Request.parse : List String → Except Stop Request
  | [] => .error .usage
  | "analyze" :: rest => do
    let settings ← settle .analyze [] (events Switch.ofAnalyze none rest)
    match AnalyzeRequest.ofSettings? settings with
    | some r => .ok (.analyze r)
    | none => .error .usage
  | "cycles" :: rest => do
    let settings ← settle .cycles [] (events Switch.ofCycles none rest)
    return .cycles (settings.values .edge)
  | ["help"] => .error (.help .program true)
  | ["help", name] => .error ((Topic.ofName? name).elim .usage (.help · true))
  | "help" :: _ => .error .usage
  | arg :: _ => do
    let _ ← settle .program [] (argument Switch.ofProgram arg).1
    .error .usage

example : (Request.parse ["cycles", "-eA:B", "--edge=", "-e", "-"]).toOption =
    some (.cycles ["A:B", "", "-"]) := by decide +kernel

example : (Request.parse ["analyze", "-vi", "k.json", "-v"]).toOption = none := by decide +kernel

end LoopSafety.CommandLine
