import LoopSafety.CommandLine.Arguments

/-! The help screens: what each command does and which options it takes.

A brief screen has each option and its purpose on one line, the purposes in a column. A full screen
has each purpose on a line of its own. Only an analysis has more to say than fits a brief screen. -/
namespace LoopSafety.CommandLine

namespace Switch

/-- What the value of an option stands for. -/
def placeholder? : Switch → Option String
  | input | config | output => some "FILE"
  | oracle => some "PROGRAM"
  | oracleArg => some "ARG"
  | threshold => some "COST"
  | edge => some "SOURCE:SINK"
  | _ => none

def purpose : Switch → String
  | input => "Kernel export (JSON)"
  | config => "Analysis configuration (JSON); defaults apply when omitted"
  | oracle => "External dependence oracle program"
  | oracleArg => "Extra argument passed to the oracle program (repeatable)"
  | noScan => "Do not scan array contents for value bounds"
  | scanUniqueness => "Also check array contents for repeated values"
  | threshold => "Offload cost threshold"
  | sequential => "Analyze candidate loops one after another"
  | output => "Write the JSON report here instead of stdout"
  | verbose => "Print a per-loop summary"
  | edge => "Edge as SOURCE:SINK (repeatable)"
  | help => "Print help"
  | version => "Print version"

/-- The names of an option and its placeholder. Options without a letter leave its place blank. -/
def synopsis (s : Switch) : String :=
  s.short?.elim "    " (fun c => String.ofList ['-', c, ',', ' ']) ++ "--" ++ s.long
    ++ s.placeholder?.elim "" fun name => " <" ++ name ++ ">"

end Switch

/-- A line of a help screen: a thing and what it is for. -/
abbrev HelpRow := String × String

def padTo (width : Nat) (text : String) : String :=
  text ++ String.ofList (List.replicate (width - text.length) ' ')

/-- Rows with their second parts in one column. -/
def columns (rows : List HelpRow) : List String :=
  let width := rows.foldl (fun w row => max w row.1.length) 0
  rows.map fun (thing, purpose) => "  " ++ padTo width thing ++ "  " ++ purpose

/-- Rows with their second parts on lines of their own, set apart by blank lines. -/
def paragraphs (rows : List HelpRow) : List String :=
  List.intercalate [""] (rows.map fun (thing, purpose) => ["  " ++ thing, "          " ++ purpose])

namespace Topic

def purpose : Topic → String
  | program => "LoopGuard - Safety Analysis for Parallel Loop Offloading"
  | analyze => "Analyze the candidate loops of a kernel export"
  | cycles => "Check a dependency graph for cycles"
  | help => "Print this message or the help of the given subcommand(s)"

/-- What a full screen says beyond the purpose. -/
def details? : Topic → Option String
  | analyze =>
    some ("Reports which array accesses and integer operations still need runtime checks, "
      ++ "which loops may run in parallel and whether offloading pays off.")
  | _ => none

def usage : Topic → String
  | program => "loopguard <COMMAND>"
  | analyze => "loopguard analyze [OPTIONS] --input <FILE>"
  | cycles => "loopguard cycles [OPTIONS]"
  | help => "loopguard help [COMMAND]..."

def switches : Topic → List Switch
  | program => Switch.ofProgram
  | analyze => Switch.ofAnalyze
  | cycles => Switch.ofCycles
  | help => []

/-- Help tells how to get the other screen where there are two. -/
def optionRow (t : Topic) (full : Bool) (s : Switch) : HelpRow :=
  let hint := if s ≠ .help || t.details?.isNone then ""
    else if full then " (see a summary with '-h')"
    else " (see more with '--help')"
  (s.synopsis, s.purpose ++ hint)

/-- The parts of a screen after its usage, each under a heading. -/
def sections (t : Topic) (full : Bool) : List (List String) :=
  let options := t.switches.map (t.optionRow full)
  match t with
  | program =>
    let commands := [("analyze", Topic.analyze), ("cycles", cycles), ("help", help)]
    ["Commands:" :: columns (commands.map fun (name, topic) => (name, topic.purpose)),
      "Options:" :: columns options]
  | help => ["Arguments:" :: columns [("[COMMAND]...", "Print help for the subcommand(s)")]]
  | _ => ["Options:" :: if full && t.details?.isSome then paragraphs options else columns options]

def screen (t : Topic) (full : Bool) : List String :=
  let details := if full then t.details?.toList.map ([·]) else []
  List.intercalate [""] ([t.purpose] :: details ++ ["Usage: " ++ t.usage] :: t.sections full)

end Topic

example : Topic.cycles.screen false = [
    "Check a dependency graph for cycles",
    "",
    "Usage: loopguard cycles [OPTIONS]",
    "",
    "Options:",
    "  -e, --edge <SOURCE:SINK>  Edge as SOURCE:SINK (repeatable)",
    "  -h, --help                Print help"] := by decide +kernel

end LoopSafety.CommandLine
