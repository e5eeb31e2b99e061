import LoopSafety.Shell.Machine
import LoopSafety.Shell.Arithmetic

/-! What the tools have in common: options, operands that name files, complaints. -/
namespace LoopSafety.Shell

/-- A tool is called by some name with arguments, and ends with a status. -/
abbrev Tool := Bytes → List Bytes → Run Nat

namespace Tool

/-- A complaint starts with the name by which the tool was called. -/
def complain (name message : Bytes) : Run Unit :=
  complainBytes (name ++ [':', ' '] ++ message ++ ['\n'])

def inQuotes (bytes : Bytes) : Bytes := ['\''] ++ bytes ++ ['\'']

/-- A file name stands in quotes where it would be hard to read. -/
def nameText (path : Bytes) : Bytes :=
  let isPlain (c : Char) : Bool :=
    c.isAlphanum || "%+,-./:=@^_\x7b\x7d]".toList.contains c
  if !path.isEmpty && path.all isPlain then path else inQuotes path

def tryHelp (name : Bytes) : Run Unit :=
  complainBytes (Bytes.ofText "Try '" ++ name ++ Bytes.ofText " --help' for more information.\n")

def usage (name message : Bytes) : Run Nat := do
  complain name message
  tryHelp name
  return 1

/-- Options with the text that belongs to each, and the operands. -/
structure Arguments where
  options : List (Char × Bytes) := []
  operands : List Bytes := []

namespace Arguments

def has (a : Arguments) (option : Char) : Bool := a.options.any (·.1 == option)

/-- The last text that an option was given. -/
def get? (a : Arguments) (option : Char) : Option Bytes :=
  (a.options.filter (·.1 == option)).getLast?.map (·.2)

end Arguments

/-- Which letters are options, which of these take a text, and the long names of some. -/
structure OptionTable where
  letters : String
  withText : String := ""
  long : List (String × Char) := []

/-- Why options cannot be understood. -/
inductive OptionFault where
  | unknown (letter : Char)
  | unknownLong (word : Bytes)
  | missing (letter : Char)
  | missingLong (name : String)
  | unwanted (name : String)

def OptionFault.message : OptionFault → Bytes
  | unknown c => Bytes.ofText "invalid option -- " ++ inQuotes [c]
  | unknownLong word => Bytes.ofText "unrecognized option " ++ inQuotes word
  | missing c => Bytes.ofText "option requires an argument -- " ++ inQuotes [c]
  | missingLong name => Bytes.ofText ("option '--" ++ name ++ "' requires an argument")
  | unwanted name => Bytes.ofText ("option '--" ++ name ++ "' doesn't allow an argument")

/-- Every tool tells about itself when asked. -/
def OptionFault.asksHelp : OptionFault → Bool
  | unknownLong word => word = Bytes.ofText "--help" || word = Bytes.ofText "--version"
  | _ => false

/-- A long name may be cut short as long as it means one option. -/
def OptionTable.long? (t : OptionTable) (word : String) : Option (String × Char) :=
  match t.long.find? (·.1 == word) with
  | some found => some found
  | none =>
    let possible := t.long.filter fun e => word.toList.isPrefixOf e.1.toList
    if (possible.map (·.2)).eraseDups.length = 1 then possible.head? else none

/-- The letters of one word. -/
def letters (t : OptionTable) :
    Bytes → List Bytes → Except OptionFault (List (Char × Bytes) × List Bytes)
  | [], rest => .ok ([], rest)
  | c :: more, rest =>
    if t.withText.toList.contains c then
      if !more.isEmpty then .ok ([(c, more)], rest)
      else match rest with
        | text :: rest => .ok ([(c, text)], rest)
        | [] => .error (.missing c)
    else if t.letters.toList.contains c then do
      let (options, rest) ← letters t more rest
      return ((c, []) :: options, rest)
    else .error (.unknown c)

/-- Options may stand anywhere before a double dash. -/
def arguments (t : OptionTable) : Nat → List Bytes → Except OptionFault Arguments
  | 0, _ => .ok {}
  | _, [] => .ok {}
  | fuel + 1, word :: rest =>
    match word with
    | ['-', '-'] => .ok { operands := rest }
    | '-' :: '-' :: long =>
      let value := (long.dropWhile (· != '=')).tail?
      match t.long? (String.ofList (long.takeWhile (· != '='))) with
      | none => .error (.unknownLong (if value.isSome then '-' :: '-' :: long.takeWhile (· != '=')
          else word))
      | some (name, c) =>
        let add (text : Bytes) (rest : List Bytes) : Except OptionFault Arguments := do
          let a ← arguments t fuel rest
          return { a with options := (c, text) :: a.options }
        match t.withText.toList.contains c, value, rest with
        | true, some text, rest => add text rest
        | true, none, text :: rest => add text rest
        | true, none, [] => .error (.missingLong name)
        | false, none, rest => add [] rest
        | false, some _, _ => .error (.unwanted name)
    | '-' :: c :: more => do
      let (options, rest) ← letters t (c :: more) rest
      let a ← arguments t fuel rest
      return { a with options := options ++ a.options }
    | operand => do
      let a ← arguments t fuel rest
      return { a with operands := operand :: a.operands }

/-- Run a tool on its options and operands. -/
def withArguments (t : OptionTable) (status : Nat) (body : Bytes → Arguments → Run Nat) : Tool :=
  fun name args => do
    match arguments t (args.length + 1) args with
    | .ok a => body name a
    | .error fault =>
      if fault.asksHelp then
        print (Bytes.ofText "Usage: " ++ name ++ Bytes.ofText " [OPTION]... [FILE]...\n")
        return 0
      let _ ← usage name fault.message
      return status

/-- The contents of a file or of an open channel. -/
def readPath (path : Bytes) : Run (Except FileFault Bytes) := do
  let m ← get
  match m.disk.place m.shell.folder (Bytes.toText path) with
  | .device (.channel n) => return .ok ((← readAll n).getD [])
  | _ => return m.disk.read m.shell.folder (Bytes.toText path)

/-- The contents of an operand, where a dash is the input. -/
def readOperand (path : Bytes) : Run (Except FileFault Bytes) := do
  if path = ['-'] then return .ok ((← readAll 0).getD [])
  readPath path

/-- The contents of all operands, or of the input if there are none. Each fault is told. -/
def readOperands (operands : List Bytes) (tell : Bytes → FileFault → Run Unit) :
    Run (List (Bytes × Bytes) × Nat) := do
  let mut found := []
  let mut status := 0
  for path in if operands.isEmpty then [['-']] else operands do
    match ← readOperand path with
    | .ok bytes => found := found ++ [(path, bytes)]
    | .error fault => tell path fault; status := 1
  return (found, status)

def tellFault (name path : Bytes) (fault : FileFault) : Run Unit :=
  complain name (nameText path ++ [':', ' '] ++ Bytes.ofText fault.reason)

/-- The lines of a text, each with whether it is ended. -/
def lines : Bytes → List (Bytes × Bool)
  | [] => []
  | c :: cs =>
    if c == '\n' then ([], true) :: lines cs
    else match lines cs with
      | (line, ended) :: rest =>
        -- the next line belongs to this character
        (c :: line, ended) :: rest
      | [] => [([c], false)]

def unlines (ls : List Bytes) : Bytes := ls.flatMap (· ++ ['\n'])

def natText (n : Nat) : Bytes := (toString n).toList

def padLeft (width : Nat) (bytes : Bytes) : Bytes :=
  List.replicate (width - bytes.length) ' ' ++ bytes

def nat? (bytes : Bytes) : Option Nat :=
  if bytes.isEmpty || !bytes.all Char.isDigit then none else some (Arithmetic.natOf 10 bytes)

end Tool

end LoopSafety.Shell
