import LoopSafety.Text.Bytes

/-! Shell scripts as data. -/
namespace LoopSafety.Shell

/-- How a redirection opens its file. -/
inductive Opening where
  | read | write | append | readWrite
  deriving DecidableEq, Repr

mutual

/-- A piece of a word. Quoted pieces are neither split nor matched against file names. -/
inductive Part where
  | text (bytes : Bytes) (quoted : Bool)
  | parameter (name : String) (use : Use) (quoted : Bool)
  /-- The output of a script. -/
  | output (script : Command) (quoted : Bool)
  | arithmetic (expression : List Part) (quoted : Bool)
  /-- A tilde at the start of a word, for the home folder. -/
  | home

/-- What is done with the value of a parameter. With `orEmpty` an empty value counts as none. -/
inductive Use where
  | value
  | length
  | default (orEmpty : Bool) (word : List Part)
  | assign (orEmpty : Bool) (word : List Part)
  | demand (orEmpty : Bool) (word : List Part)
  | replace (orEmpty : Bool) (word : List Part)
  | trim (atEnd longest : Bool) (pattern : List Part)
  | malformed

inductive Redirect where
  | file (channel : Nat) (opening : Opening) (path : List Part)
  /-- Go where another channel goes, or be closed. -/
  | copy (channel : Nat) (source : List Part)
  | document (channel : Nat) (body : List Part)

inductive Command where
  | nothing
  | simple (line : Nat) (assignments : List (String × List Part)) (words : List (List Part))
      (redirects : List Redirect)
  | pipeline (commands : List Command)
  | both (first second : Command)
  | either (first second : Command)
  | inTurn (first second : Command)
  | negated (command : Command)
  | background (command : Command)
  | subshell (line : Nat) (body : Command) (redirects : List Redirect)
  | redirected (line : Nat) (body : Command) (redirects : List Redirect)
  | conditional (condition consequence : Command) (alternative : Option Command)
  | loop (whileTrue : Bool) (condition body : Command)
  | forEach (line : Nat) (name : String) (words : List (List Part)) (body : Command)
  | choice (line : Nat) (subject : List Part) (arms : List (List (List Part) × Command))
  | define (name : String) (body : Command)

end

abbrev Word := List Part

instance : Inhabited Part := ⟨.text [] false⟩
instance : Inhabited Command := ⟨.nothing⟩

def Part.isQuoted : Part → Bool
  | .text _ quoted | .parameter _ _ quoted | .output _ quoted | .arithmetic _ quoted => quoted
  | .home => false

namespace Word

/-- The text of a word that has neither quotes nor expansions. -/
def plain? : Word → Option Bytes
  | [] => some []
  | .text bytes false :: rest => (plain? rest).map (bytes ++ ·)
  | .home :: rest => (plain? rest).map ('~' :: ·)
  | _ => none

/-- The text of a word after its quotes are taken away; expansions count for nothing. -/
def literal : Word → Bytes
  | [] => []
  | .text bytes _ :: rest => bytes ++ literal rest
  | .home :: rest => '~' :: literal rest
  | _ :: rest => literal rest

def hasQuotes (w : Word) : Bool := w.any Part.isQuoted

end Word

def isNameStart (c : Char) : Bool := c.isAlpha || c == '_'

def isNameChar (c : Char) : Bool := c.isAlphanum || c == '_'

def isName (bytes : Bytes) : Bool := bytes.head?.any isNameStart && bytes.all isNameChar

/-- In a value, a tilde stands for the home folder at the start and after each colon. -/
def Word.homes : Bool → Word → Word
  | _, [] => []
  | start, .text ['~'] false :: rest =>
    let ends := match rest with
      | [] | .text ['/'] false :: _ | .text [':'] false :: _ => true
      | _ => false
    (if start && ends then .home else .text ['~'] false) :: homes false rest
  | _, .text [':'] false :: rest => .text [':'] false :: homes true rest
  | _, part :: rest => part :: homes false rest

/-- The parts of an assignment `name=value`: the name stands unquoted, one character a part. -/
def assignment? (word : Word) : Option (String × Word) :=
  go [] word
where
  go (name : Bytes) : Word → Option (String × Word)
    | .text [c] false :: rest =>
      if c == '=' then
        if isName name.reverse then some (String.ofList name.reverse, Word.homes true rest)
        else none
      else if isNameChar c then go (c :: name) rest
      else none
    | _ => none

end LoopSafety.Shell
