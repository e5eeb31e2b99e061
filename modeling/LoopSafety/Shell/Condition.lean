import LoopSafety.Shell.Machine
import LoopSafety.Shell.Arithmetic

/-! Conditions on texts, numbers and files. -/
namespace LoopSafety.Shell.Condition

inductive Operator where
  | unary (letter : Char)
  | binary (symbol : String)
  | negation
  | conjunction
  | disjunction
  | opening
  | closing
  deriving DecidableEq

def operator? (word : Bytes) : Option Operator :=
  match String.ofList word with
  | "!" => some .negation
  | "-a" => some .conjunction
  | "-o" => some .disjunction
  | "(" => some .opening
  | ")" => some .closing
  | symbol =>
    if ["=", "!=", "<", ">", "-eq", "-ne", "-ge", "-gt", "-le", "-lt", "-nt", "-ot", "-ef"].contains
      symbol then some (.binary symbol)
    else match word with
      | ['-', c] => if "rwxefdcbpugkstznhOGLS".toList.contains c then some (.unary c) else none
      | _ => none

def isBinary : Option Operator → Bool
  | some (.binary _) => true
  | _ => false

/-- What the first of some words is. A word that looks like an operator is an operand where an
operator cannot stand. -/
def lex : List Bytes → Option Operator
  | [] => none
  | word :: rest =>
    match operator? word, rest with
    | some (.unary _), [] => none
    | some (.unary c), [_] => some (.unary c)
    | some (.unary c), next :: third :: _ =>
      if isBinary (operator? next) && third != [')'] then none else some (.unary c)
    | some .opening, [] => none
    | op, _ => op

/-- Why a condition has no truth. -/
inductive Fault where
  | badNumber (word : Bytes)
  | unexpected (word : Bytes)
  | lacksOperand (word : Bytes)
  | unclosed

def Fault.message : Fault → Bytes
  | badNumber word => Bytes.ofText "Illegal number: " ++ word
  | unexpected word => word ++ Bytes.ofText ": unexpected operator"
  | lacksOperand word => word ++ Bytes.ofText ": argument expected"
  | unclosed => Bytes.ofText "closing paren expected"

abbrev Check := Except Fault

def integer (word : Bytes) : Check Int64 :=
  match Arithmetic.integer? word with
  | some n => .ok n
  | none => .error (.badNumber word)

def compareNumbers (symbol : String) (a b : Int64) : Bool :=
  match symbol with
  | "-eq" => a == b
  | "-ne" => a != b
  | "-ge" => b ≤ a
  | "-gt" => b < a
  | "-le" => a ≤ b
  | _ => a < b

def binary (symbol : String) (a b : Bytes) : Check Bool :=
  match symbol with
  | "=" => .ok (a == b)
  | "!=" => .ok (a != b)
  | "<" => .ok (decide (a < b))
  | ">" => .ok (decide (b < a))
  | "-nt" | "-ot" => .ok false
  | "-ef" => .ok (a == b)
  | symbol => do return compareNumbers symbol (← integer a) (← integer b)

/-- Whether a file is there and is of the asked kind. -/
def fileTest (m : Machine) (letter : Char) (path : Bytes) : Bool :=
  match m.disk.place m.shell.folder (Bytes.toText path) with
  | .vacant .. | .nowhere _ => false
  | .folder _ => "erwxds".toList.contains letter
  | .device _ => "erwc".toList.contains letter
  | .program _ => "erwxfs".toList.contains letter
  | .file key =>
    "erwf".toList.contains letter || (letter == 's' && !((m.disk.files.get? key).getD []).isEmpty)

def unary (m : Machine) (letter : Char) (word : Bytes) : Bool :=
  match letter with
  | 'z' => word.isEmpty
  | 'n' => !word.isEmpty
  | 't' => false
  | _ => fileTest m letter word

mutual

/-- Each level returns its truth and the words from the last one that it used. -/
def disjunction (m : Machine) : Nat → List Bytes → Option Operator → Check (Bool × List Bytes)
  | 0, words, _ => .ok (false, words)
  | fuel + 1, words, op => do
    let (a, words) ← conjunction m fuel words op
    match lex (words.drop 1) with
    | some .disjunction =>
      let words := words.drop 2
      let (b, words) ← disjunction m fuel words (lex words)
      return (a || b, words)
    | _ => return (a, words)

def conjunction (m : Machine) : Nat → List Bytes → Option Operator → Check (Bool × List Bytes)
  | 0, words, _ => .ok (false, words)
  | fuel + 1, words, op => do
    let (a, words) ← negation m fuel words op
    match lex (words.drop 1) with
    | some .conjunction =>
      let words := words.drop 2
      let (b, words) ← conjunction m fuel words (lex words)
      return (a && b, words)
    | _ => return (a, words)

def negation (m : Machine) : Nat → List Bytes → Option Operator → Check (Bool × List Bytes)
  | 0, words, _ => .ok (false, words)
  | fuel + 1, words, op =>
    if op = some .negation then do
      let rest := words.drop 1
      let (a, words) ← negation m fuel (if rest.isEmpty then words else rest)
        (if rest.isEmpty then some .closing else lex rest)
      return (!a, words)
    else primary m fuel words op

def primary (m : Machine) : Nat → List Bytes → Option Operator → Check (Bool × List Bytes)
  | 0, words, _ => .ok (false, words)
  | fuel + 1, words, op =>
    match words, op with
    | [], _ => .ok (false, [])
    | _ :: rest, some .opening =>
      if lex rest = some .closing then .ok (false, rest)
      else do
        let (a, words) ← disjunction m fuel rest (lex rest)
        if lex (words.drop 1) = some .closing then return (a, words.drop 1)
        else .error .unclosed
    | _ :: word :: rest, some (.unary letter) => .ok (unary m letter word, word :: rest)
    | word :: [], some (.unary _) => .error (.lacksOperand word)
    | word :: rest, _ =>
      match rest, lex rest with
      | _ :: operand :: more, some (.binary symbol) => do
        return (← binary symbol word operand, operand :: more)
      | sign :: [], some (.binary _) => .error (.lacksOperand sign)
      | _, _ => .ok (!word.isEmpty && op != some .closing, words)

end

/-- The truth of a list of words. -/
def holds (m : Machine) (words : List Bytes) : Check Bool := do
  if words.isEmpty then return false
  let fuel := 8 * words.length + 8
  let unexpected (words : List Bytes) (truth : Bool) : Check Bool :=
    match words with
    | word :: _ :: _ => .error (.unexpected word)
    | _ => .ok truth
  let plain (words : List Bytes) : Check Bool := do
    let (truth, rest) ← disjunction m fuel words (lex words)
    unexpected rest truth
  let negated : Check Bool := do
    let (truth, rest) ← disjunction m fuel words (some .negation)
    unexpected rest truth
  match words with
  | [a, op, b] =>
    if isBinary (operator? op) then
      let (truth, rest) ← disjunction m fuel words none
      unexpected rest truth
    else if a = ['('] && b = [')'] then plain [op]
    else if a = ['!'] then negated
    else plain words
  | [a, b, c, d] =>
    if a = ['('] && d = [')'] then plain [b, c]
    else if a = ['!'] then negated
    else plain words
  | words => plain words

end LoopSafety.Shell.Condition
