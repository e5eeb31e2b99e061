import LoopSafety.Shell.Script

/-! Reading scripts. A script is read line by line, a line being as long as its last open construct,
so that the lines before a fault can still be run. -/
namespace LoopSafety.Shell

inductive Token where
  | endOfText
  | newline
  | operator (symbol : String)
  /-- A redirection with the channel that it is for, if it says so. -/
  | redirect (channel : Option Nat) (symbol : String)
  | keyword (name : String)
  | word (word : Word)

/-- How a message calls a token. -/
def Token.text : Token → String
  | endOfText => "end of file"
  | newline => "newline"
  | operator symbol => "\"" ++ symbol ++ "\""
  | redirect .. => "redirection"
  | keyword name => "\"" ++ name ++ "\""
  | word _ => "word"

/-- Tokens that can only stand after a list of commands. -/
def Token.endsList : Token → Bool
  | endOfText => true
  | operator symbol => symbol = ")" || symbol = ";;"
  | keyword name => ["do", "done", "elif", "else", "esac", "fi", "then", "\x7d"].contains name
  | _ => false

structure ScriptFault where
  line : Nat
  message : String

structure Reading where
  rest : Bytes
  line : Nat := 1
  /-- A token that was read and put back. -/
  pushed : Option Token := none
  /-- Lines of documents that have been read ahead of the end of their line. -/
  ahead : Nat := 0

abbrev Reader := StateT Reading (Except ScriptFault)

namespace Reader

def fault {α : Type} (message : String) : Reader α := do
  throw ⟨(← get).line, "Syntax error: " ++ message⟩

def unexpected {α : Type} (t : Token) : Reader α := fault (t.text ++ " unexpected")

def expecting {α : Type} (t expected : Token) : Reader α :=
  fault (t.text ++ " unexpected (expecting " ++ expected.text ++ ")")

def push (t : Token) : Reader Unit := modify fun s => { s with pushed := some t }

/-- Go on after some bytes. -/
def skip (passed rest : Bytes) : Reader Unit :=
  modify fun s => { s with rest, line := s.line + passed.count '\n' }

def skipBlanks : Bytes → Nat → Bytes × Nat
  | ' ' :: rest, n | '\t' :: rest, n => skipBlanks rest n
  | '\\' :: '\n' :: rest, n => skipBlanks rest (n + 1)
  | '#' :: rest, n => (rest.dropWhile (· != '\n'), n)
  | rest, n => (rest, n)

def skipJoins : Bytes → Nat → Bytes × Nat
  | '\\' :: '\n' :: rest, n => skipJoins rest (n + 1)
  | rest, n => (rest, n)

/-- Where a run of word parts stands. -/
inductive Within where
  | bare
  | quotes
  /-- After the operator of a parameter. -/
  | braces (quoted : Bool)
  /-- Inside an arithmetic expression, with the number of open parentheses. -/
  | arithmetic (depth : Nat)
  | document
  deriving DecidableEq

namespace Within

def isQuoted : Within → Bool
  | bare | braces false => false
  | _ => true

/-- A backslash takes away the meaning of the next character; between quotes, only of some. -/
def escapes (w : Within) (c : Char) : Bool :=
  !w.isQuoted || c == '\\' || c == '\x60' || c == '$' ||
    (c == '"' && w != document) || (c == '}' && w == braces true)

/-- What is missing if the text ends here. -/
def missing? : Within → Option String
  | bare | document => none
  | quotes | braces true => some "Unterminated quoted string"
  | braces false => some "Missing '\x7d'"
  | arithmetic _ => some "Missing '))'"

/-- The bytes that close the run, if they come next. -/
def closing? : Within → Bytes → Option Bytes
  | quotes, '"' :: rest => some rest
  | braces _, '\x7d' :: rest => some rest
  | arithmetic 0, ')' :: ')' :: rest => some rest
  | _, _ => none

end Within

def isMeta (c : Char) : Bool := "\n;&|<>() \t".toList.contains c

def isSpecial (c : Char) : Bool := c.isDigit || "$!?-#*@".toList.contains c

/-- The name of a parameter between braces, and whether its length is asked for. -/
def parameter? : Bytes → Option (Bool × String × Bytes)
  | '#' :: c :: rest =>
    if isNameChar c then
      let part := if c.isDigit then Char.isDigit else isNameChar
      some (true, String.ofList (c :: rest.takeWhile part), rest.dropWhile part)
    else if c != '\x7d' && rest.head? == some '\x7d' && isSpecial c then
      some (true, c.toString, rest)
    else some (false, "#", c :: rest)
  | c :: rest =>
    if isNameStart c then
      some (false, String.ofList (c :: rest.takeWhile isNameChar), rest.dropWhile isNameChar)
    else if c.isDigit then
      some (false, String.ofList (c :: rest.takeWhile Char.isDigit), rest.dropWhile Char.isDigit)
    else if isSpecial c then some (false, c.toString, rest)
    else none
  | [] => none

/-- The use of a parameter that takes a word, given the text after the name. -/
def operation? (quoted : Bool) : Bytes → Option (Within × (Word → Use) × Bytes)
  | ':' :: '-' :: rest => some (.braces quoted, .default true, rest)
  | ':' :: '=' :: rest => some (.braces quoted, .assign true, rest)
  | ':' :: '?' :: rest => some (.braces quoted, .demand true, rest)
  | ':' :: '+' :: rest => some (.braces quoted, .replace true, rest)
  | '-' :: rest => some (.braces quoted, .default false, rest)
  | '=' :: rest => some (.braces quoted, .assign false, rest)
  | '?' :: rest => some (.braces quoted, .demand false, rest)
  | '+' :: rest => some (.braces quoted, .replace false, rest)
  | '%' :: '%' :: rest => some (.braces false, .trim true true, rest)
  | '%' :: rest => some (.braces false, .trim true false, rest)
  | '#' :: '#' :: rest => some (.braces false, .trim false true, rest)
  | '#' :: rest => some (.braces false, .trim false false, rest)
  | _ => none

/-- The script between backquotes, without the backslashes that protect it. -/
def backquoted? (quoted : Bool) : Bytes → Option (Bytes × Bytes)
  | [] => none
  | '\x60' :: rest => some ([], rest)
  | '\\' :: '\n' :: rest => backquoted? quoted rest
  | '\\' :: c :: rest => do
    let (inside, after) ← backquoted? quoted rest
    let special := c == '\\' || c == '\x60' || c == '$' || (quoted && c == '"')
    return (if special then c :: inside else '\\' :: c :: inside, after)
  | c :: rest => do
    let (inside, after) ← backquoted? quoted rest
    return (c :: inside, after)

/-- The lines before the one that ends a document, and what follows it. -/
def document (mark : Bytes) (stripTabs : Bool) : Nat → Bytes → Bytes × Nat × Bytes
  | 0, text => ([], 0, text)
  | _, [] => ([], 0, [])
  | fuel + 1, text =>
    let line := text.takeWhile (· != '\n')
    let line := if stripTabs then line.dropWhile (· == '\t') else line
    let after := text.dropWhile (· != '\n')
    if line = mark then ([], 1, after.drop 1)
    else
      let (body, lines, rest) := document mark stripTabs fuel (after.drop 1)
      (line ++ (if after.isEmpty then [] else ['\n']) ++ body, lines + 1, rest)

/-- Take a document out of the text: it starts on the next line. -/
def takeDocument (mark : Bytes) (stripTabs : Bool) : Reader Bytes := do
  let s ← get
  let line := s.rest.takeWhile (· != '\n')
  let after := (s.rest.dropWhile (· != '\n')).drop 1
  let (body, lines, rest) := document mark stripTabs (after.length + 1) after
  set { s with rest := line ++ '\n' :: rest, ahead := s.ahead + lines }
  return body

def keywords : List String :=
  ["!", "case", "do", "done", "elif", "else", "esac", "fi", "for", "if", "in", "then", "until",
    "while", "\x7b", "\x7d"]

def keyword? (w : Word) : Option String := do
  let name := String.ofList (← w.plain?)
  if keywords.contains name then some name else none

/-- Names that no function may take. -/
def specialBuiltins : List String :=
  [":", ".", "break", "continue", "eval", "exec", "exit", "export", "readonly", "return", "set",
    "shift", "times", "trap", "unset"]

def redirections : List String := [">>", ">|", ">&", ">", "<<-", "<<", "<&", "<>", "<"]

/-- All arguments, each as a field of its own; there may be none. -/
def isArguments (w : Word) : Bool :=
  !w.isEmpty && w.all fun
    | .parameter "@" .. => true
    | _ => false

/-- How a list of commands ends: with its line, or before a token that cannot continue it; the
latter may be empty or not. -/
inductive Extent where
  | line | body | optional
  deriving DecidableEq

def joined : Option Command → Command → Command
  | none, c => c
  | some b, c => .inTurn b c

/-- A list that stops at a number, a minus sign, or is read when the command runs. -/
def copyOf (channel : Nat) (w : Word) : Reader Redirect := do
  match w.plain? with
  | some [c] => if c.isDigit || c == '-' then return .copy channel w else fault "Bad fd number"
  | some _ => fault "Bad fd number"
  | none => return .copy channel w

mutual

def parts : Nat → Within → List Part → Reader Word
  | 0, _, _ => fault "too long"
  | fuel + 1, within, done => do
    let s ← get
    match within.closing? s.rest with
    | some rest => set { s with rest }; return done.reverse
    | none =>
    match s.rest with
    | [] =>
      match within.missing? with
      | some message => fault message
      | none => return done.reverse
    | '\\' :: '\n' :: rest => skip ['\n'] rest; parts fuel within done
    | '\\' :: c :: rest =>
      skip [c] rest
      let bytes := if within.escapes c then [c] else ['\\', c]
      parts fuel within (.text bytes true :: done)
    | '$' :: rest =>
      skip [] rest
      let more ← dollar fuel within.isQuoted
      parts fuel within (more :: done)
    | '\x60' :: rest =>
      match backquoted? within.isQuoted rest with
      | none => skip rest []; fault "EOF in backquote substitution"
      | some (inside, after) =>
        skip (rest.take (rest.length - after.length)) after
        let outer ← get
        set { outer with rest := inside, pushed := none }
        let script ← list fuel .optional none
        set outer
        parts fuel within (.output (script.getD .nothing) within.isQuoted :: done)
    | c :: rest =>
      if within == .bare && isMeta c then return done.reverse
      else if c == '\'' && !within.isQuoted then
        let inside := rest.takeWhile (· != '\'')
        skip inside ((rest.dropWhile (· != '\'')).drop 1)
        if rest.contains '\'' then parts fuel within (.text inside true :: done)
        else fault "Unterminated quoted string"
      else if c == '"' && !within.isQuoted then
        skip [] rest
        let inside ← parts fuel .quotes []
        let mark := if isArguments inside then [] else [.text [] true]
        parts fuel within (inside.reverse ++ mark ++ done)
      else if c == '"' && within == .braces true then
        skip [] rest
        parts fuel within done
      else
        skip [c] rest
        let endsTilde (d : Char) : Bool := d == '/' || isMeta d
        if c == '~' && within == .bare && done.isEmpty && rest.head?.all endsTilde
        then parts fuel within [.home]
        else
          let within := match within, c with
            | .arithmetic depth, '(' => .arithmetic (depth + 1)
            | .arithmetic (depth + 1), ')' => .arithmetic depth
            | w, _ => w
          parts fuel within (.text [c] within.isQuoted :: done)

/-- What follows a dollar sign. -/
def dollar : Nat → Bool → Reader Part
  | 0, _ => fault "too long"
  | fuel + 1, quoted => do
    let s ← get
    let (text, joins) := skipJoins s.rest 0
    set { s with rest := text, line := s.line + joins }
    match text with
    | '(' :: '(' :: rest =>
      skip [] rest
      return .arithmetic (← parts fuel (.arithmetic 0) []) quoted
    | '(' :: rest =>
      skip [] rest
      let script ← list fuel .optional none
      match ← next fuel false false with
      | .operator ")" => return .output (script.getD .nothing) quoted
      | t => expecting t (.operator ")")
    | '\x7b' :: rest => skip [] rest; braces fuel quoted
    | c :: rest =>
      if isNameStart c then
        skip [] (rest.dropWhile isNameChar)
        return .parameter (String.ofList (c :: rest.takeWhile isNameChar)) .value quoted
      else if isSpecial c then
        skip [] rest
        return .parameter c.toString .value quoted
      else return .text ['$'] quoted
    | [] => return .text ['$'] quoted

/-- A parameter between braces. -/
def braces : Nat → Bool → Reader Part
  | 0, _ => fault "too long"
  | fuel + 1, quoted => do
    let malformed : Reader Part := do
      let _ ← parts fuel (.braces quoted) []
      return .parameter "" .malformed quoted
    match parameter? (← get).rest with
    | none => malformed
    | some (isLength, name, rest) =>
      skip [] rest
      match rest, isLength, operation? quoted rest with
      | '\x7d' :: rest, _, _ =>
        skip [] rest
        return .parameter name (if isLength then .length else .value) quoted
      | _, false, some (within, use, rest) =>
        skip [] rest
        return .parameter name (use (← parts fuel within [])) quoted
      | _, _, _ => malformed

/-- The next token, without a look at keywords. -/
def token : Nat → Reader Token
  | 0 => fault "too long"
  | fuel + 1 => do
    let s ← get
    match s.pushed with
    | some t => set { s with pushed := none }; return t
    | none =>
    let (text, joins) := skipBlanks s.rest 0
    set { s with rest := text, line := s.line + joins }
    let operator (symbol : String) (rest : Bytes) : Reader Token := do
      skip [] rest
      return .operator symbol
    match text with
    | [] => return .endOfText
    | '\n' :: rest =>
      modify fun s => { s with rest, line := s.line + 1 + s.ahead, ahead := 0 }
      return .newline
    | '&' :: '&' :: rest => operator "&&" rest
    | '&' :: rest => operator "&" rest
    | '|' :: '|' :: rest => operator "||" rest
    | '|' :: rest => operator "|" rest
    | ';' :: ';' :: rest => operator ";;" rest
    | ';' :: rest => operator ";" rest
    | '(' :: rest => operator "(" rest
    | ')' :: rest => operator ")" rest
    | _ =>
      let w ← parts fuel .bare []
      let rest := (← get).rest
      let channel : Option (Option Nat) := match w.plain? with
        | some [] => some none
        | some [c] => if c.isDigit then some (some (c.toNat - '0'.toNat)) else none
        | _ => none
      match channel, redirections.find? fun symbol => symbol.toList.isPrefixOf rest with
      | some channel, some symbol =>
        skip [] (rest.drop symbol.length)
        return .redirect channel symbol
      | _, _ => return .word w

/-- The next token, where line ends may be passed over and keywords may be meant. -/
def next : Nat → Bool → Bool → Reader Token
  | 0, _, _ => fault "too long"
  | fuel + 1, skipLines, asKeyword => do
    match ← token fuel with
    | .newline => if skipLines then next fuel skipLines asKeyword else return .newline
    | .word w =>
      match keyword? w with
      | some name => return if asKeyword then .keyword name else .word w
      | none => return .word w
    | t => return t

/-- Commands that run one after another. -/
def list : Nat → Extent → Option Command → Reader (Option Command)
  | 0, _, _ => fault "too long"
  | fuel + 1, extent, done => do
    match ← next fuel (extent != .line) true with
    | .newline => return done
    | .endOfText => push .endOfText; return done
    | t =>
      push t
      if t.endsList && (extent = .optional || (extent = .body && done.isSome)) then return done
      let c ← andOr fuel none
      match ← next fuel false false with
      | .operator "&" => list fuel extent (some (joined done (.background c)))
      | .operator ";" => list fuel extent (some (joined done c))
      | .newline => push .newline; list fuel extent (some (joined done c))
      | .endOfText => push .endOfText; return some (joined done c)
      | t =>
        if extent = .line then unexpected t
        push t
        return some (joined done c)

/-- Pipelines between `&&` and `||`, given how what came before is joined to the next. -/
def andOr : Nat → Option (Command → Command) → Reader Command
  | 0, _ => fault "too long"
  | fuel + 1, before => do
    let p ← pipeline fuel before.isSome
    let c := match before with
      | some join => join p
      | none => p
    match ← next fuel false false with
    | .operator "&&" => andOr fuel (some (.both c))
    | .operator "||" => andOr fuel (some (.either c))
    | t => push t; return c

def pipeline : Nat → Bool → Reader Command
  | 0, _ => fault "too long"
  | fuel + 1, skipLines => do
    let t ← next fuel skipLines true
    let negated := match t with
      | .keyword "!" => true
      | _ => false
    if !negated then push t
    let first ← command fuel false
    let more ← piped fuel
    let c := if more.isEmpty then first else .pipeline (first :: more)
    return if negated then .negated c else c

def piped : Nat → Reader (List Command)
  | 0 => fault "too long"
  | fuel + 1 => do
    match ← next fuel false false with
    | .operator "|" =>
      let c ← command fuel true
      return c :: (← piped fuel)
    | t => push t; return []

def command : Nat → Bool → Reader Command
  | 0, _ => fault "too long"
  | fuel + 1, skipLines => do
    let line := (← get).line
    match ← next fuel skipLines true with
    | .keyword "if" => redirected fuel line (← conditional fuel)
    | .keyword "while" => redirected fuel line (← loop fuel true)
    | .keyword "until" => redirected fuel line (← loop fuel false)
    | .keyword "for" => redirected fuel line (← forEach fuel line)
    | .keyword "case" =>
      let subject ← match ← next fuel false false with
        | .word w => pure w
        | t => expecting t (.word [])
      match ← next fuel true true with
      | .keyword "in" => redirected fuel line (.choice line subject (← arms fuel))
      | t => expecting t (.keyword "in")
    | .operator "(" =>
      let body ← list fuel .body none
      closed fuel (.operator ")")
      match ← redirected fuel line .nothing with
      | .redirected _ _ redirects => return .subshell line (body.getD .nothing) redirects
      | _ => return .subshell line (body.getD .nothing) []
    | .keyword "\x7b" =>
      let body ← list fuel .body none
      closed fuel (.keyword "\x7d")
      redirected fuel line (body.getD .nothing)
    | .word w => push (.word w); simple fuel (← get).line [] [] []
    | .redirect channel symbol => push (.redirect channel symbol); simple fuel (← get).line [] [] []
    | t => unexpected t

/-- A given token has to come next. -/
def closed : Nat → Token → Reader Unit
  | 0, _ => fault "too long"
  | fuel + 1, expected => do
    let t ← next fuel false true
    if t.text != expected.text then expecting t expected

/-- A body between two keywords. -/
def body : Nat → Reader Command
  | 0 => fault "too long"
  | fuel + 1 => do return (← list fuel .body none).getD .nothing

def conditional : Nat → Reader Command
  | 0 => fault "too long"
  | fuel + 1 => do
    let condition ← body fuel
    closed fuel (.keyword "then")
    let consequence ← body fuel
    match ← next fuel false true with
    | .keyword "elif" => return .conditional condition consequence (some (← conditional fuel))
    | .keyword "else" =>
      let alternative ← body fuel
      closed fuel (.keyword "fi")
      return .conditional condition consequence (some alternative)
    | .keyword "fi" => return .conditional condition consequence none
    | t => expecting t (.keyword "fi")

def loop : Nat → Bool → Reader Command
  | 0, _ => fault "too long"
  | fuel + 1, whileTrue => do
    let condition ← body fuel
    closed fuel (.keyword "do")
    let inner ← body fuel
    closed fuel (.keyword "done")
    return .loop whileTrue condition inner

def forEach : Nat → Nat → Reader Command
  | 0, _ => fault "too long"
  | fuel + 1, line => do
    let name ← match ← next fuel false false with
      | .word w =>
        match w.plain? with
        | some bytes =>
          if isName bytes then pure (String.ofList bytes) else fault "Bad for loop variable"
        | none => fault "Bad for loop variable"
      | _ => fault "Bad for loop variable"
    let values ← match ← next fuel true true with
      | .keyword "in" =>
        let (values, ending) ← words fuel []
        match ending with
        | .newline | .operator ";" => pure values
        | t => unexpected t
      | .operator ";" => pure [[.parameter "@" .value true]]
      | t => push t; pure [[.parameter "@" .value true]]
    match ← next fuel true true with
    | .keyword "do" =>
      let inner ← body fuel
      closed fuel (.keyword "done")
      return .forEach line name values inner
    | t => expecting t (.keyword "do")

def words : Nat → List Word → Reader (List Word × Token)
  | 0, _ => fault "too long"
  | fuel + 1, done => do
    match ← next fuel false false with
    | .word w => words fuel (w :: done)
    | t => return (done.reverse, t)

def arms : Nat → Reader (List (List Word × Command))
  | 0 => fault "too long"
  | fuel + 1 => do
    match ← next fuel true true with
    | .keyword "esac" => return []
    | t =>
      let t ← match t with
        | .operator "(" => next fuel false false
        | t => pure t
      let patterns ← alternatives fuel t
      let inner ← list fuel .optional none
      let arm := (patterns, inner.getD .nothing)
      match ← next fuel true true with
      | .keyword "esac" => return [arm]
      | .operator ";;" => return arm :: (← arms fuel)
      | t => expecting t (.operator ";;")

/-- The patterns of an arm, the first of which has been read. -/
def alternatives : Nat → Token → Reader (List Word)
  | 0, _ => fault "too long"
  | fuel + 1, t => do
    let w : Word := match t with
      | .word w => w
      | .keyword name => [.text name.toList false]
      | _ => []
    match ← next fuel false false with
    | .operator "|" => return w :: (← alternatives fuel (← next fuel false false))
    | .operator ")" => return [w]
    | t => expecting t (.operator ")")

/-- The redirections after a compound command. -/
def redirected : Nat → Nat → Command → Reader Command
  | 0, _, _ => fault "too long"
  | fuel + 1, line, c => do
    match ← next fuel false true with
    | .redirect channel symbol =>
      let r ← redirect fuel channel symbol
      match ← redirected fuel line c with
      | .redirected _ _ more => return .redirected line c (r :: more)
      | _ => return .redirected line c [r]
    | t => push t; return c

/-- A redirection whose operator has been read. -/
def redirect : Nat → Option Nat → String → Reader Redirect
  | 0, _, _ => fault "too long"
  | fuel + 1, channel, symbol => do
    match ← next fuel false false with
    | .word w =>
      match symbol with
      | "<" => return .file (channel.getD 0) .read w
      | "<>" => return .file (channel.getD 0) .readWrite w
      | ">>" => return .file (channel.getD 1) .append w
      | "<&" => copyOf (channel.getD 0) w
      | ">&" => copyOf (channel.getD 1) w
      | "<<" | "<<-" =>
        let text ← takeDocument w.literal (symbol = "<<-")
        if w.hasQuotes then return .document (channel.getD 0) [.text text true]
        let outer ← get
        set { outer with rest := text, pushed := none }
        let inner ← parts fuel .document []
        set outer
        return .document (channel.getD 0) inner
      | _ => return .file (channel.getD 1) .write w
    | t => unexpected t

/-- Assignments, words and redirections, latest first. -/
def simple : Nat → Nat → List (String × Word) → List Word → List Redirect → Reader Command
  | 0, _, _, _, _ => fault "too long"
  | fuel + 1, line, assignments, ws, redirects => do
    let t ← next fuel false false
    let finish : Reader Command := do
      push t
      return .simple line assignments.reverse ws.reverse redirects.reverse
    match t with
    | .word w =>
      match assignment? w, ws with
      | some a, [] => simple fuel line (a :: assignments) ws redirects
      | _, _ => simple fuel line assignments (w :: ws) redirects
    | .redirect channel symbol =>
      let r ← redirect fuel channel symbol
      simple fuel line assignments ws (r :: redirects)
    | .operator "(" =>
      match assignments, ws, redirects with
      | [], [w], [] =>
        match ← next fuel false false with
        | .operator ")" =>
          match w.plain? with
          | some bytes =>
            let name := String.ofList bytes
            if !isName bytes || specialBuiltins.contains name then fault "Bad function name"
            return .define name (← command fuel true)
          | none => fault "Bad function name"
        | t => expecting t (.operator ")")
      | _, _, _ => finish
    | _ => finish

end

end Reader

/-- The lines of a script up to the first fault, and the fault. -/
def readLines : Nat → Reading → List Command × Option ScriptFault
  | 0, _ => ([], none)
  | fuel + 1, s =>
    match (Reader.list (16 * s.rest.length + 64) .line none).run s with
    | .error fault => ([], some fault)
    | .ok (c, s) =>
      let line := c.getD .nothing
      match s.pushed with
      | some .endOfText => ([line], none)
      | _ =>
        let (lines, fault) := readLines fuel { s with pushed := none }
        (line :: lines, fault)

def readScript (text : Bytes) : List Command × Option ScriptFault :=
  readLines (text.length + 1) { rest := text }

end LoopSafety.Shell
