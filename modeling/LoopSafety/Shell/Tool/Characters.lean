import LoopSafety.Shell.Pattern
import LoopSafety.Shell.Tool.Basic

/-! Tools that change or choose characters: by the sets they are in, or by where they stand. -/
namespace LoopSafety.Shell.Tool

/-! Sets of characters -/

/-- Characters of a set, or one character repeated; how often may depend on the other set. -/
inductive SetPiece where
  | chars (bytes : Bytes)
  | named (name : String)
  | repeated (c : Char) (count : Option Nat)

/-- One character, perhaps written as an escape. -/
def setChar : Bytes → Char × Bytes
  | '\\' :: c :: rest =>
    match c with
    | 'n' => ('\n', rest)
    | 't' => ('\t', rest)
    | 'r' => ('\r', rest)
    | 'a' => ('\x07', rest)
    | 'b' => ('\x08', rest)
    | 'f' => ('\x0c', rest)
    | 'v' => ('\x0b', rest)
    | c =>
      if Arithmetic.digitValue c < 8 then
        let ds := ((c :: rest).take 3).takeWhile (Arithmetic.digitValue · < 8)
        (Char.ofNat (Arithmetic.natOf 8 ds % 256), (c :: rest).drop ds.length)
      else (c, rest)
  | c :: rest => (c, rest)
  | [] => ('\\', [])

/-- A piece in brackets: a class, a character like another, or a character repeated. -/
def bracketPiece? : Bytes → Option (SetPiece × Bytes)
  | ':' :: rest =>
    let className := rest.takeWhile (· != ':')
    match rest.drop className.length with
    | ':' :: ']' :: after => some (.named (String.ofList className), after)
    | _ => none
  | '=' :: c :: '=' :: ']' :: after => some (.chars [c], after)
  | rest =>
    match setChar rest with
    | (c, '*' :: more) =>
      let ds := more.takeWhile Char.isDigit
      match more.drop ds.length with
      | ']' :: after =>
        let base := if ds.head? == some '0' then 8 else 10
        let count := Arithmetic.natOf base ds
        some (.repeated c (if count = 0 then none else some count), after)
      | _ => none
    | _ => none

/-- The pieces of a set. The fault is the text of the complaint. -/
def setPieces : Nat → Bytes → Except Bytes (List SetPiece)
  | 0, _ => .ok []
  | _, [] => .ok []
  | fuel + 1, text => do
    let inBrackets := match text with
      | '[' :: rest => bracketPiece? rest
      | _ => none
    match inBrackets with
    | some (.named name, after) =>
      if ((List.range 256).map Char.ofNat).any (isInClass name) then
        return .named name :: (← setPieces fuel after)
      else .error (Bytes.ofText "invalid character class " ++ inQuotes name.toList)
    | some (piece, after) => return piece :: (← setPieces fuel after)
    | none =>
      let (c, rest) := setChar text
      match rest with
      | '-' :: d :: more =>
        let (d, more) := setChar (d :: more)
        if d < c then
          .error (Bytes.ofText "range-endpoints of '" ++ [c, '-', d] ++
            Bytes.ofText "' are in reverse collating sequence order")
        else
          let all := (List.range (d.toNat + 1 - c.toNat)).map fun k => Char.ofNat (c.toNat + k)
          return .chars all :: (← setPieces fuel more)
      | _ => return .chars [c] :: (← setPieces fuel rest)

/-- The characters of a set. Open repetitions make it as long as asked. -/
def spread (length : Nat) (pieces : List SetPiece) : Bytes :=
  let plain : SetPiece → Bytes
    | .chars bytes => bytes
    | .named name => ((List.range 256).map Char.ofNat).filter (isInClass name)
    | .repeated c count => List.replicate (count.getD 0) c
  let missing := length - (pieces.flatMap plain).length
  pieces.flatMap fun
    | .repeated c none => List.replicate missing c
    | piece => plain piece

def squeeze (set : Bytes) : Bytes → Bytes
  | c :: d :: rest =>
    if c == d && set.contains c then squeeze set (d :: rest) else c :: squeeze set (d :: rest)
  | rest => rest

/-- The last character of the second set stands for all that the first has more. -/
def replaceChar (source target : Bytes) (c : Char) : Char :=
  match source.reverse.findIdx? (· == c) with
  | some i =>
    let k := source.length - 1 - i
    (target[k]?).getD (target.getLast?.getD c)
  | none => c

/-- Replace, drop or squeeze characters of the input. -/
def tr : Tool := withArguments { letters := "dscCt", long := [("delete", 'd'),
    ("squeeze-repeats", 's'), ("complement", 'c'), ("truncate-set1", 't')] } 1 fun name a => do
  let missing (text : Bytes) (hint : String) : Run Nat := do
    complain name (Bytes.ofText "missing operand after " ++ inQuotes text)
    complainText (hint ++ "\n")
    tryHelp name
    return 1
  let extra (text : Bytes) (hint : String) : Run Nat := do
    complain name (Bytes.ofText "extra operand " ++ inQuotes text)
    complainText hint
    tryHelp name
    return 1
  let sets (texts : List Bytes) : Except Bytes (List (List SetPiece)) :=
    texts.mapM fun text => setPieces (text.length + 1) text
  match a.operands, a.has 'd', a.has 's' with
  | [], _, _ => usage name (Bytes.ofText "missing operand")
  | [source], true, true =>
    missing source "Two strings must be given when both deleting and squeezing repeats."
  | [source], false, false => missing source "Two strings must be given when translating."
  | [_, second], true, false =>
    extra second "Only one string may be given when deleting without squeezing repeats.\n"
  | _ :: second :: _ :: _, true, false => extra second ""
  | _ :: _ :: third :: _, _, _ => extra third ""
  | operands, deletes, squeezes =>
    match sets operands with
    | .error message => complain name message; return 1
    | .ok pieces =>
      let source := spread 0 (pieces.headD [])
      let source := if a.has 'c' || a.has 'C' then
        ((List.range 256).map Char.ofNat).filter fun c => !source.contains c
        else source
      let target := (pieces[1]?).map (spread source.length)
      match deletes, target with
      | true, target =>
        let kept := ((← readAll 0).getD []).filter fun c => !source.contains c
        print (target.elim kept (squeeze · kept))
        return 0
      | false, none => print (squeeze source ((← readAll 0).getD [])); return 0
      | false, some [] =>
        if source.isEmpty || a.has 't' then print ((← readAll 0).getD []); return 0
        complain name
          (Bytes.ofText "when not truncating set1, string2 must be non-empty")
        return 1
      | false, some target =>
        let source := if a.has 't' then source.take target.length else source
        let replaced := ((← readAll 0).getD []).map (replaceChar source target)
        print (if squeezes then squeeze target replaced else replaced)
        return 0

/-! Columns -/

/-- A list of positions such as `1,3-5,7-`, as lowest and highest. The fault is the text of the
complaint. -/
def positions (fields : Bool) (text : Bytes) : Except Bytes (List (Nat × Option Nat)) :=
  ((String.ofList text).splitOn ",").mapM fun item => do
    let bad (word : String) : Bytes := Bytes.ofText
      (if fields then "invalid field value '" ++ word ++ "'"
       else "invalid byte/character position '" ++ word ++ "'")
    let number (word : String) : Except Bytes Nat :=
      match nat? word.toList with
      | some 0 => .error zero
      | some n => .ok n
      | none => .error (bad word)
    match item.splitOn "-" with
    | [""] => .error zero
    | [n] => return (← number n, some (← number n))
    | ["", ""] => .error (Bytes.ofText "invalid range with no endpoint: -")
    | [low, ""] => return (← number low, none)
    | ["", high] => return (1, some (← number high))
    | [low, high] =>
      let (low, high) := (← number low, ← number high)
      if high < low then .error (Bytes.ofText "invalid decreasing range")
      return (low, some high)
    | _ => .error (Bytes.ofText
        (if fields then "invalid field range" else "invalid byte or character range"))
where
  zero : Bytes := Bytes.ofText (if fields then "fields are numbered from 1"
    else "byte/character positions are numbered from 1")

def inPositions (ps : List (Nat × Option Nat)) (n : Nat) : Bool :=
  ps.any fun (low, high) => low ≤ n && high.all (n ≤ ·)

def splitOn (c : Char) : Bytes → List Bytes
  | [] => [[]]
  | d :: rest =>
    match splitOn c rest with
    | [] => [[d]]
    | first :: more => if c == d then [] :: first :: more else (d :: first) :: more

def select {α : Type} (keep : Nat → Bool) (items : List α) : List α :=
  (items.zipIdx 1).filterMap fun (x, i) => if keep i then some x else none

/-- Parts of each line, by the positions of characters or of fields. -/
def cut : Tool := withArguments { letters := "snv", withText := "cbfdo", long := [("bytes", 'b'),
    ("characters", 'c'), ("fields", 'f'), ("delimiter", 'd'), ("only-delimited", 's'),
    ("complement", 'v'), ("output-delimiter", 'o')] } 1 fun name a => do
  let lists := a.options.filter fun e => "cbf".toList.contains e.1
  let fields := a.has 'f'
  let refuse (message : String) : Run Nat := usage name (Bytes.ofText message)
  match lists with
  | [] => refuse "you must specify a list of bytes, characters, or fields"
  | _ :: _ :: _ => refuse "only one list may be specified"
  | [(_, list)] =>
    if (a.get? 'd').any (1 < ·.length) then refuse "the delimiter must be a single character"
    else if a.has 'd' && !fields then
      refuse "an input delimiter may be specified only when operating on fields"
    else if a.has 's' && !fields then
      refuse "suppressing non-delimited lines makes sense\n\tonly when operating on fields"
    else
      match positions fields list with
      | .error message => usage name message
      | .ok ps =>
        let (found, status) ← readOperands a.operands (tellFault name)
        let delimiter := ((a.get? 'd').bind List.head?).getD '\t'
        let joint := (a.get? 'o').getD [delimiter]
        let keep (n : Nat) : Bool := inPositions ps n != a.has 'v'
        for (_, bytes) in found do
          for (line, _) in lines bytes do
            if fields then
              if line.contains delimiter then
                print (List.intercalate joint (select keep (splitOn delimiter line)) ++ ['\n'])
              else if !a.has 's' then print (line ++ ['\n'])
            else print (select keep line ++ ['\n'])
        return status

end LoopSafety.Shell.Tool
