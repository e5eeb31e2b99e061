import LoopSafety.Shell.Tool.Characters

/-! Tools that order lines, or look at their order. -/
namespace LoopSafety.Shell.Tool

/-- The number at the start of a line, in thousandths. -/
def leadingNumber (line : Bytes) : Int :=
  let body := line.dropWhile Arithmetic.isBlank
  let (negative, body) := match body with
    | '-' :: rest => (true, rest)
    | rest => (false, rest)
  let whole := body.takeWhile Char.isDigit
  let fraction := match body.drop whole.length with
    | '.' :: rest => (rest.takeWhile Char.isDigit).take 3
    | _ => []
  let n : Int := Arithmetic.natOf 10 (whole ++ fraction ++ List.replicate (3 - fraction.length) '0')
  if negative then -n else n

/-- What an order of lines goes by: a key from some field on, and how keys are compared. -/
structure SortOrder where
  numeric : Bool := false
  reversed : Bool := false
  ignoreCase : Bool := false
  keysOnly : Bool := false
  field : Option Nat := none
  separator : Option Char := none

namespace SortOrder

/-- The order that options ask for. The fault is the text of the complaint. -/
def ofOptions (a : Arguments) : Except Bytes SortOrder := do
  let key := a.get? 'k'
  let field ← match key with
    | none => pure none
    | some text =>
      match nat? (text.takeWhile Char.isDigit) with
      | none => .error (Bytes.ofText "invalid number at field start: invalid count at start of " ++
          inQuotes text)
      | some 0 => .error (Bytes.ofText "field number is zero: invalid field specification " ++
          inQuotes text)
      | some n => pure (some n)
  let separator ← match a.get? 't' with
    | none => pure none
    | some [c] => pure (some c)
    | some [] => .error (Bytes.ofText "empty tab")
    | some text => .error (Bytes.ofText "multi-character tab " ++ inQuotes text)
  return { numeric := a.has 'n' || key.any (·.contains 'n')
           reversed := a.has 'r' || key.any (·.contains 'r')
           ignoreCase := a.has 'f'
           keysOnly := a.has 'u' || a.has 's'
           field
           separator }

def key (o : SortOrder) (line : Bytes) : Bytes :=
  let line := match o.field, o.separator with
    | none, _ => line
    | some k, some c => List.intercalate [c] ((splitOn c line).drop (k - 1))
    | some k, none =>
      let fields := (splitOn ' ' line).filter fun f => !f.isEmpty
      List.intercalate [' '] (fields.drop (k - 1))
  if o.ignoreCase then line.map Char.toUpper else line

def compare (o : SortOrder) (x y : Bytes) : Ordering :=
  let byKey := if o.numeric then Ord.compare (leadingNumber (o.key x)) (leadingNumber (o.key y))
    else compareOfLessAndEq (o.key x) (o.key y)
  let all := if byKey = .eq && !o.keysOnly then compareOfLessAndEq x y else byKey
  if o.reversed then all.swap else all

def sorted (o : SortOrder) (all : List Bytes) : List Bytes :=
  all.mergeSort fun x y => o.compare x y != .gt

/-- The first line that stands after a greater one, with its number. -/
def disorder? (o : SortOrder) (unique : Bool) : Nat → List Bytes → Option (Nat × Bytes)
  | n, x :: y :: rest =>
    let c := o.compare x y
    if c = .gt || (unique && c = .eq) then some (n + 1, y)
    else o.disorder? unique (n + 1) (y :: rest)
  | _, _ => none

end SortOrder

/-- Of lines in order, the first of each that are equal. -/
def firstOfEqual (o : SortOrder) (sorted : List Bytes) : List Bytes :=
  sorted.foldr (fun x rest => match rest with
    | y :: more => if o.compare x y = .eq then x :: more else x :: rest
    | [] => [x]) []

def sort : Tool := withArguments
    { letters := "nrufbscC", withText := "kt", long := [("reverse", 'r'), ("numeric-sort", 'n'),
        ("unique", 'u'), ("ignore-case", 'f'), ("key", 'k'), ("field-separator", 't'),
        ("stable", 's'), ("check", 'c')] } 2 fun name a => do
  match SortOrder.ofOptions a with
  | .error message => complain name message; return 2
  | .ok o =>
    let tell (path : Bytes) (fault : FileFault) : Run Unit :=
      let what := if fault = .isADirectory then "read failed: " else "cannot read: "
      complain name (Bytes.ofText what ++ path ++ [':', ' '] ++ Bytes.ofText fault.reason)
    let (found, status) ← readOperands a.operands tell
    if status != 0 then return 2
    let all := found.flatMap fun (_, bytes) => (lines bytes).map (·.1)
    if a.has 'c' || a.has 'C' then
      match o.disorder? (a.has 'u') 1 all with
      | none => return 0
      | some (n, line) =>
        if a.has 'c' then
          complain name (a.operands.headD ['-'] ++ ':' :: natText n ++
            Bytes.ofText ": disorder: " ++ line)
        return 1
    else
      let sorted := o.sorted all
      print (unlines (if a.has 'u' then firstOfEqual o sorted else sorted))
      return 0

/-- Runs of equal lines with their lengths. -/
def runs (same : Bytes → Bytes → Bool) : List Bytes → List (Bytes × Nat)
  | [] => []
  | line :: rest =>
    match runs same rest with
    | (next, n) :: more =>
      if same line next then (line, n + 1) :: more else (line, 1) :: (next, n) :: more
    | [] => [(line, 1)]

/-- Lines without those that repeat the line before. -/
def uniq : Tool := withArguments { letters := "cdui", long := [("count", 'c'), ("repeated", 'd'),
    ("unique", 'u'), ("ignore-case", 'i')] } 1 fun name a => do
  match a.operands with
  | _ :: _ :: third :: _ => usage name (Bytes.ofText "extra operand " ++ inQuotes third)
  | operands =>
    let (found, status) ← readOperands (operands.take 1) fun path fault =>
      if fault = .isADirectory then
        complain name
          (Bytes.ofText "error reading " ++ inQuotes path ++ Bytes.ofText ": Is a directory")
      else tellFault name path fault
    let all := found.flatMap fun (_, bytes) => (lines bytes).map (·.1)
    let same (x y : Bytes) : Bool :=
      x == y || (a.has 'i' && x.map Char.toLower == y.map Char.toLower)
    for (line, n) in runs same all do
      if (!a.has 'd' || 1 < n) && (!a.has 'u' || n = 1) then
        print ((if a.has 'c' then padLeft 7 (natText n) ++ [' '] else []) ++ line ++ ['\n'])
    return status

end LoopSafety.Shell.Tool
