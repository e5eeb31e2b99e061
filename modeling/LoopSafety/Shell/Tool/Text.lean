import LoopSafety.Shell.Tool.Basic

/-! Tools that pass text on: all of it, parts of it, or counts of it. -/
namespace LoopSafety.Shell.Tool

/-- A byte in printable characters. -/
def visible (c : Char) : Bytes :=
  let low (n : Nat) : Bytes :=
    if n < 32 then ['^', Char.ofNat (n + 64)] else if n = 127 then ['^', '?'] else [Char.ofNat n]
  if c.toNat < 128 then low c.toNat else 'M' :: '-' :: low (c.toNat - 128)

/-- How a line is shown. -/
structure LineStyle where
  numbersAll : Bool
  numbersFull : Bool
  squeezes : Bool
  marksEnds : Bool
  marksTabs : Bool
  marksOthers : Bool

def LineStyle.ofOptions (a : Arguments) : LineStyle where
  numbersAll := a.has 'n' && !a.has 'b'
  numbersFull := a.has 'b'
  squeezes := a.has 's'
  marksEnds := a.has 'E' || a.has 'e' || a.has 'A'
  marksTabs := a.has 'T' || a.has 't' || a.has 'A'
  marksOthers := a.has 'v' || a.has 'e' || a.has 't' || a.has 'A'

def LineStyle.byte (y : LineStyle) (c : Char) : Bytes :=
  if c == '\t' then if y.marksTabs then ['^', 'I'] else [c]
  else if y.marksOthers then visible c
  else [c]

/-- Lines as shown, from a number on, and whether the line before was empty. -/
def LineStyle.shown (y : LineStyle) : Nat → Bool → List (Bytes × Bool) → Bytes × Nat × Bool
  | n, blank, [] => ([], n, blank)
  | n, blank, (line, ended) :: rest =>
    let empty := line.isEmpty && ended
    if empty && blank && y.squeezes then y.shown n true rest
    else
      let numbered := y.numbersAll || (y.numbersFull && !empty)
      let start := if numbered then padLeft 6 (natText n) ++ ['\t'] else []
      let stop := if ended then if y.marksEnds then ['$', '\n'] else ['\n'] else []
      let (more, last) := y.shown (if numbered then n + 1 else n) empty rest
      (start ++ line.flatMap y.byte ++ stop ++ more, last)

/-- Contents one after another. -/
def cat : Tool := withArguments { letters := "AbeEnstTuv", long := [("show-all", 'A'),
    ("number-nonblank", 'b'), ("show-ends", 'E'), ("number", 'n'), ("squeeze-blank", 's'),
    ("show-tabs", 'T'), ("show-nonprinting", 'v')] } 1 fun name a => do
  let style := LineStyle.ofOptions a
  let plain := a.options.all (·.1 == 'u')
  let mut status := 0
  let mut number := 1
  let mut blank := false
  for path in if a.operands.isEmpty then [['-']] else a.operands do
    match ← readOperand path with
    | .error fault => tellFault name path fault; status := 1
    | .ok bytes =>
      if plain then print bytes
      else
        let (shown, last) := style.shown number blank (lines bytes)
        print shown
        number := last.1
        blank := last.2
  return status

/-- The lines of each operand from the last to the first. -/
def tac : Tool := withArguments { letters := "" } 1 fun name a => do
  let (found, status) ← readOperands a.operands fun path fault =>
    complain name (Bytes.ofText "failed to open " ++ inQuotes path ++
      Bytes.ofText (" for reading: " ++ fault.reason))
  for (_, bytes) in found do
    print ((lines bytes).reverse.flatMap fun (line, ended) =>
      line ++ if ended then ['\n'] else [])
  return status

/-- How much of a text: so many units, all but so many, or from some unit on. -/
inductive Amount where
  | first (n : Nat)
  | allBut (n : Nat)
  | fromOn (n : Nat)

/-- A number, perhaps with a unit. -/
def count? (text : Bytes) : Option Nat := do
  let ds := text.takeWhile Char.isDigit
  let n ← nat? ds
  let unit ← [("", 1), ("b", 512), ("kB", 1000), ("k", 1024), ("K", 1024), ("MB", 1000000),
    ("M", 1048576), ("GB", 1000000000), ("G", 1073741824)].lookup
      (String.ofList (text.drop ds.length))
  return n * unit

def Amount.ofText? (text : Bytes) : Option Amount :=
  match text with
  | '-' :: ds => (count? ds).map .allBut
  | '+' :: ds => (count? ds).map .fromOn
  | ds => (count? ds).map .first

def joinLines (ls : List (Bytes × Bool)) : Bytes :=
  ls.flatMap fun (line, ended) => line ++ if ended then ['\n'] else []

def dropLast {α : Type} (n : Nat) (items : List α) : List α := items.take (items.length - n)

def takeLast {α : Type} (n : Nat) (items : List α) : List α := items.drop (items.length - n)

/-- The complaint about an amount, which names it without its sign. -/
def badAmount (name : Bytes) (unit : String) (text : Bytes) : Run Nat := do
  let number := match text with
    | '-' :: rest => rest
    | rest => rest
  complain name (Bytes.ofText ("invalid number of " ++ unit ++ ": ") ++ inQuotes number)
  return 1

/-- Old forms such as `-3` count lines. -/
def oldCount (args : List Bytes) : List Bytes :=
  match args with
  | ('-' :: c :: more) :: rest =>
    if c.isDigit && more.all Char.isDigit then ['-', 'n'] :: (c :: more) :: rest else args
  | _ => args

/-- Show parts of files, each under its name if there are several. -/
def showParts (name : Bytes) (a : Arguments) (cut : Bytes → Bytes)
    (input : Option (Run Bytes)) : Run Nat := do
  let operands := if a.operands.isEmpty then [['-']] else a.operands
  let headers := a.has 'v' || (1 < operands.length && !a.has 'q')
  let mut status := 0
  let mut first := true
  for path in operands do
    let contents ← match input, path with
      | some read, ['-'] => do pure (.ok (← read))
      | _, _ => do pure ((← readOperand path).map cut)
    match contents with
    | .error .isADirectory =>
      complain name
        (Bytes.ofText "error reading " ++ inQuotes path ++ Bytes.ofText ": Is a directory")
      status := 1
    | .error fault =>
      complain name (Bytes.ofText "cannot open " ++ inQuotes path ++
        Bytes.ofText (" for reading: " ++ fault.reason))
      status := 1
    | .ok bytes =>
      if headers then
        let title := if path = ['-'] then Bytes.ofText "standard input" else path
        print ((if first then [] else ['\n']) ++
          Bytes.ofText "==> " ++ title ++ Bytes.ofText " <==\n")
      first := false
      print bytes
  return status

def head : Tool := fun name args =>
  withArguments { letters := "qv", withText := "nc", long := [("lines", 'n'), ("bytes", 'c')] } 1
    (fun name a => do
      match a.get? 'c', a.get? 'n' with
      | some text, _ =>
        match Amount.ofText? text with
        | some (.first n) =>
          -- not more is read than is shown
          showParts name a (·.take n) (some do return (← readWith 0 (min n ·.length)).getD [])
        | some (.allBut n) => showParts name a (dropLast n) none
        | some (.fromOn n) => showParts name a (·.take n) none
        | none => badAmount name "bytes" text
      | none, text =>
        let text := text.getD ['1', '0']
        match Amount.ofText? text with
        | some (.first n) | some (.fromOn n) =>
          showParts name a (fun b => joinLines ((lines b).take n)) none
        | some (.allBut n) => showParts name a (fun b => joinLines (dropLast n (lines b))) none
        | none => badAmount name "lines" text)
    name (oldCount args)

def tail : Tool := fun name args =>
  withArguments { letters := "qvf", withText := "nc", long := [("lines", 'n'), ("bytes", 'c')] } 1
    (fun name a => do
      let cut {α : Type} (items : List α) : Amount → List α
        | .first n | .allBut n => takeLast n items
        | .fromOn n => items.drop (n - 1)
      match a.get? 'c', a.get? 'n' with
      | some text, _ =>
        match Amount.ofText? text with
        | some amount => showParts name a (cut · amount) none
        | none => badAmount name "bytes" text
      | none, text =>
        let text := text.getD ['1', '0']
        match Amount.ofText? text with
        | some amount => showParts name a (fun b => joinLines (cut (lines b) amount)) none
        | none => badAmount name "lines" text)
    name (match args with
      | ('+' :: ds) :: rest =>
        if (nat? ds).isSome then ['-', 'n'] :: ('+' :: ds) :: rest else args
      | args => oldCount args)

def wordCount (bytes : Bytes) : Nat :=
  (bytes.foldl (fun (n, inside) c =>
    if Arithmetic.isBlank c then (n, false) else (if inside then n else n + 1, true)) (0, false)).1

/-- Lines, words and bytes of each file. Counts are as wide as the largest of them may be. -/
def wc : Tool := withArguments
    { letters := "clwm", long := [("bytes", 'c'), ("lines", 'l'), ("words", 'w'),
        ("chars", 'm')] } 1 fun name a => do
  let plain := a.options.isEmpty
  let shown (c : Char) : Bool := plain && c != 'm' || a.has c
  let counts (bytes : Bytes) : List Nat :=
    (if shown 'l' then [bytes.count '\n'] else []) ++
      (if shown 'w' then [wordCount bytes] else []) ++
      (if shown 'm' then [bytes.length] else []) ++ (if shown 'c' then [bytes.length] else [])
  let operands := if a.operands.isEmpty then [['-']] else a.operands
  let mut rows : List (Option (List Nat) × Bytes) := []
  let mut status := 0
  let mut size := 0
  let mut irregular := false
  for path in operands do
    let regular ← do
      if path = ['-'] then
        match ← streamOf? 0 with
        | some (_, .file ..) => pure true
        | _ => pure false
      else pure true
    match ← readOperand path with
    | .ok bytes =>
      rows := rows ++ [(some (counts bytes), path)]
      size := size + bytes.length
      if !regular then irregular := true
    | .error fault =>
      tellFault name path fault
      status := 1
      if fault = .isADirectory then
        irregular := true
        rows := rows ++ [(some ((counts []).map fun _ => 0), path)]
  let columns := (counts []).length
  let width :=
    if operands.length = 1 && columns = 1 then 1
    else max (natText size).length (if irregular then 7 else 1)
  let row (ns : List Nat) (label : Bytes) : Bytes :=
    List.intercalate [' '] (ns.map fun n => padLeft width (natText n)) ++ label ++ ['\n']
  for (ns, path) in rows do
    match ns with
    | some ns => print (row ns (if a.operands.isEmpty then [] else ' ' :: path))
    | none => pure ()
  if 1 < operands.length then
    let zeros := (counts []).map fun _ => 0
    let total := rows.foldl (fun sums r => List.zipWith (· + ·) sums (r.1.getD zeros)) zeros
    print (row total (Bytes.ofText " total"))
  return status

/-- Copy the input to the output and to files. -/
def tee : Tool := withArguments { letters := "ai" } 1 fun name a => do
  let bytes := (← readAll 0).getD []
  print bytes
  let mut status := 0
  for path in a.operands do
    let m ← get
    let old := if a.has 'a' then
      match m.disk.read m.shell.folder (Bytes.toText path) with
      | .ok old => old
      | .error _ => []
      else []
    match m.disk.place m.shell.folder (Bytes.toText path) with
    | .device (.channel n) => let _ ← write n bytes
    | _ =>
      match m.disk.write m.shell.folder (Bytes.toText path) (old ++ bytes) with
      | .ok disk => set { m with disk }
      | .error fault => tellFault name path fault; status := 1
  return status

end LoopSafety.Shell.Tool
