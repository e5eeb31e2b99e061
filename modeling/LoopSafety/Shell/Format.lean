import LoopSafety.Decimal
import LoopSafety.Shell.Arithmetic

/-! Texts with escapes, and templates that arguments are put into. -/
namespace LoopSafety.Shell.Format

/-! Escapes -/

/-- Which escapes there are beside the common ones. -/
structure Escapes where
  /-- A zero before three octal digits does not count as one of them. -/
  leadingZero : Bool := false
  hexadecimal : Bool := false
  quote : Bool := false
  /-- `\c` ends the output. -/
  stops : Bool := false

namespace Escapes

def simple? : Char → Option Char
  | '\\' => some '\\'
  | 'a' => some '\x07'
  | 'b' => some '\x08'
  | 'e' => some '\x1b'
  | 'f' => some '\x0c'
  | 'n' => some '\n'
  | 'r' => some '\r'
  | 't' => some '\t'
  | 'v' => some '\x0b'
  | _ => none

/-- At most so many digits of a base, as a byte, and what follows them. -/
def digits (base most : Nat) (text : Bytes) : Char × Bytes :=
  let ds := (text.take most).takeWhile fun c => Arithmetic.digitValue c < base
  (Char.ofNat (Arithmetic.natOf base ds % 256), text.drop ds.length)

/-- What follows a backslash: the bytes that it stands for and the rest, or nothing if the output
ends here. -/
def after (e : Escapes) : Bytes → Option (Bytes × Bytes)
  | [] => some (['\\'], [])
  | c :: rest =>
    if c == 'c' && e.stops then none
    else if c == '0' && e.leadingZero then
      let (b, rest) := digits 8 3 rest
      some ([b], rest)
    else if Arithmetic.digitValue c < 8 then
      let (b, rest) := digits 8 3 (c :: rest)
      some ([b], rest)
    else if c == 'x' && e.hexadecimal && rest.head?.any fun d => Arithmetic.digitValue d < 16 then
      let (b, rest) := digits 16 2 rest
      some ([b], rest)
    else if c == '"' && e.quote then some (['"'], rest)
    else match simple? c with
      | some d => some ([d], rest)
      | none => some (['\\', c], rest)

/-- The text that escapes stand for, and whether it was cut. -/
def expand (e : Escapes) : Nat → Bytes → Bytes × Bool
  | 0, _ => ([], false)
  | _, [] => ([], false)
  | fuel + 1, '\\' :: rest =>
    match e.after rest with
    | none => ([], true)
    | some (bytes, rest) =>
      let (more, cut) := e.expand fuel rest
      (bytes ++ more, cut)
  | fuel + 1, c :: rest =>
    let (more, cut) := e.expand fuel rest
    (c :: more, cut)

def text (e : Escapes) (bytes : Bytes) : Bytes × Bool := e.expand (bytes.length + 1) bytes

end Escapes

/-- The shell's own words: escapes count, and only `-n` is an option. -/
def shellEcho (words : List Bytes) : Bytes :=
  let (newline, words) := match words with
    | ['-', 'n'] :: rest => (false, rest)
    | words => (true, words)
  let (text, cut) :=
    Escapes.text { leadingZero := true, stops := true } (List.intercalate [' '] words)
  text ++ (if newline && !cut then ['\n'] else [])

/-- The program's words: escapes count only with `-e`. -/
def plainEcho (words : List Bytes) : Bytes :=
  let isOption (w : Bytes) : Bool :=
    w.head? == some '-' && 1 < w.length && w.tail.all fun c => c == 'n' || c == 'e' || c == 'E'
  let options := (words.takeWhile isOption).flatMap List.tail
  let words := List.intercalate [' '] (words.dropWhile isOption)
  let escapes := (options.filter (· != 'n')).getLast? == some 'e'
  let (text, cut) :=
    if escapes then Escapes.text { leadingZero := true, hexadecimal := true, stops := true } words
    else (words, false)
  text ++ (if !options.contains 'n' && !cut then ['\n'] else [])

/-! Templates -/

/-- A width or precision: none, a number, or the next argument. -/
inductive Measure where
  | none
  | number (n : Nat)
  | argument

structure Field where
  flags : Bytes
  width : Measure
  precision : Measure
  conversion : Char

inductive Piece where
  | text (bytes : Bytes)
  | field (field : Field)
  | stop
  /-- A field that makes no sense, as it is written. -/
  | malformed (source : Bytes)
  | unfinished

/-- Whose templates these are. -/
inductive Dialect where
  | shell | program
  deriving DecidableEq

namespace Field

def measure : Bytes → Measure × Bytes
  | '*' :: rest => (.argument, rest)
  | text =>
    let ds := text.takeWhile Char.isDigit
    (if ds.isEmpty then .none else .number (Arithmetic.natOf 10 ds), text.drop ds.length)

/-- A field after its percent sign. -/
def read (text : Bytes) : Piece × Bytes :=
  let isFlag (c : Char) : Bool := "#-+ 0".toList.contains c
  let flags := text.takeWhile isFlag
  let (width, rest) := measure (text.dropWhile isFlag)
  let (precision, rest) := match rest with
    | '.' :: rest =>
      match measure rest with
      | (.none, rest) => (.number 0, rest)
      | (m, rest) => (m, rest)
    | rest => (.none, rest)
  match rest with
  | [] => (.unfinished, [])
  | c :: rest =>
    if "bcsdiouxXaAeEfFgG".toList.contains c then (.field ⟨flags, width, precision, c⟩, rest)
    else (.malformed ('%' :: text.take (text.length - rest.length)), rest)

end Field

def pieces (e : Escapes) : Nat → Bytes → List Piece
  | 0, _ => []
  | _, [] => []
  | fuel + 1, '%' :: '%' :: rest => .text ['%'] :: pieces e fuel rest
  | fuel + 1, '%' :: rest =>
    let (piece, rest) := Field.read rest
    piece :: pieces e fuel rest
  | fuel + 1, '\\' :: rest =>
    match e.after rest with
    | none => [.stop]
    | some (bytes, rest) => .text bytes :: pieces e fuel rest
  | fuel + 1, c :: rest => .text [c] :: pieces e fuel rest

/-- What has been written, and the arguments that are left. -/
structure Printing where
  arguments : List Bytes
  output : Bytes := []
  complaints : List Bytes := []
  status : Nat := 0
  stopped : Bool := false

namespace Printing

def put (p : Printing) (bytes : Bytes) : Printing := { p with output := p.output ++ bytes }

def next (p : Printing) : Option Bytes × Printing :=
  (p.arguments.head?, { p with arguments := p.arguments.drop 1 })

def complain (p : Printing) (message : Bytes) : Printing :=
  { p with complaints := p.complaints ++ [message], status := 1 }

def fatal (p : Printing) (status : Nat) (message : Bytes) : Printing :=
  { p.complain message with status, stopped := true }

def quoted (d : Dialect) (bytes : Bytes) : Bytes :=
  match d with
  | .shell => bytes
  | .program => ['\''] ++ bytes ++ ['\'']

/-- Complain about an argument that is not all number. -/
def check (d : Dialect) (p : Printing) (argument rest : Bytes) (outOfRange : Bool) : Printing :=
  let say (message : String) : Printing :=
    p.complain (quoted d argument ++ [':', ' '] ++ Bytes.ofText message)
  if argument.isEmpty then
    if d = .program then say "expected a numeric value" else p
  else if rest.length = argument.length then
    say (if d = .shell then "expected numeric value" else "expected a numeric value")
  else if !rest.isEmpty then
    say (if d = .shell then "not completely converted" else "value not completely converted")
  else if outOfRange then say "Numerical result out of range"
  else p

/-- The value of an argument as an integer; a quote stands before a character. -/
def integer (d : Dialect) (p : Printing) : Int × Printing :=
  let (argument, p) := p.next
  match argument with
  | none => (0, p)
  | some ('\'' :: c :: _) | some ('"' :: c :: _) => (c.toNat, p)
  | some argument =>
    let body := argument.dropWhile Arithmetic.isBlank
    let (negative, digits) := match body with
      | '-' :: rest => (true, rest)
      | '+' :: rest => (false, rest)
      | rest => (false, rest)
    let (n, rest) := Arithmetic.number digits
    let value : Int := if negative then -n else n
    let rest := if digits.head?.any Char.isDigit then rest else argument
    let clipped := max Int64.minValue.toInt (min value (UInt64.size - 1 : Nat))
    (clipped, p.check d argument rest (clipped != value))

/-- The value of an argument as a real. -/
def real (d : Dialect) (p : Printing) : Float × Printing :=
  let (argument, p) := p.next
  match argument with
  | none => (0, p)
  | some ('\'' :: c :: _) | some ('"' :: c :: _) => (Float.ofNat c.toNat, p)
  | some argument =>
    let body := argument.dropWhile Arithmetic.isBlank
    let (negative, body) := match body with
      | '-' :: rest => (true, rest)
      | '+' :: rest => (false, rest)
      | rest => (false, rest)
    let whole := body.takeWhile Char.isDigit
    let (fraction, rest) := match body.drop whole.length with
      | '.' :: rest => (rest.takeWhile Char.isDigit, rest.dropWhile Char.isDigit)
      | rest => ([], rest)
    let (power, rest) : Int × Bytes := match rest with
      | e :: more =>
        if e == 'e' || e == 'E' then
          let (sign, ds) : Int × Bytes := match more with
            | '-' :: ds => (-1, ds)
            | '+' :: ds => (1, ds)
            | ds => (1, ds)
          let n := ds.takeWhile Char.isDigit
          if n.isEmpty then (0, rest)
          else (sign * min 9999 (Arithmetic.natOf 10 n), ds.drop n.length)
        else (0, rest)
      | [] => (0, [])
    let found := !(whole ++ fraction).isEmpty
    let rest := if found then rest else argument
    let exponent := power - fraction.length
    let digits := Arithmetic.natOf 10 (whole ++ fraction)
    let x := if exponent < 0 then Float.ofScientific digits true (-exponent).toNat
      else Float.ofScientific digits false exponent.toNat
    (if negative then -x else x, p.check d argument rest x.isInf)

/-- The number that a width or precision stands for; a negative one counts as a flag or as none. -/
def measure (d : Dialect) (p : Printing) : Measure → Option Int × Printing
  | .none => (none, p)
  | .number n => (some n, p)
  | .argument => let (n, p) := p.integer d; (some n, p)

end Printing

def replicate (n : Nat) (c : Char) : Bytes := List.replicate n c

/-- Fill up to a width, on the right with the flag `-`. -/
def padded (flags : Bytes) (width : Nat) (bytes : Bytes) : Bytes :=
  let fill := replicate (width - bytes.length) ' '
  if flags.contains '-' then bytes ++ fill else fill ++ bytes

/-- A number with its sign or base mark, filled up with blanks or zeros. -/
def number (flags : Bytes) (width : Nat) (zeros : Bool) (mark digits : Bytes) : Bytes :=
  if zeros && flags.contains '0' && !flags.contains '-' then
    mark ++ replicate (width - mark.length - digits.length) '0' ++ digits
  else padded flags width (mark ++ digits)

def signMark (flags : Bytes) (negative : Bool) : Bytes :=
  if negative then ['-']
  else if flags.contains '+' then ['+']
  else if flags.contains ' ' then [' ']
  else []

/-- Digits with at least as many places as the precision asks for. -/
def digitsOf (base : Nat) (precision : Option Nat) (n : Nat) : Bytes :=
  let ds := if n = 0 && precision == some 0 then [] else Nat.toDigits base n
  replicate (precision.getD 0 - ds.length) '0' ++ ds

/-- Mantissa digits and exponent of a positive number, rounded to so many places after the first
digit. -/
def scientificParts (places : Nat) (x : Float) : Nat × Int :=
  let (num, den) := (Binary64.ofFloat x).toFraction
  if num = 0 then (0, 0)
  else
    let e := Decimal.magnitude num den
    let shift : Int := places - e
    let n := Decimal.roundHalfEven (num * Nat.pow 10 shift.toNat) (den * Nat.pow 10 (-shift).toNat)
    if n = Nat.pow 10 (places + 1) then (Nat.pow 10 places, e + 1) else (n, e)

def pointed (places : Nat) (n : Nat) : String :=
  let ds := toString n
  if places = 0 then ds
  else String.ofList (ds.toList.take 1) ++ "." ++ String.ofList (ds.toList.drop 1) ++
    Decimal.zeros (places + 1 - ds.length)

def exponentText (e : Int) : String :=
  (if e < 0 then "e-" else "e+") ++ (if e.natAbs < 10 then "0" else "") ++ toString e.natAbs

def stripZeros (text : String) : String :=
  if text.contains '.' then
    let cs := text.toList.reverse.dropWhile (· == '0')
    String.ofList (if cs.head? == some '.' then cs.drop 1 else cs).reverse
  else text

/-- The digits of a real without its sign. -/
def realDigits (conversion : Char) (alternate : Bool) (precision : Nat) (x : Float) : String :=
  let x := x.abs
  if x.isInf then "inf"
  else if x.isNaN then "nan"
  else match conversion.toLower with
    | 'f' => Decimal.fixed precision x
    | 'e' =>
      let (n, e) := scientificParts precision x
      pointed precision n ++ exponentText e
    | _ =>
      let p := max 1 precision
      let (n, e) := scientificParts (p - 1) x
      let strip (text : String) : String := if alternate then text else stripZeros text
      if -4 ≤ e && e < p then strip (Decimal.fixed (p - 1 - e).toNat x)
      else strip (pointed (p - 1) n) ++ exponentText e

/-- Write one field. -/
def Printing.field (d : Dialect) (p : Printing) (f : Field) : Printing :=
  let (width, p) := p.measure d f.width
  let (precision, p) := p.measure d f.precision
  let flags := if width.any (· < 0) then '-' :: f.flags else f.flags
  let width := (width.getD 0).natAbs
  let precision := precision.bind fun n => if n < 0 then none else some n.toNat
  match f.conversion with
  | 's' =>
    let (argument, p) := p.next
    let text := argument.getD []
    p.put (padded flags width (precision.elim text fun n => text.take n))
  | 'c' =>
    let (argument, p) := p.next
    let text := match argument with
      | some (c :: _) => [c]
      | _ => if d = .shell then ['\x00'] else []
    p.put (padded flags width text)
  | 'b' =>
    let (argument, p) := p.next
    let escapes : Escapes :=
      { leadingZero := true, hexadecimal := d = .program, quote := d = .program, stops := true }
    let (text, cut) := escapes.text (argument.getD [])
    { p.put (padded flags width (precision.elim text fun n => text.take n)) with stopped := cut }
  | 'd' | 'i' =>
    let (n, p) := p.integer d
    let n := min n Int64.maxValue.toInt
    p.put (number flags width precision.isNone (signMark flags (n < 0))
      (digitsOf 10 precision n.natAbs))
  | 'u' | 'o' | 'x' | 'X' =>
    let (n, p) := p.integer d
    let n := (n % (UInt64.size : Nat)).toNat
    let base := if f.conversion == 'u' then 10 else if f.conversion == 'o' then 8 else 16
    let digits := digitsOf base precision n
    let digits := if f.conversion == 'X' then digits.map Char.toUpper else digits
    let alternate := flags.contains '#' && n != 0
    let mark := if alternate && base = 16 then ['0', f.conversion]
      else if alternate && base = 8 && digits.head? != some '0' then ['0']
      else []
    p.put (number flags width precision.isNone mark digits)
  | c =>
    let (x, p) := p.real d
    let digits := realDigits c (flags.contains '#') (precision.getD 6) x
    let digits := if c.isUpper then digits.toList.map Char.toUpper else digits.toList
    p.put (number flags width x.isFinite (signMark flags (Binary64.isNegative x)) digits)

def Printing.piece (d : Dialect) (p : Printing) (piece : Piece) : Printing :=
  if p.stopped then p
  else match piece with
    | .text bytes => p.put bytes
    | .field f => p.field d f
    | .stop => { p with stopped := true }
    | .malformed source =>
      if d = .shell then p.fatal 2 (source ++ Bytes.ofText ": invalid directive")
      else p.fatal 1 (source ++ Bytes.ofText ": invalid conversion specification")
    | .unfinished =>
      if d = .shell then p.fatal 2 (Bytes.ofText "missing format character")
      else p.fatal 1 (Bytes.ofText "%: invalid conversion specification")

/-- The template is used again while it takes arguments and some are left. -/
def printAll (d : Dialect) (template : List Piece) : Nat → Printing → Printing
  | 0, p => p
  | fuel + 1, p =>
    let after := template.foldl (Printing.piece d) p
    if after.stopped || after.arguments.isEmpty then after
    else if after.arguments.length = p.arguments.length then
      if d = .shell then after
      else
        let first := after.arguments.headD []
        let message := Bytes.ofText "warning: ignoring excess arguments, starting with "
        { after with complaints := after.complaints ++ [message ++ Printing.quoted d first] }
    else printAll d template fuel after

/-- Write arguments into a template. -/
def formatted (d : Dialect) (template : Bytes) (arguments : List Bytes) : Printing :=
  let escapes : Escapes :=
    { hexadecimal := d = .program, quote := d = .program, stops := d = .program }
  printAll d (pieces escapes (template.length + 1) template) (arguments.length + 1) { arguments }

end LoopSafety.Shell.Format
