/-! Bytes and the texts that they encode.

A byte is kept as the character with its number, so that data and scripts are taken apart alike. -/
namespace LoopSafety

abbrev Bytes := List Char

namespace Bytes

def ofText (s : String) : Bytes := s.toUTF8.toList.map fun b => Char.ofNat b.toNat

/-- What a first byte announces: how many bytes follow, where the second one lies, and the bits of
the code point that it carries itself. -/
structure Lead where
  count : Nat
  low : Nat
  high : Nat
  code : Nat

/-- Surrogates, overlong forms and code points beyond the last one are ruled out by the second
byte. -/
def lead? (b : Nat) : Option Lead :=
  if b < 0x80 then some ⟨0, 0, 0, b⟩
  else if b < 0xC2 then none
  else if b < 0xE0 then some ⟨1, 0x80, 0xBF, b - 0xC0⟩
  else if b < 0xF0 then
    some ⟨2, if b = 0xE0 then 0xA0 else 0x80, if b = 0xED then 0x9F else 0xBF, b - 0xE0⟩
  else if b < 0xF5 then
    some ⟨3, if b = 0xF0 then 0x90 else 0x80, if b = 0xF4 then 0x8F else 0xBF, b - 0xF0⟩
  else none

/-- The characters read so far, latest first, and what is still open. A part that encodes nothing
counts as one missing character. -/
structure Decoder where
  done : List (Option Char) := []
  pending : Option Lead := none

namespace Decoder

def start (done : List (Option Char)) (b : Nat) : Decoder :=
  match lead? b with
  | none => { done := none :: done }
  | some lead =>
    if lead.count = 0 then { done := some (Char.ofNat lead.code) :: done }
    else { done, pending := some lead }

def step (d : Decoder) (c : Char) : Decoder :=
  let b := c.toNat
  match d.pending with
  | none => start d.done b
  | some lead =>
    if lead.low ≤ b ∧ b ≤ lead.high then
      let code := 0x40 * lead.code + (b - 0x80)
      if lead.count = 1 then { done := some (Char.ofNat code) :: d.done }
      else { d with pending := some ⟨lead.count - 1, 0x80, 0xBF, code⟩ }
    else start (none :: d.done) b

def finish (d : Decoder) : List (Option Char) :=
  (if d.pending.isSome then none :: d.done else d.done).reverse

end Decoder

/-- The encoded characters, with `none` for each part that encodes nothing. -/
def decode (bytes : Bytes) : List (Option Char) := (bytes.foldl Decoder.step {}).finish

/-- The text, if the bytes encode one. -/
def toText? (bytes : Bytes) : Option String := do
  return String.ofList (← bytes.decode.mapM id)

/-- The text, with a replacement character for each part that encodes nothing. -/
def toText (bytes : Bytes) : String := String.ofList (bytes.decode.map (·.getD '�'))

example : toText? (ofText "aé€😀") = some "aé€😀" := by decide +kernel
example : toText ['a', '\xff', '\xe2', '\x82', 'b', '\xc3'] = "a��b�" := by
  decide +kernel

end Bytes

end LoopSafety
