import LoopSafety.Text.Invisible

/-! Text between double quotes, as a message shows it. -/
namespace LoopSafety.Text

def hexText (n : Nat) : String := String.ofList (Nat.toDigits 16 n)

/-- Quotes and backslashes are escaped, and so is everything invisible. -/
def escape (c : Char) : String :=
  if c == '"' then "\\\""
  else if c == '\\' then "\\\\"
  else if c == '\n' then "\\n"
  else if c == '\r' then "\\r"
  else if c == '\t' then "\\t"
  else if c == '\x00' then "\\0"
  else if isInvisible c then "\\u\x7b" ++ hexText c.toNat ++ "\x7d"
  else c.toString

def quote (s : String) : String :=
  s.foldl (fun text c => text ++ escape c) "\"" ++ "\""

end LoopSafety.Text
