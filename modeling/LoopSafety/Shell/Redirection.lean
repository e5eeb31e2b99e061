import LoopSafety.Shell.Expansion
import LoopSafety.Shell.Tool.Basic

/-! Redirections: opening files, copying and closing channels, documents. -/
namespace LoopSafety.Shell

/-- Why a file cannot be opened, in the shell's words. -/
def openingFault (creates : Bool) (fault : FileFault) : String :=
  match fault with
  | .notFound | .notADirectory => if creates then "Directory nonexistent" else "No such file"
  | fault => fault.reason

/-- Open a file for a redirection. -/
def openFile (opening : Opening) (path : Bytes) : Run (Except FileFault Nat) := do
  let m ← get
  let creates := opening != .read
  let store (key : Path) (bytes : Bytes) : Run (Except FileFault Nat) := do
    set { m with disk := { m.disk with files := m.disk.files.insert key bytes } }
    return .ok (← openStream (.file key opening 0))
  match m.disk.place m.shell.folder (Bytes.toText path) with
  | .file key =>
    if opening = .write then store key [] else return .ok (← openStream (.file key opening 0))
  | .vacant key asFolder =>
    if !creates then return .error .notFound
    else if asFolder then return .error .isADirectory
    else store key []
  | .folder _ => if creates then return .error .isADirectory else return .ok (← openStream .null)
  | .device .full => return .ok (← openStream .full)
  | .device .terminal => return .error .noDevice
  | .device (.channel n) =>
    match ← streamOf? n with
    | some (i, _) => return .ok i
    | none => return .error .notFound
  | .device _ => return .ok (← openStream .null)
  | .program _ => return .ok (← openStream (.source Disk.programBytes))
  | .nowhere fault => return .error fault

/-- Carry out a redirection; false if it fails. -/
def redirect (below : Below) : Redirect → Run Bool
  | .file channel opening path => do
    let path ← expandText below path
    match ← openFile opening path with
    | .ok i => connect channel i; return true
    | .error fault =>
      let creates := opening != .read
      match (← shell).dialect with
      | .dash =>
        complain (Bytes.ofText (if creates then "cannot create " else "cannot open ") ++ path ++
          Bytes.ofText (": " ++ openingFault creates fault))
      | .bash => complain (path ++ Bytes.ofText (": " ++ fault.reason))
      return false
  | .copy channel source => do
    let source ← expandText below source
    if source = ['-'] then disconnect channel; return true
    match Tool.nat? source with
    | none => fail (Bytes.ofText "Bad fd number")
    | some n =>
      match (← shell).channels.lookup n with
      | some i => connect channel i; return true
      | none => complain (source ++ Bytes.ofText ": Bad file descriptor"); return false
  | .document channel body => do
    connect channel (← openStream (.source (← expandText below body)))
    return true

/-- Carry out redirections in turn, until one fails. -/
def redirectAll (below : Below) : List Redirect → Run Bool
  | [] => return true
  | r :: rest => do
    if ← redirect below r then redirectAll below rest else return false

/-- Run with redirections that end with the command. The status tells if one of them fails. -/
def withRedirects (below : Below) (rs : List Redirect) (action : Run Unit) : Run Bool := do
  let before := (← shell).channels
  let restore : Run Unit := changeShell fun s => { s with channels := before }
  let done ← do
    try
      if ← redirectAll below rs then
        action
        pure true
      else
        setStatus (if (← shell).dialect = .dash then 2 else 1)
        pure false
    catch jump =>
      restore
      throw jump
  restore
  return done

end LoopSafety.Shell
