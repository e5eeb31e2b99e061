import LoopSafety.CommandLine.Run
import LoopSafety.Text.Quoted

/-! The program: the command line on the files of the system. -/
namespace LoopSafety

/-- The system counts some of its errors downwards from zero. -/
def errorNumber (code : UInt32) : UInt32 := if code < 4096 then code else 0 - code

def systemFault : IO.Error → FileFault
  | .inappropriateType _ code _ =>
    if errorNumber code = 20 then .notADirectory else .isADirectory
  | .permissionDenied .. => .denied
  | .invalidArgument _ code _ => if errorNumber code = 36 then .nameTooLong else .notFound
  | .userError _ => .notText
  | _ => .notFound

/-- The files of the system. No program is started. -/
def systemHost : CommandLine.Host IO where
  read path := do
    try return .ok (← IO.FS.readFile path) catch e => return .error (systemFault e)
  write path text := do
    try IO.FS.writeFile path text; return .ok () catch e => return .error (systemFault e)
  run _ _ := return fun _ => .notStarted .denied

end LoopSafety

def main (args : List String) : IO UInt32 := do
  let outcome ← LoopSafety.CommandLine.run LoopSafety.systemHost args
  match outcome with
  | .success printed => IO.print printed
  | .failure message => IO.eprintln ("Error: " ++ LoopSafety.Text.quote message)
  | .usage =>
    IO.eprint (LoopSafety.CommandLine.unlines (LoopSafety.CommandLine.Topic.program.screen false))
  return outcome.status.toUInt32
