import LoopSafety.CommandLine.Host
import LoopSafety.Shell.Run

/-! A host that is a value, so that a command on it is a function. -/
namespace LoopSafety.CommandLine

/-- A disk, and the text that went to the standard output as if it were a file. -/
structure Desk where
  disk : Disk
  shown : String := ""

namespace Desk

def read (d : Desk) (path : String) : Except FileFault String := do
  match (← d.disk.read Disk.home path).toText? with
  | some text => return text
  | none => throw .notText

def write (d : Desk) (path text : String) : Except FileFault Desk :=
  match d.disk.place Disk.home path with
  | .device (.channel 1) => .ok { d with shown := d.shown ++ text }
  | _ => (d.disk.write Disk.home path (Bytes.ofText text)).map fun disk => { d with disk }

/-- A command may change the desk, and programs run on the disk as it is when they start. -/
def host : Host (StateM Desk) where
  read path := do return (← get).read path
  write path text := do
    match (← get).write path text with
    | .ok d => set d; return .ok ()
    | .error fault => return .error fault
  run program args := do return Shell.run (← get).disk program args

end Desk

end LoopSafety.CommandLine
