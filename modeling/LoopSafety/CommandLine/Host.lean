import LoopSafety.Nest.Oracle

/-! What a command needs from the system that it runs on. -/
namespace LoopSafety.CommandLine

structure Host (m : Type → Type) where
  read : String → m (Except FileFault String)
  write : String → String → m (Except FileFault Unit)
  /-- What a program with its arguments does with an input. -/
  run : String → List String → m (Bytes → CommandRun)

end LoopSafety.CommandLine
