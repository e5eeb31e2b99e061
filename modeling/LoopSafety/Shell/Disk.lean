import LoopSafety.Error
import LoopSafety.Table
import LoopSafety.Text.Bytes

/-! A file tree as a value: the files that a command reads and writes, in a tree of folders, devices
and programs that every system has. -/
namespace LoopSafety

/-- The names from the root to a file or folder. -/
abbrev Path := List String

inductive Device where
  | null | zero | full | terminal
  /-- An open channel of the running program: its input, output or complaints. -/
  | channel (number : Nat)
  deriving DecidableEq, Repr

/-- What a path leads to. -/
inductive Place where
  | file (path : Path)
  | folder (path : Path)
  | device (device : Device)
  | program (name : String)
  /-- Nothing, in a folder that exists; a path that ends in a slash can only name a folder. -/
  | vacant (path : Path) (asFolder : Bool)
  | nowhere (fault : FileFault)
  deriving DecidableEq, Repr

structure Disk where
  files : Table Path Bytes := ∅
  /-- Folders beside those that hold a file. -/
  folders : List Path := []

namespace Disk

/-- Where commands run. -/
def home : Path := ["tmp", "work"]

def systemFolders : List Path := [
  [], ["boot"], ["dev"], ["dev", "fd"], ["dev", "pts"], ["dev", "shm"], ["etc"], ["home"],
  ["media"], ["mnt"], ["opt"], ["proc"], ["proc", "self"], ["proc", "self", "fd"], ["root"],
  ["run"], ["srv"], ["sys"], ["tmp"], home, ["usr"], ["usr", "bin"], ["usr", "include"],
  ["usr", "lib"], ["usr", "lib64"], ["usr", "local"], ["usr", "local", "bin"],
  ["usr", "local", "lib"], ["usr", "local", "sbin"], ["usr", "local", "share"], ["usr", "sbin"],
  ["usr", "share"], ["usr", "src"], ["var"], ["var", "cache"], ["var", "lib"], ["var", "log"],
  ["var", "tmp"]]

/-- The programs of the system. -/
def programs : List String := [
  "[", "basename", "bash", "cat", "cut", "dash", "dirname", "echo", "egrep", "env", "expr", "false",
  "fgrep", "grep", "head", "mkdir", "printenv", "printf", "pwd", "rm", "sed", "seq", "sh", "sleep",
  "sort", "tac", "tail", "tee", "test", "touch", "tr", "true", "uniq", "wc"]

/-- Some folders at the root are names for others. -/
def canonical : Path → Path
  | [name] => if ["bin", "sbin", "lib", "lib64"].contains name then ["usr", name] else [name]
  | path => path

def device? : Path → Option Device
  | ["dev", "null"] => some .null
  | ["dev", "zero"] => some .zero
  | ["dev", "full"] => some .full
  | ["dev", "tty"] => some .terminal
  | ["dev", "stdin"] => some (.channel 0)
  | ["dev", "stdout"] => some (.channel 1)
  | ["dev", "stderr"] => some (.channel 2)
  | ["dev", "fd", number] | ["proc", "self", "fd", number] => number.toNat?.map .channel
  | _ => none

def isFolder (d : Disk) (path : Path) : Bool :=
  systemFolders.contains path || d.folders.contains path ||
    d.files.keys.any fun key => path.isPrefixOf key && key.length != path.length

/-- What a path without detours leads to, if there is anything. -/
def entry? (d : Disk) (path : Path) : Option Place :=
  match device? path, path with
  | some device, _ => some (.device device)
  | none, ["usr", "bin", name] =>
    if programs.contains name then some (.program name)
    else if d.files.contains path then some (.file path)
    else none
  | none, _ =>
    if d.files.contains path then some (.file path)
    else if d.isFolder path then some (.folder path)
    else none

/-- Follow names from a folder. A name takes at most 255 bytes. -/
def follow (d : Disk) : Path → List String → Place
  | here, [] => .folder here
  | here, name :: rest =>
    if name = "" || name = "." then d.follow here rest
    else if name = ".." then d.follow here.dropLast rest
    else if 255 < name.utf8ByteSize then .nowhere .nameTooLong
    else
      let path := canonical (here ++ [name])
      match d.entry? path with
      | some (.folder path) => d.follow path rest
      | some place => if rest.isEmpty then place else .nowhere .notADirectory
      | none =>
        if rest.all (· = "") then .vacant path !rest.isEmpty else .nowhere .notFound

/-- What a path leads to from a folder. With its end mark a path takes at most 4096 bytes. -/
def place (d : Disk) (here : Path) (path : String) : Place :=
  if path = "" then .nowhere .notFound
  else if 4095 < path.utf8ByteSize then .nowhere .nameTooLong
  else match path.splitOn "/" with
    | "" :: names => d.follow [] names
    | names => d.follow here names

/-- A few bytes that no text starts with stand for the contents of a program. -/
def programBytes : Bytes := ['\x7f', 'E', 'L', 'F', '\xff']

/-- The contents of a file; an open channel has nothing to give. -/
def read (d : Disk) (here : Path) (path : String) : Except FileFault Bytes :=
  match d.place here path with
  | .file key => .ok ((d.files.get? key).getD [])
  | .folder _ => .error .isADirectory
  | .device .terminal => .error .noDevice
  | .device _ => .ok []
  | .program _ => .ok programBytes
  | .vacant .. => .error .notFound
  | .nowhere fault => .error fault

/-- Replace the contents of a file, which need not exist. What is written to a device is gone. -/
def write (d : Disk) (here : Path) (path : String) (bytes : Bytes) : Except FileFault Disk :=
  match d.place here path with
  | .file key | .vacant key false => .ok { d with files := d.files.insert key bytes }
  | .folder _ | .vacant _ true => .error .isADirectory
  | .device .full => .error .deviceFull
  | .device .terminal => .error .noDevice
  | .device _ | .program _ => .ok d
  | .nowhere fault => .error fault

/-- A disk whose working folder holds the given texts. -/
def ofTexts (texts : List (String × String)) : Disk where
  files := Table.ofList (systemTexts ++ texts.map fun (path, text) =>
    (home ++ (path.splitOn "/").filter fun n => n ≠ "" && n ≠ ".", Bytes.ofText text))
where
  systemTexts : List (Path × Bytes) := [
    (["etc", "hostname"], Bytes.ofText "localhost\n"),
    (["etc", "hosts"], Bytes.ofText "127.0.0.1\tlocalhost\n"),
    (["etc", "passwd"], Bytes.ofText "root:x:0:0:root:/root:/bin/sh\n")]

end Disk

end LoopSafety
