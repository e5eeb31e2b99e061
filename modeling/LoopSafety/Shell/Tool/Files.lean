import LoopSafety.Shell.Tool.Basic

/-! Tools on names of files, and on files as a whole. -/
namespace LoopSafety.Shell.Tool

/-! Names -/

def dropSlashes (path : Bytes) : Bytes := (path.reverse.dropWhile (· == '/')).reverse

/-- The last name of a path. -/
def lastName (path : Bytes) : Bytes :=
  let short := dropSlashes path
  if short.isEmpty then path.take 1 else (short.reverse.takeWhile (· != '/')).reverse

/-- The path without its last name. -/
def folderName (path : Bytes) : Bytes :=
  let short := dropSlashes path
  if short.isEmpty then if path.isEmpty then ['.'] else ['/']
  else
    let before := (short.reverse.dropWhile (· != '/')).reverse
    if before.isEmpty then ['.']
    else if (dropSlashes before).isEmpty then ['/']
    else dropSlashes before

/-- Last names, without a given ending. -/
def basename : Tool := withArguments
    { letters := "a", withText := "s", long := [("multiple", 'a'), ("suffix", 's')] } 1
    fun name a => do
  let tell (ending path : Bytes) : Run Unit := do
    let last := lastName path
    let cut := ending.length < last.length && (last.drop (last.length - ending.length)) == ending
    print ((if cut then last.take (last.length - ending.length) else last) ++ ['\n'])
  match a.operands with
  | [] => usage name (Bytes.ofText "missing operand")
  | path :: rest =>
    if a.has 'a' || a.has 's' then
      for path in a.operands do tell ((a.get? 's').getD []) path
      return 0
    match rest with
    | [] => tell [] path; return 0
    | [ending] => tell ending path; return 0
    | _ :: extra :: _ => usage name (Bytes.ofText "extra operand " ++ inQuotes extra)

def dirname : Tool := withArguments { letters := "" } 1 fun name a => do
  if a.operands.isEmpty then usage name (Bytes.ofText "missing operand")
  else
    for path in a.operands do print (folderName path ++ ['\n'])
    return 0

/-! Files -/

def touch : Tool := withArguments { letters := "acm" } 1 fun name a => do
  if a.operands.isEmpty then usage name (Bytes.ofText "missing file operand")
  else
    let mut status := 0
    for path in a.operands do
      let m ← get
      match m.disk.place m.shell.folder (Bytes.toText path) with
      | .vacant key false =>
        set { m with disk := { m.disk with files := m.disk.files.insert key [] } }
      | .nowhere fault =>
        complain name (Bytes.ofText "cannot touch " ++ inQuotes path ++ [':', ' '] ++
          Bytes.ofText fault.reason)
        status := 1
      | _ => pure ()
    return status

def remove : Tool := withArguments { letters := "frRiv" } 1 fun name a => do
  if a.operands.isEmpty && !a.has 'f' then usage name (Bytes.ofText "missing operand")
  else
    let mut status := 0
    for path in a.operands do
      let m ← get
      let refuse (reason : String) : Run Unit :=
        complain name (Bytes.ofText "cannot remove " ++ inQuotes path ++ [':', ' '] ++
          Bytes.ofText reason)
      match m.disk.place m.shell.folder (Bytes.toText path) with
      | .file key =>
        let files : Table Path Bytes := ⟨m.disk.files.entries.filter (·.1 != key)⟩
        set { m with disk := { m.disk with files } }
      | .folder key =>
        if a.has 'r' || a.has 'R' then
          let files : Table Path Bytes := ⟨m.disk.files.entries.filter fun e => !key.isPrefixOf e.1⟩
          let folders := m.disk.folders.filter fun f => !key.isPrefixOf f
          set { m with disk := { m.disk with files, folders } }
        else
          refuse "Is a directory"
          status := 1
      | .vacant .. =>
        if !a.has 'f' then
          refuse "No such file or directory"
          status := 1
      | .nowhere fault =>
        if !a.has 'f' then
          refuse fault.reason
          status := 1
      | _ => pure ()
    return status

/-- The path and all paths above it, from the top. -/
def ancestors (path : Bytes) : List Bytes :=
  let parts := (splitPath path).filter fun part => !part.isEmpty
  let top := if path.head? == some '/' then ['/'] else []
  (List.range parts.length).map fun n => top ++ List.intercalate ['/'] (parts.take (n + 1))
where
  splitPath : Bytes → List Bytes
    | [] => [[]]
    | c :: rest =>
      match splitPath rest with
      | [] => [[c]]
      | first :: more => if c == '/' then [] :: first :: more else (c :: first) :: more

def makeFolder : Tool := withArguments
    { letters := "pv", withText := "m", long := [("parents", 'p')] } 1 fun name a => do
  if a.operands.isEmpty then usage name (Bytes.ofText "missing operand")
  else
    let mut status := 0
    for operand in a.operands do
      for path in if a.has 'p' then ancestors operand else [operand] do
        let m ← get
        let refuse (reason : String) : Run Unit :=
          complain name (Bytes.ofText "cannot create directory " ++ inQuotes path ++ [':', ' '] ++
            Bytes.ofText reason)
        match m.disk.place m.shell.folder (Bytes.toText path) with
        | .vacant key _ => set { m with disk := { m.disk with folders := key :: m.disk.folders } }
        | .folder _ => if !a.has 'p' then refuse "File exists"; status := 1
        | .nowhere fault => refuse fault.reason; status := 1
        | _ => refuse "File exists"; status := 1
    return status

/-- The folder that the shell is in. -/
def pwd : Tool := withArguments { letters := "LP" } 1 fun _ _ => do
  print (Bytes.ofText ("/" ++ "/".intercalate (← shell).folder) ++ ['\n'])
  return 0

end LoopSafety.Shell.Tool
