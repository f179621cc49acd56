import PackageRecipes.CommandLine.Run

/-! The command line on real files. Whatever the command may read is read first; the
command itself then runs on values. -/

open PackageRecipes CommandLine

def readContent (path : String) : IO (Except String String) := do
  try
    let text ← IO.FS.readFile path
    return .ok text
  catch error => return .error (toString error)

partial def readTree (path : String) : IO FileTree := do
  let root ← IO.FS.realPath path
  if ← root.isDir then
    let entries ← root.readDir
    let sorted := entries.toList.mergeSort fun left right =>
      (compare left.fileName right.fileName).isLE
    let trees ← sorted.mapM fun entry => do
      let tree ← readTree (Path.join path entry.fileName)
      return (entry.fileName, tree)
    return .directory trees
  else return .file (← readContent path)

def lookAt (path : String) : IO (Except FileFault FileTree) := do
  try
    let tree ← readTree path
    return .ok tree
  catch _ => return .error .missing

def directoryOf : Command → List String
  | .describe directory _ _ => [directory]
  | .check directory _ => [directory]
  | .layers directory => [directory]
  | .types _ => []
  | .spec _ _ => []

def readFiles (invocation : Invocation) : IO Files := do
  let paths := invocation.config.getD standardFile ::
    ((invocation.command.map directoryOf).getD [])
  let found ← paths.mapM fun path => do
    let tree ← lookAt path
    return (path, tree)
  return fun path => (found.lookup path).getD (.error .missing)

def printFailure (failure : Failure) : IO Unit := do
  match failure.messages with
  | [] => return
  | first :: reasons =>
    IO.eprintln s!"Error: {first}"
    unless reasons.isEmpty do
      IO.eprintln "\nCaused by:"
      reasons.forM fun reason => IO.eprintln s!"    {reason}"

def main (words : List String) : IO UInt32 := do
  match Invocation.parse words with
  | .error fault =>
    IO.eprintln s!"error: {fault.message}"
    return 2
  | .ok invocation =>
    let outcome := invocation.run (← readFiles invocation)
    (outcome.warnings ++ outcome.lines).forM fun line => IO.println line
    match outcome.failure with
    | none => return 0
    | some failure =>
      printFailure failure
      return 1
