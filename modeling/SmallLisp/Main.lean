import SmallLisp.Repl

/-! # The program

Collects the settings, the files below the working directory and the input, carries out one run,
and hands on what it leaves behind. Programs see the files as they are when the run starts.
-/
namespace SmallLisp

def readVariables : IO Variables :=
  Settings.variableNames.filterMapM fun name => do
    return (← IO.getEnv name).map fun value => (name, value)

/-- The files below a directory, given its segments and its entries. Files that cannot be read
are left out. -/
partial def readFiles (segments : List String) (entries : Array IO.FS.DirEntry) :
    IO (List (List String × List UInt8)) := do
  let mut files := []
  for entry in entries do
    let inside := segments ++ [entry.fileName]
    try
      if ← entry.path.isDir then
        files := (← readFiles inside (← entry.path.readDir)) ++ files
      else
        files := (inside, (← IO.FS.readBinFile entry.path).toList) :: files
    catch _ => pure ()
  return files

def readStore : IO Store := do
  let files ← readFiles [] (← (← IO.currentDir).readDir)
  let input ← (← IO.getStdin).readBinToEnd
  let store := Store.initial ⟨files⟩ "" (← IO.monoMsNow)
  return { store with console := .ofBytes input.toList }

end SmallLisp

open SmallLisp

def main (arguments : List String) : IO UInt32 := do
  let run := runProgram Limits.standard.runner (← readVariables) arguments (← readStore)
  IO.print run.output
  IO.eprint run.report
  match run.outcome with
  | .finished status | .usage status => return UInt32.ofNat status
  | .crashed crash =>
    IO.eprintln (crash.report run.store.heap)
    return 1
