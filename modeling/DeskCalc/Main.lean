import DeskCalc.CommandLine
import DeskCalc.Desktop
import DeskCalc.Elementary.Platform

/-!
# The program

The outer layer: reads the files of the present folder into a store, runs the command line, prints what it says, and
leaves with its status.  In place of the window there is a session in the terminal: each line is the label of a
button or a problem.
-/

namespace DeskCalc.Program

def elementary : Elementary :=
  .platform

/-- The files that the program looks at. -/
def paths : List StorePath :=
  CommandLine.requiredFiles ++ [Files.answerPath Files.cacheFolder]

def pathText (p : StorePath) : String :=
  "/".intercalate p

/-- What is found at a path; whatever is there and cannot be read counts as a folder. -/
def readEntry (p : StorePath) : IO (List (StorePath × StoreEntry)) := do
  try
    let bytes ← IO.FS.readBinFile (pathText p)
    return [(p, .file bytes.data.toList)]
  catch e =>
    match e with
    | .noFileOrDirectory _ _ _ => return []
    | _ => return [(p, .folder)]

def readStore : IO Store := do
  let entries ← paths.mapM readEntry
  return ⟨".", entries.flatten⟩

/-- Writes the file of the previous answer if it has changed. -/
def writeAnswer (before after : Store) : IO Unit := do
  let p := Files.answerPath Files.cacheFolder
  match after.find? p with
  | some (.file bytes) =>
    if before.find? p ≠ some (.file bytes) then
      IO.FS.createDirAll (pathText Files.cacheFolder)
      IO.FS.writeBinFile (pathText p) ⟨bytes.toArray⟩
  | _ => return

/-- The presses for a line of a session. -/
def actionsFor (line : List Char) : List Action :=
  let isLabel := buttonGrid.any fun b => b.1.toList == line
  if isLabel then [.press line] else [.press Label.clear, .press line, .press Label.enter]

/-- The desktop after the presses for a line. -/
def takeLine (d : Desktop) (line : List Char) : Desktop :=
  (actionsFor line).foldl (fun e a => (e.perform elementary a).1) d.acknowledge

partial def session (d : Desktop) : IO Unit := do
  let line ← (← IO.getStdin).getLine
  if line.isEmpty then return
  let next := takeLine d (strip line.toList)
  writeAnswer d.store next.store
  for e in next.log do
    IO.eprintln e.line
  for n in next.notices do
    IO.println n.text.toString
  IO.println (String.ofList next.window.display)
  session next

/-- Ends the program as a run says. -/
def leave (s : Store) : CommandEnd → IO UInt32
  | .exit status => return UInt32.ofNat status
  | .failure (.load e) => do
    IO.eprintln e.message.toString
    return 1
  | .failure (.places d) => do
    IO.eprintln d.message
    return 1
  | .window _ overrides => do
    match (Desktop.start s overrides).2 with
    | .error e =>
      IO.eprintln e.message.toString
      return 1
    | .ok d =>
      session d
      return 0

end DeskCalc.Program

open DeskCalc in
def main (args : List String) : IO UInt32 := do
  let s ← Program.readStore
  let run := CommandLine.run Program.elementary s args
  IO.print run.output
  IO.eprint run.errors.toString
  Program.leave s run.ending
