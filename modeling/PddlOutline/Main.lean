import PddlOutline.CommandLine.Run

/-!
This module contains the program: a run of the command line on the files of the system.
-/

namespace PddlOutline

def fileError : IO.Error → FileError
  | .noFileOrDirectory .. => .notFound
  | .inappropriateType _ 21 _ => .isADirectory
  | .inappropriateType .. => .notADirectory
  | e => .other (toString e)

def attempt {α : Type} (action : IO α) : IO (Except FileError α) := do
  try
    return .ok (← action)
  catch e =>
    return .error (fileError e)

def systemFiles : FileAccess IO where
  reaches p := do
    match ← attempt (IO.FS.realPath p.text) with
    | .ok resolved => resolved.pathExists
    | .error _ => return false
  resolve p := attempt do
    let resolved ← IO.FS.realPath p.text
    return Path.ofString resolved.toString
  read p := attempt do
    let content ← IO.FS.readBinFile p.text
    return content.data.toList

end PddlOutline

def main (arguments : List String) : IO UInt32 := do
  let environment ← IO.getEnv "PDDLX_LOG"
  let outcome ← PddlOutline.CommandLine.run PddlOutline.systemFiles arguments environment
  for line in outcome.log do
    IO.eprintln line
  match PddlOutline.CommandLine.Options.ofArguments arguments environment, outcome.failure with
  | .error .helpRequested, _ => pure ()
  | .error e, _ => IO.eprintln ("error: " ++ e.message)
  | .ok _, some reason => IO.eprintln ("Error: error: " ++ reason)
  | .ok _, none => pure ()
  IO.print outcome.stdout
  return outcome.exitCode.toUInt32
