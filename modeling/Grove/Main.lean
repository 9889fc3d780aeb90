import Grove.Demo

/-!
# The demonstration as a program

Runs the walk through the library for a directory, by default a new one, and leaves the files there.
-/

def Grove.Demo.directoryOf (args : List String) : IO String :=
  match args with
  | directory :: _ => return directory
  | [] => do return (← IO.FS.createTempDir).toString

def main (args : List String) : IO UInt32 := do
  let label := (Grove.Location.ofText (← Grove.Demo.directoryOf args)).text
  match Grove.Demo.run .empty .here label with
  | .ok (printed, files) =>
    for (name, content) in files do
      IO.FS.writeFile (label ++ "/" ++ name).shown content.shown
    (← IO.getStdout).putStr printed.shown
    return 0
  | .error e =>
    (← IO.getStderr).putStrLn e.message.shown
    return 1
