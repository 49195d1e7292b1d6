import QueryEditor.CommandLine.Program

namespace QueryEditor.CommandLine

def located (path : String) := (do
  let here ← IO.currentDir
  return here / path : IO _)

/-- The files below a directory, links followed; a link to a directory around it is refused. -/
partial def filesBelow (around : List String) (path : String) : IO (List (List String)) := do
  let directory ← located path
  let real := toString (← IO.FS.realPath directory)
  if around.contains real then throw (IO.userError "directories in a loop")
  let mut found := []
  for entry in ← directory.readDir do
    let inside := Files.below path [entry.fileName]
    let about ← (← located inside).metadata
    match about.type with
    | .dir =>
      let files ← filesBelow (real :: around) inside
      found := found ++ files.map (entry.fileName :: ·)
    | .file => found := found ++ [[entry.fileName]]
    | _ => pure ()
  return found

partial def drain (stream : IO.FS.Stream) (soFar : ByteArray) : IO ByteArray := do
  let bytes ← stream.read 65536
  if bytes.isEmpty then return soFar else drain stream (soFar ++ bytes)

def fileSystem : FileAccess IO where
  isFile path := do
    try
      let about ← (← located path).metadata
      return about.type == .file
    catch _ => return false
  contents? path := do
    try return some (← IO.FS.readBinFile path) catch _ => return none
  filesBelow? path := do
    try return some (← filesBelow [] path) catch _ => return none
  input := do drain (← IO.getStdin) .empty

def usage : String :=
  "Usage: query-editor [OPTIONS] [COMMAND]"

def helpText : String :=
  Text.joined "\n" (usage :: "" :: "Commands:" :: commands.map fun command =>
    "  " ++ command.name ++ "  " ++ command.purpose)

end QueryEditor.CommandLine

open QueryEditor.CommandLine in
def main (words : List String) : IO UInt32 := do
  let reply ← run fileSystem words
  match reply with
  | .halted .help => IO.println helpText
  | .halted .version => IO.println "query-editor 0.0.1"
  | .halted .misuse => IO.eprintln usage
  | .output text => IO.println text
  | .failure message => IO.eprintln message
  return reply.exitCode.toUInt32
