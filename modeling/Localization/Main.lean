import Localization.Program

/-!
# The command line

The program runs in a `FileSystem` that holds what its command can see of the files around it.
What the command changes there is then written to the real files.
-/

namespace Localization.Main

/-- The names on the way to an absolute path. -/
def locationOf (absolute : Path) : Location :=
  absolute.parts.filterMap fun
    | .name text => some text
    | _ => none

/-- The entry at a path, or none if there is none. -/
def typeAt (p : Path) : IO (Option IO.FS.FileType) := do
  try
    let path ← IO.FS.realPath (p.parent?.getD ⟨"/"⟩).text
    let name := (locationOf p).getLast?.getD ""
    return some (← (path / name).symlinkMetadata).type
  catch _ => return none

/-- Where a path really is, if it leads anywhere. -/
def realPath? (p : Path) : IO (Option Path) := do
  try return some ⟨(← IO.FS.realPath p.text).toString⟩
  catch _ => return none

/-- The file system with a change, or as it was where the change is not possible. -/
def orSame (fs : FileSystem) (changed : Except FileSystem.Fault FileSystem) : FileSystem :=
  changed.toOption.getD fs

/-- Adds the file at an absolute path. -/
def addFile (fs : FileSystem) (p : Path) : IO FileSystem := do
  let fs := orSame fs (fs.createDirectories (p.parent?.getD ⟨"/"⟩))
  try return orSame fs (fs.write p (← IO.FS.readBinFile p.text))
  catch _ => return fs

/-- Where a link leads that leads nowhere: no file has this name. -/
def nowhere : Path := ⟨"\x00"⟩

/-- Adds the entry at an absolute path, without what is below it. -/
def addEntry (fs : FileSystem) (p : Path) : IO FileSystem := do
  match ← typeAt p with
  | none => return fs
  | some .dir => return orSame fs (fs.createDirectories p)
  | some .symlink =>
    let fs := orSame fs (fs.createDirectories (p.parent?.getD ⟨"/"⟩))
    match ← realPath? p with
    | none => return orSame fs (fs.createLink p nowhere)
    | some target =>
      let fs ←
        match ← typeAt target with
        | some .dir => pure (orSame fs (fs.createDirectories target))
        | _ => addFile fs target
      return orSame fs (fs.createLink p target)
  | some _ => addFile fs p

/-- Adds all entries below a real directory. -/
partial def addTree (fs : FileSystem) (directory : Path) : IO FileSystem := do
  let mut fs ← addEntry fs directory
  for entry in ← (← IO.FS.realPath directory.text).readDir do
    let p := directory.join ⟨entry.fileName⟩
    match ← typeAt p with
    | some .dir => fs ← addTree fs p
    | _ => fs ← addEntry fs p
  return fs

/-- Adds the entries that a path meets on its way, starting from a real directory. -/
def addWay (fs : FileSystem) (directory : Path) (p : Path) : IO FileSystem := do
  let mut fs := fs
  let mut here := if p.isAbsolute then ⟨"/"⟩ else directory
  for piece in p.pieces do
    let next := here.join ⟨.ofList piece⟩
    unless Path.isIdle piece do
      fs ← addEntry fs next
    match ← realPath? next with
    | some real => here := real
    | none => return fs
  return fs

/-- Adds the configurations and the project roots on the way up from a real directory. -/
def addConfigs (fs : FileSystem) (directory : Path) : IO FileSystem := do
  let mut fs := fs
  let l := locationOf directory
  for n in [0 : l.length + 1] do
    let above := FileSystem.pathOf (l.take n)
    fs ← addEntry fs (above.join Config.fileName)
    fs ← addEntry fs (above.join ⟨".git"⟩)
  return fs

/-- What a command can see from a real directory. -/
def surroundings (directory : Path) (c : Option Command) : IO FileSystem := do
  let fs ← addEntry .empty directory
  let fs := fs.enter (locationOf directory)
  match c with
  | some (.extract c) =>
    let fs ← addWay fs directory c.directory
    let fs ←
      match ← realPath? (directory.join c.directory) with
      | some root => do addTree (← addConfigs fs root) root
      | none => pure fs
    match c.output with
    | some file => addWay fs directory file
    | none => return fs
  | some (.resolve c) =>
    match c.messages with
    | some file => addWay fs directory file
    | none => return fs
  | some .init => addConfigs fs directory
  | none => return fs

/-- Writes the files that have changed. -/
def writeChanges (before after : FileSystem) : IO Unit := do
  for (l, e) in after.entries.entries do
    if before.get? l ≠ some e then
      if let .file content := e then
        IO.FS.writeBinFile (FileSystem.pathOf l).text content

/-- The output shows colours: it is a terminal, and they have not been switched off. -/
def wantsColors : IO Bool := do
  return (← (← IO.getStdout).isTty) && (← IO.getEnv "NO_COLOR").isNone

/-- Runs the program with arguments. -/
def run (arguments : List String) : IO UInt32 := do
  let directory : Path := ⟨(← IO.FS.realPath ".").toString⟩
  let fs ← surroundings directory (Command.ofArguments arguments).toOption.join
  let (report, changed) := (Program.conclude (← wantsColors) arguments).run fs
  writeChanges fs changed
  IO.print report.stdout
  IO.eprint report.stderr
  return report.status.code.toUInt32

end Localization.Main

def main (arguments : List String) : IO UInt32 :=
  Localization.Main.run arguments
