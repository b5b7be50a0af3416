import Depot.CommandLine.Program

/-!
This module contains the program as it is started from a shell. The files that a command can touch
are taken from the disk, the command is carried out on them, and what it has changed is put back.
-/

namespace Depot.Shell

def variableNames : List String := [
  Config.urlVariable, Config.extensionVariable, Config.compressionVariable,
  Config.overwriteVariable, Store.baseVariable, "OBJSTORE_OTEL_ENABLED", "OBJSTORE_REQUIRE_OTEL",
  "OBJSTORE_OTEL_SERVICE_NAME", "OBJSTORE_OTEL_EXPORTER", "OBJSTORE_OTEL_EXPORTER_OTLP_ENDPOINT",
  "OBJSTORE_OTEL_EXPORTER_OTLP_PROTOCOL", "OBJSTORE_OTEL_RESOURCE_ATTRS",
  "OBJSTORE_OTEL_TEST_CAPTURE"]

def readEnvironment : IO Environment :=
  variableNames.filterMapM fun name => do
    return (← IO.getEnv name).map fun text => (name, text)

def placeOf (path : String) : Files.Place :=
  (Files.Pathname.parse path).names.reverse

/-- The local directory that a command line is about, if it is about one. -/
def localBase? (arguments : CommandLine.Arguments) (world : World) : Option Store := do
  let config ← (arguments.config world.environment).toOption
  match (Store.ofConfig config {}).perform world with
  | (.ok store, _) => if store.backend = .files then some store else none
  | (.error _, _) => none

def namedFiles (store : Store) (current : String) : CommandLine.Command → List String
  | .list _ _ _ | .showUrl _ => []
  | .print name | .remove name | .askExistence name => [objectFile name]
  | .put name file _ => objectFile name :: (file.map localFile).toList
where
  objectFile (name : String) : String := (Store.Files.keyPath (store.key name)).render
  localFile (file : String) : String :=
    if Text.startsWith "/" file then file else current ++ "/" ++ file

/-- Takes what is at one path from the disk. The bytes of a file are taken if they are wanted. -/
def takeNode (wanted : Bool) (path : String) : IO (Option Files.Node) := do
  try
    let actual ← IO.FS.realPath path
    if actual.toString ≠ path then return some (.link actual.toString)
    else if ← actual.isDir then return some .directory
    else if wanted then return some (.file (← IO.FS.readBinFile path))
    else return some (.file .empty)
  catch _ => return none

partial def takeWay (wanted : Bool) (tree : Files.Tree) (done todo : List String) :
    IO Files.Tree := do
  match todo with
  | [] => return tree
  | name :: rest =>
    let path := "/" ++ "/".intercalate (done ++ [name])
    match ← takeNode (wanted && rest.isEmpty) path with
    | none => return tree
    | some node =>
      let tree := tree.insert (placeOf path) node
      match node with
      | .link target =>
        if (tree.get? (placeOf target)).isSome then return tree
        else takeWay wanted tree [] ((Files.Pathname.parse target).names ++ rest)
      | _ => takeWay wanted tree (done ++ [name]) rest

partial def takeBelow (tree : Files.Tree) (directory : String) : IO Files.Tree := do
  let mut tree := tree
  let entries ← try (← IO.FS.realPath directory).readDir catch _ => pure #[]
  for entry in entries do
    let path := entry.path.toString
    match ← takeNode false path with
    | none => pure ()
    | some node =>
      tree := tree.insert (placeOf path) node
      if tree.hasDirectory (placeOf path) then tree ← takeBelow tree path
  return tree

def putNode (before : Files.Tree) (place : Files.Place) (node : Files.Node) : IO Unit := do
  let path := place.render
  match node, before.get? place with
  | .file bytes, some (.file old) =>
    if bytes.data ≠ old.data then replace path bytes
  | .file bytes, _ => replace path bytes
  | .directory, some .directory => return ()
  | .directory, _ => IO.FS.createDirAll path
  | .link _, _ => return ()
where
  replace (path : String) (bytes : ByteArray) : IO Unit := do
    IO.FS.writeBinFile (path ++ Store.Files.stagingEnd) bytes
    IO.FS.rename (path ++ Store.Files.stagingEnd) path

def putChanges (before after : Files.Tree) : IO Unit := do
  let entries := after.nodes.entries.mergeSort fun a b => a.1.length ≤ b.1.length
  for (place, node) in entries do
    putNode before place node
  for place in before.nodes.keys do
    if (after.get? place).isNone then IO.FS.removeFile place.render

partial def readToEnd (input : IO.FS.Stream) (taken : ByteArray) : IO ByteArray := do
  let bytes ← input.read 65536
  if bytes.isEmpty then return taken else readToEnd input (taken ++ bytes)

def readsInput : CommandLine.Command → Bool
  | .put _ file push => !push && file.getD "" = ""
  | _ => false

def takeWorld (words : List String) : IO (World × ByteArray) := do
  let current := (← IO.currentDir).toString
  let tree ← takeWay false { nodes := .empty, current := placeOf current } []
    (Files.Pathname.parse current).names
  let world : World :=
    { tree, environment := ← readEnvironment
      -- No client of a provider is part of the program.
      missingExtras := [Backend.gcs.name, Backend.s3.name] }
  match CommandLine.Arguments.parse words with
  | .error _ => return (world, .empty)
  | .ok arguments =>
    match arguments.command, localBase? arguments world with
    | some command, some store =>
      let base := (Store.Files.base store).render
      let mut tree ← takeWay false tree [] (Files.Pathname.parse base).names
      tree ← takeBelow tree base
      for path in namedFiles store current command do
        tree ← takeWay true tree [] (Files.Pathname.parse path).names
      let input ←
        if readsInput command then readToEnd (← IO.getStdin) .empty else pure .empty
      return ({ world with tree }, input)
    | _, _ => return (world, .empty)

end Depot.Shell

def main (words : List String) : IO UInt32 := do
  let (before, input) ← Depot.Shell.takeWorld words
  let (output, after) := Depot.CommandLine.run id words input before
  Depot.Shell.putChanges before.tree after.tree
  (← IO.getStdout).write output.printed
  (← IO.getStderr).putStr output.remarks
  return output.status.toUInt32
