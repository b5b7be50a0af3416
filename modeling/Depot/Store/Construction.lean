import Depot.Cloud.Client
import Depot.Config
import Depot.Files.Resolve
import Depot.Store.Files

/-!
This module contains the making of stores from locations, URLs, descriptions and environments.
-/

namespace Depot.Store

structure Settings where
  extension : String := ""
  compression : String := ""
  overwrite : Bool := false

structure ClientOptions where
  client : Bool := false
  others : List (String × Value) := []

def ClientOptions.names (options : ClientOptions) : List String :=
  (if options.client then ["client"] else []) ++ options.others.map Prod.fst

/-- The text of an option, or else that of a variable, if one of them is not empty. -/
def ClientOptions.text? (options : ClientOptions) (env : Environment) (name key : String) :
    Option String :=
  match Value.member? name options.others with
  | some (.text s) => if s = "" then fromEnvironment else some s
  | _ => fromEnvironment
where
  fromEnvironment : Option String :=
    let s := env.get key
    if s = "" then none else some s

def parseLocation (text : String) : Action Location := do
  let tree := (← get).tree
  Action.ofResult <| Location.parse
    (fun path => (tree.resolve (.parse path)).map Files.Place.render) text

/-- The variable that holds the directory for stores that are given none. -/
def baseVariable : String := "OBJSTORE_FILESYSTEM_BASE_DIR"

/-- The directory for stores that are given none. -/
def defaultBase (env : Environment) : String :=
  let configured := env.get baseVariable
  if configured = "" then "/tmp/objstore" else (Files.Pathname.parse configured).render

def unusable (message url : String) (cause : Option Reason := none) : Failure :=
  { reason := .storage { kind := .backend, message, url := some url }, cause }

def ofSettings (backend : Backend) (location : Location) (settings : Settings) :
    Except Failure Store :=
  match Codec.Scheme.parse settings.compression with
  | .error e => .error (.ofStorage e)
  | .ok compression =>
    .ok { backend, location, compression
          extension := settings.extension
          overwrite := settings.overwrite }

inductive Base where
  | location (location : Location)
  | text (text : String)

def Base.locate : Base → Action Location
  | location l => return l
  | text s => parseLocation s

def checkOptions (backend : Backend) (known : List String) (options : ClientOptions) :
    Action Unit :=
  match options.names.find? (!known.contains ·) with
  | some name => Action.fail (.unexpectedOption backend.typeName name)
  | none => return ()

def requireBase (backend : Backend) : Option Base → Action Base
  | some base => return base
  | none => Action.fail (.missingArgument backend.typeName "location")

def newFiles (base : Option Base) (settings : Settings) (options : ClientOptions) :
    Action Store := do
  checkOptions .files [] options
  let env := (← get).environment
  let location ← (base.getD (.text (defaultBase env))).locate
  if location.scheme ≠ "file" then
    throw (unusable ("FilesystemObjectStore requires a file:// location, got " ++ location.scheme
      ++ "://") location.render)
  let store ← Action.ofResult (ofSettings .files location settings)
  note .debug .files ("FilesystemObjectStore initialized with base_dir="
    ++ (Files.base store).render)
  return store

/-- Takes note of a client that is made, unless one is given. -/
def makeClient (options : ClientOptions) (request : Cloud.ClientRequest) : Action Unit :=
  if options.client then return ()
  else modify fun world => { world with clients := world.clients ++ [request] }

def newGcs (base : Option Base) (settings : Settings) (options : ClientOptions) :
    Action Store := do
  checkOptions .gcs ["client", "project"] options
  let location ← (← requireBase .gcs base).locate
  if location.scheme ≠ "gs" ∨ location.host = "" then
    throw (unusable "GCSObjectStore requires a gs://bucket location" location.render)
  let store ← Action.ofResult (ofSettings .gcs location settings)
  let env := (← get).environment
  makeClient options (.gcs (options.text? env "project" "OBJSTORE_GCS_PROJECT"))
  Cloud.record (.bucket location.host)
  note .debug .gcs ("GCSObjectStore initialized: " ++ location.render)
  return store

def newS3 (base : Option Base) (settings : Settings) (options : ClientOptions) :
    Action Store := do
  checkOptions .s3 ["client", "endpoint_url", "region"] options
  let location ← (← requireBase .s3 base).locate
  if location.scheme ≠ "s3" ∨ location.host = "" then
    throw (unusable "S3ObjectStore requires an s3://bucket location" location.render)
  let store ← Action.ofResult (ofSettings .s3 location settings)
  let env := (← get).environment
  makeClient options (.s3 (options.text? env "endpoint_url" "OBJSTORE_S3_ENDPOINT_URL")
    (options.text? env "region" "OBJSTORE_S3_REGION"))
  note .debug .s3 ("S3ObjectStore initialized: " ++ location.render)
  return store

/-- Makes a store of a kind. Only local stores have a base of their own if none is given. -/
def make (backend : Backend) (base : Option Base) (settings : Settings)
    (options : ClientOptions) : Action Store :=
  match backend with
  | .files => newFiles base settings options
  | .gcs => newGcs base settings options
  | .s3 => newS3 base settings options

def checkExtra (backend : Backend) (url : String) : Action Unit := do
  let extra := backend.name
  if (← get).missingExtras.contains extra then
    throw (unusable (backend.scheme ++ ":// stores need the '" ++ extra
      ++ "' extra (pip install 'objstore[" ++ extra ++ "]')") url (some (.missingPackage extra)))

def ofUrl (url : String) (settings : Settings) (options : ClientOptions) : Action Store := do
  let location ← parseLocation url
  let store ←
    if location.scheme = "file" then
      if options.names = [] then newFiles (some (.location location)) settings {}
      else
        throw (unusable ("file:// stores take no client options, got: "
          ++ ", ".intercalate options.names.mergeSort) url)
    else if location.scheme = "gs" then
      checkExtra .gcs url
      newGcs (some (.location location)) settings options
    else if location.scheme = "s3" then
      checkExtra .s3 url
      newS3 (some (.location location)) settings options
    else throw (.ofStorage { kind := .unsupportedScheme location.scheme, url := some url })
  note .debug .construction ("Created store: backend=" ++ store.backend.name)
  return store

def ofConfig (config : Config) (options : ClientOptions) : Action Store :=
  ofUrl config.url ⟨config.extension, config.compression.name, config.overwrite⟩ options

def ofEnvironment (options : ClientOptions) : Action Store := do
  ofConfig (← Action.ofResult (Config.ofEnvironment (← get).environment)) options

def subStore (store : Store) (segment : String) : Action Store :=
  let options : ClientOptions :=
    match store.backend with
    | .files => {}
    | .gcs | .s3 => { client := true }
  make store.backend (some (.location (store.location.join segment)))
    ⟨store.extension, store.compression.name, store.overwrite⟩ options

end Depot.Store
