import Depot.Failure
import Depot.Location.Url
import Depot.Path.Clean

/-!
This module contains base locations: the place a store is rooted at.
-/

namespace Depot

/--
The base of a store. The scheme selects the kind of store, the host is the bucket of a cloud
store, and the path is the prefix below the bucket or a local directory.
-/
structure Location where
  scheme : String
  host : String
  path : String
deriving DecidableEq, Repr, Inhabited

namespace Location

/-- The path without trailing slashes; the root keeps its slash. -/
def trimPath (path : String) : String :=
  if path.length ≤ 1 then path
  else
    let trimmed := Text.stripEnd '/' path
    if trimmed = "" then "/" else trimmed

/--
The location a text denotes. A text without a scheme, or with a scheme of one letter, is a local
directory; `resolve` makes it absolute.
-/
def parse (resolve : String → Except Failure String) (text : String) : Except Failure Location :=
  if text = "" then .error { reason := .malformed .missing }
  else
    match Url.parse text with
    | .error why => .error { reason := .malformed why }
    | .ok url =>
      if url.scheme.length ≤ 1 then (resolve text).map fun path => ⟨"file", "", path⟩
      else .ok ⟨url.scheme, url.host, trimPath url.path⟩

def keyPrefix (location : Location) : String :=
  Text.stripBoth '/' location.path

/-- The location of `segment` under this one. Below a host the path stays rooted. -/
def join (location : Location) (segment : String) : Location :=
  let path := Path.cleanJoin [location.path, segment]
  let path :=
    if location.host ≠ "" ∧ path ≠ "" ∧ !Text.startsWith "/" path then "/" ++ path else path
  { location with path }

def render (location : Location) : String :=
  location.scheme ++ "://" ++ location.host ++ location.path

end Location

end Depot
