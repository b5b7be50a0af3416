import Depot.Location.Basic

/-!
This module contains the correspondence between the logical names of a store and the keys and URLs
of its objects.
-/

namespace Depot

structure Naming where
  location : Location
  extension : String := ""
deriving DecidableEq, Repr

namespace Naming

def withExtension (naming : Naming) (name : String) : String :=
  name ++ naming.extension

def key (naming : Naming) (name : String) : String :=
  Path.cleanJoin [naming.location.keyPrefix, naming.withExtension name]

/-- The URL of an object. Names are not cleaned in it. -/
def url (naming : Naming) (name : String) : String :=
  Text.stripEnd '/' naming.location.render ++ "/"
    ++ Text.stripStart '/' (naming.withExtension name)

def name (naming : Naming) (key : String) : String :=
  let stripped :=
    if naming.extension = "" then key else Text.dropSuffix naming.extension key
  Text.dropPrefix (naming.location.keyPrefix ++ "/") stripped

end Naming

end Depot
