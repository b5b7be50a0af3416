import Depot.Files.Tree

/-!
This module contains the listing of all files below a directory.
-/

namespace Depot.Files.Tree

def leadsToDirectory (tree : Tree) (p : Pathname) : Bool :=
  match tree.stat p with
  | .ok .directory => true
  | _ => false

/-- Whether what a pathname names is listed as a file: files are, and links that lead elsewhere. -/
def isListed (tree : Tree) (p : Pathname) (node : Node) : Bool :=
  match node with
  | .file _ => true
  | .directory => false
  | .link _ => !tree.leadsToDirectory p

/-- The components of a place from a directory above it, the outermost first. -/
def namesFrom (directory place : Place) : List String :=
  (place.take (place.length - directory.length)).reverse

/--
The files below the directory that a pathname leads to, each by its components from there, the
outermost first. What is in a directory whose pathname is too long is left out.
-/
def filesBelow (tree : Tree) (p : Pathname) (directory : Place) : List (List String) :=
  (tree.nodes.entries.filter fun (place, node) =>
    let full := p.descend (namesFrom directory place)
    directory.isSuffixOf place && place ≠ directory && takes full.parent
      && tree.isListed full node).map
    fun (place, _) => namesFrom directory place

end Depot.Files.Tree
