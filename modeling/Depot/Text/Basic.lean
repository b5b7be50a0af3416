/-!
This module contains the operations on text that names, keys and locations are built from. They
are stated on lists of characters; the operations on strings are the same ones through `toList`.
-/

namespace Depot.Text

/-- The pieces between the occurrences of `sep`. There is always one more piece than separators. -/
def splitOn (sep : Char) : List Char → List (List Char)
  | [] => [[]]
  | c :: rest =>
    if c = sep then
      [] :: splitOn sep rest
    else
      match splitOn sep rest with
      | [] => [[c]]
      | piece :: pieces => (c :: piece) :: pieces

/-- The pieces with `sep` between each two of them. -/
def joinWith (sep : Char) : List (List Char) → List Char
  | [] => []
  | [piece] => piece
  | piece :: pieces => piece ++ sep :: joinWith sep pieces

theorem splitOn_ne_nil (sep : Char) (cs : List Char) : splitOn sep cs ≠ [] := by
  induction cs with
  | nil => simp [splitOn]
  | cons c rest ih =>
    unfold splitOn
    split
    · simp
    · split <;> simp

@[simp]
theorem joinWith_splitOn (sep : Char) (cs : List Char) : joinWith sep (splitOn sep cs) = cs := by
  induction cs with
  | nil => rfl
  | cons c rest ih =>
    unfold splitOn
    split
    next h =>
      subst h
      cases hs : splitOn c rest with
      | nil => exact absurd hs (splitOn_ne_nil c rest)
      | cons piece pieces => rw [hs] at ih; simp [joinWith, ih]
    next h =>
      cases hs : splitOn sep rest with
      | nil => exact absurd hs (splitOn_ne_nil sep rest)
      | cons piece pieces =>
        rw [hs] at ih
        cases pieces with
        | nil => simp_all [joinWith]
        | cons next others => simp_all [joinWith]

/-- The text before the first `sep` and, if there is one, the text after it. -/
def cut (sep : Char) : List Char → List Char × Option (List Char)
  | [] => ([], none)
  | c :: rest =>
    if c = sep then
      ([], some rest)
    else
      let (before, after) := cut sep rest
      (c :: before, after)

/-- The list without the characters at its end that satisfy `p`. -/
def dropWhileEnd (p : Char → Bool) (cs : List Char) : List Char :=
  (cs.reverse.dropWhile p).reverse

/-- The list without the characters at both ends that satisfy `p`. -/
def trim (p : Char → Bool) (cs : List Char) : List Char :=
  dropWhileEnd p (cs.dropWhile p)

/-- What follows `lead`, if the list starts with it. -/
def afterPrefix? (lead cs : List Char) : Option (List Char) :=
  match lead, cs with
  | [], cs => some cs
  | _ :: _, [] => none
  | l :: lead, c :: cs => if l = c then afterPrefix? lead cs else none

/-- What precedes `tail`, if the list ends with it. -/
def beforeSuffix? (tail cs : List Char) : Option (List Char) :=
  (afterPrefix? tail.reverse cs.reverse).map List.reverse

/-- Whether `s` starts with `lead`. -/
def startsWith (lead s : String) : Bool :=
  lead.toList.isPrefixOf s.toList

/-- Whether `s` ends with `tail`. -/
def endsWith (tail s : String) : Bool :=
  tail.toList.isSuffixOf s.toList

/-- `s` without `lead` at its start; `s` itself if it starts otherwise. -/
def dropPrefix (lead s : String) : String :=
  match afterPrefix? lead.toList s.toList with
  | some rest => String.ofList rest
  | none => s

/-- `s` without `tail` at its end; `s` itself if it ends otherwise. -/
def dropSuffix (tail s : String) : String :=
  match beforeSuffix? tail.toList s.toList with
  | some rest => String.ofList rest
  | none => s

/-- `s` without the characters `c` at its start. -/
def stripStart (c : Char) (s : String) : String :=
  String.ofList (s.toList.dropWhile (· = c))

/-- `s` without the characters `c` at its end. -/
def stripEnd (c : Char) (s : String) : String :=
  String.ofList (dropWhileEnd (· = c) s.toList)

/-- `s` without the characters `c` at both ends. -/
def stripBoth (c : Char) (s : String) : String :=
  String.ofList (trim (· = c) s.toList)

end Depot.Text
