import Depot.Table
import Depot.Text.Basic
import Depot.Value

/-!
This module contains buckets held in memory: maps from keys to bodies, and how they list their
keys.
-/

namespace Depot.Cloud

structure Bucket where
  objects : Table String ByteArray := .empty
  /-- How many keys a page of a listing has at most. -/
  pageSize : Nat := 1000
  /-- What listings answer whatever is in the bucket, if they do. -/
  fixedPages : Option (List Value) := none

namespace Bucket

def put (b : Bucket) (key : String) (body : ByteArray) : Bucket :=
  { b with objects := b.objects.insert key body }

def remove (b : Bucket) (key : String) : Bucket :=
  { b with objects := b.objects.erase key }

def get? (b : Bucket) (key : String) : Option ByteArray :=
  b.objects.get? key

def has (b : Bucket) (key : String) : Bool :=
  (b.get? key).isSome

def sortedKeys (b : Bucket) : List String :=
  b.objects.keys.mergeSort

/-- The keys that start with `lead` and are no less than `offset`. -/
def keysFrom (b : Bucket) (lead : String) (offset : Option String) : List String :=
  b.sortedKeys.filter fun key => Text.startsWith lead key && offset.all (· ≤ key)

/-- The keys that start with `lead` and are greater than `after`. -/
def keysAfter (b : Bucket) (lead : String) (after : Option String) : List String :=
  b.sortedKeys.filter fun key => Text.startsWith lead key && after.all (· < key)

/-- Keys in pages of a size; a page holds at least one. -/
def paged (size : Nat) (keys : List String) : List (List String) :=
  match keys with
  | [] => []
  | key :: keys => (key :: keys.take (size - 1)) :: paged size (keys.drop (size - 1))
termination_by keys.length
decreasing_by simp only [List.length_drop, List.length_cons]; omega

end Bucket

end Depot.Cloud
