import Depot.Proofs.Store.Listing
import Depot.Proofs.Store.Requests

/-!
This module contains the proof that stores of the two providers cannot be told apart: on the same
content, the same requests show the same and leave the same content.
-/

namespace Depot

open Depot.Action Cloud

namespace Cloud.Bucket

end Cloud.Bucket

namespace Store

/-- Whether stores of both providers have the same content, which they list truly. -/
structure Agree (world world' : World) : Prop where
  calm : world.fault = none
  calm' : world'.fault = none
  lists : world.bucket.fixedPages = none
  lists' : world'.bucket.fixedPages = none
  same : world.bucket.Same world'.bucket
  nonempty : world.bucket.has "" = false

namespace Agree

variable {world world' : World}

theorem withRecords (h : Agree world world') (records records' : Records) :
    Agree (world.withRecords records) (world'.withRecords records') :=
  ⟨h.calm, h.calm', h.lists, h.lists', h.same, h.nonempty⟩

theorem put (h : Agree world world') {key : String} (hkey : key ≠ "") (raw : ByteArray) :
    Agree (world.withBucket (world.bucket.put key raw))
      (world'.withBucket (world'.bucket.put key raw)) := by
  refine ⟨h.calm, h.calm', h.lists, h.lists', Bucket.same_put h.same key raw, ?_⟩
  have hempty := h.nonempty
  unfold Bucket.has at hempty ⊢
  rw [World.withBucket_bucket, Bucket.get?_put_of_ne _ _ hkey.symm]
  exact hempty

theorem remove (h : Agree world world') (key : String) :
    Agree (world.withBucket (world.bucket.remove key))
      (world'.withBucket (world'.bucket.remove key)) := by
  refine ⟨h.calm, h.calm', h.lists, h.lists', Bucket.same_remove h.same key, ?_⟩
  have hempty := h.nonempty
  by_cases hkey : "" = key
  · subst hkey
    unfold Bucket.has
    rw [World.withBucket_bucket, Bucket.get?_remove_self]
    rfl
  · unfold Bucket.has at hempty ⊢
    rw [World.withBucket_bucket, Bucket.get?_remove_of_ne _ hkey]
    exact hempty

end Agree

section Twins

variable {store : Store} {world world' : World} {name : String}

end Twins

/--
Whether both providers give a request the same treatment: no write needs the empty key, or must be
new and reads a source that fails with the refusal of a provider, and no walk is cancelled before it
starts.
-/
def Accepts (store : Store) : Request → Prop
  | .write name source overwrite =>
    store.key name ≠ ""
      ∧ (store.mayReplace overwrite = false →
          ∀ failure, source.content = .error failure → Cloud.Gcs.collides failure = false)
  | .walk _ visitor | .walkFrom _ _ visitor => visitor.cancelled [] = false
  | .read _ | .contains _ | .delete _ | .list _ _ _ => True

variable {store : Store} {world world' : World}

end Store

end Depot
