import Depot.Proofs.Store.Cloud
import Depot.Proofs.Walk

/-!
This module contains the theory of the listings of buckets. The first provider lists from an offset
on, the second behind a key that sorts before the offset, and page by page; a walk over either shows
the same.
-/

namespace Depot

open Cloud

namespace Cloud.Bucket

variable {b b' : Bucket} {lead : String}

def Same (b b' : Bucket) : Prop :=
  ∀ key, b.get? key = b'.get? key

theorem get?_put_self (b : Bucket) (key : String) (raw : ByteArray) :
    (b.put key raw).get? key = some raw :=
  Table.get?_insert_self b.objects key raw

theorem get?_put_of_ne (b : Bucket) {key key' : String} (raw : ByteArray) (h : key' ≠ key) :
    (b.put key raw).get? key' = b.get? key' :=
  Table.get?_insert_of_ne b.objects raw h

theorem get?_remove_self (b : Bucket) (key : String) : (b.remove key).get? key = none :=
  Table.get?_erase_self b.objects key

theorem get?_remove_of_ne (b : Bucket) {key key' : String} (h : key' ≠ key) :
    (b.remove key).get? key' = b.get? key' :=
  Table.get?_erase_of_ne b.objects h

theorem same_put (h : b.Same b') (key : String) (raw : ByteArray) :
    (b.put key raw).Same (b'.put key raw) := by
  intro other
  by_cases hkey : other = key
  · rw [hkey, get?_put_self, get?_put_self]
  · rw [get?_put_of_ne b raw hkey, get?_put_of_ne b' raw hkey]
    exact h other

theorem same_remove (h : b.Same b') (key : String) : (b.remove key).Same (b'.remove key) := by
  intro other
  by_cases hkey : other = key
  · rw [hkey, get?_remove_self, get?_remove_self]
  · rw [get?_remove_of_ne b hkey, get?_remove_of_ne b' hkey]
    exact h other

theorem mem_sortedKeys {key : String} : key ∈ b.sortedKeys ↔ b.has key = true := by
  unfold sortedKeys
  rw [List.mem_mergeSort, Table.mem_keys_iff]
  rfl

theorem nodup_sortedKeys (b : Bucket) : b.sortedKeys.Nodup :=
  (List.mergeSort_perm _ _).nodup_iff.2 b.objects.nodup_keys

theorem empty_not_mem_keysAfter (h : b.has "" = false) (lead : String) (after : Option String) :
    "" ∉ b.keysAfter lead after := by
  intro hmem
  have hhas := mem_sortedKeys.1 (List.mem_filter.1 hmem).1
  rw [h] at hhas
  cases hhas

theorem filter_startsWith_and (b : Bucket) (lead : String) (pass : String → Bool) :
    (b.sortedKeys.filter fun key => Text.startsWith lead key && pass key)
      =
    (b.keysFrom lead none).filter pass := by
  unfold keysFrom
  rw [List.filter_filter]
  apply List.filter_congr
  intro key _
  rw [Option.all_none, Bool.and_true, Bool.and_comm]

theorem flatten_paged (size : Nat) (keys : List String) : (paged size keys).flatten = keys := by
  induction keys using paged.induct size with
  | case1 => rw [paged, List.flatten_nil]
  | case2 key keys ih =>
    rw [paged, List.flatten_cons, ih, List.cons_append, List.take_append_drop]

end Cloud.Bucket

namespace Cloud

theorem strike_none (listing : Listing) : strike none listing = listing := by
  induction listing with
  | nil => rfl
  | cons item rest ih =>
    cases item with
    | call call => rw [strike, ih]
    | key key =>
      rw [strike, ih]
      simp
    | failed failure =>
      rw [strike, ih]
      simp

variable {world : World} {host lead : String}

theorem Gcs.quiet_listing (hfault : world.fault = none) (hpages : world.bucket.fixedPages = none)
    (host lead : String) (offset : Option String) :
    (Gcs.listing world host lead offset).quiet
      =
    Listing.ofKeys (world.bucket.keysFrom lead offset) := by
  unfold Gcs.listing
  rw [hfault, hpages, strike_none, Listing.quiet, Listing.quiet_ofKeys]

theorem quiet_pages (pages : List (List String)) :
    Listing.quiet ((pages.map Listing.ofKeys).flatMap (.call .page :: ·))
      =
    Listing.ofKeys pages.flatten := by
  induction pages with
  | nil => rfl
  | cons page pages ih =>
    rw [List.map_cons, List.flatMap_cons, Listing.quiet_append, ih, Listing.quiet,
      Listing.quiet_ofKeys, List.flatten_cons]
    unfold Listing.ofKeys
    rw [List.map_append]

theorem S3.quiet_listing (hfault : world.fault = none) (hpages : world.bucket.fixedPages = none)
    (host : String) {after : Option String} (hkeys : "" ∉ world.bucket.keysAfter lead after) :
    (S3.listing world host lead after).quiet
      =
    Listing.ofKeys (world.bucket.keysAfter lead after) := by
  have hnonempty : ∀ page ∈ Bucket.paged world.bucket.pageSize (world.bucket.keysAfter lead after),
      page.filter (· ≠ "") = page := by
    intro page hpage
    rw [List.filter_eq_self]
    intro key hkey
    have hmem : key ∈ world.bucket.keysAfter lead after := by
      rw [← Bucket.flatten_paged world.bucket.pageSize (world.bucket.keysAfter lead after)]
      exact List.mem_flatten.2 ⟨page, hpage, hkey⟩
    exact decide_eq_true fun hempty => hkeys (hempty ▸ hmem)
  -- Without the empty key no page lists less than it holds.
  have hall : S3.pages world.bucket lead after
      = (Bucket.paged world.bucket.pageSize (world.bucket.keysAfter lead after)).map
          Listing.ofKeys := by
    unfold S3.pages
    rw [hpages]
    apply List.map_congr_left
    intro page hpage
    rw [hnonempty page hpage]
  unfold S3.listing
  rw [hfault, strike_none, Listing.quiet, Listing.quiet, hall, quiet_pages, Bucket.flatten_paged]

end Cloud

namespace Path

theorem dropLast_lt {cs : List Char} (h : cs ≠ []) : cs.dropLast < cs := by
  induction cs with
  | nil => exact absurd rfl h
  | cons c rest ih =>
    cases rest with
    | nil => exact List.nil_lt_cons c []
    | cons c' rest =>
      rw [List.dropLast_cons_cons, List.cons_lt_cons_iff]
      exact .inr ⟨rfl, ih (by simp)⟩

theorem startAfter?_lt {offset : Option String} {key : String} (h : offset.all (· ≤ key) = true) :
    (startAfter? offset).all (· < key) = true := by
  cases offset with
  | none => rfl
  | some first =>
    unfold startAfter?
    dsimp only
    split
    · rfl
    next hlong =>
      simp only [Option.all_some, decide_eq_true_eq] at h ⊢
      have hne : first.toList ≠ [] := by
        intro hnil
        apply hlong
        rw [← String.length_toList, hnil]
        decide
      have hlt : String.ofList first.toList.dropLast < first := by
        rw [String.lt_iff, String.toList_ofList]
        exact dropLast_lt hne
      by_cases hkey : String.ofList first.toList.dropLast < key
      · exact hkey
      · rw [String.not_lt] at hkey
        exact absurd (String.le_trans h hkey) (String.not_le.2 hlt)

end Path

end Depot
