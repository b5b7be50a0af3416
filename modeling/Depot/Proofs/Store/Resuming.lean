import Depot.Proofs.Store.Bounds
import Depot.Proofs.Store.Flat
import Depot.Proofs.Store.Holdings

/-!
This module contains the theory of resumed walks. A walk is resumed where the keys are no less than
the name it is resumed at, without the extension: that is exact if no key lies between.
-/

namespace Depot

open Depot.Path Depot.Action

namespace Walk

theorem told_run {toName : String → String} {offset : Option String} {visitor : Visitor}
    {listing : Listing} {keys : List String} {shown : String → Bool}
    (hquiet : listing.quiet = Listing.ofKeys (keys.filter shown))
    (hsorted : keys.Pairwise (· ≤ ·))
    (hshown : ∀ key, isBefore offset key = false → shown key = true)
    (hfirst : visitor.cancelled [] = true → ∃ key ∈ keys, isBefore offset key = false) :
    (run toName offset visitor [] listing).told
      =
    (run id none visitor [] (Listing.ofKeys
      ((keys.filter fun key => !isBefore offset key).map toName))).told := by
  have hlisting : (run toName offset visitor [] listing).told
      = (run toName offset visitor [] (Listing.ofKeys (keys.filter shown))).told := by
    rw [← hquiet]
    exact (told_eq_of_shown (run_quiet [] listing)).symm
  have hkept : (keys.filter shown).filter (fun key => !isBefore offset key)
      = keys.filter fun key => !isBefore offset key := by
    rw [List.filter_filter]
    apply List.filter_congr
    intro key _
    cases hbefore : isBefore offset key with
    | true => rfl
    | false =>
      rw [hshown key hbefore]
      rfl
  rw [hlisting, ← run_names]
  cases hcancel : visitor.cancelled [] with
  | true =>
    -- Both walks fail at their first key.
    obtain ⟨key, hkey, hbefore⟩ := hfirst hcancel
    have hmem : key ∈ keys.filter shown := List.mem_filter.2 ⟨hkey, hshown key hbefore⟩
    have hmem' : key ∈ keys.filter fun key => !isBefore offset key :=
      List.mem_filter.2 ⟨hkey, by rw [hbefore]; rfl⟩
    obtain ⟨first, rest, hkeys⟩ := List.exists_cons_of_ne_nil (List.ne_nil_of_mem hmem)
    obtain ⟨first', rest', hkeys'⟩ := List.exists_cons_of_ne_nil (List.ne_nil_of_mem hmem')
    rw [hkeys, hkeys']
    exact told_eq_of_shown ((run_cancelled hcancel _ _).trans (run_cancelled hcancel _ _).symm)
  | false =>
    rw [told_eq_of_shown (run_filter (List.Pairwise.filter _ hsorted) hcancel), hkept]

end Walk

namespace Store

variable {store : Store} {world : World} {names before after : List String} {name start : String}

/--
Whether a walk of all of a store from some start on goes through these names: what it shows to any
visitor is what there is to show of them, one after the other.
-/
def Visits (store : Store) (world : World) (start : String) (names : List String) : Prop :=
  ∀ visitor, ∃ walk : Walk, (store.walkFrom "" start visitor).Yields world (.ok walk) world
    ∧ walk.told = (Walk.run id none visitor [] (Listing.ofKeys names)).told

theorem Visits.told_eq (h : store.Visits world start names) (visitor : Visitor) :
    (store.walkOf world "" start visitor).told
      =
    (Walk.run id none visitor [] (Listing.ofKeys names)).told := by
  obtain ⟨walk, hwalk, htold⟩ := h visitor
  have hsame := hwalk.fst_eq
  rw [(walkFrom_yields store "" start visitor world).fst_eq] at hsame
  rw [Except.ok.inj hsame, htold]

theorem Visits.names_eq (h : store.Visits world start names) :
    (store.walkOf world "" start {}).names = names := by
  have hnames : (store.walkOf world "" start {}).names = _ := congrArg Prod.fst (h.told_eq {})
  exact hnames.trans (Walk.run_ofKeys_all names).1

/--
Whether a walk resumed at a name passes over exactly the keys before that of the name. All it passes
over are the keys before its offset.
-/
def Resumes (store : Store) (names : List String) (name : String) : Prop :=
  ∀ other ∈ names, Walk.isBefore (startOffset? (store.query "") name) (store.key other) = true
    ↔ store.key other < store.key name

theorem Lists.filter_eq_iff (h : store.Lists world names)
    (hnames : names = before ++ name :: after) (pass : String → Bool) :
    names.filter pass = name :: after
      ↔ ∀ other ∈ names, pass other = true ↔ ¬store.key other < store.key name := by
  have hsorted := h.sorted
  rw [hnames, List.map_append, List.map_cons, List.pairwise_append] at hsorted
  obtain ⟨-, htail, hbefore⟩ := hsorted
  rw [List.pairwise_cons] at htail
  have hearlier : ∀ other ∈ before, store.key other < store.key name := fun other hother =>
    hbefore _ (List.mem_map_of_mem hother) _ List.mem_cons_self
  have hlater : ∀ other ∈ name :: after, ¬store.key other < store.key name := by
    intro other hother hlt
    rcases List.mem_cons.1 hother with rfl | hother
    · exact String.lt_irrefl _ hlt
    · exact String.lt_asymm hlt (htail.1 _ (List.mem_map_of_mem hother))
  constructor
  · intro hfilter other hother
    constructor
    · intro hpass
      apply hlater
      rw [← hfilter]
      exact List.mem_filter.2 ⟨hother, hpass⟩
    · intro hnot
      rw [hnames] at hother
      have hrest := (List.mem_append.1 hother).resolve_left fun hold => hnot (hearlier other hold)
      rw [← hfilter] at hrest
      exact (List.mem_filter.1 hrest).2
  · intro hpass
    have hpassed : ∀ other ∈ before, ¬pass other = true := by
      intro other hother
      rw [hpass other (hnames ▸ List.mem_append_left _ hother), Decidable.not_not]
      exact hearlier other hother
    have hmet : ∀ other ∈ name :: after, pass other = true := by
      intro other hother
      rw [hpass other (hnames ▸ List.mem_append_right _ hother)]
      exact hlater other hother
    rw [hnames, List.filter_append, List.filter_eq_nil_iff.2 hpassed, List.filter_eq_self.2 hmet,
      List.nil_append]

namespace Lists

variable (h : store.Lists world names) (hbase : store.location.Clean)

include h hbase

theorem told_walkOf (start : String) (visitor : Visitor)
    (hfirst : visitor.cancelled [] = true → ∃ other ∈ names,
      Walk.isBefore (startOffset? (store.query "") start) (store.key other) = false) :
    (store.walkOf world "" start visitor).told
      =
    (Walk.run id none visitor [] (Listing.ofKeys (names.filter fun other =>
      !Walk.isBefore (startOffset? (store.query "") start) (store.key other)))).told := by
  obtain ⟨shown, hquiet, hshown⟩ := h.listing_eq (startOffset? (store.query "") start)
  have hsorted : (names.map store.key).Pairwise (· ≤ ·) :=
    h.sorted.imp fun hlt => String.not_lt.1 (String.lt_asymm hlt)
  have hnames : ((names.map store.key).filter fun key =>
        !Walk.isBefore (startOffset? (store.query "") start) key).map store.naming.name
      = names.filter fun other =>
        !Walk.isBefore (startOffset? (store.query "") start) (store.key other) := by
    rw [List.filter_map]
    apply Store.map_name_key hbase
    exact fun other hother => ((h.mem_iff other).1 (List.mem_filter.1 hother).1).1.relative
  unfold walkOf
  dsimp only
  rw [Walk.told_run hquiet hsorted hshown, hnames]
  intro hcancel
  obtain ⟨other, hother, hbefore⟩ := hfirst hcancel
  exact ⟨store.key other, List.mem_map_of_mem hother, hbefore⟩

theorem visits_all (hne : names ≠ []) : store.Visits world "" names := by
  have hall : ∀ other ∈ names,
      (!Walk.isBefore (startOffset? (store.query "") "") (store.key other)) = true :=
    fun _ _ => rfl
  intro visitor
  refine ⟨_, walkFrom_yields store "" "" visitor world, ?_⟩
  obtain ⟨first, rest, hnames⟩ := List.exists_cons_of_ne_nil hne
  rw [h.told_walkOf hbase, List.filter_eq_self.2 hall]
  intro _
  exact ⟨first, hnames ▸ List.mem_cons_self, rfl⟩

theorem visits_iff (hnames : names = before ++ name :: after) :
    store.Visits world name (name :: after) ↔ store.Resumes names name := by
  have hfilter : names.filter (fun other =>
        !Walk.isBefore (startOffset? (store.query "") name) (store.key other)) = name :: after
      ↔ store.Resumes names name := by
    rw [h.filter_eq_iff hnames]
    unfold Resumes
    simp only [Bool.not_eq_true', ← Bool.not_eq_true, not_iff_not]
  rw [← hfilter]
  constructor
  · intro hvisits
    have htold := h.told_walkOf hbase name {} fun hcancel => by cases hcancel
    have hshown : (store.walkOf world "" name {}).names = _ := congrArg Prod.fst htold
    rw [hvisits.names_eq] at hshown
    exact (hshown.trans (Walk.run_ofKeys_all _).1).symm
  · intro hshown visitor
    refine ⟨_, walkFrom_yields store "" name visitor world, ?_⟩
    rw [h.told_walkOf hbase, hshown]
    intro _
    have hmem : name ∈ names.filter fun other =>
        !Walk.isBefore (startOffset? (store.query "") name) (store.key other) := by
      rw [hshown]
      exact List.mem_cons_self
    obtain ⟨hname, hmet⟩ := List.mem_filter.1 hmem
    rw [Bool.not_eq_true'] at hmet
    exact ⟨name, hname, hmet⟩

end Lists

section Offset

theorem startOffset?_eq (hbase : store.location.Clean) (hname : Relative name) :
    startOffset? (store.query "") name = some (store.location.behind name) := by
  have hquery : store.query "" = queryBase store.location.keyPrefix := queryPrefix_empty _
  unfold startOffset?
  rw [if_neg hname.ne_empty, hquery, hbase.cleanJoin_queryBase hname]

theorem key_lt_key_iff (hbase : store.location.Clean) {other : String}
    (hother : Relative (store.naming.withExtension other))
    (hname : Relative (store.naming.withExtension name)) :
    store.key other < store.key name
      ↔ store.naming.withExtension other < store.naming.withExtension name := by
  have hkey : ∀ {name}, Relative (store.naming.withExtension name) →
      store.key name = store.location.behind (store.naming.withExtension name) :=
    fun hname => Naming.key_eq hbase hname
  rw [hkey hother, hkey hname, Location.behind_lt_behind_iff]

theorem resumes_iff (hbase : store.location.Clean) (hnames : ∀ other ∈ names, store.Orderly other)
    (hname : Relative name) (horderly : store.Orderly name) :
    store.Resumes names name
      ↔ ∀ other ∈ names, ∀ rest, store.naming.withExtension other = name ++ rest →
          store.extension ≤ rest := by
  have hextended : store.naming.withExtension name = name ++ store.extension := rfl
  apply forall_congr'
  intro other
  apply forall_congr'
  intro hother
  have hrelative := (hnames other hother).relative
  have hbehind : store.key other = store.location.behind (store.naming.withExtension other) :=
    Naming.key_eq hbase hrelative
  have hpassed : Walk.isBefore (startOffset? (store.query "") name) (store.key other) = true
      ↔ store.naming.withExtension other < name := by
    rw [startOffset?_eq hbase hname, hbehind, ← store.location.behind_lt_behind_iff]
    unfold Walk.isBefore
    rw [Option.any_some, decide_eq_true_eq]
  rw [hpassed, key_lt_key_iff hbase hrelative horderly.relative, hextended, Text.lt_append_iff]
  constructor
  · intro hparts rest hrest
    rw [← String.not_lt]
    intro hless
    have hlt := hparts.2 (.inr ⟨rest, hrest, hless⟩)
    rw [hrest] at hlt
    exact Text.not_append_lt name rest hlt
  · intro hnone
    constructor
    · exact .inl
    · rintro (hlt | ⟨rest, hrest, hless⟩)
      · exact hlt
      · exact absurd hless (String.not_lt.2 (hnone rest hrest))

theorem resumes_of_extension_empty (hbase : store.location.Clean) (hextension : store.extension = "")
    (hnames : ∀ other ∈ names, store.Orderly other) (horderly : store.Orderly name) :
    store.Resumes names name := by
  have hsame : store.naming.withExtension name = name := by
    have hempty : store.naming.extension = "" := hextension
    unfold Naming.withExtension
    rw [hempty, String.append_empty]
  have hname : Relative name := by
    rw [← hsame]
    exact horderly.relative
  rw [resumes_iff hbase hnames hname horderly, hextension]
  intro other _ rest _
  exact String.not_lt.1 fun hlt => List.not_lt_nil _ (String.lt_iff.1 hlt)

end Offset

section Pages

theorem Visits.collectFrom_yields (h : store.Visits world start names) {limit : Nat}
    (hlimit : 0 < limit) :
    (store.collectFrom "" start limit).Yields world (.ok (names.take limit)) world := by
  have hpositive : 0 < (limit : Int) := Int.natCast_pos.2 hlimit
  obtain ⟨walk, hwalk, htold⟩ := h (Walk.collector limit)
  obtain ⟨hnames, count, hresult⟩ := Walk.run_collector names hpositive
  have hnames' : walk.names = names.take limit := by
    have hshown : walk.names = _ := congrArg Prod.fst htold
    rw [hshown]
    exact hnames
  have hpage := namesOf_yields walk world
  rw [Walk.result_eq_of_told htold, hresult, hnames'] at hpage
  unfold collectFrom Walk.first?
  rw [if_neg (Int.not_le.2 hpositive)]
  exact hwalk.bind hpage

/--
The pages of a store from some start on: each but the last is full, and the next one is resumed at
its last name.
-/
inductive Paged (store : Store) (world : World) (limit : Nat) : String → List (List String) → Prop where
  | last {start : String} {page : List String}
      (hpage : (store.collectFrom "" start limit).Yields world (.ok page) world)
      (hshort : page.length < limit) : Paged store world limit start [page]
  | next {start name : String} {page : List String} {pages : List (List String)}
      (hpage : (store.collectFrom "" start limit).Yields world (.ok page) world)
      (hfull : page.length = limit) (hlast : page.getLast? = some name)
      (hrest : Paged store world limit name pages) : Paged store world limit start (page :: pages)

theorem exists_paged {limit : Nat} (hlimit : 2 ≤ limit)
    (hresumes : ∀ before name after, names = before ++ name :: after →
      store.Visits world name (name :: after))
    (hnames : names = before ++ name :: after) (hstart : store.Visits world start (name :: after)) :
    ∃ first more, store.Paged world limit start ((name :: first) :: more)
      ∧ first ++ (more.map List.tail).flatten = after := by
  induction hlength : after.length using Nat.strongRecOn generalizing start before name after with
  | ind length ih =>
    have hpositive : 0 < limit := by omega
    have hpage := hstart.collectFrom_yields hpositive
    obtain ⟨rest, rfl⟩ : ∃ rest, limit = rest + 1 := ⟨limit - 1, by omega⟩
    rw [List.take_succ_cons] at hpage
    by_cases hshort : after.length < rest
    · rw [List.take_of_length_le (Nat.le_of_lt hshort)] at hpage
      refine ⟨after, [], .last hpage ?_, List.append_nil after⟩
      rw [List.length_cons]
      omega
    · have htaken : (after.take rest).length = rest := by
        rw [List.length_take]
        omega
      have hne : after.take rest ≠ [] := by
        rw [← List.length_pos_iff]
        omega
      -- The next page starts at the last name of this one and goes on behind it.
      obtain ⟨front, last, hfront⟩ := (List.eq_nil_or_concat _).resolve_left hne
      have hafter : front ++ last :: after.drop rest = after := by
        have hwhole := List.take_append_drop rest after
        rw [hfront, List.concat_eq_append, List.append_assoc, List.singleton_append] at hwhole
        exact hwhole
      have hnext : names = (before ++ name :: front) ++ last :: after.drop rest := by
        rw [List.append_assoc, List.cons_append, hafter]
        exact hnames
      have hdropped : (after.drop rest).length < length := by
        rw [List.length_drop]
        omega
      obtain ⟨first, more, hpaged, hcovered⟩ :=
        ih _ hdropped hnext (hresumes _ last _ hnext) rfl
      refine ⟨after.take rest, (last :: first) :: more, .next hpage ?_ ?_ hpaged, ?_⟩
      · rw [List.length_cons, htaken]
      · rw [hfront, List.concat_eq_append, List.getLast?_cons, List.getLast?_concat]
        rfl
      · rw [List.map_cons, List.tail_cons, List.flatten_cons, hcovered, List.take_append_drop]

end Pages

/--
A walk that is resumed at a stored name shows that name and what the whole walk shows behind it,
exactly if its offset falls right before the key of the name. At a clean name that is so unless some
other name goes on from it with less than the extension, and always without an extension. If it is so
for all names, pages of two names or more, each resumed at the last name of the one before, come to
an end with all that is stored.
-/
theorem resumed_walk_exact_iff {root store : Store} {origin : World} {session : Session}
    {name : String} (hbase : store.Grounded) (hsound : origin.tree.Sound)
    (hblank : store.Blank origin) (hreached : Session.Reached root origin session)
    (hentries : ∀ entry ∈ session.entries, entry.store = store ∧ store.Orderly entry.name)
    (hpages : session.world.bucket.fixedPages = none) (hname : store.Keeps session.world name) :
    ∃ before after, ((before ++ name :: after).map store.key).Pairwise (· < ·)
      ∧ (∀ other, other ∈ before ++ name :: after ↔ store.Keeps session.world other)
      ∧ store.Visits session.world.calm "" (before ++ name :: after)
      ∧ (store.Visits session.world.calm name (name :: after)
          ↔ store.Resumes (before ++ name :: after) name)
      ∧ (Relative name → (store.Resumes (before ++ name :: after) name
          ↔ ∀ other, store.Keeps session.world other → ∀ rest,
              store.naming.withExtension other = name ++ rest → store.extension ≤ rest))
      ∧ (store.extension = "" → ∀ other, store.Keeps session.world other →
          store.Resumes (before ++ name :: after) other)
      ∧ ((∀ other, store.Keeps session.world other →
            store.Resumes (before ++ name :: after) other) →
          ∀ limit, 2 ≤ limit → ∃ first more,
            store.Paged session.world.calm limit "" (first :: more)
              ∧ first ++ (more.map List.tail).flatten = before ++ name :: after) := by
  obtain ⟨outer, hfooted⟩ := hbase.footed
  have hclean := hfooted.clean
  have howned := (hreached.owned hsound hblank hentries).calm
  obtain ⟨names, hlists⟩ :=
    howned.exists_lists hbase rfl hpages ((keeps_calm store session.world name).2 hname)
  have hmem : ∀ other, other ∈ names ↔ store.Keeps session.world other := fun other =>
    (hlists.mem_iff other).trans (keeps_calm store session.world other)
  have horderly : ∀ other ∈ names, store.Orderly other := fun other hother =>
    ((hmem other).1 hother).1
  obtain ⟨before, after, hnames⟩ := List.append_of_mem ((hmem name).2 hname)
  have hall := hlists.visits_all hclean (List.ne_nil_of_mem ((hmem name).2 hname))
  have hexact := hlists.visits_iff hclean hnames
  have hsorted := hlists.sorted
  refine ⟨before, after, ?_⟩
  rw [← hnames]
  refine ⟨hsorted, hmem, hall, hexact, ?_, ?_, ?_⟩
  · intro hrelative
    rw [resumes_iff hclean horderly hrelative hname.1]
    exact forall_congr' fun other => by rw [hmem other]
  · intro hextension other hother
    exact resumes_of_extension_empty hclean hextension horderly hother.1
  · intro hresumes limit hlimit
    have hresumed : ∀ before other after, names = before ++ other :: after →
        store.Visits session.world.calm other (other :: after) := by
      intro before other after hsplit
      have hother : other ∈ names := hsplit ▸ List.mem_append_right _ List.mem_cons_self
      exact (hlists.visits_iff hclean hsplit).2 (hresumes other ((hmem other).1 hother))
    obtain ⟨first, rest, hfirst⟩ := List.exists_cons_of_ne_nil
      (List.ne_nil_of_mem ((hmem name).2 hname))
    have hwhole : names = [] ++ first :: rest := hfirst
    have hvisits := hall
    rw [hfirst] at hvisits
    obtain ⟨page, more, hpaged, hcovered⟩ := exists_paged hlimit hresumed hwhole hvisits
    refine ⟨first :: page, more, hpaged, ?_⟩
    rw [List.cons_append, hcovered, hfirst]

section Sample

open Session

theorem exists_put {origin : World} {session : Session} {name : String}
    (hstore : rack "/a" ".json" ∈ session.stores)
    (hnew : session.world.bucket.has ((rack "/a" ".json").key name) = false) :
    ∃ world, Step origin session
        ⟨session.stores, ⟨rack "/a" ".json", name, .ofBytes .empty⟩ :: session.entries, world⟩
      ∧ world.bucket = session.world.bucket.put ((rack "/a" ".json").key name)
          ((rack "/a" ".json").raw (.ofBytes .empty)) := by
  have hmet : ∀ call, (session.world.meeting none).met call = none :=
    World.met_of_fault_none rfl
  have hsound : Gcs.Sound (rack "/a" ".json") ((rack "/a" ".json").key name) (.ofBytes .empty)
      (!false) (session.world.meeting none) .empty :=
    ⟨hmet _, Source.content_ofBytes .empty, hmet _⟩
  have hwrite : ((rack "/a" ".json").write name (.ofBytes .empty) none).Yields
      (session.world.meeting none) (.ok true) _ :=
    write_yields (Gcs.write_yields_of_new hsound hnew)
  obtain ⟨records, hperform⟩ := hwrite.perform_eq
  refine ⟨_, .write hstore name _ none none ?_ hperform, rfl⟩
  intro call failure hfails
  rw [hmet] at hfails
  cases hfails

def twoObjects : Cloud.Bucket :=
  (({} : Cloud.Bucket).put "a/a.json" ((rack "/a" ".json").raw (.ofBytes .empty))).put "a/a-b.json"
    ((rack "/a" ".json").raw (.ofBytes .empty))

structure Racked (session : Session) : Prop where
  reached : Reached (rack "/a" ".json") Files.bare session
  entries : ∀ entry ∈ session.entries,
    entry.store = rack "/a" ".json" ∧ (rack "/a" ".json").Orderly entry.name
  bucket_eq : session.world.bucket = twoObjects

theorem orderly_rack {name : String} (h : Relative ((rack "/a" ".json").naming.withExtension name)) :
    (rack "/a" ".json").Orderly name :=
  ⟨h, fun hfiles => by cases hfiles⟩

theorem exists_racked : ∃ session, Racked session := by
  have hkey : (rack "/a" ".json").key "a" = "a/a.json" := by decide
  have hkey' : (rack "/a" ".json").key "a-b" = "a/a-b.json" := by decide
  obtain ⟨world, hstep, hbucket⟩ : ∃ world, Step Files.bare ⟨[rack "/a" ".json"], [], Files.bare⟩
        ⟨[rack "/a" ".json"], [⟨rack "/a" ".json", "a", .ofBytes .empty⟩], world⟩
      ∧ world.bucket = ({} : Cloud.Bucket).put ((rack "/a" ".json").key "a")
          ((rack "/a" ".json").raw (.ofBytes .empty)) :=
    exists_put List.mem_cons_self rfl
  have hnew : world.bucket.has ((rack "/a" ".json").key "a-b") = false := by
    rw [hbucket, hkey, hkey']
    unfold Cloud.Bucket.has
    rw [Cloud.Bucket.get?_put_of_ne _ _ (by decide)]
    rfl
  obtain ⟨world', hstep', hbucket'⟩ : ∃ world', Step Files.bare
        ⟨[rack "/a" ".json"], [⟨rack "/a" ".json", "a", .ofBytes .empty⟩], world⟩
        ⟨[rack "/a" ".json"], [⟨rack "/a" ".json", "a-b", .ofBytes .empty⟩,
          ⟨rack "/a" ".json", "a", .ofBytes .empty⟩], world'⟩
      ∧ world'.bucket = world.bucket.put ((rack "/a" ".json").key "a-b")
          ((rack "/a" ".json").raw (.ofBytes .empty)) :=
    exists_put List.mem_cons_self hnew
  rw [hkey] at hbucket
  rw [hkey', hbucket] at hbucket'
  refine ⟨_, (Reached.start.step hstep).step hstep', ?_, hbucket'⟩
  refine List.forall_mem_cons.2 ⟨⟨rfl, orderly_rack (by decide)⟩, ?_⟩
  exact List.forall_mem_singleton.2 ⟨rfl, orderly_rack (by decide)⟩

namespace Racked

variable {session : Session} (h : Racked session)

include h

theorem keeps {name : String} (hname : name = "a" ∨ name = "a-b") :
    (rack "/a" ".json").Keeps session.world name := by
  have hbackend : (rack "/a" ".json").backend ≠ .files := by decide
  unfold Keeps
  rw [exists_has_bucket_iff hbackend, h.bucket_eq]
  rcases hname with rfl | rfl
  · exact ⟨orderly_rack (by decide), by decide⟩
  · exact ⟨orderly_rack (by decide), by decide⟩

end Racked

theorem sortedKeys_twoObjects : twoObjects.sortedKeys = ["a/a-b.json", "a/a.json"] := by
  have hsorted : ["a/a-b.json", "a/a.json"].Pairwise fun key key' => decide (key ≤ key') = true := by
    decide
  exact List.mergeSort_of_pairwise hsorted

theorem Racked.visits (h : Racked session) {start : String} (hstart : start = "" ∨ start = "a") :
    (rack "/a" ".json").Visits session.world.calm start ["a-b", "a"] := by
  have hquery : (rack "/a" ".json").query "" = "a/" := by decide
  have hpages : session.world.calm.bucket.fixedPages = none :=
    congrArg Cloud.Bucket.fixedPages h.bucket_eq
  have hkeys : session.world.calm.bucket.keysFrom "a/" (startOffset? "a/" start)
      = ["a/a-b.json", "a/a.json"] := by
    have hbucket : session.world.calm.bucket = twoObjects := h.bucket_eq
    unfold Cloud.Bucket.keysFrom
    rw [hbucket, sortedKeys_twoObjects]
    rcases hstart with rfl | rfl
    · decide
    · decide
  have hnone : ∀ key ∈ ["a/a-b.json", "a/a.json"],
      Walk.isBefore (startOffset? "a/" start) key = false := by
    rcases hstart with rfl | rfl
    · decide
    · decide
  have hquiet : ((rack "/a" ".json").listing session.world.calm "a/" (startOffset? "a/" start)).quiet
      = Listing.ofKeys ["a/a-b.json", "a/a.json"] := by
    rw [← hkeys]
    exact Cloud.Gcs.quiet_listing rfl hpages _ _ _
  have hnames : ["a/a-b.json", "a/a.json"].map (rack "/a" ".json").naming.name = ["a-b", "a"] := by
    decide
  intro visitor
  refine ⟨_, walkFrom_yields _ "" start visitor _, ?_⟩
  unfold walkOf
  rw [hquery, ← hnames, ← Walk.run_names, ← Walk.run_offset_of_forall hnone, ← hquiet]
  exact (Walk.told_eq_of_shown (Walk.run_quiet [] _)).symm

theorem resumed_walk_exact_iff_rack :
    ∃ session, Reached (rack "/a" ".json") Files.bare session
      ∧ (rack "/a" ".json").Keeps session.world "a"
      ∧ ∃ before after, (rack "/a" ".json").Visits session.world.calm "" (before ++ "a" :: after)
        ∧ ¬(rack "/a" ".json").Visits session.world.calm "a" ("a" :: after) := by
  obtain ⟨session, hracked⟩ := exists_racked
  have hkept := hracked.keeps (.inl rfl)
  have hblank : (rack "/a" ".json").Blank Files.bare := fun key _ => rfl
  have hpages : session.world.bucket.fixedPages = none :=
    congrArg Cloud.Bucket.fixedPages hracked.bucket_eq
  obtain ⟨before, after, -, -, hwhole, hexact, hclean, -⟩ :=
    resumed_walk_exact_iff (grounded_rack ".json") Files.sound_bare hblank hracked.reached
      hracked.entries hpages hkept
  refine ⟨session, hracked.reached, hkept, before, after, hwhole, ?_⟩
  rw [hexact, hclean (by decide)]
  intro hnone
  have hless : "-b.json" < (rack "/a" ".json").extension := by decide
  exact String.not_lt.2 (hnone "a-b" (hracked.keeps (.inr rfl)) "-b.json" (by decide)) hless

/-- Resumed at the second name, a walk shows the first one again, and a page of two is the same. -/
theorem resumed_early :
    (rack "/a" ".json").Grounded ∧ ∃ session, Reached (rack "/a" ".json") Files.bare session
      ∧ (∀ entry ∈ session.entries,
          entry.store = rack "/a" ".json" ∧ (rack "/a" ".json").Orderly entry.name)
      ∧ (rack "/a" ".json").Keeps session.world "a"
      ∧ (rack "/a" ".json").Visits session.world.calm "" ["a-b", "a"]
      ∧ (rack "/a" ".json").Visits session.world.calm "a" ["a-b", "a"]
      ∧ ((rack "/a" ".json").collectFrom "" "" 2).Yields session.world.calm (.ok ["a-b", "a"])
          session.world.calm
      ∧ ((rack "/a" ".json").collectFrom "" "a" 2).Yields session.world.calm (.ok ["a-b", "a"])
          session.world.calm := by
  obtain ⟨session, hracked⟩ := exists_racked
  have hwhole := hracked.visits (.inl rfl)
  have hresumed := hracked.visits (.inr rfl)
  exact ⟨grounded_rack ".json", session, hracked.reached, hracked.entries, hracked.keeps (.inl rfl),
    hwhole, hresumed, hwhole.collectFrom_yields (by decide),
    hresumed.collectFrom_yields (by decide)⟩

end Sample

end Store

end Depot
