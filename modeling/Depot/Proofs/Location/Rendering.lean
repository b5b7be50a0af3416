import Depot.Proofs.Keys
import Depot.Proofs.Location.Url

/-!
This module contains the theory of the URLs of objects: they are those of the locations that their
names have below the base, and lead to the keys of the objects.
-/

namespace Depot

namespace Naming

open Depot.Path

variable {naming : Naming} {name : String} {outer : List Component}
  {resolve : String → Except Failure String}

theorem toList_url (h : Relative (naming.withExtension name)) :
    (naming.url name).toList
      =
    Text.dropWhileEnd (· = '/') naming.location.render.toList
      ++ '/' :: (naming.withExtension name).toList := by
  have hstart : Text.stripStart '/' (naming.withExtension name) = naming.withExtension name := by
    unfold Text.stripStart
    rw [Text.dropWhile_of_head h.head?_ne, String.ofList_toList]
  unfold url Text.stripEnd
  rw [hstart, String.toList_append, String.toList_append, String.toList_ofList, List.append_assoc]
  rfl

section Slashes

variable {location : Location}

theorem getLast?_front_ne (hsited : location.Sited) (hhost : location.host ≠ "") :
    (location.scheme.toList ++ ':' :: '/' :: '/' :: location.host.toList).getLast? ≠ some '/' := by
  have hfront : location.scheme.toList ++ ':' :: '/' :: '/' :: location.host.toList
      = (location.scheme.toList ++ [':', '/', '/']) ++ location.host.toList := by
    rw [List.append_assoc]
    rfl
  rw [hfront, Text.getLast?_append_of_ne (toList_ne_nil hhost)]
  intro hlast
  cases hsited.host.unended '/' (List.mem_of_getLast? hlast)

theorem dropWhileEnd_render_of_bucket (hsited : location.Sited) (hhost : location.host ≠ "")
    (hbase : location.Footed []) :
    Text.dropWhileEnd (· = '/') location.render.toList
      =
    location.scheme.toList ++ ':' :: '/' :: '/' :: location.host.toList := by
  have hslashes : ∀ c ∈ location.path.toList, c = '/' := by
    rcases hbase.path_eq with hpath | ⟨-, hpath, -⟩
    · rw [hpath]
      exact fun c hc => List.mem_singleton.1 hc
    · rw [hpath]
      exact List.forall_mem_nil _
  have hfront := Text.dropWhileEnd_append (getLast?_front_ne hsited hhost) hslashes
  rw [List.append_assoc, List.cons_append, List.cons_append, List.cons_append] at hfront
  rw [Location.toList_render]
  exact hfront

theorem dropWhileEnd_render_of_ne (houter : outer ≠ []) (hbase : location.Footed outer) :
    Text.dropWhileEnd (· = '/') location.render.toList
      =
    location.scheme.toList
      ++ ':' :: '/' :: '/' :: (location.host.toList ++ '/' :: Text.joinWith '/' outer) := by
  have hpath : location.path.toList = '/' :: Text.joinWith '/' outer := by
    rw [hbase.path_eq.resolve_right fun hempty => houter hempty.1, String.toList_ofList]
    rfl
  have hsplit : location.render.toList
      = (location.scheme.toList ++ ':' :: '/' :: '/' :: (location.host.toList ++ ['/']))
        ++ Text.joinWith '/' outer := by
    rw [Location.toList_render, hpath]
    simp
  have hlast : location.render.toList.getLast? ≠ some '/' := by
    have hne : Text.joinWith '/' outer ≠ [] :=
      Text.joinWith_ne_nil houter fun c hc => (hbase.plain c hc).nonempty
    rw [hsplit, Text.getLast?_append_of_ne hne]
    exact (settled_of_plain hbase.plain).getLast?_ne
  rw [Text.dropWhileEnd_of_last hlast, Location.toList_render, hpath]

end Slashes

section Base

variable (hbase : naming.location.Footed outer) (h : Relative (naming.withExtension name))

include hbase h

theorem toList_url_of_root (houter : outer = []) (hhost : naming.location.host = "") :
    (naming.url name).toList
      =
    naming.location.scheme.toList ++ ':' :: '/' :: (naming.withExtension name).toList := by
  have hpath : naming.location.path = "/" := by
    rcases hbase.path_eq with hpath | ⟨-, -, hne⟩
    · rw [hpath, houter]
      rfl
    · exact absurd hhost hne
  have hrender : naming.location.render.toList
      = (naming.location.scheme.toList ++ [':']) ++ ['/', '/', '/'] := by
    rw [Location.toList_render, hhost, hpath, List.append_assoc]
    rfl
  rw [toList_url h, hrender, Text.dropWhileEnd_append (by simp) (by simp), List.append_assoc]
  rfl

theorem toList_path_join :
    (naming.location.join (naming.withExtension name)).path.toList
      =
    '/' :: Text.joinWith '/' (outer ++ Text.splitOn '/' (naming.withExtension name).toList) := by
  rw [Location.path_join naming.location h, hbase.isRooted_or, hbase.kept_eq, String.toList_ofList]
  rfl

theorem url_eq_render (hsited : naming.location.Sited)
    (hplace : outer ≠ [] ∨ naming.location.host ≠ "") :
    naming.url name = (naming.location.join (naming.withExtension name)).render := by
  rw [← String.toList_inj, toList_url h, Location.toList_render (naming.location.join _),
    toList_path_join hbase h]
  by_cases houter : outer = []
  · subst houter
    have hhost := hplace.resolve_left fun hne => hne rfl
    rw [dropWhileEnd_render_of_bucket hsited hhost hbase, List.nil_append, Text.joinWith_splitOn,
      List.append_assoc]
    rfl
  · rw [dropWhileEnd_render_of_ne houter hbase,
      Text.joinWith_append houter (Text.splitOn_ne_nil _ _), Text.joinWith_splitOn]
    simp only [List.append_assoc, List.cons_append]
    rfl

end Base

theorem parse_url (hsited : naming.location.Sited) (hbase : naming.location.Footed outer)
    (h : Relative (naming.withExtension name))
    (hbare : Location.Url.Bare (naming.withExtension name)) :
    Location.parse resolve (naming.url name)
      =
    .ok (naming.location.join (naming.withExtension name)) := by
  have hjoin := hsited.join hbare
  by_cases hplace : outer ≠ [] ∨ naming.location.host ≠ ""
  · rw [url_eq_render hbase h hsited hplace]
    exact hjoin.parse_render
  · simp only [ne_eq, not_or, not_not] at hplace
    obtain ⟨houter, hhost⟩ := hplace
    have htext := toList_url_of_root hbase h houter hhost
    have hskipped : ∀ c ∈ '/' :: (naming.withExtension name).toList,
        Location.Url.isMark c = false := by
      rw [List.forall_mem_cons]
      exact ⟨rfl, hbare⟩
    have hurl := Location.Url.parse_eq_ok hsited.scheme htext
      (fun c hc => Location.Url.isSkipped_of_isMark (hskipped c hc))
      (Location.Url.splitHost_slash h.head?_ne) rfl rfl hskipped
    have hpath : (naming.location.join (naming.withExtension name)).path
        = String.ofList ('/' :: (naming.withExtension name).toList) := by
      rw [← String.toList_inj, toList_path_join hbase h, houter, List.nil_append,
        Text.joinWith_splitOn, String.toList_ofList]
    rw [Location.parse_of_url hurl hsited.scheme]
    dsimp only
    rw [← hpath, Location.trimPath_of_trimmed hjoin.trimmed]
    have hsame : (naming.location.join (naming.withExtension name)).host = "" := hhost
    exact congrArg Except.ok
      (congrArg (Location.mk naming.location.scheme · _) hsame.symm)

theorem keyPrefix_join_footed (hbase : naming.location.Footed outer)
    (h : Relative (naming.withExtension name)) :
    (naming.location.join (naming.withExtension name)).keyPrefix = naming.key name := by
  rw [Location.keyPrefix_join naming.location h, ← String.toList_inj, String.toList_ofList,
    toList_key h, hbase.kept_eq, hbase.outline_eq]

end Naming

namespace Location

open Depot.Path

variable {resolve : String → Except Failure String} {text : String} {location : Location}

/--
Whether a base is what its URL is read as, and below a clean base the URL of an object is read as a
location in the same bucket with the key of the object.
-/
structure ReadsBack (resolve : String → Except Failure String) (base : Location) : Prop where
  parse_render : parse resolve base.render = .ok base
  parse_url : ∀ (extension name : String) (outer : List Component), base.Footed outer →
    Relative (Naming.withExtension ⟨base, extension⟩ name) →
    Url.Bare (Naming.withExtension ⟨base, extension⟩ name) →
    ∃ object, parse resolve (Naming.url ⟨base, extension⟩ name) = .ok object
      ∧ object.scheme = base.scheme
      ∧ object.host = base.host
      ∧ object.keyPrefix = Naming.key ⟨base, extension⟩ name

/-- Bases that are read from URLs, and those below them, survive being written as URLs. -/
theorem urls_read_back (h : location.ReadFrom resolve text) {segments : List String}
    (hsegments : ∀ segment ∈ segments, Url.Bare segment) :
    (segments.foldl join location).ReadsBack resolve := by
  have hsited := h.sited.foldl_join hsegments
  refine ⟨hsited.parse_render, fun extension name outer hbase hname hbare => ?_⟩
  refine ⟨_, Naming.parse_url hsited hbase hname hbare, rfl, rfl, ?_⟩
  exact Naming.keyPrefix_join_footed hbase hname

theorem urls_read_back_climbing :
    ReadFrom .ok "GS://bkt/a/?q#f" ⟨"gs", "bkt", "/a"⟩
      ∧ (∀ segment ∈ ["../..", "d e"], Url.Bare segment)
      ∧ parse .ok "gs://bkt/d e" = .ok ⟨"gs", "bkt", "/d e"⟩
      ∧ ∃ object, parse .ok "gs://bkt/d e/n.bin" = .ok object
        ∧ object.keyPrefix = "d e/n.bin" := by
  have hread : ReadFrom .ok "GS://bkt/a/?q#f" ⟨"gs", "bkt", "/a"⟩ :=
    ⟨rfl, ⟨"gs", "bkt", "/a/"⟩, rfl, by decide, by decide⟩
  have hsegments : ∀ segment ∈ ["../..", "d e"], Url.Bare segment := by decide
  have hbase : (["../..", "d e"].foldl join ⟨"gs", "bkt", "/a"⟩) = ⟨"gs", "bkt", "/d e"⟩ := by
    decide
  have hback := urls_read_back hread hsegments
  rw [hbase] at hback
  have hfooted : Footed ⟨"gs", "bkt", "/d e"⟩ [['d', ' ', 'e']] := ⟨by decide, .inl rfl⟩
  obtain ⟨object, hobject, -, -, hkey⟩ :=
    hback.parse_url ".bin" "n" _ hfooted (by decide) (by decide)
  exact ⟨hread, hsegments, hback.parse_render, object, hobject, hkey.trans (by decide)⟩

end Location

end Depot
