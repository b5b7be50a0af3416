import Depot.Proofs.Path.Letters
import Depot.Proofs.Text.Blank
import Depot.Proofs.Tracing.Attributes

/-!
This module contains the texts that spell attributes: items with commas between them, some of which
give an attribute with blanks around its key and its value, while others give none. Each such text
reads back as what it spells.
-/

namespace Depot.Tracing

variable {key value text : String} {item : List Char} {items : List (List Char)}
  {entry : String × String} {attributes : List (String × String)}

def attributesIn (text : String) : List (String × String) :=
  lastValues (readAttributes text)

def renderAttribute (entry : String × String) : List Char :=
  entry.1.toList ++ '=' :: entry.2.toList

def renderAttributes (attributes : List (String × String)) : String :=
  String.ofList (Text.joinWith ',' (attributes.map renderAttribute))

/-- Whether an attribute can be written such that it is read again. A value may be empty. -/
structure Writable (key value : String) : Prop where
  key_ne : key ≠ ""
  key_stripped : Text.Stripped key
  key_commaless : ',' ∉ key.toList
  key_signless : '=' ∉ key.toList
  value_stripped : Text.Stripped value
  value_commaless : ',' ∉ value.toList

instance (key value : String) : Decidable (Writable key value) :=
  decidable_of_iff (key ≠ "" ∧ Text.Stripped key ∧ ',' ∉ key.toList ∧ '=' ∉ key.toList
      ∧ Text.Stripped value ∧ ',' ∉ value.toList)
    ⟨fun ⟨hne, hkey, hcomma, hsign, hvalue, hcommas⟩ => ⟨hne, hkey, hcomma, hsign, hvalue, hcommas⟩,
      fun h => ⟨h.key_ne, h.key_stripped, h.key_commaless, h.key_signless, h.value_stripped,
        h.value_commaless⟩⟩

/-- Whether an item spells some attributes: it gives one, or none. -/
inductive Spells : List Char → List (String × String) → Prop where
  | pair {key value : String} (h : Writable key value) {before behind lead tail : List Char}
      (hbefore : ∀ c ∈ before, Text.isBlank c = true) (hbehind : ∀ c ∈ behind, Text.isBlank c = true)
      (hlead : ∀ c ∈ lead, Text.isBlank c = true) (htail : ∀ c ∈ tail, Text.isBlank c = true) :
      Spells (before ++ (key.toList ++ behind) ++ '=' :: (lead ++ (value.toList ++ tail)))
        [(key, value)]
  | signless {item : List Char} (h : '=' ∉ item) (hcommas : ',' ∉ item) : Spells item []
  | keyless {before rest : List Char} (h : ∀ c ∈ before, Text.isBlank c = true)
      (hcommas : ',' ∉ rest) : Spells (before ++ '=' :: rest) []

inductive SpellAll : List (List Char) → List (String × String) → Prop where
  | nil : SpellAll [] []
  | cons {item : List Char} {items : List (List Char)} {entries attributes : List (String × String)}
      (h : Spells item entries) (hrest : SpellAll items attributes) :
      SpellAll (item :: items) (entries ++ attributes)

section Blanks

variable {c : Char} {cs : List Char}

theorem comma_not_mem_of_blank (h : ∀ c ∈ cs, Text.isBlank c = true) : ',' ∉ cs :=
  fun hmem => absurd (h ',' hmem) (by decide)

theorem sign_not_mem_of_blank (h : ∀ c ∈ cs, Text.isBlank c = true) : '=' ∉ cs :=
  fun hmem => absurd (h '=' hmem) (by decide)

end Blanks

section Reading

theorem Spells.commaless {entries : List (String × String)} (h : Spells item entries) :
    ',' ∉ item := by
  cases h with
  | pair hwritable hbefore hbehind hlead htail =>
    simp only [List.mem_append, List.mem_cons, not_or]
    exact ⟨⟨comma_not_mem_of_blank hbefore, hwritable.key_commaless, comma_not_mem_of_blank hbehind⟩,
      by decide, comma_not_mem_of_blank hlead, hwritable.value_commaless,
      comma_not_mem_of_blank htail⟩
  | signless hsign hcommas => exact hcommas
  | keyless hbefore hcommas =>
    simp only [List.mem_append, List.mem_cons, not_or]
    exact ⟨comma_not_mem_of_blank hbefore, by decide, hcommas⟩

theorem Spells.readAttribute?_eq {entries : List (String × String)} (h : Spells item entries) :
    (readAttribute? item).toList = entries := by
  unfold readAttribute?
  cases h with
  | @pair key value hwritable before behind lead tail hbefore hbehind hlead htail =>
    have hsign : '=' ∉ before ++ (key.toList ++ behind) := by
      simp only [List.mem_append, not_or]
      exact ⟨sign_not_mem_of_blank hbefore, hwritable.key_signless, sign_not_mem_of_blank hbehind⟩
    rw [Text.cut_append hsign]
    dsimp only
    rw [Text.strip_ofList hwritable.key_stripped hbefore hbehind,
      Text.strip_ofList hwritable.value_stripped hlead htail, if_neg hwritable.key_ne]
    rfl
  | signless hsign hcommas =>
    rw [Text.cut_of_not_mem hsign]
    rfl
  | keyless hbefore hcommas =>
    rw [Text.cut_append (sign_not_mem_of_blank hbefore)]
    dsimp only
    rw [Text.strip_of_blank hbefore]
    rfl

theorem SpellAll.commaless (h : SpellAll items attributes) : ∀ item ∈ items, ',' ∉ item := by
  induction h with
  | nil => exact List.forall_mem_nil _
  | cons hitem _ ih => exact List.forall_mem_cons.2 ⟨hitem.commaless, ih⟩

theorem SpellAll.filterMap_eq (h : SpellAll items attributes) :
    items.filterMap readAttribute? = attributes := by
  induction h with
  | nil => rfl
  | cons hitem _ ih =>
    rw [← hitem.readAttribute?_eq, List.filterMap_cons, ih]
    split
    next hnone =>
      rw [hnone]
      rfl
    next hsome =>
      rw [hsome]
      rfl

theorem SpellAll.readAttributes_eq (h : SpellAll items attributes)
    (htext : text.toList = Text.joinWith ',' items) : readAttributes text = attributes := by
  unfold readAttributes
  by_cases hne : items = []
  · -- Between no commas there is one empty item.
    subst hne
    cases h
    rw [htext]
    rfl
  · rw [htext, Text.splitOn_joinWith hne h.commaless, h.filterMap_eq]

end Reading

section Rendering

theorem writable_of_readAttribute? (hcommas : ',' ∉ item) (h : readAttribute? item = some (key, value)) :
    Writable key value := by
  unfold readAttribute? at h
  have hsign := Text.not_mem_cut '=' item
  have hfirst := (Text.prefix_cut '=' item).subset
  split at h
  next before rest hcut =>
    have hrest : rest <:+ item := Text.suffix_cut (by rw [hcut])
    rw [hcut] at hsign hfirst
    dsimp only at h
    split at h
    · cases h
    next hne =>
      cases h
      refine ⟨hne, Text.stripped_strip _, ?_, ?_, Text.stripped_strip _, ?_⟩
      · intro hmem
        exact hcommas (hfirst (Text.mem_of_mem_strip hmem))
      · intro hmem
        exact hsign (Text.mem_of_mem_strip hmem)
      · intro hmem
        exact hcommas (hrest.subset (Text.mem_of_mem_strip hmem))
  · cases h

theorem writable_of_mem_attributesIn (h : entry ∈ attributesIn text) : Writable entry.1 entry.2 := by
  have hread : entry ∈ readAttributes text := mem_of_mem_lastValues h
  obtain ⟨item, hitem, hentry⟩ := List.mem_filterMap.1 hread
  exact writable_of_readAttribute? (Text.not_mem_of_mem_splitOn hitem) hentry

theorem spells_renderAttribute (h : Writable entry.1 entry.2) :
    Spells (renderAttribute entry) [entry] := by
  have hnone : ∀ c ∈ ([] : List Char), Text.isBlank c = true := List.forall_mem_nil _
  have hspells := Spells.pair h hnone hnone hnone hnone
  rw [List.append_nil, List.append_nil, List.nil_append, List.nil_append] at hspells
  exact hspells

theorem spellAll_render (h : ∀ entry ∈ attributes, Writable entry.1 entry.2) :
    SpellAll (attributes.map renderAttribute) attributes := by
  induction attributes with
  | nil => exact .nil
  | cons entry attributes ih =>
    rw [List.forall_mem_cons] at h
    exact .cons (spells_renderAttribute h.1) (ih h.2)

theorem attributesIn_render (text : String) :
    attributesIn (renderAttributes (attributesIn text)) = attributesIn text := by
  have hwritable : ∀ entry ∈ attributesIn text, Writable entry.1 entry.2 :=
    fun entry hentry => writable_of_mem_attributesIn hentry
  have hread : readAttributes (renderAttributes (attributesIn text)) = attributesIn text :=
    (spellAll_render hwritable).readAttributes_eq String.toList_ofList
  rw [attributesIn, hread]
  exact lastValues_of_nodup (nodup_keys_lastValues _)

end Rendering

/--
A text that spells attributes gives exactly these, whatever blanks and whatever items that give none
are in it; of several values for a key it gives the last. What a text says can be rendered and read
again.
-/
theorem attributes_read_back (h : SpellAll items attributes)
    (htext : text.toList = Text.joinWith ',' items) :
    ((attributes.map Prod.fst).Nodup → attributesIn text = attributes)
      ∧ (attributesIn text).map Prod.fst = (attributes.map Prod.fst).eraseDups
      ∧ (∀ key, (attributesIn text).lookup key = attributes.reverse.lookup key)
      ∧ (∀ raw, attributesIn (renderAttributes (attributesIn raw)) = attributesIn raw)
      ∧ ∀ env : Environment, (Settings.ofEnvironment env).resource
        = attributesIn (env.get "OBJSTORE_OTEL_RESOURCE_ATTRS") := by
  have hread : attributesIn text = lastValues attributes := by
    rw [attributesIn, h.readAttributes_eq htext]
  rw [hread]
  exact ⟨lastValues_of_nodup, keys_lastValues attributes, fun key => lookup_lastValues key attributes,
    attributesIn_render, fun env => rfl⟩

def noisy : List (List Char) :=
  [" team = storage ".toList, "broken".toList, "\t= x".toList, [], "env=a=b".toList,
    "mark=\u3000".toList, "team=ops".toList]

theorem attributes_read_back_noisy :
    SpellAll noisy [("team", "storage"), ("env", "a=b"), ("mark", ""), ("team", "ops")]
      ∧ " team = storage ,broken,\t= x,,env=a=b,mark=\u3000,team=ops".toList
        = Text.joinWith ',' noisy
      ∧ (attributesIn " team = storage ,broken,\t= x,,env=a=b,mark=\u3000,team=ops").map Prod.fst
        = ["team", "env", "mark"]
      ∧ (attributesIn " team = storage ,broken,\t= x,,env=a=b,mark=\u3000,team=ops").lookup "team"
        = some "ops" := by
  have hspace : ∀ c ∈ [' '], Text.isBlank c = true := List.forall_mem_singleton.2 rfl
  have htab : ∀ c ∈ ['\t'], Text.isBlank c = true := List.forall_mem_singleton.2 rfl
  have hwide : ∀ c ∈ ['\u3000'], Text.isBlank c = true := List.forall_mem_singleton.2 rfl
  have hnone : ∀ c ∈ ([] : List Char), Text.isBlank c = true := List.forall_mem_nil _
  have hteam : Writable "team" "storage" := by decide
  have henv : Writable "env" "a=b" := by decide
  have hmark : Writable "mark" "" := by decide
  have hops : Writable "team" "ops" := by decide
  have hkeyless : ',' ∉ [' ', 'x'] := by decide
  have hspelled : SpellAll noisy
      [("team", "storage"), ("env", "a=b"), ("mark", ""), ("team", "ops")] :=
    .cons (.pair hteam hspace hspace hspace hspace) <|
    .cons (.signless (by decide) (by decide)) <|
    .cons (.keyless htab hkeyless) <|
    .cons (.signless (by decide) (by decide)) <|
    .cons (.pair henv hnone hnone hnone hnone) <|
    .cons (.pair hmark hnone hnone hwide hnone) <|
    .cons (.pair hops hnone hnone hnone hnone) .nil
  have htext : " team = storage ,broken,\t= x,,env=a=b,mark=\u3000,team=ops".toList
      = Text.joinWith ',' noisy := by
    decide
  obtain ⟨-, hkeys, hlookup, -⟩ := attributes_read_back hspelled htext
  refine ⟨hspelled, htext, ?_, ?_⟩
  · rw [hkeys]
    decide
  · rw [hlookup]
    rfl

end Depot.Tracing
