import Depot.Config
import Depot.Proofs.Text.Blank

/-!
This module contains the theory of descriptions of stores: those that are accepted are in a canonical
form, and accepting one of these again changes nothing.
-/

namespace Depot

theorem Codec.Scheme.parse_name (scheme : Codec.Scheme) : parse scheme.name = .ok scheme := by
  cases scheme with
  | none => rfl
  | gzip => rfl
  | zstd => rfl

namespace Config

variable {config : Config} {fields : List (String × Value)} {s url : String}

structure Canonical (config : Config) : Prop where
  url_ne : config.url ≠ ""
  url_stripped : Text.Stripped config.url
  extension_stripped : Text.Stripped config.extension
  extension_dotted : config.extension = "" ∨ Text.startsWith "." config.extension = true
  compression_known : config.compression.name ∈ ["none", "gzip", "zstd"]

section Checks

theorem checkUrl_of_strip_ne (h : Text.strip s ≠ "") : checkUrl s = .ok (Text.strip s) := by
  have hne : s ≠ "" := by
    rintro rfl
    exact h rfl
  unfold checkUrl
  rw [if_neg hne]
  exact if_neg h

theorem of_checkUrl (h : checkUrl s = .ok url) : url ≠ "" ∧ Text.Stripped url := by
  unfold checkUrl at h
  split at h
  · cases h
  · dsimp only at h
    split at h
    · cases h
    next hne =>
      cases h
      exact ⟨hne, Text.stripped_strip s⟩

theorem checkUrl_eq_self (hne : s ≠ "") (h : Text.Stripped s) : checkUrl s = .ok s := by
  rw [checkUrl_of_strip_ne, h.strip_eq]
  rw [h.strip_eq]
  exact hne

theorem stripped_dot (h : Text.Stripped s) : Text.Stripped ("." ++ s) := by
  unfold Text.Stripped
  rw [String.toList_append]
  constructor
  · intro c hc
    cases hc
    rfl
  · intro c hc
    rw [List.getLast?_append] at hc
    cases hlast : s.toList.getLast? with
    | none =>
      rw [hlast] at hc
      cases hc
      rfl
    | some last =>
      rw [hlast] at hc
      cases hc
      exact h.2 _ hlast

theorem of_checkExtension (s : String) :
    Text.Stripped (checkExtension s)
      ∧ (checkExtension s = "" ∨ Text.startsWith "." (checkExtension s) = true) := by
  have hstripped := Text.stripped_strip s
  unfold checkExtension
  dsimp only
  split
  · refine ⟨stripped_dot hstripped, .inr ?_⟩
    unfold Text.startsWith
    rw [String.toList_append]
    exact List.isPrefixOf_iff_prefix.2 (List.prefix_append _ _)
  next hdotted =>
    refine ⟨hstripped, ?_⟩
    by_cases hempty : Text.strip s = ""
    · exact .inl hempty
    · right
      cases hstarts : Text.startsWith "." (Text.strip s) with
      | true => rfl
      | false => exact absurd ⟨hempty, by rw [hstarts]; rfl⟩ hdotted

theorem checkExtension_eq_self (h : Text.Stripped s)
    (hdotted : s = "" ∨ Text.startsWith "." s = true) : checkExtension s = s := by
  unfold checkExtension
  dsimp only
  rw [h.strip_eq, if_neg]
  rintro ⟨hne, hnot⟩
  rw [hdotted.resolve_left hne] at hnot
  cases hnot

end Checks

section Fields

theorem checkField_of_ok {α : Type} {name : String} {default : Option α} {check : Value → Check α}
    {a : α} (h : checkField fields name default check = .ok a) :
    default = some a ∨ ∃ v, check v = .ok a := by
  unfold checkField at h
  split at h
  next v _ =>
    cases hcheck : check v with
    | ok b =>
      rw [hcheck] at h
      cases h
      exact .inr ⟨v, hcheck⟩
    | error kind =>
      rw [hcheck] at h
      cases h
  · cases h
    exact .inl rfl
  · cases h

theorem checkField_text {α : Type} {name : String}
    (h : Value.member? name fields = some (.text s)) (default : Option α)
    (check : String → Check α) :
    checkField fields name default (readText · >>= check)
      =
    match check s with
    | .ok a => .ok a
    | .error kind => .error ⟨name, kind, .text s⟩ := by
  unfold checkField
  rw [h]
  rfl

theorem of_ofFields (h : ofFields fields = .ok config) :
    (∃ s, checkUrl s = .ok config.url) ∧ ∃ s, config.extension = checkExtension s := by
  unfold ofFields at h
  dsimp only at h
  split at h
  next url extension compression overwrite hurl hextension hcompression hoverwrite hunknown =>
    cases h
    constructor
    · rcases checkField_of_ok hurl with hdefault | ⟨v, hcheck⟩
      · cases hdefault
      · cases v with
        | text s => exact ⟨s, hcheck⟩
        | _ => cases hcheck
    · rcases checkField_of_ok hextension with hdefault | ⟨v, hcheck⟩
      · cases hdefault
        exact ⟨"", rfl⟩
      · cases v with
        | text s =>
          cases hcheck
          exact ⟨s, rfl⟩
        | _ => cases hcheck
  · cases h

theorem canonical_of_ofFields (h : ofFields fields = .ok config) : config.Canonical := by
  obtain ⟨⟨text, hurl⟩, suffix, hextension⟩ := of_ofFields h
  obtain ⟨hne, hstripped⟩ := of_checkUrl hurl
  have hsuffix := of_checkExtension suffix
  rw [← hextension] at hsuffix
  refine ⟨hne, hstripped, hsuffix.1, hsuffix.2, ?_⟩
  cases config.compression with
  | none => decide
  | gzip => decide
  | zstd => decide

def texts (url extension compression : String) (overwrite : Bool) : List (String × Value) :=
  [("url", .text url), ("extension", .text extension), ("compression", .text compression),
    ("overwrite", .bool overwrite)]

theorem ofFields_texts (extension compression : String) (overwrite : Bool)
    (h : checkUrl s = .ok url) :
    ofFields (texts s extension compression overwrite)
      =
    match checkCompression compression with
    | .ok scheme => .ok ⟨url, checkExtension extension, scheme, overwrite⟩
    | .error kind => .error [⟨"compression", kind, .text compression⟩] := by
  have hextension : checkField (texts s extension compression overwrite) "extension" (some "")
      (readText · |>.map checkExtension) = .ok (checkExtension extension) := rfl
  have hoverwrite : checkField (texts s extension compression overwrite) "overwrite" (some false)
      readBool = .ok overwrite := rfl
  unfold ofFields
  rw [checkField_text (s := s) rfl, h, hextension, hoverwrite, checkField_text (s := compression) rfl]
  cases checkCompression compression with
  | ok scheme => rfl
  | error kind => rfl

theorem ofFields_of_canonical (h : config.Canonical) :
    ofFields (texts config.url config.extension config.compression.name config.overwrite)
      = .ok config := by
  have hurl : checkUrl config.url = .ok config.url := checkUrl_eq_self h.url_ne h.url_stripped
  have hextension := checkExtension_eq_self h.extension_stripped h.extension_dotted
  have hcompression : checkCompression config.compression.name = .ok config.compression := by
    unfold checkCompression
    rw [Codec.Scheme.parse_name]
  rw [ofFields_texts _ _ _ hurl, hcompression, hextension]

theorem ofFields_strip (extension compression : String) (overwrite : Bool)
    (h : Text.strip s ≠ "") :
    ofFields (texts (Text.strip s) extension compression overwrite)
      =
    ofFields (texts s extension compression overwrite) := by
  rw [ofFields_texts _ _ _ (checkUrl_of_strip_ne h),
    ofFields_texts _ _ _ (checkUrl_eq_self h (Text.stripped_strip s))]

theorem ofTexts_eq (url extension compression : String) (overwrite : Bool) :
    ofTexts url extension compression overwrite
      =
    match ofFields (texts url extension compression overwrite) with
    | .ok config => .ok config
    | .error problems => .error { reason := .config problems } := rfl

end Fields

end Config

end Depot
