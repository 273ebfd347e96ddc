import Mathlib.Data.List.DropRight
import OsmPolygonWikidata.Basic.PyString
import OsmPolygonWikidata.Basic.Split

/-! # Wikidata identifiers

`domain/wikidata_qids.py`. An identifier is a `Q` and a positive number; an OSM tag may hold
several of them, separated by semicolons. The decimal digits of all scripts count as digits, so
the set of them is a parameter.
-/

namespace OsmPolygonWikidata

open Python

variable (decimal : Char → Bool)

/-- `is_valid_qid`: a full match of `Q[1-9]\d*`. -/
def isValidQid (cs : List Char) : Bool :=
  match cs with
  | 'Q' :: c :: rest => '1' ≤ c && c ≤ '9' && rest.all decimal
  | _ => false

/-- `str.strip`. -/
def strip (cs : List Char) : List Char := (cs.dropWhile isSpace).rdropWhile isSpace

/-- `qids_from_osm_tag`: one bad component makes the whole value invalid. -/
def qidsFromOsmTag (value : String) : List String :=
  let components := (value.toList.splitOn ';').map strip
  if components.any (fun component => !isValidQid decimal component) then []
  else (components.map String.ofList).eraseDups

variable {decimal} {value qid : String}

theorem strip_sublist (cs : List Char) : (strip cs).Sublist cs :=
  ((List.rdropWhile_prefix isSpace _).sublist).trans (List.dropWhile_sublist isSpace)

theorem strip_eq_self_of_forall {cs : List Char} (h : ∀ c ∈ cs, isSpace c = false) : strip cs = cs := by
  have hdrop : cs.dropWhile isSpace = cs := by
    rw [List.dropWhile_eq_self_iff]
    intro hpos hspace
    rw [h _ (List.getElem_mem hpos)] at hspace
    cases hspace
  unfold strip
  rw [hdrop, List.rdropWhile_eq_self_iff]
  intro hne hspace
  rw [h _ (List.getLast_mem hne)] at hspace
  cases hspace

theorem exists_component (h : qid ∈ qidsFromOsmTag decimal value) :
    ∃ part ∈ value.toList.splitOn ';', strip part = qid.toList := by
  unfold qidsFromOsmTag at h
  dsimp only at h
  split at h
  · cases h
  · rw [List.mem_eraseDups, List.map_map, List.mem_map] at h
    obtain ⟨part, hpart, rfl⟩ := h
    exact ⟨part, hpart, by simp⟩

theorem mem_qidsFromOsmTag_self_iff :
    value ∈ qidsFromOsmTag decimal value ↔ qidsFromOsmTag decimal value = [value] := by
  constructor
  · intro h
    obtain ⟨part, hpart, hstrip⟩ := exists_component h
    -- a component that is as long as the whole value is the whole value
    have hlength : value.toList.length ≤ part.length := by
      rw [← hstrip]
      exact (strip_sublist part).length_le
    have hwhole : part = value.toList :=
      (Split.sublist_of_mem_splitOn hpart).eq_of_length_le hlength
    have hcomponents : value.toList.splitOn ';' = [value.toList] :=
      List.splitOn_eq_singleton (hwhole ▸ Split.not_mem_of_mem_splitOn hpart)
    rw [hwhole] at hstrip
    unfold qidsFromOsmTag at h ⊢
    dsimp only at h ⊢
    split at h
    · cases h
    · rename_i hvalid
      rw [if_neg hvalid, hcomponents, List.map_singleton, List.map_singleton, hstrip,
        String.ofList_toList]
      rfl
  · intro h
    rw [h]
    exact List.mem_singleton_self value

end OsmPolygonWikidata
