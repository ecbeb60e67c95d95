import Mathlib.Data.List.DropRight
import Mathlib.Data.List.Forall2
import Mathlib.Tactic.Common
import TreeProjection.Json.Outline
import TreeProjection.Proofs.WrittenText

/-!
# One line for each entry

An entry is found by the numbers of the entries that lead to it, one for each level (`entryAt?`). In
document order an entry stands in front of its own entries, and these in front of the next one, so
it is the lexicographic order of the paths. The outline of a document has one line for each path
(`exists_paths`), and no line break behind the last one. Its keys are written as they are, though: a
key with a line break takes two lines, and the lines of the text are those of the entries if and
only if there is no such key (`linePerEntry_renderOutline_iff`).
-/

namespace TreeProjection.Json

/-! ### Entries -/

/-- The entries of a document, each behind its marker. -/
def parts : Json → List (Marker × Json)
  | .array items => items.map fun item => (.dash, item)
  | .object members => members.map fun member => (.key member.1, member.2)
  | _ => []

/-- The entry at a path. The document itself is no entry. -/
def entryAt? (document : Json) : List Nat → Option (Marker × Json)
  | [] => none
  | index :: path => document.parts[index]?.bind fun part =>
      if path.isEmpty then some part else part.2.entryAt? path

variable {document : Json}

theorem parts_induction {motive : Json → Prop}
    (step : ∀ document, (∀ part ∈ document.parts, motive part.2) → motive document)
    (document : Json) : motive document := by
  induction document using Json.induction with
  | null => exact step _ (List.forall_mem_nil _)
  | bool value => exact step _ (List.forall_mem_nil _)
  | number number => exact step _ (List.forall_mem_nil _)
  | string text => exact step _ (List.forall_mem_nil _)
  | array items ih => exact step _ (List.forall_mem_map.mpr ih)
  | object members ih => exact step _ (List.forall_mem_map.mpr ih)

theorem isNested_iff : document.isNested = true ↔ document.parts ≠ [] := by
  cases document <;> simp [isNested, parts]

theorem isNested_eq_false_iff : document.isNested = false ↔ document.parts = [] := by
  rw [← Bool.not_eq_true, isNested_iff, not_ne_iff]

theorem value_entry_of_leaf (hparts : document.parts = []) (depth : Nat) (marker : Marker) :
    (OutlineLine.entry depth marker document).value = some document :=
  if_neg (by rw [isNested_eq_false_iff.mpr hparts]; decide)

theorem value_entry_of_parts (hparts : document.parts ≠ []) (depth : Nat) (marker : Marker) :
    (OutlineLine.entry depth marker document).value = none :=
  if_pos (isNested_iff.mpr hparts)

theorem entryAt?_cons_eq_some_iff {index : Nat} {path : List Nat} {entry : Marker × Json} :
    document.entryAt? (index :: path) = some entry ↔ ∃ part, document.parts[index]? = some part ∧
      (path = [] ∧ part = entry ∨ part.2.entryAt? path = some entry) := by
  rw [entryAt?, Option.bind_eq_some_iff]
  cases path with
  | nil => simp [entryAt?]
  | cons next path => simp

/-- The line of an entry, and behind it those of its own entries. -/
def block (depth : Nat) (part : Marker × Json) : List OutlineLine :=
  .entry depth part.1 part.2 :: entryLines (depth + 1) part.2

theorem entryLines_eq_flatMap (depth : Nat) (document : Json) :
    entryLines depth document = document.parts.flatMap (block depth) := by
  cases document with
  | array items =>
      rw [entryLines, parts, List.flatMap_map]
      induction items with
      | nil => rfl
      | cons item rest ih => rw [itemLines, ih, List.flatMap_cons, block]
  | object members =>
      rw [entryLines, parts, List.flatMap_map]
      induction members with
      | nil => rfl
      | cons member rest ih => rw [memberLines, ih, List.flatMap_cons, block]
  | _ => rfl

theorem mem_entryLines_iff {depth : Nat} {line : OutlineLine} :
    line ∈ entryLines depth document ↔ ∃ part ∈ document.parts,
      line = .entry depth part.1 part.2 ∨ line ∈ entryLines (depth + 1) part.2 := by
  rw [entryLines_eq_flatMap, List.mem_flatMap]
  simp only [block, List.mem_cons]

/-! ### Paths in document order -/

/-- The paths of all entries of a document, in document order. -/
structure EntryPaths (document : Json) (paths : List (List Nat)) : Prop where
  mem_iff {path : List Nat} : path ∈ paths ↔ (document.entryAt? path).isSome = true
  ordered : paths.Pairwise (· < ·)

/-- The path of an entry, and behind it those of its own entries. -/
def pathsFrom (index : Nat) (inner : List (List Nat)) : List (List Nat) :=
  [index] :: inner.map (index :: ·)

theorem mem_pathsFrom_iff {index : Nat} {inner : List (List Nat)} {path : List Nat} :
    path ∈ pathsFrom index inner ↔ ∃ rest, path = index :: rest ∧ (rest = [] ∨ rest ∈ inner) := by
  simp only [pathsFrom, List.mem_cons, List.mem_map]
  constructor
  · rintro (rfl | ⟨rest, hrest, rfl⟩)
    · exact ⟨[], rfl, Or.inl rfl⟩
    · exact ⟨rest, rfl, Or.inr hrest⟩
  · rintro ⟨rest, rfl, rfl | hrest⟩
    · exact Or.inl rfl
    · exact Or.inr ⟨rest, hrest, rfl⟩

section Inner

variable {inner : Marker × Json → List (List Nat)}
  (hinner : ∀ part ∈ document.parts, part.2.EntryPaths (inner part))
include hinner

theorem mem_paths_iff {path : List Nat} :
    path ∈ document.parts.zipIdx.flatMap (fun part => pathsFrom part.2 (inner part.1)) ↔
      (document.entryAt? path).isSome = true := by
  simp only [List.mem_flatMap, mem_pathsFrom_iff, List.mem_zipIdx_iff_getElem?,
    Option.isSome_iff_exists]
  constructor
  · rintro ⟨⟨part, index⟩, hpart, rest, rfl, rfl | hrest⟩
    · exact ⟨part, entryAt?_cons_eq_some_iff.mpr ⟨part, hpart, Or.inl ⟨rfl, rfl⟩⟩⟩
    · rw [(hinner part (List.mem_of_getElem? hpart)).mem_iff, Option.isSome_iff_exists] at hrest
      obtain ⟨entry, hentry⟩ := hrest
      exact ⟨entry, entryAt?_cons_eq_some_iff.mpr ⟨part, hpart, Or.inr hentry⟩⟩
  · rintro ⟨entry, hentry⟩
    cases path with
    | nil => exact absurd hentry nofun
    | cons index rest =>
        obtain ⟨part, hpart, hrest⟩ := entryAt?_cons_eq_some_iff.mp hentry
        refine ⟨(part, index), hpart, rest, rfl, hrest.imp And.left fun hrest => ?_⟩
        rw [(hinner part (List.mem_of_getElem? hpart)).mem_iff, hrest]
        rfl

theorem ordered_paths :
    (document.parts.zipIdx.flatMap fun part => pathsFrom part.2 (inner part.1)).Pairwise
      (· < ·) := by
  rw [List.pairwise_flatMap]
  constructor
  · rintro ⟨part, index⟩ hpart
    have hmem : part ∈ document.parts :=
      List.mem_of_getElem? (List.mem_zipIdx_iff_getElem?.mp hpart)
    rw [pathsFrom, List.pairwise_cons, List.forall_mem_map, List.pairwise_map]
    constructor
    · intro rest hrest
      rw [List.cons_lt_cons_self]
      cases rest with
      | nil => exact absurd ((hinner part hmem).mem_iff.mp hrest) nofun
      | cons next rest => exact List.nil_lt_cons next rest
    · exact (hinner part hmem).ordered.imp fun hlt => List.cons_lt_cons_iff.mpr (Or.inr ⟨rfl, hlt⟩)
  · have hnumbers : (document.parts.zipIdx.map Prod.snd).Pairwise (· < ·) := by
      rw [List.zipIdx_map_snd]
      exact List.pairwise_lt_range'
    rw [List.pairwise_map] at hnumbers
    refine hnumbers.imp fun {before behind} hlt path hpath other hother => ?_
    obtain ⟨rest, rfl, -⟩ := mem_pathsFrom_iff.mp hpath
    obtain ⟨last, rfl, -⟩ := mem_pathsFrom_iff.mp hother
    exact List.cons_lt_cons_iff.mpr (Or.inl hlt)

end Inner

/-- The line shows the entry at the path, at the depth that the path leads to from there. -/
def Shows (document : Json) (depth : Nat) (path : List Nat) (line : OutlineLine) : Prop :=
  ∃ entry, document.entryAt? path = some entry ∧
    line = .entry (depth + (path.length - 1)) entry.1 entry.2

theorem Shows.below {part : Marker × Json} {index depth : Nat} {path : List Nat}
    {line : OutlineLine} (hpart : document.parts[index]? = some part)
    (hshows : part.2.Shows (depth + 1) path line) : document.Shows depth (index :: path) line := by
  obtain ⟨entry, hentry, rfl⟩ := hshows
  refine ⟨entry, entryAt?_cons_eq_some_iff.mpr ⟨part, hpart, Or.inr hentry⟩, ?_⟩
  cases path with
  | nil => exact absurd hentry nofun
  | cons next path =>
      have hdepth : depth + 1 + ((next :: path).length - 1) =
          depth + ((index :: next :: path).length - 1) := by
        simp only [List.length_cons]
        omega
      rw [hdepth]

theorem exists_paths (document : Json) : ∃ paths, document.EntryPaths paths ∧
    ∀ depth, List.Forall₂ (document.Shows depth) paths (entryLines depth document) := by
  induction document using parts_induction with
  | step document ih =>
      choose! inner hinner hlines using ih
      refine ⟨_, ⟨mem_paths_iff hinner, ordered_paths hinner⟩, fun depth => ?_⟩
      have hparts : document.parts = document.parts.zipIdx.map Prod.fst := by simp
      have hzip : List.Forall₂ (fun part other : (Marker × Json) × Nat =>
          part = other ∧ part ∈ document.parts.zipIdx) document.parts.zipIdx
          document.parts.zipIdx :=
        List.forall₂_same.mpr fun part hpart => ⟨rfl, hpart⟩
      rw [entryLines_eq_flatMap, hparts, List.flatMap_map, ← hparts]
      refine List.rel_flatMap hzip ?_
      rintro ⟨part, index⟩ _ ⟨rfl, hmem⟩
      have hpart : document.parts[index]? = some part := List.mem_zipIdx_iff_getElem?.mp hmem
      apply List.Forall₂.cons
      · exact ⟨part, entryAt?_cons_eq_some_iff.mpr ⟨part, hpart, Or.inl ⟨rfl, rfl⟩⟩, rfl⟩
      · rw [List.forall₂_map_left_iff]
        exact (hlines part (List.mem_of_getElem? hpart) (depth + 1)).imp fun path line hshows =>
          hshows.below hpart

/-! ### The text of a line -/

/-- What stands in front of an entry: its key and a colon in an object, a dash in an array. -/
def Marker.label : Marker → List Char
  | .key name => name.toList ++ [':']
  | .dash => ['-']

/-- What stands behind the label: nothing if the entry has entries of its own. -/
def behindLabel (item : Json) : List Char :=
  if item.isNested then [] else ' ' :: write .compact 0 item

theorem behindLabel_of_leaf (hparts : document.parts = []) :
    behindLabel document = ' ' :: write .compact 0 document :=
  if_neg (by rw [isNested_eq_false_iff.mpr hparts]; decide)

theorem behindLabel_of_parts (hparts : document.parts ≠ []) : behindLabel document = [] :=
  if_pos (isNested_iff.mpr hparts)

@[simp]
theorem plain_key_apply (text : List Char) : Palette.plain.key.apply text = text := by
  simp [Palette.plain, Paint.apply]

@[simp]
theorem plain_value_apply (text : List Char) : Palette.plain.value.apply text = text := by
  simp [Palette.plain, Paint.apply]

theorem text_entry (depth : Nat) (marker : Marker) (item : Json) :
    (OutlineLine.entry depth marker item).text .plain =
      List.replicate (2 * depth) ' ' ++ (marker.label ++ behindLabel item) := by
  cases hnested : item.isNested <;> cases marker <;>
    simp [OutlineLine.text, OutlineLine.entry, hnested, behindLabel, Marker.text, Marker.label]

theorem outline_of_parts (hparts : document.parts ≠ []) :
    outline document = entryLines 0 document :=
  if_pos (isNested_iff.mpr hparts)

theorem outline_of_leaf (hparts : document.parts = []) :
    outline document = [⟨0, none, some document⟩] := by
  rw [outline, isNested_eq_false_iff.mpr hparts]
  rfl

theorem text_document (document : Json) :
    OutlineLine.text .plain ⟨0, none, some document⟩ = write .compact 0 document := by
  simp [OutlineLine.text]

theorem map_text_outline_of_leaf (hparts : document.parts = []) :
    (outline document).map (OutlineLine.text .plain) = [write .compact 0 document] := by
  rw [outline_of_leaf hparts, List.map_singleton, text_document]

theorem exists_outline_eq_cons (hparts : document.parts ≠ []) : ∃ marker item rest,
    outline document = .entry 0 marker item :: rest := by
  obtain ⟨part, others, hcons⟩ := List.exists_cons_of_ne_nil hparts
  rw [outline_of_parts hparts, entryLines_eq_flatMap, hcons, List.flatMap_cons, block,
    List.cons_append]
  exact ⟨part.1, part.2, _, rfl⟩

theorem outline_ne_nil (document : Json) : outline document ≠ [] := by
  by_cases hparts : document.parts = []
  · rw [outline_of_leaf hparts]
    exact List.cons_ne_nil _ _
  · obtain ⟨marker, item, rest, hcons⟩ := exists_outline_eq_cons hparts
    rw [hcons]
    exact List.cons_ne_nil _ _

/-! ### Keys -/

/-- Every key has the property, at any depth. -/
def EachKey (p : String → Prop) (document : Json) : Prop :=
  ∀ path key item, document.entryAt? path = some (.key key, item) → p key

theorem eachKey_iff {p : String → Prop} : document.EachKey p ↔
    ∀ part ∈ document.parts, (∀ key, part.1 = .key key → p key) ∧ part.2.EachKey p := by
  constructor
  · rintro hkeys ⟨marker, item⟩ hpart
    obtain ⟨index, hindex⟩ := List.getElem?_of_mem hpart
    constructor
    · rintro key ⟨⟩
      exact hkeys [index] key item
        (entryAt?_cons_eq_some_iff.mpr ⟨_, hindex, Or.inl ⟨rfl, rfl⟩⟩)
    · intro path key inner hinner
      exact hkeys (index :: path) key inner
        (entryAt?_cons_eq_some_iff.mpr ⟨_, hindex, Or.inr hinner⟩)
  · intro hparts path key item hentry
    cases path with
    | nil => exact absurd hentry nofun
    | cons index path =>
        obtain ⟨part, hindex, hfound⟩ := entryAt?_cons_eq_some_iff.mp hentry
        obtain ⟨hkey, hinner⟩ := hparts part (List.mem_of_getElem? hindex)
        rcases hfound with ⟨-, rfl⟩ | hfound
        · exact hkey key rfl
        · exact hinner path key item hfound

theorem EachKey.mono {p q : String → Prop} (hkeys : document.EachKey p)
    (himp : ∀ key, p key → q key) : document.EachKey q :=
  fun path key item hentry => himp key (hkeys path key item hentry)

/-- Holds of a key that breaks no line. -/
def Unbroken (key : String) : Prop := '\n' ∉ key.toList

instance (key : String) : Decidable (Unbroken key) :=
  inferInstanceAs (Decidable ('\n' ∉ key.toList))

theorem lineBreak_notMem_behindLabel (item : Json) : '\n' ∉ behindLabel item := by
  unfold behindLabel
  split
  · exact List.not_mem_nil
  · simp [lineBreak_notMem_write]

theorem lineBreak_notMem_entryLines (hkeys : document.EachKey Unbroken) {depth : Nat}
    {line : OutlineLine} (hline : line ∈ entryLines depth document) :
    '\n' ∉ line.text .plain := by
  induction document using parts_induction generalizing depth with
  | step document ih =>
      obtain ⟨part, hpart, hline⟩ := mem_entryLines_iff.mp hline
      obtain ⟨hkey, hinner⟩ := eachKey_iff.mp hkeys part hpart
      rcases hline with rfl | hline
      · have hlabel : '\n' ∉ part.1.label := by
          cases hmarker : part.1 with
          | dash => simp [Marker.label]
          | key name =>
              have hname : '\n' ∉ name.toList := hkey name hmarker
              simp [Marker.label, hname]
        rw [text_entry]
        simp [hlabel, lineBreak_notMem_behindLabel]
      · exact ih part hpart hinner hline

/-- The lines of the text are the lines of the outline. -/
theorem splitOn_renderOutline (hkeys : document.EachKey Unbroken) :
    (renderOutline .plain document).toList.splitOn '\n' =
      (outline document).map (OutlineLine.text .plain) := by
  rw [renderOutline, String.toList_ofList]
  refine List.splitOn_intercalate '\n' ?_ (by simpa using outline_ne_nil document)
  by_cases hparts : document.parts = []
  · rw [map_text_outline_of_leaf hparts, List.forall_mem_singleton]
    exact lineBreak_notMem_write 0 document
  · rw [outline_of_parts hparts]
    exact List.forall_mem_map.mpr fun line hline => lineBreak_notMem_entryLines hkeys hline

theorem lineBreak_notMem_line {text line : List Char} (hline : line ∈ text.splitOn '\n') :
    '\n' ∉ line := by
  rw [List.splitOn_eq_splitOnP] at hline
  induction text generalizing line with
  | nil =>
      rw [List.splitOnP_nil, List.mem_singleton] at hline
      rw [hline]
      exact List.not_mem_nil
  | cons c text ih =>
      rw [List.splitOnP_cons_eq_if_modifyHead] at hline
      split at hline
      · rcases List.mem_cons.mp hline with rfl | hline
        · exact List.not_mem_nil
        · exact ih hline
      · rename_i hc
        have hbreak : '\n' ≠ c := fun heq => hc (beq_iff_eq.mpr heq.symm)
        cases hpieces : text.splitOnP (· == '\n') with
        | nil => exact absurd hpieces (List.splitOnP_ne_nil _ text)
        | cons first others =>
            rw [hpieces] at hline ih
            rw [List.modifyHead_cons, List.mem_cons] at hline
            rcases hline with rfl | hline
            · exact List.not_mem_cons_of_ne_of_not_mem hbreak (ih List.mem_cons_self)
            · exact ih (List.mem_cons_of_mem first hline)

/-! ### The end of the text -/

theorem exists_last_value (hparts : document.parts ≠ []) (depth : Nat) :
    ∃ last value, [last] <:+ entryLines depth document ∧ last.value = some value := by
  induction document using parts_induction generalizing depth with
  | step document ih =>
      have hlast := List.dropLast_append_getLast hparts
      set part := document.parts.getLast hparts
      have hmem : part ∈ document.parts := List.getLast_mem hparts
      have hsuffix : block depth part <:+ entryLines depth document := by
        rw [entryLines_eq_flatMap depth, ← hlast, List.flatMap_append, List.flatMap_singleton]
        exact List.suffix_append _ _
      by_cases hinner : part.2.parts = []
      · refine ⟨.entry depth part.1 part.2, part.2, ?_, value_entry_of_leaf hinner depth part.1⟩
        rwa [block, entryLines_eq_flatMap (depth + 1), hinner, List.flatMap_nil] at hsuffix
      · obtain ⟨last, value, hlines, hvalue⟩ := ih part hmem hinner (depth + 1)
        exact ⟨last, value, hlines.trans ((List.suffix_cons _ _).trans hsuffix), hvalue⟩

theorem suffix_text {line : OutlineLine} {value : Json} (hvalue : line.value = some value) :
    write .compact 0 value <:+ line.text .plain := by
  obtain ⟨depth, marker, shown⟩ := line
  obtain rfl : shown = some value := hvalue
  cases marker with
  | none =>
      simp only [OutlineLine.text, plain_value_apply]
      exact List.suffix_append _ _
  | some marker =>
      simp only [OutlineLine.text, plain_value_apply]
      have hspace := List.suffix_cons ' ' (write .compact 0 value)
      exact (hspace.trans (List.suffix_append _ _)).trans (List.suffix_append _ _)

theorem suffix_intercalate {separator last : List Char} {texts : List (List Char)}
    (hlast : [last] <:+ texts) : last <:+ separator.intercalate texts := by
  obtain ⟨before, rfl⟩ := hlast
  induction before with
  | nil => simp
  | cons text rest ih =>
      obtain ⟨next, others, hcons⟩ := List.exists_cons_of_ne_nil
        (List.append_ne_nil_of_right_ne_nil rest (List.cons_ne_nil last []))
      rw [List.cons_append, hcons, List.intercalate_cons_cons, ← hcons]
      exact ih.trans (List.suffix_append _ _)

/-- The text ends with the value of the last line. -/
theorem exists_suffix_renderOutline (document : Json) : ∃ value,
    write .compact 0 value <:+ (renderOutline .plain document).toList := by
  rw [renderOutline, String.toList_ofList]
  by_cases hparts : document.parts = []
  · rw [map_text_outline_of_leaf hparts, List.intercalate_singleton]
    exact ⟨document, List.suffix_rfl⟩
  · obtain ⟨last, value, hlines, hvalue⟩ := exists_last_value hparts 0
    rw [outline_of_parts hparts]
    exact ⟨value, (suffix_text hvalue).trans (suffix_intercalate (hlines.map _))⟩

theorem getLast?_renderOutline (document : Json) :
    (renderOutline .plain document).toList.getLast? ≠ some '\n' := by
  obtain ⟨value, before, htext⟩ := exists_suffix_renderOutline document
  rw [← htext, List.getLast?_append_of_ne_nil before (write_ne_nil 0 value)]
  exact fun hlast => lineBreak_notMem_write 0 value (List.mem_of_getLast? hlast)

theorem intercalate_concat_separator (separator : List Char) {texts : List (List Char)}
    (htexts : texts ≠ []) :
    separator.intercalate texts ++ separator = texts.flatMap (· ++ separator) := by
  induction texts with
  | nil => exact absurd rfl htexts
  | cons text rest ih =>
      cases rest with
      | nil => simp
      | cons other others =>
          rw [List.flatMap_cons, ← ih (List.cons_ne_nil _ _), List.intercalate_cons_cons,
            List.append_assoc]

/-- With a line break behind each line, the breaks at the end are cut off: that is one, and no line
is lost. -/
theorem renderOutline_eq_rdropWhile (document : Json) : (renderOutline .plain document).toList =
    ((outline document).flatMap fun line => line.text .plain ++ ['\n']).rdropWhile (· == '\n') := by
  have hne : (outline document).map (OutlineLine.text .plain) ≠ [] := by
    simpa using outline_ne_nil document
  have hlines : (renderOutline .plain document).toList ++ ['\n'] =
      (outline document).flatMap fun line => line.text .plain ++ ['\n'] := by
    rw [renderOutline, String.toList_ofList, intercalate_concat_separator _ hne, List.flatMap_map]
  have hkept : (renderOutline .plain document).toList.rdropWhile (· == '\n') =
      (renderOutline .plain document).toList := by
    rw [List.rdropWhile_eq_self_iff]
    intro htext hlast
    apply getLast?_renderOutline document
    rw [List.getLast?_eq_some_getLast htext, beq_iff_eq.mp hlast]
  calc (renderOutline .plain document).toList
      = (renderOutline .plain document).toList.rdropWhile (· == '\n') := hkept.symm
    _ = ((renderOutline .plain document).toList ++ ['\n']).rdropWhile (· == '\n') :=
        (List.rdropWhile_concat_pos _ _ _ (by decide)).symm
    _ = ((outline document).flatMap fun line => line.text .plain ++ ['\n']).rdropWhile
          (· == '\n') := by rw [hlines]

/-! ### One line for each entry -/

/-- The lines are those of the entries, in document order: behind two spaces for each level above it
stands the label of the entry. A document without entries has a single line. -/
inductive LinePerEntry (document : Json) : List (List Char) → Prop where
  | single (hparts : document.parts = []) (line : List Char) : LinePerEntry document [line]
  | entries {paths : List (List Nat)} {lines : List (List Char)} (hparts : document.parts ≠ [])
      (hpaths : document.EntryPaths paths)
      (hlines : List.Forall₂ (fun path line => ∃ entry, document.entryAt? path = some entry ∧
        List.replicate (2 * (path.length - 1)) ' ' ++ entry.1.label <+: line) paths lines) :
      LinePerEntry document lines

theorem linePerEntry_outline (document : Json) :
    document.LinePerEntry ((outline document).map (OutlineLine.text .plain)) := by
  by_cases hparts : document.parts = []
  · rw [map_text_outline_of_leaf hparts]
    exact .single hparts _
  · obtain ⟨paths, hpaths, hlines⟩ := exists_paths document
    refine .entries hparts hpaths ?_
    rw [outline_of_parts hparts, List.forall₂_map_right_iff]
    refine (hlines 0).imp ?_
    rintro path _ ⟨entry, hentry, rfl⟩
    refine ⟨entry, hentry, ?_⟩
    rw [text_entry, Nat.zero_add, ← List.append_assoc]
    exact List.prefix_append _ _

theorem LinePerEntry.unbroken {lines : List (List Char)} (hdocument : document.LinePerEntry lines)
    (hlines : ∀ line ∈ lines, '\n' ∉ line) : document.EachKey Unbroken := by
  intro path key item hentry
  cases hdocument with
  | single hparts line =>
      cases path with
      | nil => exact absurd hentry nofun
      | cons index path =>
          obtain ⟨part, hpart, -⟩ := entryAt?_cons_eq_some_iff.mp hentry
          rw [hparts] at hpart
          exact absurd hpart nofun
  | @entries paths _ hparts hpaths hshown =>
      have hmem : path ∈ paths := hpaths.mem_iff.mpr (Option.isSome_of_eq_some hentry)
      obtain ⟨index, hindex, rfl⟩ := List.getElem_of_mem hmem
      have hline : index < lines.length := hshown.length_eq ▸ hindex
      obtain ⟨entry, hfound, hstart⟩ := hshown.get hindex hline
      obtain rfl : entry = (.key key, item) := Option.some.inj (hfound.symm.trans hentry)
      intro hbreak
      refine hlines _ (List.getElem_mem hline) (hstart.subset ?_)
      simp [Marker.label, hbreak]

/-- **One line for each entry.** No line break ends the outline of a document. Its lines are those
of the entries, one for each and in document order, if and only if no key holds a line break: a key
is written as it is, while strings are escaped. -/
theorem linePerEntry_renderOutline_iff (document : Json) :
    (renderOutline .plain document).toList.getLast? ≠ some '\n' ∧
      (document.LinePerEntry ((renderOutline .plain document).toList.splitOn '\n') ↔
        document.EachKey Unbroken) := by
  refine ⟨getLast?_renderOutline document, fun hlines => ?_, fun hkeys => ?_⟩
  · exact hlines.unbroken fun line hline => lineBreak_notMem_line hline
  · rw [splitOn_renderOutline hkeys]
    exact linePerEntry_outline document

/-- The only entry of this document takes two lines. -/
theorem not_linePerEntry_of_broken_key :
    let document : Json := .object [("a\nb", .number (.integer 1))]
    let lines := (renderOutline .plain document).toList.splitOn '\n'
    document.EntryPaths [[0]] ∧ lines = [['a'], ['b', ':', ' ', '1']] ∧
      ¬document.LinePerEntry lines := by
  intro document lines
  have hlines : lines = [['a'], ['b', ':', ' ', '1']] := by decide
  refine ⟨⟨?_, List.pairwise_singleton _ _⟩, hlines, fun hdocument => ?_⟩
  · rintro (_ | ⟨_ | index, _ | ⟨next, path⟩⟩) <;> simp [document, entryAt?, parts]
  · rw [hlines] at hdocument
    have hunbroken := hdocument.unbroken (by decide)
    exact hunbroken [0] "a\nb" _ rfl (by decide)

end TreeProjection.Json
