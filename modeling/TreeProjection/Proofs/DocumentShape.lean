import Mathlib.Tactic.Common
import TreeProjection.Json.Reader
import TreeProjection.Proofs.Execution
import TreeProjection.Proofs.TreeInduction

/-!
# How deep documents are nested, and which keys they repeat

The reader gives documents that are nested at most as deep as it was told, and in which no object
repeats a key (`parse_shape`).
-/

namespace TreeProjection

/-! ### What is read -/

namespace Json

/-- How many brackets are open at a time. -/
def nesting (document : Json) : Nat := (Value.ofJson document).height

/-- No object repeats a key. -/
def DistinctKeys (document : Json) : Prop := (Value.ofJson document).DistinctKeys

/-- Holds of a document that is nested at most so deep and in which no object repeats a key. -/
structure Shaped (levels : Nat) (document : Json) : Prop where
  nesting_le : document.nesting ≤ levels
  distinctKeys : document.DistinctKeys

section Parts

variable {levels : Nat} {items : List Json} {members : List (String × Json)}

theorem nesting_array_le_iff : nesting (.array items) ≤ levels ↔
    ∃ inner, levels = inner + 1 ∧ ∀ item ∈ items, item.nesting ≤ inner := by
  rw [nesting, Value.ofJson, Value.itemsOfJson_eq_map, Value.height]
  cases levels with
  | zero => simp
  | succ inner => simp [Value.itemsHeight_le_iff, nesting]

theorem nesting_object_le_iff : nesting (.object members) ≤ levels ↔
    ∃ inner, levels = inner + 1 ∧ ∀ member ∈ members, member.2.nesting ≤ inner := by
  rw [nesting, Value.ofJson, Value.entriesOfJson_eq_map, Value.height]
  cases levels with
  | zero => simp
  | succ inner =>
      rw [Nat.add_le_add_iff_right, Value.entriesHeight_le_iff, List.forall_mem_map]
      constructor
      · exact fun hmembers => ⟨inner, rfl, hmembers⟩
      · rintro ⟨_, ⟨⟩, hmembers⟩
        exact hmembers

theorem distinctKeys_array_iff :
    DistinctKeys (.array items) ↔ ∀ item ∈ items, item.DistinctKeys := by
  rw [DistinctKeys, Value.ofJson, Value.itemsOfJson_eq_map, Value.DistinctKeys,
    Value.itemsDistinct_iff, List.forall_mem_map]
  rfl

theorem distinctKeys_object_iff : DistinctKeys (.object members) ↔
    Table.Distinct members ∧ ∀ member ∈ members, member.2.DistinctKeys := by
  rw [DistinctKeys, Value.ofJson, Value.entriesOfJson_eq_map, Value.DistinctKeys,
    Value.entriesDistinct_iff, List.forall_mem_map, Table.Distinct,
    Table.keys_map members fun _ item => Value.ofJson item]
  rfl

theorem shaped_array_iff : Shaped levels (.array items) ↔
    ∃ inner, levels = inner + 1 ∧ ∀ item ∈ items, Shaped inner item := by
  constructor
  · rintro ⟨hnesting, hdistinct⟩
    obtain ⟨inner, rfl, hitems⟩ := nesting_array_le_iff.mp hnesting
    rw [distinctKeys_array_iff] at hdistinct
    exact ⟨inner, rfl, fun item hitem => ⟨hitems item hitem, hdistinct item hitem⟩⟩
  · rintro ⟨inner, rfl, hitems⟩
    constructor
    · exact nesting_array_le_iff.mpr ⟨inner, rfl, fun item hitem => (hitems item hitem).nesting_le⟩
    · exact distinctKeys_array_iff.mpr fun item hitem => (hitems item hitem).distinctKeys

theorem shaped_object_iff : Shaped levels (.object members) ↔ ∃ inner, levels = inner + 1 ∧
    Table.Distinct members ∧ ∀ member ∈ members, Shaped inner member.2 := by
  constructor
  · rintro ⟨hnesting, hdistinct⟩
    obtain ⟨inner, rfl, hmembers⟩ := nesting_object_le_iff.mp hnesting
    obtain ⟨hkeys, hdistinct⟩ := distinctKeys_object_iff.mp hdistinct
    refine ⟨inner, rfl, hkeys, fun member hmember => ?_⟩
    exact ⟨hmembers member hmember, hdistinct member hmember⟩
  · rintro ⟨inner, rfl, hkeys, hmembers⟩
    constructor
    · exact nesting_object_le_iff.mpr
        ⟨inner, rfl, fun member hmember => (hmembers member hmember).nesting_le⟩
    · exact distinctKeys_object_iff.mpr
        ⟨hkeys, fun member hmember => (hmembers member hmember).distinctKeys⟩

end Parts

/-- No number of the document is a double. -/
def FloatFree (document : Json) : Prop :=
  (Value.ofJson document).MadeOf fun atom => ∀ value, atom ≠ .number value

theorem FloatFree.of_array {items : List Json} (hfree : FloatFree (.array items)) :
    ∀ item ∈ items, FloatFree item := by
  rw [FloatFree, Value.ofJson, Value.itemsOfJson_eq_map] at hfree
  cases hfree with
  | sequence hitems => exact fun item hitem => hitems _ (List.mem_map_of_mem hitem)

theorem FloatFree.of_object {members : List (String × Json)} (hfree : FloatFree (.object members)) :
    ∀ member ∈ members, FloatFree member.2 := by
  rw [FloatFree, Value.ofJson, Value.entriesOfJson_eq_map] at hfree
  cases hfree with
  | mapping hentries => exact fun member hmember => hentries _ (List.mem_map_of_mem hmember)

section Ensures

variable {α β : Type} {bound : Nat}

/-- If the reader gives something, that has the property. -/
def Ensures (result : Result α bound) (p : α → Prop) : Prop :=
  ∀ parsed, result = .ok parsed → p parsed.value

theorem ensures_error (error : ReadError) (p : α → Prop) :
    Ensures (.error error : Result α bound) p := fun _ hparsed => absurd hparsed nofun

theorem Ensures.bind {boundAfter : Nat} {result : Result α bound}
    {next : Parsed α bound → Result β boundAfter} {p : α → Prop} {q : β → Prop}
    (hresult : Ensures result p) (hnext : ∀ parsed, p parsed.value → Ensures (next parsed) q) :
    Ensures (result >>= next) q := by
  intro parsed hparsed
  cases hfirst : result with
  | error error =>
      rw [hfirst] at hparsed
      exact absurd hparsed nofun
  | ok first =>
      rw [hfirst] at hparsed
      exact hnext first (hresult first hfirst) parsed hparsed

theorem ensures_true (result : Result α bound) : Ensures result fun _ => True :=
  fun _ _ => trivial

theorem readWord_ensures (result : Json) (letters text : List Char) :
    Ensures (readWord result letters text) (· = result) := by
  induction letters generalizing text with
  | nil =>
      intro parsed hparsed
      rw [readWord] at hparsed
      rw [← Except.ok.inj hparsed]
      rfl
  | cons letter letters ih =>
      cases text with
      | nil => exact ensures_error _ _
      | cons c text =>
          rw [readWord]
          split
          · refine (ih text).bind fun parsed hvalue => ?_
            rintro _ ⟨⟩
            exact hvalue
          · exact ensures_error _ _

variable {part : Reader α} {p : α → Prop} (hpart : ∀ text, Ensures (part text) p)
include hpart

theorem readParts_ensures (enclosure : Enclosure) (text : List Char) :
    Ensures (readParts enclosure part text) fun values => ∀ value ∈ values, p value := by
  fun_induction readParts enclosure part text with
  | case1 text ih =>
      refine (hpart text).bind fun first hfirst => ?_
      split
      · exact ensures_error _ _
      · rename_i mark _
        dsimp only
        split_ifs
        · rintro _ ⟨⟩
          exact List.forall_mem_singleton.mpr hfirst
        · split
          · exact ensures_error _ _
          · split_ifs
            · exact ensures_error _ _
            · refine (ih first mark).bind fun more hmore => ?_
              rintro _ ⟨⟩
              exact List.forall_mem_cons.mpr ⟨hfirst, hmore⟩
        · exact ensures_error _ _

theorem readEnclosed_ensures (enclosure : Enclosure) (text : List Char) :
    Ensures (readEnclosed enclosure part text) fun values => ∀ value ∈ values, p value := by
  rw [readEnclosed]
  split
  · exact ensures_error _ _
  · split_ifs
    · rintro _ ⟨⟩
      exact List.forall_mem_nil p
    · exact readParts_ensures hpart enclosure text

omit hpart in
theorem readMember_ensures {value : Reader Json} {p : Json → Prop}
    (hvalue : ∀ text, Ensures (value text) p) (text : List Char) :
    Ensures (readMember value text) fun member => p member.2 := by
  rw [readMember]
  split
  · exact ensures_error _ _
  · split_ifs
    · refine (ensures_true _).bind fun key _ => ?_
      split
      · exact ensures_error _ _
      · split_ifs
        · refine (hvalue _).bind fun item hitem => ?_
          rintro _ ⟨⟩
          exact hitem
        · exact ensures_error _ _
    · exact ensures_error _ _

end Ensures

/-- The reader of what stands in brackets, if so many may be open at a time. -/
def readNested : Nat → Option (Reader Json)
  | 0 => none
  | levels + 1 => some (readValue levels)

theorem readValue_eq (levels : Nat) : readValue levels = readBehindBlanks (readNested levels) := by
  cases levels <;> rfl

theorem shaped_leaf {levels : Nat} (document : Json) {atom : Leaf}
    (hleaf : Value.ofJson document = .leaf atom) : Shaped levels document := by
  constructor
  · rw [nesting, hleaf, Value.height]
    exact Nat.zero_le levels
  · rw [DistinctKeys, hleaf, Value.DistinctKeys]
    exact trivial

theorem readFrom_ensures {levels : Nat} (hinner : ∀ inner, levels = inner + 1 → ∀ text,
      Ensures (readValue inner text) (Shaped inner)) (c : Char) (rest : List Char) :
    Ensures (readFrom (readNested levels) c rest) (Shaped levels) := by
  have hword : ∀ result atom letters, Value.ofJson result = .leaf atom →
      Ensures (readWord result letters rest) (Shaped levels) := by
    intro result atom letters hleaf parsed hparsed
    rw [readWord_ensures result letters rest parsed hparsed]
    exact shaped_leaf result hleaf
  unfold readFrom
  split_ifs
  · exact hword .null .null _ rfl
  · exact hword (.bool true) (.bool true) _ rfl
  · exact hword (.bool false) (.bool false) _ rfl
  · refine (ensures_true _).bind fun number _ => ?_
    rintro _ ⟨⟩
    exact shaped_leaf (.number number.value) rfl
  · refine (ensures_true _).bind fun number _ => ?_
    rintro _ ⟨⟩
    exact shaped_leaf (.number number.value) rfl
  · refine (ensures_true _).bind fun text _ => ?_
    rintro _ ⟨⟩
    exact shaped_leaf (.string (String.ofList text.value)) rfl
  · cases levels with
    | zero => exact ensures_error _ _
    | succ inner =>
        refine (readEnclosed_ensures (hinner inner rfl) .array rest).bind fun items hitems => ?_
        rintro _ ⟨⟩
        exact shaped_array_iff.mpr ⟨inner, rfl, hitems⟩
  · cases levels with
    | zero => exact ensures_error _ _
    | succ inner =>
        have hmember := readMember_ensures (hinner inner rfl)
        refine (readEnclosed_ensures hmember .object rest).bind fun members hmembers => ?_
        rintro _ ⟨⟩
        exact shaped_object_iff.mpr ⟨inner, rfl, Table.distinct_ofList members.value,
          fun member hmember => hmembers member (Table.mem_ofList hmember)⟩
  · exact ensures_error _ _

theorem readValue_ensures (levels : Nat) (text : List Char) :
    Ensures (readValue levels text) (Shaped levels) := by
  induction levels using Nat.strongRecOn generalizing text with
  | _ levels ih =>
      rw [readValue_eq, readBehindBlanks]
      split
      · exact ensures_error _ _
      · refine (readFrom_ensures ?_ _ _).bind fun document hdocument => ?_
        · rintro inner rfl text
          exact ih inner (Nat.lt_succ_self inner) text
        · rintro _ ⟨⟩
          exact hdocument

/-- A text is read as a document of limited depth, whose objects repeat no key. -/
theorem parse_shape {text : String} {document : Json} (hparse : parse text = .ok document) :
    Shaped greatestNesting document := by
  cases hread : read greatestNesting text.toList with
  | error error =>
      rw [parse, hread] at hparse
      exact absurd hparse nofun
  | ok value =>
      rw [parse, hread] at hparse
      obtain rfl : value = document := Except.ok.inj hparse
      rw [read] at hread
      cases hvalue : readValue greatestNesting text.toList with
      | error error =>
          rw [hvalue] at hread
          exact absurd hread nofun
      | ok parsed =>
          rw [hvalue] at hread
          simp only [bind, Except.bind] at hread
          split at hread
          · obtain rfl := Except.ok.inj hread
            exact readValue_ensures greatestNesting text.toList parsed hvalue
          · exact absurd hread nofun

end Json

end TreeProjection
