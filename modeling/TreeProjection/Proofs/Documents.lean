import Mathlib.Data.List.Forall2
import Mathlib.Tactic.Common
import TreeProjection.Proofs.SpelledOut
import TreeProjection.Proofs.TreeInduction
import TreeProjection.Value.Json

/-!
# Documents as values and back

The value of a document is spelled out, and its numbers are finite; every such value has a document
(`toJson_eq_pure`). The two have the same shape, keys in the same order and the same leaves
(`Value.Mirrors`). Going from a document to its value and back changes nothing. Going from a value
to its document and back gives each unsigned integer that fits 63 bits its signed form, and changes
nothing else (`toJson_lossless`).
-/

namespace TreeProjection

/-! ### Leaves -/

def Leaf.IsFinite : Leaf → Prop
  | .number value => value.isFinite = true
  | _ => True

/-- An unsigned integer is signed if it fits. -/
def Leaf.signed : Leaf → Leaf
  | .unsigned value =>
      if value.toNat < 0x8000000000000000 then .integer (Int64.ofNat value.toNat)
      else .unsigned value
  | atom => atom

/-- The document of a leaf; for a number that is not finite, null stands in. -/
def Leaf.document (atom : Leaf) : Json :=
  match atom.toJson with
  | .ok document => document
  | .error _ => .null

theorem JsonNumber.integer_congr {value other : Int} {least : -0x8000000000000000 ≤ value}
    {greatest : value < 0x10000000000000000} {leastOther : -0x8000000000000000 ≤ other}
    {greatestOther : other < 0x10000000000000000} (heq : value = other) :
    JsonNumber.integer value least greatest = .integer other leastOther greatestOther := by
  subst heq
  rfl

theorem Leaf.IsFinite.toJson_eq {atom : Leaf} (hfinite : atom.IsFinite) :
    atom.toJson = .ok atom.document := by
  cases atom with
  | number value => simp [document, toJson, show value.isFinite = true from hfinite]
  | _ => rfl

theorem Leaf.IsFinite.ofJson_document {atom : Leaf} (hfinite : atom.IsFinite) :
    Value.ofJson atom.document = .leaf atom.signed := by
  cases atom with
  | number value =>
      simp [document, toJson, show value.isFinite = true from hfinite, Value.ofJson,
        JsonNumber.toLeaf, signed]
  | integer value =>
      have hfits : value.toInt < 0x8000000000000000 := Int64.toInt_lt value
      simp [document, toJson, Value.ofJson, JsonNumber.toLeaf, signed, hfits]
  | unsigned value =>
      by_cases hfits : value.toNat < 0x8000000000000000
      · have hint : (value.toNat : Int) < 0x8000000000000000 := by omega
        simp [document, toJson, Value.ofJson, JsonNumber.toLeaf, signed, hfits, hint,
          Int64.ofInt_eq_ofNat]
      · have hint : ¬(value.toNat : Int) < 0x8000000000000000 := by omega
        simp [document, toJson, Value.ofJson, JsonNumber.toLeaf, signed, hfits, hint]
  | _ => rfl

theorem JsonNumber.document_toLeaf (number : JsonNumber) :
    number.toLeaf.document = .number number := by
  cases number with
  | float value finite => simp [toLeaf, Leaf.document, Leaf.toJson, finite]
  | integer value least greatest =>
      rw [toLeaf]
      split
      · rename_i hfits
        have hvalue : (Int64.ofInt value).toInt = value := Int64.toInt_ofInt_of_le least hfits
        exact congrArg Json.number (JsonNumber.integer_congr hvalue)
      · rename_i hlarge
        have hsmall : value.toNat < 2 ^ 64 := by omega
        have hvalue : ((UInt64.ofNat value.toNat).toNat : Int) = value := by
          rw [UInt64.toNat_ofNat', Nat.mod_eq_of_lt hsmall]
          omega
        exact congrArg Json.number (JsonNumber.integer_congr hvalue)

theorem JsonNumber.isFinite_toLeaf (number : JsonNumber) : number.toLeaf.IsFinite := by
  cases number with
  | float value finite => exact finite
  | integer value =>
      rw [toLeaf]
      split <;> exact trivial

theorem JsonNumber.le_of_toLeaf_eq_unsigned {number : JsonNumber} {value : UInt64}
    (hleaf : number.toLeaf = .unsigned value) : 0x8000000000000000 ≤ value.toNat := by
  cases number with
  | float => exact absurd hleaf (by simp [toLeaf])
  | integer integer least greatest =>
      rw [toLeaf] at hleaf
      split at hleaf
      · exact absurd hleaf (by simp)
      · obtain rfl := Leaf.unsigned.inj hleaf
        have hsmall : integer.toNat < 2 ^ 64 := by omega
        rw [UInt64.toNat_ofNat', Nat.mod_eq_of_lt hsmall]
        omega

theorem Leaf.signed_eq_self_iff {atom : Leaf} :
    atom.signed = atom ↔ ∀ value, atom = .unsigned value → 0x8000000000000000 ≤ value.toNat := by
  cases atom with
  | unsigned value =>
      by_cases hfits : value.toNat < 0x8000000000000000
      · simp [signed, hfits]
      · simp [signed, hfits, Nat.le_of_not_lt hfits]
  | _ => simp [signed]

/-! ### Values with leaves of a kind -/

namespace Value

/-- Spelled out, and every leaf has the property. -/
inductive MadeOf (p : Leaf → Prop) : Value → Prop where
  | leaf {atom : Leaf} (hatom : p atom) : MadeOf p (.leaf atom)
  | sequence {items : List Value} (hitems : ∀ item ∈ items, MadeOf p item) :
      MadeOf p (.sequence items)
  | mapping {entries : List (String × Value)} (hentries : ∀ entry ∈ entries, MadeOf p entry.2) :
      MadeOf p (.mapping entries)

variable {p q : Leaf → Prop} {value : Value}

theorem MadeOf.mono (hvalue : value.MadeOf p) (himp : ∀ atom, p atom → q atom) :
    value.MadeOf q := by
  induction hvalue with
  | leaf hatom => exact .leaf (himp _ hatom)
  | sequence _ ih => exact .sequence ih
  | mapping _ ih => exact .mapping ih

theorem MadeOf.spelledOut (hvalue : value.MadeOf p) : value.SpelledOut := by
  induction hvalue with
  | leaf => exact .leaf _
  | sequence _ ih => exact .sequence ih
  | mapping _ ih => exact .mapping ih

/-- The value with each leaf replaced. -/
def mapLeaves (f : Leaf → Leaf) : Value → Value
  | .leaf atom => .leaf (f atom)
  | .sequence items => .sequence (items.map (mapLeaves f))
  | .mapping entries => .mapping (entries.map fun entry => (entry.1, mapLeaves f entry.2))
  | .dual left right => .dual (mapLeaves f left) (mapLeaves f right)
  | .lazy node => .lazy node
  | .object node => .object node
termination_by value => value.height
decreasing_by
  · have := height_le_itemsHeight ‹_ ∈ items›
    rw [height]
    omega
  · have := height_le_entriesHeight ‹_ ∈ entries›
    rw [height]
    omega
  all_goals
    rw [height]
    omega

/-- The document of a value, with null for whatever has none. -/
def document : Value → Json
  | .leaf atom => atom.document
  | .sequence items => .array (items.map document)
  | .mapping entries => .object (entries.map fun entry => (entry.1, document entry.2))
  | _ => .null
termination_by value => value.height
decreasing_by
  · have := height_le_itemsHeight ‹_ ∈ items›
    rw [height]
    omega
  · have := height_le_entriesHeight ‹_ ∈ entries›
    rw [height]
    omega

theorem mapLeaves_eq_self {f : Leaf → Leaf} (hvalue : value.MadeOf fun atom => f atom = atom) :
    value.mapLeaves f = value := by
  induction hvalue with
  | leaf hatom => rw [mapLeaves, hatom]
  | sequence _ ih => rw [mapLeaves, List.map_congr_left ih, List.map_id']
  | mapping _ ih =>
      rename_i entries _
      have hentries : ∀ entry ∈ entries, (entry.1, mapLeaves f entry.2) = entry :=
        fun entry hmem => Prod.ext rfl (ih entry hmem)
      rw [mapLeaves, List.map_congr_left hentries, List.map_id']

theorem itemsOfJson_eq_map (items : List Json) : itemsOfJson items = items.map ofJson := by
  induction items with
  | nil => rfl
  | cons item rest ih => rw [itemsOfJson, ih, List.map_cons]

theorem entriesOfJson_eq_map (members : List (String × Json)) :
    entriesOfJson members = members.map fun member => (member.1, ofJson member.2) := by
  induction members with
  | nil => rfl
  | cons member rest ih => rw [entriesOfJson, ih, List.map_cons]

/-! ### Values and documents of one shape -/

/-- The document holds what the value holds: the same leaves, integers of either kind as the number
that they are, in sequences and mappings as long, under the same keys in the same order. -/
inductive Mirrors : Value → Json → Prop where
  | null : Mirrors (.leaf .null) .null
  | bool (value : Bool) : Mirrors (.leaf (.bool value)) (.bool value)
  | integer (value : Int64) {least : -0x8000000000000000 ≤ value.toInt}
      {greatest : value.toInt < 0x10000000000000000} :
      Mirrors (.leaf (.integer value)) (.number (.integer value.toInt least greatest))
  | unsigned (value : UInt64) {least : (-0x8000000000000000 : Int) ≤ value.toNat}
      {greatest : (value.toNat : Int) < 0x10000000000000000} :
      Mirrors (.leaf (.unsigned value)) (.number (.integer value.toNat least greatest))
  | number (value : Binary64) (finite : value.isFinite = true) :
      Mirrors (.leaf (.number value)) (.number (.float value finite))
  | string (text : String) : Mirrors (.leaf (.string text)) (.string text)
  | sequence {items : List Value} {documents : List Json}
      (hitems : List.Forall₂ Mirrors items documents) :
      Mirrors (.sequence items) (.array documents)
  | mapping {entries : List (String × Value)} {members : List (String × Json)}
      (hkeys : Table.keys members = Table.keys entries)
      (hitems : List.Forall₂ Mirrors (entries.map Prod.snd) (members.map Prod.snd)) :
      Mirrors (.mapping entries) (.object members)

theorem mirrors_leaf {atom : Leaf} (hfinite : atom.IsFinite) :
    Mirrors (.leaf atom) atom.document := by
  cases atom with
  | null => exact .null
  | bool value => exact .bool value
  | integer value => exact .integer value
  | unsigned value => exact .unsigned value
  | number value =>
      have hvalue : value.isFinite = true := hfinite
      rw [Leaf.document, Leaf.toJson, dif_pos hvalue]
      exact .number value hvalue
  | string text => exact .string text

theorem MadeOf.mirrors_document (hvalue : value.MadeOf Leaf.IsFinite) :
    value.Mirrors value.document := by
  induction hvalue with
  | leaf hfinite =>
      rw [document]
      exact mirrors_leaf hfinite
  | sequence _ ih =>
      rw [document]
      exact .sequence (List.forall₂_map_right_iff.mpr (List.forall₂_same.mpr ih))
  | @mapping entries _ ih =>
      rw [document]
      refine .mapping (Table.keys_map entries fun _ item => document item) ?_
      rw [List.map_map, List.forall₂_map_right_iff, List.forall₂_map_left_iff, List.forall₂_same]
      exact ih

/-! ### From documents to values and back -/

theorem madeOf_ofJson (document : Json) :
    (ofJson document).MadeOf fun atom => atom.IsFinite ∧ atom.signed = atom := by
  induction document using Json.induction with
  | number number =>
      exact .leaf ⟨number.isFinite_toLeaf,
        Leaf.signed_eq_self_iff.mpr fun _ => JsonNumber.le_of_toLeaf_eq_unsigned⟩
  | array items ih =>
      rw [ofJson, itemsOfJson_eq_map]
      exact .sequence (List.forall_mem_map.mpr ih)
  | object members ih =>
      rw [ofJson, entriesOfJson_eq_map]
      exact .mapping (List.forall_mem_map.mpr ih)
  | _ => exact .leaf ⟨trivial, rfl⟩

theorem document_ofJson (document : Json) : (ofJson document).document = document := by
  induction document using Json.induction with
  | number number => rw [ofJson, Value.document, number.document_toLeaf]
  | array items ih =>
      have hitems : ∀ item ∈ items, (Value.document ∘ ofJson) item = item := ih
      rw [ofJson, itemsOfJson_eq_map, Value.document, List.map_map, List.map_congr_left hitems,
        List.map_id']
  | object members ih =>
      have hmembers : ∀ member ∈ members,
          (member.1, (ofJson member.2).document) = member :=
        fun member hmem => Prod.ext rfl (ih member hmem)
      rw [ofJson, entriesOfJson_eq_map, Value.document, List.map_map]
      exact congrArg Json.object ((List.map_congr_left hmembers).trans (List.map_id' _))
  | _ => simp [ofJson, Value.document, Leaf.document, Leaf.toJson]

theorem MadeOf.ofJson_document (hvalue : value.MadeOf Leaf.IsFinite) :
    ofJson value.document = value.mapLeaves Leaf.signed := by
  induction hvalue with
  | leaf hfinite => rw [document, hfinite.ofJson_document, mapLeaves]
  | sequence _ ih =>
      rw [document, ofJson, itemsOfJson_eq_map, List.map_map, mapLeaves]
      exact congrArg Value.sequence (List.map_congr_left ih)
  | mapping _ ih =>
      rw [document, ofJson, entriesOfJson_eq_map, List.map_map, mapLeaves]
      refine congrArg Value.mapping (List.map_congr_left fun entry hmem => ?_)
      exact Prod.ext rfl (ih entry hmem)

theorem mirrors_ofJson (document : Json) : (ofJson document).Mirrors document := by
  have hfinite := (madeOf_ofJson document).mono fun _ hatom => hatom.1
  have hmirrors := hfinite.mirrors_document
  rwa [document_ofJson] at hmirrors

/-- A value with finite numbers that is spelled out has a document, found without asking for
anything. -/
theorem toJson_eq_pure {σ : Type} {world : World σ} {fuel : Nat}
    (hvalue : value.MadeOf Leaf.IsFinite) (hfuel : value.height < fuel) :
    toJson world fuel value = pure value.document := by
  induction fuel generalizing value with
  | zero => exact absurd hfuel (Nat.not_lt_zero _)
  | succ fuel ih =>
      cases hvalue with
      | leaf hfinite => rw [toJson, toJsonStep, hfinite.toJson_eq, document]
      | sequence hitems =>
          rename_i items
          have hparts : ∀ item ∈ items, toJson world fuel item = pure item.document := by
            intro item hmem
            have hheight := height_le_itemsHeight hmem
            rw [height] at hfuel
            exact ih (hitems item hmem) (by omega)
          rw [toJson, toJsonStep, Eval.forEach_eq_pure hparts, Eval.pure_bind, document]
      | mapping hentries =>
          rename_i entries
          have hparts : ∀ entry ∈ entries, (do return (entry.1, ← toJson world fuel entry.2) :
              Eval σ ConversionError (String × Json)) = pure (entry.1, entry.2.document) := by
            intro entry hmem
            have hheight := height_le_entriesHeight hmem
            rw [height] at hfuel
            rw [ih (hentries entry hmem) (by omega), Eval.pure_bind]
          have hall := Eval.forEach_eq_pure hparts
          rw [toJson, toJsonStep, document]
          exact (congrArg (· >>= _) hall).trans (Eval.pure_bind _ _)

/-- In every world the conversion ends with the document, asks for nothing and leaves no trace. -/
def ConvertsTo (value : Value) (document : Json) : Prop :=
  ∀ (σ : Type) (world : World σ) (fuel : Nat) (state : σ), value.height < fuel →
    toJson world fuel value state = some ⟨.ok document, state, []⟩

theorem MadeOf.convertsTo_document (hvalue : value.MadeOf Leaf.IsFinite) :
    value.ConvertsTo value.document := by
  intro σ world fuel state hfuel
  rw [toJson_eq_pure hvalue hfuel]
  rfl

theorem convertsTo_ofJson (document : Json) : (ofJson document).ConvertsTo document := by
  have hfinite : (ofJson document).MadeOf Leaf.IsFinite :=
    (madeOf_ofJson document).mono fun _ hatom => hatom.1
  have hconverts := hfinite.convertsTo_document
  rwa [document_ofJson] at hconverts

/-- **Nothing is lost.** The value of a document converts to that document, and its integers are
signed as far as they fit. A value that is spelled out, with finite numbers, converts to a document
whose value is the same but for its unsigned integers, which are signed now if they fit; that value
converts to the same document again. -/
theorem toJson_lossless :
    (∀ document, (ofJson document).ConvertsTo document ∧ (ofJson document).MadeOf
        fun atom => ∀ number, atom = .unsigned number → 0x8000000000000000 ≤ number.toNat) ∧
      ∀ value : Value, value.MadeOf Leaf.IsFinite → ∃ document, value.ConvertsTo document ∧
        ofJson document = value.mapLeaves Leaf.signed ∧ (ofJson document).ConvertsTo document := by
  constructor
  · intro document
    refine ⟨convertsTo_ofJson document, (madeOf_ofJson document).mono fun atom hatom => ?_⟩
    exact Leaf.signed_eq_self_iff.mp hatom.2
  · intro value hvalue
    exact ⟨value.document, hvalue.convertsTo_document, hvalue.ofJson_document,
      convertsTo_ofJson value.document⟩

theorem toJson_lossless_sample :
    let negativeZero : Binary64 := ⟨0x8000000000000000⟩
    let value : Value := .sequence [.leaf (.unsigned 0x7FFFFFFFFFFFFFFF),
      .leaf (.unsigned 0x8000000000000000), .mapping [("b", .leaf (.number negativeZero)),
        ("a", .leaf (.integer (-0x8000000000000000)))]]
    value.MadeOf Leaf.IsFinite ∧ ∃ document, value.ConvertsTo document ∧
      ofJson document = .sequence [.leaf (.integer 0x7FFFFFFFFFFFFFFF),
        .leaf (.unsigned 0x8000000000000000), .mapping [("b", .leaf (.number negativeZero)),
          ("a", .leaf (.integer (-0x8000000000000000)))]] := by
  intro negativeZero value
  have hmapping : MadeOf Leaf.IsFinite (.mapping [("b", .leaf (.number negativeZero)),
      ("a", .leaf (.integer (-0x8000000000000000)))]) := by
    have hzero : negativeZero.isFinite = true := by decide
    refine .mapping (List.forall_mem_cons.mpr ⟨.leaf hzero, ?_⟩)
    exact List.forall_mem_singleton.mpr (.leaf trivial)
  have hvalue : value.MadeOf Leaf.IsFinite := by
    refine .sequence (List.forall_mem_cons.mpr ⟨.leaf trivial, ?_⟩)
    exact List.forall_mem_cons.mpr ⟨.leaf trivial, List.forall_mem_singleton.mpr hmapping⟩
  obtain ⟨document, hconverts, hback, -⟩ := toJson_lossless.2 value hvalue
  refine ⟨hvalue, document, hconverts, hback.trans ?_⟩
  simp [value, mapLeaves, Leaf.signed]

end Value

end TreeProjection
