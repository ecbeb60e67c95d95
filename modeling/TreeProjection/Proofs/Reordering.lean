import Mathlib.Data.List.Forall2
import Mathlib.Data.List.Perm.Basic
import Mathlib.Tactic.Common
import TreeProjection.Proofs.CleanResults
import TreeProjection.Proofs.Steadiness

/-!
# Entries in another order

Neither a selector nor a mapping changes what it stands for when its entries are put in another
order. Where nodes always answer the same, projecting one value by one selector and another by
another, both the same up to the order of entries, succeeds for both or for neither. The results are
the same up to the order of entries, and the traces up to the order of steps (`select_reordered`).
-/

namespace TreeProjection

/-! ### The same in another order -/

/-- The same keys in any order, all of them bare on both sides or with children that are reordered
themselves. -/
inductive Selector.Reordered : Selector → Selector → Prop where
  | intro {selector other : Selector} (hkeys : selector.keys.Perm other.keys)
      (hnested : ∀ {key : String} {child twin : Option Selector},
        (key, child) ∈ selector.entries → (key, twin) ∈ other.entries → child.isSome = twin.isSome)
      (hchildren : ∀ {key : String} {child twin : Selector},
        (key, some child) ∈ selector.entries → (key, some twin) ∈ other.entries →
          Reordered child twin) : Reordered selector other

/-- The same tree, but the entries of mappings stand in any order. Lazy nodes and objects are the
same. -/
inductive Value.Reordered : Value → Value → Prop where
  | leaf (atom : Leaf) : Reordered (.leaf atom) (.leaf atom)
  | sequence {items others : List Value} (hlength : items.length = others.length)
      (hitems : ∀ {index : Nat} {item other : Value},
        items[index]? = some item → others[index]? = some other → Reordered item other) :
      Reordered (.sequence items) (.sequence others)
  | mapping {entries others : List (String × Value)}
      (hkeys : (Table.keys entries).Perm (Table.keys others))
      (hentries : ∀ {key : String} {item other : Value},
        (key, item) ∈ entries → (key, other) ∈ others → Reordered item other) :
      Reordered (.mapping entries) (.mapping others)
  | dual {left right other twin : Value} (hleft : Reordered left other)
      (hright : Reordered right twin) : Reordered (.dual left right) (.dual other twin)
  | lazy (node : NodeRef) : Reordered (.lazy node) (.lazy node)
  | object (node : NodeRef) : Reordered (.object node) (.object node)

namespace Table

variable {α β : Type}

theorem exists_mem_of_perm {first : Table α} {second : Table β}
    (hkeys : (keys first).Perm (keys second)) {key : String} {item : α}
    (hmem : (key, item) ∈ first) : ∃ other, (key, other) ∈ second := by
  have hlisted : key ∈ keys second := hkeys.mem_iff.mp (mem_keys_of_mem hmem)
  obtain ⟨⟨_, other⟩, hother, rfl⟩ := List.mem_map.mp hlisted
  exact ⟨other, hother⟩

/-- Tables with the same keys stand side by side when one of them is put in the right order. -/
theorem exists_perm_of_keys {first : Table α} {second : Table β}
    (hkeys : (keys first).Perm (keys second)) :
    ∃ middle, List.Forall₂ (fun pair other => pair ∈ first ∧ other.1 = pair.1 ∧ other ∈ second)
      first middle ∧ middle.Perm second := by
  have hsecond : List.Forall₂ (fun key other => other.1 = key ∧ other ∈ second) (keys second)
      second :=
    List.forall₂_map_left_iff.mpr (List.forall₂_same.mpr fun _ hmem => ⟨rfl, hmem⟩)
  obtain ⟨middle, hmiddle, hperm⟩ := List.perm_comp_forall₂ hkeys hsecond
  refine ⟨middle, ?_, hperm⟩
  exact (List.forall₂_and_left _ _).mpr ⟨fun _ hmem => hmem, List.forall₂_map_left_iff.mp hmiddle⟩

/-- Where no key is listed twice, whatever stands under one key is related. -/
theorem Distinct.of_forall₂ {R : α → β → Prop} {first : Table α} {second : Table β}
    (htables : List.Forall₂ (fun pair other => other.1 = pair.1 ∧ R pair.2 other.2) first second)
    (hdistinct : Distinct first) {key : String} {item : α} {other : β}
    (hitem : (key, item) ∈ first) (hother : (key, other) ∈ second) : R item other := by
  have hsame : ∀ (pair : String × α) (twin : String × β),
      twin.1 = pair.1 ∧ R pair.2 twin.2 → twin.1 = pair.1 := fun _ _ hpair => hpair.1
  have hsecond : Distinct second := by
    rw [Distinct, keys_eq_of_forall₂ hsame htables]
    exact hdistinct
  obtain ⟨twin, htwin, -, hrelated⟩ :=
    get?_of_forall₂ hsame htables (hdistinct.get?_eq_some hitem)
  obtain rfl : twin = other := Option.some.inj (htwin.symm.trans (hsecond.get?_eq_some hother))
  exact hrelated

end Table

namespace Value

variable {value other : Value}

theorem Reordered.symm (hvalues : value.Reordered other) : other.Reordered value := by
  induction hvalues with
  | leaf atom => exact .leaf atom
  | sequence hlength _ ih => exact .sequence hlength.symm fun hitem hother => ih hother hitem
  | mapping hkeys _ ih => exact .mapping hkeys.symm fun hitem hother => ih hother hitem
  | dual _ _ hleft hright => exact .dual hleft hright
  | lazy node => exact .lazy node
  | object node => exact .object node

theorem Reordered.refl (hvalue : value.DistinctKeys) : value.Reordered value := by
  induction value using Value.induction with
  | leaf atom => exact .leaf atom
  | sequence items ih =>
      rw [DistinctKeys, itemsDistinct_iff] at hvalue
      refine .sequence rfl fun {index item other} hitem hother => ?_
      obtain rfl : item = other := Option.some.inj (hitem.symm.trans hother)
      have hmem := List.mem_of_getElem? hitem
      exact ih item hmem (hvalue item hmem)
  | mapping entries ih =>
      obtain ⟨hkeys, hentries⟩ := hvalue
      rw [entriesDistinct_iff] at hentries
      refine .mapping (.refl _) fun {key item other} hitem hother => ?_
      obtain rfl : item = other := Option.some.inj <|
        (hkeys.get?_eq_some hitem).symm.trans (hkeys.get?_eq_some hother)
      exact ih _ hitem (hentries _ hitem)
  | dual left right hleft hright => exact .dual (hleft hvalue.1) (hright hvalue.2)
  | lazy node => exact .lazy node
  | object node => exact .object node

theorem Reordered.distinctKeys (hvalues : value.Reordered other) (hvalue : value.DistinctKeys) :
    other.DistinctKeys := by
  induction hvalues with
  | leaf | lazy | object => exact trivial
  | sequence hlength _ ih =>
      rw [DistinctKeys, itemsDistinct_iff] at hvalue ⊢
      intro other hmem
      obtain ⟨index, hother⟩ := List.getElem?_of_mem hmem
      obtain ⟨hbound, -⟩ := List.getElem?_eq_some_iff.mp hother
      have hitem := List.getElem?_eq_getElem (hlength ▸ hbound)
      exact ih hitem hother (hvalue _ (List.mem_of_getElem? hitem))
  | mapping hkeys _ ih =>
      obtain ⟨hdistinct, hentries⟩ := hvalue
      rw [entriesDistinct_iff] at hentries
      refine ⟨hkeys.nodup hdistinct, entriesDistinct_iff.mpr ?_⟩
      rintro ⟨key, other⟩ hother
      obtain ⟨item, hitem⟩ := Table.exists_mem_of_perm hkeys.symm hother
      exact ih hitem hother (hentries _ hitem)
  | dual _ _ hleft hright => exact ⟨hleft hvalue.1, hright hvalue.2⟩

/-- Below each key stands the same up to the order of entries. -/
theorem item_reordered {entries others : List (String × Value)}
    (hkeys : (Table.keys entries).Perm (Table.keys others))
    (hentries : ∀ {key : String} {item other : Value},
      (key, item) ∈ entries → (key, other) ∈ others → item.Reordered other) (key : String) :
    ((Table.get? entries key).getD .null).Reordered ((Table.get? others key).getD .null) := by
  cases hitem : Table.get? entries key with
  | none =>
      have hnone : Table.get? others key = none := by
        rw [Table.get?_eq_none_iff, ← hkeys.mem_iff]
        exact Table.get?_eq_none_iff.mp hitem
      rw [hnone]
      exact .leaf .null
  | some item =>
      have hmem := Table.mem_of_get?_eq_some hitem
      obtain ⟨other, hother⟩ := Table.exists_mem_of_perm hkeys hmem
      cases hfound : Table.get? others key with
      | none => exact absurd (Table.mem_keys_of_mem hother) (Table.get?_eq_none_iff.mp hfound)
      | some twin => exact hentries hmem (Table.mem_of_get?_eq_some hfound)

end Value

namespace Selector

variable {selector other : Selector}

theorem Reordered.symm (hselectors : selector.Reordered other) : other.Reordered selector := by
  induction hselectors with
  | intro hkeys hnested _ ih =>
      exact .intro hkeys.symm (fun hchild htwin => (hnested htwin hchild).symm)
        fun hchild htwin => ih htwin hchild

theorem Reordered.distinctKeys (hselectors : selector.Reordered other)
    (hselector : selector.DistinctKeys) : other.DistinctKeys := by
  induction hselectors with
  | @intro selector other hkeys hnested _ ih =>
      obtain ⟨entries⟩ := selector
      obtain ⟨others⟩ := other
      obtain ⟨hdistinct, hchildren⟩ := distinctKeys_iff.mp hselector
      refine distinctKeys_iff.mpr ⟨hkeys.nodup hdistinct, fun key twin htwin => ?_⟩
      obtain ⟨child, hchild⟩ := Table.exists_mem_of_perm hkeys.symm htwin
      obtain ⟨child, rfl⟩ := Option.isSome_iff_exists.mp (hnested hchild htwin)
      exact ih hchild htwin (hchildren key child hchild)

theorem optionRel_of_isSome {α β : Type} {R : α → β → Prop} {first : Option α} {second : Option β}
    (hsame : first.isSome = second.isSome)
    (hrel : ∀ {child twin}, first = some child → second = some twin → R child twin) :
    Option.Rel R first second := by
  cases first with
  | none => cases second with
      | none => exact .none
      | some twin => cases hsame
  | some child => cases second with
      | none => cases hsame
      | some twin => exact .some (hrel rfl rfl)

theorem entriesAgree_iff {entries others : List (String × Option Selector)} :
    entriesAgree entries others = true ↔ ∀ entry ∈ entries,
      ∃ twin, Table.get? others entry.1 = some twin ∧ childAgrees entry.2 twin = true := by
  induction entries with
  | nil => simp [entriesAgree]
  | cons entry rest ih =>
      rw [entriesAgree, Bool.and_eq_true, ih, List.forall_mem_cons]
      cases hfound : Table.get? others entry.1 <;> simp

/-- Selectors that differ in the order of entries only are equal. -/
theorem Reordered.agrees (hselectors : selector.Reordered other) :
    selector.agrees other = true := by
  induction hselectors with
  | @intro selector other hkeys hnested _ ih =>
      obtain ⟨entries⟩ := selector
      have hlength : entries.length = other.entries.length := by
        simpa [keys, Table.keys] using hkeys.length_eq
      rw [Selector.agrees, hlength, beq_self_eq_true, Bool.true_and]
      refine entriesAgree_iff.mpr ?_
      rintro ⟨key, child⟩ hchild
      obtain ⟨_, hlisted⟩ := Table.exists_mem_of_perm hkeys hchild
      cases hfound : Table.get? other.entries key with
      | none => exact absurd (Table.mem_keys_of_mem hlisted) (Table.get?_eq_none_iff.mp hfound)
      | some twin =>
          have htwin := Table.mem_of_get?_eq_some hfound
          refine ⟨twin, rfl, ?_⟩
          have hrel : Option.Rel (fun child twin => child.agrees twin = true) child twin :=
            optionRel_of_isSome (hnested hchild htwin) fun hfirst hsecond =>
              ih (hfirst ▸ hchild) (hsecond ▸ htwin)
          cases hrel with
          | none => rfl
          | some hagree => exact hagree

theorem Reordered.picks (hselectors : selector.Reordered other) {key : String}
    {child twin : Option Selector} (hchild : selector.Picks key child)
    (htwin : other.Picks key twin) : Option.Rel Reordered child twin := by
  obtain ⟨hkeys, hnested, hchildren⟩ := hselectors
  have hcontains : selector.contains key = other.contains key :=
    congrFun (contains_of_perm hkeys) key
  obtain ⟨-, hchild | ⟨rfl, -, hnew⟩⟩ := hchild
  · obtain ⟨-, htwin | ⟨-, -, hnew⟩⟩ := htwin
    · exact optionRel_of_isSome (hnested hchild htwin) fun hfirst hsecond =>
        hchildren (hfirst ▸ hchild) (hsecond ▸ htwin)
    · rw [← hcontains, contains_of_mem_entries hchild] at hnew
      cases hnew
  · obtain ⟨-, htwin | ⟨rfl, -, -⟩⟩ := htwin
    · rw [hcontains, contains_of_mem_entries htwin] at hnew
      cases hnew
    · exact .none

/-- The attributes that are kept of mappings with the same keys are the same up to their order. -/
theorem Reordered.attributes (hselectors : selector.Reordered other) {present others : List String}
    (hpresent : present.Perm others) :
    ∃ middle, List.Forall₂ (fun picked twin => selector.Picks picked.1 picked.2 ∧
        EntryRel Reordered picked twin) (selector.attributes present) middle ∧
      middle.Perm (other.attributes others) := by
  have hkeys : (Table.keys (selector.attributes present)).Perm
      (Table.keys (other.attributes others)) := by
    obtain ⟨hkeys, -, -⟩ := hselectors
    have hcontains := contains_of_perm hkeys
    rw [Selector.attributes, Selector.attributes, Table.keys_append, Table.keys_append]
    refine .append ?_ ?_
    · have hnames := hkeys.filter fun key => key ≠ wildcard
      rwa [keys, keys, ← Table.keys_filter, ← Table.keys_filter] at hnames
    · rw [admitted, admitted, hasWildcard, hasWildcard, hcontains]
      split
      · exact ((hpresent.filter _).map _).map _
      · exact .refl _
  obtain ⟨middle, hmiddle, hperm⟩ := Table.exists_perm_of_keys hkeys
  refine ⟨middle, hmiddle.imp ?_, hperm⟩
  rintro ⟨key, child⟩ ⟨_, twin⟩ ⟨hchild, rfl, htwin⟩
  have hpicks := (mem_attributes_iff.mp hchild).1
  exact ⟨hpicks, rfl, hselectors.picks hpicks (mem_attributes_iff.mp htwin).1⟩

end Selector

inductive Mode.Reordered : Mode → Mode → Prop where
  | select {selector other : Selector} (hselectors : selector.Reordered other) :
      Reordered (.select selector) (.select other)
  | summary : Reordered .summary .summary

theorem Mode.reordered_ofChild {child twin : Option Selector}
    (hchild : Option.Rel Selector.Reordered child twin) :
    Mode.Reordered (.ofChild child) (.ofChild twin) := by
  cases hchild with
  | none => exact .summary
  | some hselectors => exact .select hselectors

/-! ### The projection in another order -/

section Projection

variable {σ : Type}

/-- Whenever the first computation yields something, so does the second; the results are the same
up to the order of entries, and the traces up to the order of steps. -/
def Eval.EntailsReordered {ε : Type} (first second : Eval σ ε Value) : Prop :=
  first.Entails List.Perm Value.Reordered second

theorem Eval.Yields.gives [Nonempty σ] {ε α : Type} {eval : Eval σ ε α} {result : α}
    {trace : List Step} (hyields : eval.Yields result trace) : eval.Gives result := by
  obtain ⟨after, hrun⟩ := hyields (Classical.arbitrary σ)
  exact ⟨_, _, hrun, rfl⟩

theorem Eval.traceRel_perm : TraceRel List.Perm where
  refl := .refl
  append := .append

variable [Nonempty σ] {world : World σ} (hworld : world.Constant) {fuel : Nat}
  (hagain : ∀ {mode twin : Mode} {value other : Value}, mode.DistinctKeys → mode.Reordered twin →
    value.DistinctKeys → value.Reordered other →
      (project world fuel mode value).EntailsReordered (project world fuel twin other))
include hworld hagain

theorem reordered_items {mode twin : Mode} (hmode : mode.DistinctKeys)
    (hmodes : mode.Reordered twin) {items others : List Value}
    (hdistinct : (Value.sequence items).DistinctKeys) (hlength : items.length = others.length)
    (hitems : ∀ {index : Nat} {item other : Value},
      items[index]? = some item → others[index]? = some other → item.Reordered other) :
    Eval.EntailsReordered
      (do return Value.sequence (← Eval.forEach (project world fuel mode) items))
      (do return Value.sequence (← Eval.forEach (project world fuel twin) others)) := by
  rw [Value.DistinctKeys, Value.itemsDistinct_iff] at hdistinct
  refine entails_items hworld Eval.traceRel_perm (R := Value.Reordered) ?_ ?_
  · refine List.forall₂_iff_get.mpr ⟨hlength, fun index hitem hother => ?_⟩
    have hsame := hitems (List.getElem?_eq_getElem hitem) (List.getElem?_eq_getElem hother)
    exact hagain hmode hmodes (hdistinct _ (List.get_mem items ⟨index, hitem⟩)) hsame
  · intro results twins hresults
    refine .sequence hresults.length_eq fun {index item other} hitem hother => ?_
    obtain ⟨hbound, rfl⟩ := List.getElem?_eq_some_iff.mp hitem
    obtain ⟨hbehind, rfl⟩ := List.getElem?_eq_some_iff.mp hother
    exact hresults.get hbound hbehind

theorem reordered_projectAttribute {mode twin : Mode} (hmode : mode.DistinctKeys)
    (hmodes : mode.Reordered twin) {item other : Value} (hitem : item.DistinctKeys)
    (hitems : item.Reordered other) :
    (projectAttribute (project world fuel mode) item).EntailsReordered
      (projectAttribute (project world fuel twin) other) := by
  have hprojected := hagain hmode hmodes hitem hitems
  cases hitems with
  | sequence hlength heach =>
      exact reordered_items hworld hagain hmode hmodes hitem hlength heach
  | _ => exact hprojected

theorem reordered_mapping {selector other : Selector} (hselector : selector.DistinctKeys)
    (hselectors : selector.Reordered other) {entries others : List (String × Value)}
    (hdistinct : (Value.mapping entries).DistinctKeys)
    (hkeys : (Table.keys entries).Perm (Table.keys others))
    (hentries : ∀ {key : String} {item twin : Value},
      (key, item) ∈ entries → (key, twin) ∈ others → item.Reordered twin) :
    (selectStep world (project world fuel) selector (.mapping entries)).EntailsReordered
      (selectStep world (project world fuel) other (.mapping others)) := by
  obtain ⟨hpresent, hitems⟩ := hdistinct
  rw [Value.entriesDistinct_iff] at hitems
  intro result trace hyields
  obtain ⟨outs, houts, rfl, rfl⟩ := (yields_mapping_iff hworld).mp hyields
  obtain ⟨middle, hmiddle, hperm⟩ := hselectors.attributes hkeys
  obtain ⟨twins, htwins, hresults, htraces⟩ := Eval.exists_outs Eval.traceRel_perm hmiddle houts
    (Q := YieldsAttribute world fuel others)
    (R := fun entry twin => twin.1 = entry.1 ∧ entry.2.Reordered twin.2) <| by
      rintro ⟨_, child⟩ ⟨_, twin⟩ ⟨⟨key, item⟩, trace⟩ ⟨hpicks, hsame, hchild⟩ ⟨hkey, hitem⟩
      obtain rfl := hsame
      obtain rfl : key = _ := hkey
      have hbelow : ((Table.get? entries key).getD .null).DistinctKeys :=
        Value.item_of_forall (by simp [Value.null, Value.DistinctKeys]) hitems key
      obtain ⟨found, rest, hfound, hsame, htrace⟩ := reordered_projectAttribute hworld hagain
        (hselector.ofChild hpicks) (Mode.reordered_ofChild hchild) hbelow
        (Value.item_reordered hkeys hentries key) item trace hitem
      exact ⟨((key, found), rest), ⟨rfl, hfound⟩, ⟨rfl, hsame⟩, htrace⟩
  -- What the attributes yield side by side is put in the order of the other selector.
  obtain ⟨final, hfinal, hmoved⟩ := List.perm_comp_forall₂ hperm.symm htwins
  have hkept : Table.keys (outs.map Prod.fst) =
      Table.keys (selector.attributes (Table.keys entries)) :=
    Table.keys_eq_of_forall₂ (fun _ _ hsame => hsame)
      (List.forall₂_map_right_iff.mpr (houts.imp fun _ _ hout => hout.1))
  have htables : List.Forall₂ (fun pair twin => twin.1 = pair.1 ∧ pair.2.Reordered twin.2)
      (outs.map Prod.fst) (twins.map Prod.fst) :=
    List.forall₂_map_left_iff.mpr (List.forall₂_map_right_iff.mpr hresults)
  refine ⟨_, _, (yields_mapping_iff hworld).mpr ⟨final, hfinal, rfl, rfl⟩, .mapping ?_ ?_, ?_⟩
  · rw [← Table.keys_eq_of_forall₂ (fun _ _ hpair => hpair.1) htables]
    exact (hmoved.symm.map _).map _
  · intro key item twin hitem htwin
    have hdistinct : Table.Distinct (outs.map Prod.fst) := by
      rw [Table.Distinct, hkept]
      exact Selector.distinct_attributes hselector.distinct_entries hpresent
    exact hdistinct.of_forall₂ htables hitem ((hmoved.map Prod.fst).mem_iff.mp htwin)
  · exact htraces.trans (hmoved.symm.flatMap_right _)

variable (hclean : world.DistinctKeys)
include hclean

theorem reordered_lazy {mode twin : Mode} (hmode : mode.DistinctKeys) (hmodes : mode.Reordered twin)
    (node : NodeRef) :
    Eval.EntailsReordered (evaluate world node >>= project world fuel mode)
      (evaluate world node >>= project world fuel twin) := by
  have hparts := composable_steady hworld
  refine .bind Eval.traceRel_perm (hparts.evaluate node) (hparts.project fuel mode) ?_
  intro value trace hyields
  have hvalue : value.DistinctKeys := givesOnly_evaluate hclean node value hyields.gives
  exact hagain hmode hmodes hvalue (.refl hvalue)

theorem reordered_selectStep {selector other : Selector} (hselector : selector.DistinctKeys)
    (hselectors : selector.Reordered other) {value changed : Value} (hvalue : value.DistinctKeys)
    (hvalues : value.Reordered changed) :
    (selectStep world (project world fuel) selector value).EntailsReordered
      (selectStep world (project world fuel) other changed) := by
  have hparts := composable_steady hworld
  have hmode : (Mode.select selector).DistinctKeys := hselector
  have hmodes : Mode.Reordered (.select selector) (.select other) := .select hselectors
  cases hvalues with
  | leaf atom => exact Eval.entails_pure Eval.traceRel_perm (.leaf atom)
  | object node => exact Eval.entails_pure Eval.traceRel_perm (.object node)
  | sequence hlength hitems =>
      exact reordered_items hworld hagain hmode hmodes hvalue hlength hitems
  | mapping hkeys hentries =>
      exact reordered_mapping hworld hagain hselector hselectors hvalue hkeys hentries
  | dual hleft hright =>
      exact .bind Eval.traceRel_perm hparts.detailView (fun _ => hparts.project fuel _ _)
        fun _ _ _ => hagain hmode hmodes hvalue.2 hright
  | lazy node => exact reordered_lazy hworld hagain hclean hmode hmodes node

theorem reordered_summaryStep {value changed : Value} (hvalue : value.DistinctKeys)
    (hvalues : value.Reordered changed) :
    (summaryStep world (project world fuel) value).EntailsReordered
      (summaryStep world (project world fuel) changed) := by
  have hparts := composable_steady hworld
  have hmode : Mode.summary.DistinctKeys := trivial
  have hpure : Eval.EntailsReordered (pure value : Eval σ Failure Value) (pure changed) :=
    Eval.entails_pure Eval.traceRel_perm hvalues
  cases hvalues with
  | leaf | object | sequence | mapping => exact hpure
  | dual hleft hright =>
      exact .bind Eval.traceRel_perm hparts.summaryView (fun _ => hparts.project fuel _ _)
        fun _ _ _ => hagain hmode .summary hvalue.1 hleft
  | lazy node => exact reordered_lazy hworld hagain hclean hmode .summary node

theorem reordered_projectStep {mode twin : Mode} (hmode : mode.DistinctKeys)
    (hmodes : mode.Reordered twin) {value changed : Value} (hvalue : value.DistinctKeys)
    (hvalues : value.Reordered changed) :
    (projectStep world (project world fuel) mode value).EntailsReordered
      (projectStep world (project world fuel) twin changed) := by
  have hparts := composable_steady hworld
  cases hmodes with
  | summary => exact reordered_summaryStep hworld hagain hclean hvalue hvalues
  | @select selector other hselectors =>
      have hstep {value changed : Value} (hvalue : value.DistinctKeys)
          (hvalues : value.Reordered changed) :=
        reordered_selectStep hworld hagain hclean hmode hselectors hvalue hvalues
      have hsame := hstep hvalue hvalues
      cases hvalues with
      | object node =>
          refine .bind Eval.traceRel_perm (hparts.unwrapObject _)
            (hparts.selectStep (hparts.project fuel) selector) ?_
          -- Both sides go on in the very same plain form.
          intro plain trace hyields
          have hplain := givesOnly_unwrapObject hclean hvalue plain hyields.gives
          exact hstep hplain (.refl hplain)
      | _ =>
          change Eval.EntailsReordered (Pure.pure _ >>= _) (Pure.pure _ >>= _)
          rw [Eval.pure_bind, Eval.pure_bind]
          exact hsame

end Projection

theorem reordered_project {σ : Type} [Nonempty σ] {world : World σ} (hworld : world.Constant)
    (hclean : world.DistinctKeys) (fuel : Nat) {mode twin : Mode} {value changed : Value}
    (hmode : mode.DistinctKeys) (hmodes : mode.Reordered twin) (hvalue : value.DistinctKeys)
    (hvalues : value.Reordered changed) :
    (project world fuel mode value).EntailsReordered (project world fuel twin changed) := by
  induction fuel generalizing mode twin value changed with
  | zero => exact Eval.entails_exhausted
  | succ fuel ih =>
      exact reordered_projectStep hworld (fun hmode hmodes hvalue hvalues =>
        ih hmode hmodes hvalue hvalues) hclean hmode hmodes hvalue hvalues

/-- **Reordering.** Where nodes always answer the same, and give no mapping that lists a key twice,
let two selectors and two values differ in the order of entries only. Then the selectors are equal.
Projecting the one value by the one selector succeeds if and only if projecting the other by the
other does; then the results differ in the order of entries only, and the traces, and so the calls,
in the order of steps. -/
theorem select_reordered {σ : Type} {world : World σ} (hworld : world.Constant)
    (hclean : world.DistinctKeys) {selector other : Selector} (hselector : selector.DistinctKeys)
    (hselectors : selector.Reordered other) {value changed : Value} (hvalue : value.DistinctKeys)
    (hvalues : value.Reordered changed) (fuel : Nat) (state later : σ) :
    selector.agrees other = true ∧
      ((∃ result after trace,
          select world fuel selector value state = some ⟨.ok result, after, trace⟩) ↔
        ∃ result after trace,
          select world fuel other changed later = some ⟨.ok result, after, trace⟩) ∧
      ∀ {result final after last trace rest},
        select world fuel selector value state = some ⟨.ok result, after, trace⟩ →
          select world fuel other changed later = some ⟨.ok final, last, rest⟩ →
            result.Reordered final ∧ trace.Perm rest ∧ (callsOf trace).Perm (callsOf rest) := by
  have : Nonempty σ := ⟨state⟩
  have hsteady := composable_steady hworld
  have hmode : (Mode.select selector).DistinctKeys := hselector
  have hother : (Mode.select other).DistinctKeys := hselectors.distinctKeys hselector
  have hthere := reordered_project hworld hclean fuel hmode (.select hselectors) hvalue hvalues
  have hback := reordered_project hworld hclean fuel hother (.select hselectors.symm)
    (hvalues.distinctKeys hvalue) hvalues.symm
  refine ⟨hselectors.agrees, ⟨?_, ?_⟩, ?_⟩
  · rintro ⟨result, after, trace, hrun⟩
    obtain ⟨final, rest, hyields, -⟩ := hthere _ _ ((hsteady.project _ _ _).yields hrun)
    obtain ⟨last, hfinal⟩ := hyields later
    exact ⟨final, last, rest, hfinal⟩
  · rintro ⟨result, after, trace, hrun⟩
    obtain ⟨final, rest, hyields, -⟩ := hback _ _ ((hsteady.project _ _ _).yields hrun)
    obtain ⟨last, hfinal⟩ := hyields state
    exact ⟨final, last, rest, hfinal⟩
  · intro result final after last trace rest hrun hother
    obtain ⟨found, steps, hyields, hresults, htraces⟩ :=
      hthere _ _ ((hsteady.project _ _ _).yields hrun)
    obtain ⟨_, hfound⟩ := hyields later
    obtain ⟨houtcome, -, rfl⟩ := Run.mk.inj (Option.some.inj (hfound.symm.trans hother))
    obtain rfl := Except.ok.inj houtcome
    exact ⟨hresults, htraces, htraces.filter _⟩

theorem select_reordered_sample :
    let node : NodeRef := ⟨0, "node"⟩
    let record : NodeRef := ⟨1, "record"⟩
    let truth : Value := .leaf (.bool true)
    let world : World Nat :=
      { produce := fun _ calls => (.ok truth, calls + 1)
        convert := fun _ calls => (some (.mapping [("y", truth)]), calls + 1) }
    let selector : Selector := ⟨[("b", some ⟨[("y", none), ("x", none)]⟩), ("*", none)]⟩
    let other : Selector := ⟨[("*", none), ("b", some ⟨[("x", none), ("y", none)]⟩)]⟩
    let item : Value := .mapping [("x", .lazy node), ("y", .dual truth .null)]
    let twin : Value := .mapping [("y", .dual truth .null), ("x", .lazy node)]
    let value : Value := .mapping [("c", .lazy node), ("b", .sequence [item, .object record])]
    let changed : Value := .mapping [("b", .sequence [twin, .object record]), ("c", .lazy node)]
    let result : Value := .mapping [("b", .sequence [.mapping [("y", truth), ("x", truth)],
      .mapping [("y", truth), ("x", .null)]]), ("c", truth)]
    let trace : List Step := [.logged .summaryView, .logged .evaluating, .produced node (.ok truth),
      .converted record (some (.mapping [("y", truth)])), .logged .evaluating,
      .produced node (.ok truth)]
    world.Constant ∧ world.DistinctKeys ∧ selector.DistinctKeys ∧ selector.Reordered other ∧
      value.DistinctKeys ∧ value.Reordered changed ∧
      select world 4 selector value 0 = some ⟨.ok result, 3, trace⟩ ∧
      ∃ final last rest, select world 4 other changed 7 = some ⟨.ok final, last, rest⟩ ∧
        result.Reordered final ∧ trace.Perm rest ∧ (callsOf trace).Perm (callsOf rest) := by
  intro node record truth world selector other item twin value changed result trace
  have hworld : world.Constant := ⟨fun _ _ _ => rfl, fun _ _ _ => rfl⟩
  have hclean : world.DistinctKeys := by
    constructor
    · intro asked calls produced hanswer
      obtain rfl := Except.ok.inj hanswer
      exact trivial
    · intro asked calls plain hanswer
      obtain rfl := Option.some.inj hanswer
      simp [truth, Value.DistinctKeys, Value.EntriesDistinct, Table.Distinct]
  have hselector : selector.DistinctKeys := by
    simp [selector, Selector.DistinctKeys, Selector.ChildrenDistinct, Table.Distinct]
  have hinner : Selector.Reordered ⟨[("y", none), ("x", none)]⟩ ⟨[("x", none), ("y", none)]⟩ :=
    .intro (by decide) (by grind) (by simp)
  have hselectors : selector.Reordered other := by
    refine .intro (by decide) ?_ ?_
    · grind
    · intro key child twin hchild htwin
      obtain ⟨rfl, rfl⟩ : key = "b" ∧ child = ⟨[("y", none), ("x", none)]⟩ := by
        simpa [selector] using hchild
      obtain rfl : twin = ⟨[("x", none), ("y", none)]⟩ := by simpa [other] using htwin
      exact hinner
  have hvalue : value.DistinctKeys := by
    simp [value, item, truth, Value.null, Value.DistinctKeys, Value.EntriesDistinct,
      Value.ItemsDistinct, Table.Distinct]
  have hitem : item.Reordered twin := by
    refine .mapping (by decide) fun {key part other} hpart hother => ?_
    obtain ⟨rfl, rfl⟩ | ⟨rfl, rfl⟩ : key = "x" ∧ part = .lazy node ∨
        key = "y" ∧ part = .dual truth .null := by simpa [item] using hpart
    · obtain rfl : other = .lazy node := by simpa using hother
      exact .lazy node
    · obtain rfl : other = .dual truth .null := by simpa using hother
      exact .dual (.leaf _) (.leaf _)
  have hitems : Value.Reordered (.sequence [item, .object record])
      (.sequence [twin, .object record]) := by
    refine .sequence rfl fun {index part other} hpart hother => ?_
    rcases index with _ | _ | index
    · exact Option.some.inj hpart ▸ Option.some.inj hother ▸ hitem
    · exact Option.some.inj hpart ▸ Option.some.inj hother ▸ .object record
    · cases hpart
  have hvalues : value.Reordered changed := by
    refine .mapping (by decide) fun {key part other} hpart hother => ?_
    obtain ⟨rfl, rfl⟩ | ⟨rfl, rfl⟩ : key = "c" ∧ part = .lazy node ∨
        key = "b" ∧ part = .sequence [item, .object record] := by simpa [value] using hpart
    · obtain rfl : other = .lazy node := by simpa [changed] using hother
      exact .lazy node
    · obtain rfl : other = .sequence [twin, .object record] := by simpa [changed] using hother
      exact hitems
  have hrun : select world 4 selector value 0 = some ⟨.ok result, 3, trace⟩ := by
    simp [select, project, projectStep, selectStep, summaryStep, unwrapObject, projectEntries,
      projectAttribute, Selector.attributes, Selector.named, Selector.admitted,
      Selector.hasWildcard, Selector.contains, Selector.wildcard, Table.contains, Table.get?_cons,
      Mode.ofChild, evaluate, bind, Eval.bind, Pure.pure, Eval.pure, Eval.convert, Eval.produce,
      Eval.log, Eval.forEach, value, item, selector, world, result, trace, truth, node, record,
      Value.null]
  obtain ⟨-, hsucceeds, hsame⟩ :=
    select_reordered hworld hclean hselector hselectors hvalue hvalues 4 0 7
  obtain ⟨final, last, rest, hother⟩ := hsucceeds.mp ⟨result, 3, trace, hrun⟩
  exact ⟨hworld, hclean, hselector, hselectors, hvalue, hvalues, hrun, final, last, rest, hother,
    hsame hrun hother⟩

end TreeProjection
