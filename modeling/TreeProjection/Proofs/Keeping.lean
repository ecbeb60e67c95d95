import Mathlib.Tactic.Common
import TreeProjection.Proofs.Addresses
import TreeProjection.Proofs.Attributes
import TreeProjection.Proofs.Documents
import TreeProjection.Proofs.TreeInduction

/-!
# What is kept of what is kept

What a mode keeps is nested no deeper than the value and repeats no key, and keeping the same from
that again changes nothing (`Mode.keep_keep`). If one selector covers another, it keeps all that the
other looks at: the narrow selector keeps the same of the wide projection as of the value itself
(`Mode.keep_keep_of_covers`), so a wide projection may be narrowed later (`select_absorbs`).
-/

namespace TreeProjection

theorem Value.MadeOf.keep {p : Leaf → Prop} {value : Value} (hnull : p .null)
    (hvalue : value.MadeOf p) (mode : Mode) : (mode.keep value).MadeOf p := by
  induction hvalue generalizing mode with
  | leaf hatom =>
      rw [Mode.keep_leaf]
      exact .leaf hatom
  | sequence _ ih =>
      rw [Mode.keep_sequence]
      exact .sequence (List.forall_mem_map.mpr fun item hmem => ih item hmem mode)
  | mapping hentries ih =>
      cases mode with
      | summary =>
          rw [Mode.keep_summary]
          exact .mapping hentries
      | select selector =>
          rw [Mode.keep_mapping]
          refine .mapping (List.forall_mem_map.mpr fun entry _ => ?_)
          -- The only leaf that a projection adds is the null for a missing attribute.
          exact Value.item_of_forall (p := fun item => ((Mode.ofChild entry.2).keep item).MadeOf p)
            (by simpa [Value.null] using MadeOf.leaf hnull)
            (fun part hpart => ih part hpart (.ofChild entry.2)) entry.1

theorem Value.SpelledOut.madeOf {value : Value} (hvalue : value.SpelledOut) :
    value.MadeOf fun _ => True := by
  induction hvalue with
  | leaf atom => exact .leaf trivial
  | sequence _ ih => exact .sequence ih
  | mapping _ ih => exact .mapping ih

theorem Value.SpelledOut.keep {value : Value} (hvalue : value.SpelledOut) (mode : Mode) :
    (mode.keep value).SpelledOut :=
  (hvalue.madeOf.keep trivial mode).spelledOut

namespace Mode

theorem height_keep_le (mode : Mode) (value : Value) : (mode.keep value).height ≤ value.height := by
  induction value using Value.induction generalizing mode with
  | leaf atom => exact Nat.le_of_eq (congrArg Value.height (mode.keep_leaf atom))
  | sequence items ih =>
      rw [keep_sequence, Value.height, Value.height, Nat.add_le_add_iff_right,
        Value.itemsHeight_le_iff, List.forall_mem_map]
      intro item hitem
      exact Nat.le_trans (ih item hitem mode) (Value.height_le_itemsHeight hitem)
  | mapping entries ih =>
      cases mode with
      | summary => exact Nat.le_of_eq (congrArg Value.height (keep_summary _))
      | select selector =>
          rw [keep_mapping, Value.height, Value.height, Nat.add_le_add_iff_right,
            Value.entriesHeight_le_iff, List.forall_mem_map]
          intro entry _
          have hitem := Value.item_of_forall (p := fun item =>
            ((ofChild entry.2).keep item).height ≤ item.height) (by simp [Value.null])
            (fun entry hmem => ih entry hmem _) entry.1
          exact Nat.le_trans hitem (Value.height_item_le entries entry.1)
  | dual | lazy | object => simp [keep]

theorem distinctKeys_keep {mode : Mode} (hmode : mode.DistinctKeys) {value : Value}
    (hvalue : value.DistinctKeys) : (mode.keep value).DistinctKeys := by
  induction value using Value.induction generalizing mode with
  | leaf atom => simp [Value.DistinctKeys]
  | sequence items ih =>
      rw [Value.DistinctKeys, Value.itemsDistinct_iff] at hvalue
      rw [keep_sequence, Value.DistinctKeys, Value.itemsDistinct_iff, List.forall_mem_map]
      intro item hitem
      exact ih item hitem hmode (hvalue item hitem)
  | mapping entries ih =>
      cases mode with
      | summary => rwa [keep_summary]
      | select selector =>
          have hselector : selector.DistinctKeys := hmode
          obtain ⟨hkeys, hentries⟩ := hvalue
          rw [Value.entriesDistinct_iff] at hentries
          rw [keep_mapping, Value.DistinctKeys, Value.entriesDistinct_iff, List.forall_mem_map]
          constructor
          · have hdistinct := Selector.distinct_attributes hselector.distinct_entries hkeys
            simpa [Table.Distinct, Table.keys, Function.comp_def] using hdistinct
          · intro entry hentry
            have hchild : (ofChild entry.2).DistinctKeys :=
              hselector.ofChild (Selector.mem_attributes_iff.mp hentry).1
            exact Value.item_of_forall (p := fun item => ((ofChild entry.2).keep item).DistinctKeys)
              (by simp [Value.null, Value.DistinctKeys])
              (fun entry hmem => ih entry hmem hchild (hentries entry hmem)) entry.1
  | dual | lazy | object => simpa [keep] using hvalue

theorem keep_keep {mode : Mode} (hmode : mode.DistinctKeys) (value : Value) :
    mode.keep (mode.keep value) = mode.keep value := by
  induction value using Value.induction generalizing mode with
  | leaf atom => simp
  | sequence items ih =>
      rw [keep_sequence, keep_sequence, List.map_map]
      exact congrArg Value.sequence (List.map_congr_left fun item hitem => ih item hitem hmode)
  | mapping entries ih =>
      cases mode with
      | summary => simp
      | select selector =>
          have hselector : selector.DistinctKeys := hmode
          rw [keep_mapping, keep_mapping, Table.keys_map (selector.attributes _) fun key child =>
            (ofChild child).keep ((Table.get? entries key).getD .null),
            Selector.attributes_keys_attributes]
          refine congrArg Value.mapping (List.map_congr_left fun entry hentry => ?_)
          have hchild : (ofChild entry.2).DistinctKeys :=
            hselector.ofChild (Selector.mem_attributes_iff.mp hentry).1
          have hfound := Selector.get?_attributes_of_mem hselector.distinct_entries hentry
          rw [Table.get?_map (selector.attributes _) (fun key child =>
            (ofChild child).keep ((Table.get? entries key).getD .null)), hfound, Option.map_some,
            Option.getD_some]
          refine Prod.ext rfl ?_
          exact Value.item_of_forall (p := fun item =>
            (ofChild entry.2).keep ((ofChild entry.2).keep item) = (ofChild entry.2).keep item)
            (by simp [Value.null]) (fun entry hmem => ih entry hmem hchild) entry.1
  | dual | lazy | object => simp [keep]

/-- What a step leads to, or null if it leads nowhere, is kept in the mode that the step leads to. -/
theorem getD_child?_keep {mode next : Mode} {step : AddressStep}
    (henter : mode.enter? step = some next) (value : Value) :
    ((mode.keep value).child? step).getD .null =
      next.keep ((value.child? step).getD .null) := by
  cases hpart : value.child? step with
  | some part => rw [child?_keep_of_some hpart, henter, Option.map_some, Option.getD_some,
      Option.getD_some]
  | none =>
      rw [Option.getD_none, Value.null, keep_leaf]
      cases hkept : (mode.keep value).child? step with
      | none => rfl
      | some other => exact ((child?_keep_of_none hpart other).mp hkept).1

end Mode

/-! ### A narrow selector after a wide one -/

namespace Selector

/-- No level names the key `*`. -/
inductive WildcardFree : Selector → Prop where
  | intro {selector : Selector} (hkeys : ∀ entry ∈ selector.entries, entry.1 ≠ wildcard)
      (hchildren : ∀ key child, (key, some child) ∈ selector.entries → WildcardFree child) :
      WildcardFree selector

mutual

/-- The first selector covers each entry of the second. -/
inductive Covers : Selector → Selector → Prop where
  | intro {wide narrow : Selector}
      (hentries : ∀ {key : String} {child : Option Selector}, (key, child) ∈ narrow.entries →
        CoversEntry wide key child) : Covers wide narrow

/-- The selector names the key bare, or with a child that covers the child of the entry, or admits
the key by its wildcard. -/
inductive CoversEntry : Selector → String → Option Selector → Prop where
  | bare {wide : Selector} {key : String} (child : Option Selector)
      (hnamed : wide.get? key = some none) : CoversEntry wide key child
  | nested {wide other child : Selector} {key : String}
      (hnamed : wide.get? key = some (some other)) (hcovers : Covers other child) :
      CoversEntry wide key (some child)
  | admitted {wide : Selector} {key : String} (child : Option Selector)
      (hunnamed : wide.get? key = none) (hwildcard : wide.hasWildcard = true) :
      CoversEntry wide key child

end

theorem WildcardFree.attributes_eq {selector : Selector} (hfree : selector.WildcardFree)
    (present : List String) : selector.attributes present = selector.entries := by
  obtain ⟨hkeys, -⟩ := hfree
  have hwildcard : selector.hasWildcard = false := by
    rw [Bool.eq_false_iff]
    intro hlisted
    obtain ⟨entry, hentry, hkey⟩ := List.mem_map.mp (Table.contains_iff_mem_keys.mp hlisted)
    exact hkeys entry hentry hkey
  rw [attributes, admitted, if_neg (by simp [hwildcard]), List.append_nil, named,
    List.filter_eq_self]
  simpa using hkeys

theorem CoversEntry.enter? {wide : Selector} {key : String} {child : Option Selector}
    (hentry : CoversEntry wide key child) (hstar : key ≠ wildcard) :
    (Mode.select wide).enter? (.key key) = some .summary ∨
      ∃ other inner, child = some inner ∧ Covers other inner ∧
        (Mode.select wide).enter? (.key key) = some (.select other) := by
  cases hentry with
  | bare child hnamed => exact Or.inl (by simp [Mode.enter?, hstar, hnamed, Mode.ofChild])
  | nested hnamed hcovers =>
      exact Or.inr ⟨_, _, rfl, hcovers, by simp [Mode.enter?, hstar, hnamed, Mode.ofChild]⟩
  | admitted child hunnamed hwildcard =>
      exact Or.inl (by simp [Mode.enter?, hstar, hunnamed, hwildcard])

end Selector

/-- What a narrow selector keeps of a value, it keeps of what a wide one keeps of it. -/
theorem Mode.keep_keep_of_covers {wide narrow : Selector} (hnarrow : narrow.WildcardFree)
    (hcovers : wide.Covers narrow) (value : Value) :
    (Mode.select narrow).keep ((Mode.select wide).keep value) =
      (Mode.select narrow).keep value := by
  induction value using Value.induction generalizing wide narrow with
  | leaf atom => simp
  | sequence items ih =>
      rw [keep_sequence, keep_sequence, keep_sequence, List.map_map]
      exact congrArg Value.sequence
        (List.map_congr_left fun item hitem => ih item hitem hnarrow hcovers)
  | mapping entries ih =>
      obtain ⟨kept, hkept⟩ : ∃ kept, (Mode.select wide).keep (.mapping entries) = .mapping kept :=
        ⟨_, keep_mapping wide entries⟩
      rw [hkept, keep_mapping, keep_mapping, hnarrow.attributes_eq, hnarrow.attributes_eq]
      refine congrArg Value.mapping (List.map_congr_left fun entry hentry => Prod.ext rfl ?_)
      obtain ⟨key, child⟩ := entry
      obtain ⟨hkeys, hchildren⟩ := hnarrow
      obtain ⟨hentries⟩ := hcovers
      have hitem : ∀ next, (Mode.select wide).enter? (.key key) = some next →
          (Table.get? kept key).getD .null = next.keep ((Table.get? entries key).getD .null) := by
        intro next henter
        have hstep := getD_child?_keep henter (.mapping entries)
        rwa [hkept] at hstep
      -- The wide selector keeps the whole item, or what covers the child of the entry.
      rcases (hentries hentry).enter? (hkeys _ hentry) with
        hsummary | ⟨other, inner, rfl, hinner, hother⟩
      · rw [hitem _ hsummary, keep_summary]
      · rw [hitem _ hother]
        exact Value.item_of_forall (p := fun item =>
          (Mode.select inner).keep ((Mode.select other).keep item) = (Mode.select inner).keep item)
          (by simp [Value.null])
          (fun part hpart => ih part hpart (hchildren key inner hentry) hinner) key
  | dual | lazy | object => simp [keep]

/-- **A narrow filter absorbs a wider one.** Of a value that is spelled out, a selector without
wildcards makes the same of the projection by a selector that covers it as of the value itself. -/
theorem select_absorbs {wide narrow : Selector} (hnarrow : narrow.WildcardFree)
    (hcovers : wide.Covers narrow) {value : Value} (hvalue : value.SpelledOut) :
    ∃ broad result : Value, ∀ {σ : Type} (world : World σ) (state : σ) (fuel : Nat),
      value.height < fuel →
        select world fuel wide value state = some ⟨.ok broad, state, []⟩ ∧
          select world fuel narrow value state = some ⟨.ok result, state, []⟩ ∧
          select world fuel narrow broad state = some ⟨.ok result, state, []⟩ := by
  refine ⟨(Mode.select wide).keep value, (Mode.select narrow).keep value, ?_⟩
  intro σ world state fuel hfuel
  have hbroad : ((Mode.select wide).keep value).height < fuel :=
    Nat.lt_of_le_of_lt ((Mode.select wide).height_keep_le value) hfuel
  refine ⟨?_, ?_, ?_⟩
  · rw [select, project_spelledOut hvalue hfuel]
    rfl
  · rw [select, project_spelledOut hvalue hfuel]
    rfl
  · rw [select, project_spelledOut (hvalue.keep _) hbroad,
      Mode.keep_keep_of_covers hnarrow hcovers]
    rfl

theorem select_absorbs_sample :
    let inner : Selector := ⟨[("z", none), ("x", none)]⟩
    let narrow : Selector := ⟨[("b", none), ("a", some inner), ("c", some inner)]⟩
    let wide : Selector := ⟨[("*", none), ("a", some ⟨[("x", none), ("*", none)]⟩)]⟩
    let value : Value := .mapping [("*", .null), ("b", .leaf (.bool true)),
      ("a", .sequence [.mapping [("y", .null), ("x", .leaf (.bool true))]])]
    let broad : Value := .mapping [("a", .sequence [.mapping [("x", .leaf (.bool true)),
      ("y", .null)]]), ("b", .leaf (.bool true))]
    let result : Value := .mapping [("b", .leaf (.bool true)),
      ("a", .sequence [.mapping [("z", .null), ("x", .leaf (.bool true))]]), ("c", .null)]
    narrow.WildcardFree ∧ wide.Covers narrow ∧ value.SpelledOut ∧ value.height < 4 ∧
      select World.closed 4 wide value () = some ⟨.ok broad, (), []⟩ ∧
      select World.closed 4 narrow broad () = some ⟨.ok result, (), []⟩ := by
  intro inner narrow wide value broad result
  have hinner : inner.WildcardFree := .intro (by decide) (by simp [inner])
  have hnarrow : narrow.WildcardFree := by
    refine .intro (by simp [narrow, Selector.wildcard]) fun key child hmem => ?_
    obtain ⟨-, rfl⟩ | ⟨-, rfl⟩ : key = "a" ∧ child = inner ∨ key = "c" ∧ child = inner := by
      simpa [narrow] using hmem
    · exact hinner
    · exact hinner
  have hcoversInner : Selector.Covers ⟨[("x", none), ("*", none)]⟩ inner := by
    refine .intro fun {key child} hmem => ?_
    obtain ⟨rfl, rfl⟩ | ⟨rfl, rfl⟩ : key = "z" ∧ child = none ∨ key = "x" ∧ child = none := by
      simpa [inner] using hmem
    · exact .admitted none rfl rfl
    · exact .bare none rfl
  have hcovers : wide.Covers narrow := by
    refine .intro fun {key child} hmem => ?_
    obtain ⟨rfl, rfl⟩ | ⟨rfl, rfl⟩ | ⟨rfl, rfl⟩ : key = "b" ∧ child = none ∨
        key = "a" ∧ child = some inner ∨ key = "c" ∧ child = some inner := by
      simpa [narrow] using hmem
    · exact .admitted none rfl rfl
    · exact .nested rfl hcoversInner
    · exact .admitted (some inner) rfl rfl
  have hvalue : value.SpelledOut :=
    .mapping (by simp [Value.null, Value.SpelledOut.leaf, Value.SpelledOut.sequence,
      Value.SpelledOut.mapping])
  have hheight : value.height < 4 := by
    simp [value, Value.height, Value.entriesHeight, Value.itemsHeight, Value.null]
  obtain ⟨other, kept, hruns⟩ := select_absorbs hnarrow hcovers hvalue
  obtain ⟨hwide, hdirect, hagain⟩ := hruns World.closed () 4 hheight
  have hbroad : select World.closed 4 wide value () = some ⟨.ok broad, (), []⟩ := rfl
  have hresult : select World.closed 4 narrow value () = some ⟨.ok result, (), []⟩ := rfl
  obtain rfl : other = broad := by simpa using hwide.symm.trans hbroad
  obtain rfl : kept = result := by simpa using hdirect.symm.trans hresult
  exact ⟨hnarrow, hcovers, hvalue, hheight, hbroad, hagain⟩

end TreeProjection
