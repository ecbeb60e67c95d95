import Mathlib.Tactic.Common
import TreeProjection.Proofs.Brackets
import TreeProjection.Proofs.Tables

/-!
# The selectors that a text can spell

A selector is built by naming attributes one after the other, and can then name anything: the only
thing it cannot do is name a key twice (`built_iff_distinctKeys`). The reader builds a smaller class
of selectors. No key of theirs holds a comma or a bracket, and they name the empty key only with a
child (`wellFormed_parse`); each level that is open while a text is read has this shape already.
-/

namespace TreeProjection

namespace Selector

/-- No key holds a comma or a bracket and the empty key is not bare, on any level. -/
inductive WellFormed : Selector → Prop where
  | intro {entries : List (String × Option Selector)}
      (hkeys : ∀ key child, (key, child) ∈ entries → ∀ c ∈ key.toList, IsLabelChar c)
      (hempty : ("", none) ∉ entries)
      (hchildren : ∀ key child, (key, some child) ∈ entries → WellFormed child) :
      WellFormed ⟨entries⟩

/-- Made from the empty selector by naming attributes one after the other. -/
inductive Built : Selector → Prop where
  | empty : Built .empty
  | bare {selector : Selector} (hselector : Built selector) (key : String) :
      Built (selector.insert key none)
  | nested {selector child : Selector} (hselector : Built selector) (hchild : Built child)
      (key : String) : Built (selector.insert key (some child))

/-! ### No key twice -/

theorem childrenDistinct_iff {entries : List (String × Option Selector)} :
    ChildrenDistinct entries ↔ ∀ key child, (key, some child) ∈ entries → child.DistinctKeys := by
  induction entries with
  | nil => simp [ChildrenDistinct]
  | cons entry rest ih =>
      obtain ⟨key, _ | child⟩ := entry
      · rw [ChildrenDistinct, ih]
        simp
      · rw [ChildrenDistinct, ih]
        constructor
        · rintro ⟨hchild, hrest⟩ other otherChild hmem
          rcases List.mem_cons.mp hmem with heq | htail
          · obtain ⟨-, hsome⟩ := Prod.mk.inj heq
            rwa [Option.some.inj hsome]
          · exact hrest other otherChild htail
        · intro hall
          exact ⟨hall key child (List.mem_cons_self ..),
            fun other otherChild htail => hall other otherChild (List.mem_cons_of_mem _ htail)⟩

theorem distinctKeys_iff {entries : List (String × Option Selector)} :
    DistinctKeys ⟨entries⟩ ↔ Table.Distinct entries ∧
      ∀ key child, (key, some child) ∈ entries → child.DistinctKeys := by
  rw [DistinctKeys, childrenDistinct_iff]

theorem DistinctKeys.insert {selector : Selector} (hselector : selector.DistinctKeys) {key : String}
    {child : Option Selector} (hchild : ∀ inner, child = some inner → inner.DistinctKeys) :
    (selector.insert key child).DistinctKeys := by
  obtain ⟨entries⟩ := selector
  obtain ⟨hdistinct, hchildren⟩ := distinctKeys_iff.mp hselector
  refine distinctKeys_iff.mpr ⟨hdistinct.insert key child, fun other inner hmem => ?_⟩
  rcases Table.mem_insert hmem with heq | hold
  · exact hchild inner (Prod.mk.inj heq).2.symm
  · exact hchildren other inner hold

theorem Built.distinctKeys {selector : Selector} (hbuilt : Built selector) :
    selector.DistinctKeys := by
  induction hbuilt with
  | empty => exact distinctKeys_iff.mpr ⟨List.nodup_nil, fun _ _ hmem => absurd hmem (by simp)⟩
  | bare _ key ih => exact ih.insert fun inner hinner => absurd hinner (by simp)
  | nested _ _ key ih hchild => exact ih.insert fun inner hinner => Option.some.inj hinner ▸ hchild

theorem built_ofList {pairs : List (String × Option Selector)}
    (hchildren : ∀ key child, (key, some child) ∈ pairs → Built child) : Built (ofList pairs) := by
  induction pairs using List.reverseRecOn with
  | nil => exact .empty
  | append_singleton pairs pair ih =>
      obtain ⟨key, child⟩ := pair
      have hbuilt : Built (ofList pairs) :=
        ih fun other inner hmem => hchildren other inner (List.mem_append_left _ hmem)
      rw [ofList, Table.ofList_concat]
      cases child with
      | none => exact hbuilt.bare key
      | some inner => exact hbuilt.nested (hchildren key inner (by simp)) key

theorem sizeOf_child_lt {entries : List (String × Option Selector)} {key : String}
    {child : Selector} (hmem : (key, some child) ∈ entries) :
    sizeOf child < sizeOf (Selector.mk entries) := by
  have hlt := List.sizeOf_lt_of_mem hmem
  simp only [Prod.mk.sizeOf_spec, Option.some.sizeOf_spec] at hlt
  rw [Selector.mk.sizeOf_spec]
  omega

theorem DistinctKeys.built : {selector : Selector} → selector.DistinctKeys → Built selector
  | ⟨entries⟩, hselector => by
      obtain ⟨hdistinct, hchildren⟩ := distinctKeys_iff.mp hselector
      have hbuilt : Built (ofList entries) :=
        built_ofList fun key child hmem => DistinctKeys.built (hchildren key child hmem)
      rwa [ofList, hdistinct.ofList_eq] at hbuilt
termination_by selector => sizeOf selector
decreasing_by exact sizeOf_child_lt hmem

/-- Whatever names no key twice can be built. -/
theorem built_iff_distinctKeys {selector : Selector} : Built selector ↔ selector.DistinctKeys :=
  ⟨Built.distinctKeys, DistinctKeys.built⟩

/-! ### What the reader builds -/

theorem wellFormed_empty : WellFormed empty := .intro (by simp) (by simp) (by simp)

theorem WellFormed.insert {selector : Selector} (hselector : WellFormed selector) {key : String}
    {child : Option Selector} (hkey : ∀ c ∈ key.toList, IsLabelChar c)
    (hempty : key = "" → child ≠ none) (hchild : ∀ inner, child = some inner → WellFormed inner) :
    WellFormed (selector.insert key child) := by
  cases hselector with
  | intro hkeys hbare hchildren =>
      refine .intro ?_ ?_ ?_
      · intro other inner hmem
        rcases Table.mem_insert hmem with heq | hold
        · rwa [(Prod.mk.inj heq).1]
        · exact hkeys other inner hold
      · intro hmem
        rcases Table.mem_insert hmem with heq | hold
        · obtain ⟨hname, hnone⟩ := Prod.mk.inj heq
          exact hempty hname.symm hnone.symm
        · exact hbare hold
      · intro other inner hmem
        rcases Table.mem_insert hmem with heq | hold
        · exact hchild inner (Prod.mk.inj heq).2.symm
        · exact hchildren other inner hold

namespace OpenLevel

/-- What holds of every level that is open while a text is read. -/
structure Sound (level : OpenLevel) : Prop where
  label : ∀ c ∈ level.label.toList, IsLabelChar c
  wellFormed : WellFormed ⟨level.entries⟩
  built : Built ⟨level.entries⟩

theorem Sound.empty : empty.Sound := ⟨by simp [OpenLevel.empty], wellFormed_empty, .empty⟩

variable {level : OpenLevel}

theorem Sound.push (hlevel : level.Sound) {c : Char} (hlabel : IsLabelChar c) :
    (level.push c).Sound := by
  refine ⟨fun other hmem => ?_, hlevel.wellFormed, hlevel.built⟩
  rw [OpenLevel.push, String.toList_push, List.mem_append, List.mem_singleton] at hmem
  rcases hmem with hold | rfl
  · exact hlevel.label other hold
  · exact hlabel

theorem Sound.commit (hlevel : level.Sound) : level.commit.Sound := by
  rw [OpenLevel.commit]
  by_cases hlabel : level.label = ""
  · rwa [if_pos hlabel]
  · rw [if_neg hlabel]
    exact ⟨by simp, hlevel.wellFormed.insert hlevel.label (fun hempty => absurd hempty hlabel)
      (by simp), hlevel.built.bare _⟩

theorem Sound.nest (hlevel : level.Sound) {child : Selector} (hwell : WellFormed child)
    (hbuilt : Built child) : (level.nest child).Sound :=
  ⟨by simp [OpenLevel.nest], hlevel.wellFormed.insert hlevel.label (by simp)
    fun _ hinner => Option.some.inj hinner ▸ hwell, hlevel.built.nested hbuilt _⟩

theorem Sound.nest_close {outer : OpenLevel} (houter : outer.Sound) (hlevel : level.Sound) :
    (outer.nest level.close).Sound :=
  houter.nest hlevel.commit.wellFormed hlevel.commit.built

theorem Sound.closeAll {around : List OpenLevel} (hlevel : level.Sound)
    (haround : ∀ outer ∈ around, outer.Sound) :
    WellFormed (level.closeAll around) ∧ Built (level.closeAll around) := by
  induction around generalizing level with
  | nil => exact ⟨hlevel.commit.wellFormed, hlevel.commit.built⟩
  | cons outer rest ih =>
      obtain ⟨houter, hrest⟩ := List.forall_mem_cons.mp haround
      exact ih (houter.nest_close hlevel) hrest

end OpenLevel

theorem readLevels_sound {level : OpenLevel} {around : List OpenLevel} (text : List Char)
    (hlevel : level.Sound) (haround : ∀ outer ∈ around, outer.Sound) :
    WellFormed (readLevels level around text).1 ∧ Built (readLevels level around text).1 := by
  fun_induction readLevels level around text with
  | case1 level around => exact hlevel.closeAll haround
  | case2 level around text ih => exact ih hlevel.commit haround
  | case3 level around text _ ih =>
      exact ih .empty (List.forall_mem_cons.mpr ⟨hlevel, haround⟩)
  | case4 level text =>
      exact ⟨hlevel.commit.wellFormed, hlevel.commit.built⟩
  | case5 level text outer rest _ _ ih =>
      obtain ⟨houter, hrest⟩ := List.forall_mem_cons.mp haround
      exact ih (houter.nest_close hlevel) hrest
  | case6 level around c text hcomma hopen hclose ih =>
      exact ih (hlevel.push ⟨hcomma, hopen, hclose⟩) haround

theorem wellFormed_parse (text : String) : WellFormed (parse text) :=
  (readLevels_sound text.toList .empty (by simp)).1

theorem built_parse (text : String) : Built (parse text) :=
  (readLevels_sound text.toList .empty (by simp)).2

end Selector

end TreeProjection
