import Mathlib.Tactic.Common
import TreeProjection.Proofs.EvaluationOrder
import TreeProjection.Proofs.Replacement

/-!
# Parts inside nodes

A lazy node is worth what it produces, a dual-view node the view that is taken of it, and where a
selector goes on an object is worth its plain form: the result is the same as for the inner value
itself, at every place that is reached (`select_wrapped`). The one exception is a sequence that
stands directly under an attribute without a selector of its own. It is projected item by item, but
not inside a node.
-/

namespace TreeProjection

variable {σ : Type} {world : World σ} {answers : Answers}

/-- The values that stand for an inner value where a mode goes on. -/
inductive Answers.Wraps (answers : Answers) : Mode → Value → Value → Prop
  | lazy (mode : Mode) (node : NodeRef) : Wraps answers mode (.lazy node) (answers.produced node)
  | detail (selector : Selector) (left right : Value) :
      Wraps answers (.select selector) (.dual left right) right
  | summary (left right : Value) : Wraps answers .summary (.dual left right) left
  | object (selector : Selector) {node : NodeRef} {plain : Value}
      (hplain : answers.plain node = some plain) (hobject : ∀ other, plain ≠ .object other) :
      Wraps answers (.select selector) (.object node) plain

theorem Answers.Wraps.ne_sequence {mode : Mode} {wrapped inner : Value}
    (hwraps : answers.Wraps mode wrapped inner) (items : List Value) :
    wrapped ≠ .sequence items := by
  cases hwraps <;> simp

namespace Stance

theorem ne_plain_of_walk? {stance below : Stance} (hstance : ∀ selector, stance ≠ .plain selector)
    {address : Address} (hwalk : stance.walk? address = some below) :
    ∀ selector, below ≠ .plain selector := by
  induction address generalizing stance with
  | nil => exact Option.some.inj hwalk ▸ hstance
  | cons step rest ih =>
      rw [walk?, Option.bind_eq_some_iff] at hwalk
      obtain ⟨next, henter, hrest⟩ := hwalk
      refine ih (fun selector => ?_) hrest
      rcases enter?_cases henter with ⟨_, _, child, -, -, rfl, -⟩ | ⟨_, -, rfl, -⟩ <;> simp

theorem reaches_of_wraps (hworld : world.Gives answers) {mode : Mode} {wrapped inner result : Value}
    (hwraps : answers.Wraps mode wrapped inner)
    (hinner : (Stance.reached mode).Reaches world inner result) :
    (Stance.reached mode).Reaches world wrapped result := by
  cases hwraps with
  | lazy mode node =>
      have hproduced : Eval.Reaches (fun _ => evaluate world node) (answers.produced node) :=
        ⟨_, asks_evaluate hworld node⟩
      cases mode with
      | select selector =>
          rw [reaches_reached_iff_plain (by simp)]
          exact hproduced.bind hinner
      | summary => exact (Eval.reaches_succ_iff fun _ => rfl).mpr (hproduced.bind hinner)
  | detail selector left right =>
      rw [reaches_reached_iff_plain (by simp)]
      exact (Eval.reaches_log .detailView).bind hinner
  | summary left right =>
      exact (Eval.reaches_succ_iff fun _ => rfl).mpr
        ((Eval.reaches_log .summaryView).bind hinner)
  | @object selector node _ hform hobject =>
      -- What is converted is not converted again, so the inner value must be no object itself.
      rw [reaches_reached_iff_plain hobject] at hinner
      have hunwrapped : Eval.Reaches (fun _ => unwrapObject world (.object node)) inner := by
        have hasks := asks_unwrapObject hworld node
        rw [hform, Option.getD_some] at hasks
        exact ⟨_, hasks⟩
      exact (Eval.reaches_succ_iff fun _ => rfl).mpr (hunwrapped.bind hinner)

/-- Inside a node, a value has the result that it has where the mode of the place goes on. -/
theorem reaches_inside_node (hworld : world.Gives answers) {stance : Stance}
    (hstance : ∀ selector, stance ≠ .plain selector) {wrapped inner result : Value}
    (hwraps : answers.Wraps stance.mode wrapped inner)
    (hinner : (Stance.reached stance.mode).Reaches world inner result) :
    stance.Reaches world wrapped result := by
  have hreached := reaches_of_wraps hworld hwraps hinner
  cases stance with
  | reached mode => exact hreached
  | under mode =>
      rw [reaches_under_iff_reached fun items hitems => absurd hitems (hwraps.ne_sequence items)]
      exact hreached
  | plain selector => exact absurd rfl (hstance selector)

/-- Apart from a sequence directly under an attribute, a value has the same result there as where
the mode of the place goes on. -/
theorem reaches_mode {stance : Stance} (hstance : ∀ selector, stance ≠ .plain selector)
    {value result : Value} (hvalue : ∀ items, value = .sequence items → stance ≠ .under .summary)
    (hresult : stance.Reaches world value result) :
    (Stance.reached stance.mode).Reaches world value result := by
  cases stance with
  | reached mode => exact hresult
  | under mode =>
      refine (reaches_under_iff_reached fun items hitems hmode => ?_).mp hresult
      exact hvalue items hitems (congrArg Stance.under hmode)
  | plain selector => exact absurd rfl (hstance selector)

theorem reaches_summary_sequence (items : List Value) :
    (Stance.reached .summary).Reaches world (.sequence items) (.sequence items) :=
  (Eval.reaches_succ_iff fun _ => rfl).mpr (Eval.reaches_pure (Value.sequence items))

end Stance

/-- **Nodes are transparent.** A node that stands for a value leads to the same result as the value
itself, at every place that is reached. The exception is a sequence directly under an attribute
without a selector: its items are projected, while inside a node it is passed on as it is. -/
theorem select_wrapped (hworld : world.Gives answers) {selector : Selector}
    (hselector : selector.DistinctKeys) {value wrapped inner : Value} {address : Address}
    (hposition : (value.at? address).isSome = true)
    (hvalue : answers.Unfolds (value.put address inner)) {stance : Stance}
    (hwalk : (Stance.reached (.select selector)).walk? address = some stance)
    (hwraps : answers.Wraps stance.mode wrapped inner) :
    ((∀ items, inner = .sequence items → stance ≠ .under .summary) →
      ∃ result, Eval.Reaches (select world · selector (value.put address inner)) result ∧
        Eval.Reaches (select world · selector (value.put address wrapped)) result) ∧
    ∀ items, inner = .sequence items → stance = .under .summary →
      ∃ passed result,
        List.Forall₂ (fun item pass => Eval.Reaches (summarize world · item) pass) items passed ∧
        Eval.Reaches (select world · selector (value.put address inner)) result ∧
        result.at? address = some (.sequence passed) ∧
        Eval.Reaches (select world · selector (value.put address wrapped))
          (result.put address inner) := by
  have hplain : ∀ other, stance ≠ .plain other := Stance.ne_plain_of_walk? (by simp) hwalk
  have hinner : answers.Unfolds inner := hvalue.at? (Value.at?_put hposition inner)
  have hroot : (Stance.reached (.select selector)).DistinctKeys := hselector
  obtain ⟨frame, hframe, hput⟩ :=
    Stance.exists_frame hworld hroot hvalue hwalk (Value.at?_put hposition inner)
  simp only [Value.put_put] at hput
  refine ⟨fun hordinary => ?_, ?_⟩
  · obtain ⟨result, hresult⟩ := Stance.exists_reaches hworld (hroot.walk? hwalk) hinner
    refine ⟨frame.put address result, hput inner result hresult, hput wrapped result ?_⟩
    exact Stance.reaches_inside_node hworld hplain hwraps
      (Stance.reaches_mode hplain hordinary hresult)
  · rintro items rfl rfl
    have hsummary : (Stance.reached .summary).DistinctKeys := trivial
    have hitems : ∀ item ∈ items, ∃ pass,
        (Stance.reached .summary).Reaches world item pass := by
      intro item hitem
      cases hinner with
      | sequence hunfolds =>
          exact Stance.exists_reaches hworld hsummary (hunfolds item hitem)
    choose! pass hpass using hitems
    have hpassed : List.Forall₂ ((Stance.reached .summary).Reaches world) items
        (items.map pass) := by
      rw [List.forall₂_map_right_iff, List.forall₂_same]
      exact hpass
    refine ⟨items.map pass, frame.put address (.sequence (items.map pass)), hpassed,
      hput _ _ (Stance.reaches_sequence rfl hpassed), Value.at?_put hframe _, ?_⟩
    rw [Value.put_put]
    exact hput wrapped _ (Stance.reaches_inside_node hworld hplain hwraps
      (Stance.reaches_summary_sequence items))

theorem select_wrapped_sample :
    let node : NodeRef := ⟨0, "list"⟩
    let items : List Value := [.dual (.leaf (.bool true)) .null]
    let answers : Answers := { produced := fun _ => .sequence items, plain := fun _ => none }
    let world : World Unit :=
      { produce := fun node _ => (.ok (answers.produced node), ())
        convert := fun node _ => (answers.plain node, ()) }
    let selector : Selector := ⟨[("a", none), ("b", some ⟨[("c", none)]⟩)]⟩
    let value : Value := .mapping [("a", .null), ("b", .sequence [.null])]
    let bare : Address := [.key "a"]
    let below : Address := [.key "b", .index 0]
    world.Gives answers ∧ selector.DistinctKeys ∧
      answers.Unfolds (value.put bare (.sequence items)) ∧
      answers.Unfolds (value.put below (.sequence items)) ∧
      (∃ result, Eval.Reaches (select world · selector (value.put below (.sequence items))) result ∧
        Eval.Reaches (select world · selector (value.put below (.lazy node))) result) ∧
      ∃ passed result,
        List.Forall₂ (fun item pass => Eval.Reaches (summarize world · item) pass) items passed ∧
        Eval.Reaches (select world · selector (value.put bare (.sequence items))) result ∧
        result.at? bare = some (.sequence passed) ∧
        Eval.Reaches (select world · selector (value.put bare (.lazy node)))
          (result.put bare (.sequence items)) := by
  intro node items answers world selector value bare below
  have hworld : world.Gives answers := ⟨fun _ _ => rfl, fun _ _ => rfl⟩
  have hselector : selector.DistinctKeys :=
    ⟨by simp [Table.Distinct], ⟨⟨by simp [Table.Distinct], trivial⟩, trivial⟩⟩
  have hnull : answers.Unfolds .null := .leaf .null
  have hitems : answers.Unfolds (.sequence items) :=
    .sequence (by simpa [items] using Answers.Unfolds.dual (.leaf _) hnull)
  have hbare : answers.Unfolds (value.put bare (.sequence items)) := by
    change answers.Unfolds (.mapping [("a", .sequence items), ("b", .sequence [.null])])
    exact .mapping (by simp [Table.Distinct])
      (by simpa using ⟨hitems, .sequence (by simpa using hnull)⟩)
  have hbelow : answers.Unfolds (value.put below (.sequence items)) := by
    change answers.Unfolds (.mapping [("a", .null), ("b", .sequence [.sequence items])])
    exact .mapping (by simp [Table.Distinct])
      (by simpa using ⟨hnull, .sequence (by simpa using hitems)⟩)
  obtain ⟨htransparent, -⟩ :=
    select_wrapped hworld hselector rfl hbelow rfl (Answers.Wraps.lazy _ node)
  obtain ⟨-, hexception⟩ :=
    select_wrapped hworld hselector rfl hbare rfl (Answers.Wraps.lazy _ node)
  exact ⟨hworld, hselector, hbare, hbelow, htransparent (by simp), hexception items rfl rfl⟩

end TreeProjection
