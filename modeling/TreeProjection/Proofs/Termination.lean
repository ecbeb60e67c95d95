import Mathlib.Order.WellFounded
import Mathlib.Tactic.Common
import TreeProjection.Proofs.Attributes
import TreeProjection.Proofs.Composition
import TreeProjection.Proofs.TreeInduction

/-!
# Projections of cyclic data end

Nodes may lead back to values in which they stand themselves, so a value need not end. A projection
of it does, as long as every way that leads on for ever enters mappings again and again: a mapping
is entered only with what a selector nests below it, and a selector ends (`project_settles`).

The fuel of a projection is no part of its result: with enough of it, all runs from a state are one
run (`Eval.Settles`).
-/

namespace TreeProjection

variable {σ ε α β : Type}

namespace Eval

/-- From every state, there is one run with all fuel that is large enough. -/
def Settles (family : Nat → Eval σ ε α) : Prop :=
  ∀ state, ∃ run least, ∀ fuel, least ≤ fuel → family fuel state = some run

def Gives (eval : Eval σ ε α) (result : α) : Prop :=
  ∃ state run, eval state = some run ∧ run.outcome = .ok result

theorem Total.settles {eval : Eval σ ε α} (htotal : eval.Total) : Settles fun _ => eval := by
  intro state
  obtain ⟨run, hrun⟩ := Option.isSome_iff_exists.mp (htotal state)
  exact ⟨run, 0, fun _ _ => hrun⟩

theorem Settles.succ {family later : Nat → Eval σ ε α} (hfamily : Settles family)
    (hlater : ∀ fuel, later (fuel + 1) = family fuel) : Settles later := by
  intro state
  obtain ⟨run, least, hrun⟩ := hfamily state
  refine ⟨run, least + 1, fun fuel hfuel => ?_⟩
  cases fuel with
  | zero => omega
  | succ fuel =>
      rw [hlater fuel]
      exact hrun fuel (by omega)

theorem Settles.bind {first : Nat → Eval σ ε α} {next : Nat → α → Eval σ ε β}
    (hfirst : Settles first)
    (hnext : ∀ fuel result, (first fuel).Gives result → Settles (next · result)) :
    Settles fun fuel => first fuel >>= next fuel := by
  intro state
  obtain ⟨⟨outcome, after, trace⟩, least, hrun⟩ := hfirst state
  cases outcome with
  | error error =>
      refine ⟨⟨.error error, after, trace⟩, least, fun fuel hfuel => ?_⟩
      have hfailed : first fuel state = some ⟨.error error, after, trace⟩ := hrun fuel hfuel
      change Eval.bind (first fuel) (next fuel) state = _
      simp only [Eval.bind, hfailed]
  | ok result =>
      have hgives : (first least).Gives result := ⟨state, _, hrun least le_rfl, rfl⟩
      obtain ⟨rest, leastRest, hrest⟩ := hnext least result hgives after
      refine ⟨{ rest with trace := trace ++ rest.trace }, max least leastRest, ?_⟩
      intro fuel hfuel
      have hbegun : first fuel state = some ⟨.ok result, after, trace⟩ := hrun fuel (by omega)
      have hended : next fuel result after = some rest := hrest fuel (by omega)
      change Eval.bind (first fuel) (next fuel) state = _
      simp only [Eval.bind, hbegun, hended]

theorem Settles.map {family : Nat → Eval σ ε α} (hfamily : Settles family) (f : α → β) :
    Settles fun fuel => (do return f (← family fuel) : Eval σ ε β) :=
  hfamily.bind fun _ _ _ => (total_pure _).settles

theorem settles_forEach {f : Nat → α → Eval σ ε β} {items : List α}
    (hitems : ∀ item ∈ items, Settles (f · item)) :
    Settles fun fuel => forEach (f fuel) items := by
  induction items with
  | nil => exact (total_pure []).settles
  | cons item rest ih =>
      have hrest : Settles fun fuel => forEach (f fuel) rest :=
        ih fun other hother => hitems other (List.mem_cons_of_mem _ hother)
      have hitem : Settles (f · item) := hitems item (List.mem_cons_self ..)
      exact hitem.bind fun _ result _ => hrest.map (result :: ·)

end Eval

/-! ### Where nodes lead -/

/-- A step from a value to another that does not enter a mapping. -/
inductive World.Leads (world : World σ) : Value → Value → Prop where
  | item {items : List Value} {item : Value} (hmem : item ∈ items) :
      Leads world (.sequence items) item
  | left (left right : Value) : Leads world (.dual left right) left
  | right (left right : Value) : Leads world (.dual left right) right
  | produced {node : NodeRef} {state : σ} {value : Value}
      (hanswer : (world.produce node state).1 = .ok value) : Leads world (.lazy node) value
  | converted {node : NodeRef} {state : σ} {plain : Value}
      (hanswer : (world.convert node state).1 = some plain) : Leads world (.object node) plain

/-- A collection of values that comprises their parts and all that their nodes may give. -/
structure World.Comprises (world : World σ) (known : Value → Prop) : Prop where
  leads {value part : Value} (hvalue : known value) (hleads : world.Leads value part) : known part
  entry {entries : List (String × Value)} {key : String} {item : Value}
    (hmapping : known (.mapping entries)) (hmem : (key, item) ∈ entries) : known item

section Calls

variable {world : World σ}

theorem total_evaluate (node : NodeRef) : (evaluate world node).Total := by
  intro state
  cases hanswer : world.produce node state with
  | mk outcome after =>
      cases outcome with
      | ok value => rw [evaluate_of_ok hanswer, Option.isSome_some]
      | error failure => rw [evaluate_of_error hanswer, Option.isSome_some]

theorem leads_of_gives_evaluate {node : NodeRef} {value : Value}
    (hgives : (evaluate world node).Gives value) : world.Leads (.lazy node) value := by
  obtain ⟨state, run, hrun, houtcome⟩ := hgives
  cases hanswer : world.produce node state with
  | mk outcome after =>
      cases outcome with
      | ok produced =>
          rw [evaluate_of_ok hanswer] at hrun
          obtain rfl := Option.some.inj hrun
          obtain rfl := Except.ok.inj houtcome
          exact .produced (congrArg Prod.fst hanswer)
      | error failure =>
          rw [evaluate_of_error hanswer] at hrun
          obtain rfl := Option.some.inj hrun
          exact absurd houtcome (by simp)

theorem total_unwrapObject (value : Value) : (unwrapObject world value).Total := by
  cases value with
  | object node => exact Eval.total_bind (Eval.total_convert world node) fun _ => Eval.total_pure _
  | _ => exact Eval.total_pure _

theorem unwrapObject_object (node : NodeRef) (state : σ) :
    unwrapObject world (.object node) state =
      some ⟨.ok ((world.convert node state).1.getD (.object node)), (world.convert node state).2,
        [.converted node (world.convert node state).1]⟩ := rfl

theorem leads_of_gives_unwrapObject {value plain : Value}
    (hgives : (unwrapObject world value).Gives plain) :
    plain = value ∨ world.Leads value plain := by
  obtain ⟨state, run, hrun, houtcome⟩ := hgives
  cases value with
  | object node =>
      rw [unwrapObject_object] at hrun
      obtain rfl := Option.some.inj hrun
      have hplain : (world.convert node state).1.getD (.object node) = plain :=
        Except.ok.inj houtcome
      cases hanswer : (world.convert node state).1 with
      | none =>
          rw [hanswer, Option.getD_none] at hplain
          exact Or.inl hplain.symm
      | some converted =>
          rw [hanswer, Option.getD_some] at hplain
          exact Or.inr (.converted (hplain ▸ hanswer))
  | _ =>
      obtain rfl := Option.some.inj hrun
      exact Or.inl (Except.ok.inj houtcome).symm

end Calls

/-! ### Every mode settles -/

section Settling

variable {world : World σ} {known : Value → Prop}

/-- In this mode, the projections of all known values end. -/
def Mode.Settles (world : World σ) (known : Value → Prop) (mode : Mode) : Prop :=
  ∀ value, known value → Eval.Settles (project world · mode value)

theorem settles_project_leaf (mode : Mode) (atom : Leaf) :
    Eval.Settles (project world · mode (.leaf atom)) := by
  have hpure : Eval.Settles fun _ => (pure (.leaf atom) : Eval σ Failure Value) :=
    (Eval.total_pure _).settles
  exact hpure.succ fun fuel => by cases mode <;> rfl

theorem settles_summaryStep {value : Value}
    (hparts : ∀ part, world.Leads value part → Eval.Settles (project world · .summary part)) :
    Eval.Settles fun fuel => summaryStep world (project world fuel) value := by
  cases value with
  | dual left right =>
      exact (Eval.total_log _).settles.bind fun _ _ _ => hparts left (.left left right)
  | lazy node =>
      exact (total_evaluate node).settles.bind
        fun _ result hgives => hparts result (leads_of_gives_evaluate hgives)
  | _ => exact (Eval.total_pure _).settles

theorem wellFounded_leads (hchains : ¬∃ chain : Nat → Value,
      ∀ i, known (chain i) ∧ world.Leads (chain i) (chain (i + 1))) :
    WellFounded fun part value => known value ∧ world.Leads value part := by
  rw [wellFounded_iff_isEmpty_descending_chain]
  exact ⟨fun ⟨chain, hchain⟩ => hchains ⟨chain, hchain⟩⟩

variable (hcomprises : world.Comprises known)
include hcomprises

theorem settles_projectAttribute {mode : Mode} (hmode : mode.Settles world known)
    {entries : List (String × Value)} (hentries : known (.mapping entries)) (key : String) :
    Eval.Settles fun fuel =>
      projectAttribute (project world fuel mode) ((Table.get? entries key).getD .null) := by
  cases hfound : Table.get? entries key with
  | none => exact settles_project_leaf mode .null
  | some item =>
      have hitem : known item := hcomprises.entry hentries (Table.mem_of_get?_eq_some hfound)
      cases item with
      | sequence items =>
          have hitems : ∀ part ∈ items, Eval.Settles (project world · mode part) :=
            fun part hmem => hmode part (hcomprises.leads hitem (.item hmem))
          exact (Eval.settles_forEach hitems).map _
      | _ => exact hmode _ hitem

theorem settles_selectStep {selector : Selector}
    (hchildren : ∀ key child, selector.Picks key child →
      (Mode.ofChild child).Settles world known)
    {value : Value} (hvalue : known value)
    (hparts : ∀ part, world.Leads value part →
      Eval.Settles (project world · (.select selector) part)) :
    Eval.Settles fun fuel => selectStep world (project world fuel) selector value := by
  cases value with
  | leaf | object => exact (Eval.total_pure _).settles
  | sequence items =>
      exact (Eval.settles_forEach fun item hmem => hparts item (.item hmem)).map _
  | mapping entries =>
      have hattributes : ∀ entry ∈ selector.attributes (Table.keys entries),
          Eval.Settles fun fuel => (do
            return (entry.1, ← projectAttribute (project world fuel (.ofChild entry.2))
              ((Table.get? entries entry.1).getD .null)) : Eval σ Failure (String × Value)) := by
        intro entry hmem
        have hpicks := (Selector.mem_attributes_iff.mp hmem).1
        exact (settles_projectAttribute hcomprises (hchildren _ _ hpicks) hvalue entry.1).map _
      exact (Eval.settles_forEach hattributes).map _
  | dual left right =>
      exact (Eval.total_log _).settles.bind fun _ _ _ => hparts right (.right left right)
  | lazy node =>
      exact (total_evaluate node).settles.bind
        fun _ result hgives => hparts result (leads_of_gives_evaluate hgives)

variable (hchains : ¬∃ chain : Nat → Value,
  ∀ i, known (chain i) ∧ world.Leads (chain i) (chain (i + 1)))
include hchains

theorem settles_summary : Mode.summary.Settles world known := by
  intro value
  induction value using (wellFounded_leads hchains).induction with
  | _ value ih =>
      intro hvalue
      have hparts : ∀ part, world.Leads value part →
          Eval.Settles (project world · .summary part) :=
        fun part hleads => ih part ⟨hvalue, hleads⟩ (hcomprises.leads hvalue hleads)
      exact (settles_summaryStep hparts).succ fun _ => rfl

theorem settles_select_of_children {selector : Selector}
    (hchildren : ∀ key child, selector.Picks key child →
      (Mode.ofChild child).Settles world known) :
    (Mode.select selector).Settles world known := by
  -- The plain form of an object is not converted again, so the step of the selector on a value is
  -- carried through the induction along with the projection of the value.
  suffices hboth : ∀ value, known value →
      Eval.Settles (fun fuel => selectStep world (project world fuel) selector value) ∧
        Eval.Settles (project world · (.select selector) value) from
    fun value hvalue => (hboth value hvalue).2
  intro value
  induction value using (wellFounded_leads hchains).induction with
  | _ value ih =>
      intro hvalue
      have hpart : ∀ part, world.Leads value part → _ :=
        fun part hleads => ih part ⟨hvalue, hleads⟩ (hcomprises.leads hvalue hleads)
      have hstep := settles_selectStep hcomprises hchildren hvalue
        fun part hleads => (hpart part hleads).2
      refine ⟨hstep, ?_⟩
      have hproject : Eval.Settles fun fuel => unwrapObject world value >>=
          selectStep world (project world fuel) selector := by
        refine (total_unwrapObject value).settles.bind fun _ plain hgives => ?_
        rcases leads_of_gives_unwrapObject hgives with rfl | hleads
        · exact hstep
        · exact (hpart plain hleads).1
      exact hproject.succ fun _ => rfl

theorem settles_mode (mode : Mode) : mode.Settles world known := by
  have hsummary := settles_summary hcomprises hchains
  cases mode with
  | summary => exact hsummary
  | select selector =>
      induction selector using Selector.induction with
      | step selector ih =>
          refine settles_select_of_children hcomprises hchains fun key child hpicks => ?_
          cases child with
          | none => exact hsummary
          | some child =>
              obtain ⟨-, hnamed | ⟨hbare, -⟩⟩ := hpicks
              · exact ih key child hnamed
              · exact absurd hbare (by simp)

end Settling

/-- **Termination.** Of a collection of values that comprises whatever its nodes may give, and in
which no way leads on for ever without entering a mapping, every projection ends: from each state
there is one run that all sufficient fuel gives. -/
theorem project_settles {world : World σ} {known : Value → Prop}
    (hcomprises : world.Comprises known)
    (hchains : ¬∃ chain : Nat → Value,
      ∀ i, known (chain i) ∧ world.Leads (chain i) (chain (i + 1)))
    {value : Value} (hvalue : known value) (mode : Mode) (state : σ) :
    ∃ run least, ∀ fuel, least ≤ fuel → project world fuel mode value state = some run :=
  settles_mode hcomprises hchains mode value hvalue state

/-- A mapping that stands in itself behind a lazy node. Unfolding it never ends. -/
theorem project_settles_sample :
    let node : NodeRef := ⟨0, "whole"⟩
    let view : Value := .dual (.leaf (.bool true)) (.lazy node)
    let whole : Value := .mapping [("a", view)]
    let world : World Nat :=
      { produce := fun _ calls => (.ok whole, calls + 1)
        convert := fun _ calls => (none, calls) }
    let known (value : Value) : Prop :=
      value = whole ∨ value = view ∨ value = .leaf (.bool true) ∨ value = .lazy node
    let selector : Selector := ⟨[("a", some ⟨[("a", none)]⟩)]⟩
    world.Comprises known ∧
      (¬∃ chain : Nat → Value, ∀ i, known (chain i) ∧ world.Leads (chain i) (chain (i + 1))) ∧
      ∃ run least, (∀ fuel, least ≤ fuel →
          project world fuel (.select selector) whole 0 = some run) ∧
        run.outcome = .ok (.mapping [("a", .mapping [("a", .leaf (.bool true))])]) := by
  intro node view whole world known selector
  have hleads : ∀ value part, known value → world.Leads value part →
      value = view ∧ (part = .leaf (.bool true) ∨ part = .lazy node) ∨
        value = .lazy node ∧ part = whole := by
    rintro value part hvalue hstep
    cases hstep with
    | item | converted => simp [known, whole, view] at hvalue
    | left | right =>
        obtain ⟨rfl, rfl⟩ := by simpa [known, whole, view] using hvalue
        simp [view]
    | produced hanswer =>
        have hwhole : part = whole := (Except.ok.inj hanswer).symm
        simpa [known, whole, view, hwhole] using hvalue
  have hcomprises : world.Comprises known := by
    constructor
    · intro value part hvalue hstep
      rcases hleads value part hvalue hstep with ⟨-, rfl | rfl⟩ | ⟨-, rfl⟩ <;> simp [known]
    · rintro entries key item (hmapping | hmapping | hmapping | hmapping) hmem
      · obtain rfl : entries = [("a", view)] := Value.mapping.inj hmapping
        obtain ⟨-, rfl⟩ : key = "a" ∧ item = view := by simpa using hmem
        simp [known]
      all_goals exact absurd hmapping (by simp [view])
  have hchains : ¬∃ chain : Nat → Value,
      ∀ i, known (chain i) ∧ world.Leads (chain i) (chain (i + 1)) := by
    rintro ⟨chain, hchain⟩
    have hstep : ∀ i, _ := fun i => hleads _ _ (hchain i).1 (hchain i).2
    -- The way from the view leads to the lazy node and from there to the mapping, where it ends.
    have hlazy : ∀ i, chain (i + 1) = .lazy node := by
      intro i
      rcases hstep (i + 1) with ⟨hview, -⟩ | ⟨hlazy, -⟩
      · rcases hstep i with ⟨-, hother | hother⟩ | ⟨-, hother⟩ <;>
          exact absurd (hview.symm.trans hother) (by simp [view, whole])
      · exact hlazy
    have hnext := hstep 1
    simp [hlazy, view, whole] at hnext
  obtain ⟨run, least, hrun⟩ :=
    project_settles hcomprises hchains (Or.inl rfl : known whole) (.select selector) 0
  have hlater : project world (least + 8) (.select selector) whole 0 = some run :=
    hrun _ (Nat.le_add_right ..)
  have houtcome : (project world (least + 8) (.select selector) whole 0).map Run.outcome =
      some (.ok (.mapping [("a", .mapping [("a", .leaf (.bool true))])])) := rfl
  rw [hlater] at houtcome
  exact ⟨hcomprises, hchains, run, least, hrun, Option.some.inj houtcome⟩

end TreeProjection
