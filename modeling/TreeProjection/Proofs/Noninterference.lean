import Mathlib.Tactic.Common
import TreeProjection.Proofs.Attributes
import TreeProjection.Proofs.Parallel
import TreeProjection.Proofs.Tables
import TreeProjection.Proofs.TreeInduction

/-!
# What is not selected makes no difference

A mode overlooks the difference between two values if they differ only in parts that it does not
lead to: attributes that a selector does not pick, summaries where a selector goes on, details where
none does (`Mode.Overlooks`). Projecting two such values comes to the same end, and asks the same on
the way (`select_overlooked`).

The two projections may go on in two worlds, whose answers differ in such parts as well. For that
one has to say which nodes are asked in which modes. In one world nothing has to be said
(`World.answersAlike_refl`, `Mode.overlooks_refl`).
-/

namespace TreeProjection

/-! ### The difference between two values -/

mutual

/-- The two values differ only in parts to which the mode does not lead. The nodes to which it leads
are among those that are asked in the mode in which it reaches them. -/
inductive Mode.Overlooks (asked : Mode → NodeRef → Prop) : Mode → Value → Value → Prop where
  | leaf (mode : Mode) (atom : Leaf) : Overlooks asked mode (.leaf atom) (.leaf atom)
  | lazy {mode : Mode} {node : NodeRef} (hasked : asked mode node) :
      Overlooks asked mode (.lazy node) (.lazy node)
  | object {selector : Selector} {node : NodeRef} (hasked : asked (.select selector) node) :
      Overlooks asked (.select selector) (.object node) (.object node)
  | sequence {selector : Selector} {items others : List Value}
      (hlength : items.length = others.length)
      (hitems : ∀ {item other : Value}, (item, other) ∈ items.zip others →
        Overlooks asked (.select selector) item other) :
      Overlooks asked (.select selector) (.sequence items) (.sequence others)
  /-- Attributes that are not picked may come, go and change. -/
  | mapping {selector : Selector} {entries others : List (String × Value)}
      (hkeys : (Table.keys entries).filter selector.admits =
        (Table.keys others).filter selector.admits)
      (hitems : ∀ {key : String} {child : Option Selector} {item other : Value},
        selector.Picks key child → Table.get? entries key = some item →
        Table.get? others key = some other → OverlooksUnder asked (.ofChild child) item other) :
      Overlooks asked (.select selector) (.mapping entries) (.mapping others)
  | detail {selector : Selector} {right otherRight : Value} (left otherLeft : Value)
      (hright : Overlooks asked (.select selector) right otherRight) :
      Overlooks asked (.select selector) (.dual left right) (.dual otherLeft otherRight)
  | summary {left otherLeft : Value} (right otherRight : Value)
      (hleft : Overlooks asked .summary left otherLeft) :
      Overlooks asked .summary (.dual left right) (.dual otherLeft otherRight)
  | wholeSequence (items : List Value) :
      Overlooks asked .summary (.sequence items) (.sequence items)
  | wholeMapping (entries : List (String × Value)) :
      Overlooks asked .summary (.mapping entries) (.mapping entries)
  | wholeObject (node : NodeRef) : Overlooks asked .summary (.object node) (.object node)

/-- The same for two values of an attribute, which are entered item by item if they are
sequences. -/
inductive Mode.OverlooksUnder (asked : Mode → NodeRef → Prop) : Mode → Value → Value → Prop where
  | items {mode : Mode} {items others : List Value} (hlength : items.length = others.length)
      (hitems : ∀ {item other : Value}, (item, other) ∈ items.zip others →
        Overlooks asked mode item other) :
      OverlooksUnder asked mode (.sequence items) (.sequence others)
  | single {mode : Mode} {value other : Value} (hvalue : ∀ items, value ≠ .sequence items)
      (hoverlooks : Overlooks asked mode value other) : OverlooksUnder asked mode value other

end

/-- The same for the plain form of an object, which is no further converted. -/
def Selector.OverlooksPlain (asked : Mode → NodeRef → Prop) (selector : Selector)
    (value other : Value) : Prop :=
  (Mode.select selector).Overlooks asked value other ∨
    ∃ node, value = .object node ∧ other = .object node

variable {σ : Type}

/-- Asked in one of its modes, a node gives answers in two worlds that this mode cannot tell apart,
and leads both to the same state. -/
structure World.AnswersAlike (asked : Mode → NodeRef → Prop) (world twin : World σ) : Prop where
  produce {mode : Mode} {node : NodeRef} (hasked : asked mode node) (state : σ) :
    (world.produce node state).2 = (twin.produce node state).2 ∧
      OutcomeRel (mode.Overlooks asked) (world.produce node state).1 (twin.produce node state).1
  convert {selector : Selector} {node : NodeRef} (hasked : asked (.select selector) node)
      (state : σ) :
    (world.convert node state).2 = (twin.convert node state).2 ∧
      Option.Rel (selector.OverlooksPlain asked) (world.convert node state).1
        (twin.convert node state).1

/-! ### Two projections in parallel -/

section Parallel

variable {asked : Mode → NodeRef → Prop} {world twin : World σ}
  {again againTwin : Mode → Value → Eval σ Failure Value}
  (hagain : ∀ {mode : Mode} {value other : Value}, mode.Overlooks asked value other →
    Eval.Parallel world twin Eq (again mode value) (againTwin mode other))

theorem parallel_unwrapObject (hworlds : world.AnswersAlike asked twin) {selector : Selector}
    {value other : Value} (hvalue : (Mode.select selector).Overlooks asked value other) :
    Eval.Parallel world twin (selector.OverlooksPlain asked) (unwrapObject world value)
      (unwrapObject twin other) := by
  cases hvalue with
  | object hasked =>
      rename_i node
      refine Eval.parallel_bind (Eval.parallel_convert (hworlds.convert hasked)) ?_
      intro plain otherPlain hplain
      cases hplain with
      | none => exact Eval.parallel_pure (Or.inr ⟨node, rfl, rfl⟩)
      | some hplain => exact Eval.parallel_pure hplain
  | leaf mode atom => exact Eval.parallel_pure (Or.inl (.leaf _ atom))
  | lazy hasked => exact Eval.parallel_pure (Or.inl (.lazy hasked))
  | sequence hlength hitems => exact Eval.parallel_pure (Or.inl (.sequence hlength hitems))
  | mapping hkeys hitems => exact Eval.parallel_pure (Or.inl (.mapping hkeys hitems))
  | detail left otherLeft hright =>
      exact Eval.parallel_pure (Or.inl (.detail left otherLeft hright))

include hagain

theorem parallel_items {mode : Mode} {items others : List Value}
    (hlength : items.length = others.length)
    (hitems : ∀ {item other : Value}, (item, other) ∈ items.zip others →
      mode.Overlooks asked item other) :
    Eval.Parallel world twin Eq (do return Value.sequence (← Eval.forEach (again mode) items))
      (do return Value.sequence (← Eval.forEach (againTwin mode) others)) := by
  have hpairs : List.Forall₂ (mode.Overlooks asked) items others :=
    List.forall₂_iff_zip.mpr ⟨hlength, hitems⟩
  exact Eval.parallel_map _ (Eval.parallel_forEach hpairs fun _ _ => hagain)

theorem parallel_projectAttribute {mode : Mode} {value other : Value}
    (hvalue : mode.OverlooksUnder asked value other) :
    Eval.Parallel world twin Eq (projectAttribute (again mode) value)
      (projectAttribute (againTwin mode) other) := by
  cases hvalue with
  | items hlength hitems => exact parallel_items hagain hlength hitems
  | single hsingle hoverlooks =>
      have hparallel := hagain hoverlooks
      cases hoverlooks with
      | sequence | wholeSequence => exact absurd rfl (hsingle _)
      | _ => exact hparallel

theorem parallel_projectEntries {selector : Selector} {entries others : List (String × Value)}
    (hkeys : (Table.keys entries).filter selector.admits =
      (Table.keys others).filter selector.admits)
    (hitems : ∀ {key : String} {child : Option Selector} {item other : Value},
      selector.Picks key child → Table.get? entries key = some item →
      Table.get? others key = some other →
        (Mode.ofChild child).OverlooksUnder asked item other) :
    Eval.Parallel world twin Eq (projectEntries again selector entries)
      (projectEntries againTwin selector others) := by
  have hattributes : selector.attributes (Table.keys entries) =
      selector.attributes (Table.keys others) := by
    rw [← selector.attributes_filter_admits (Table.keys entries), hkeys,
      selector.attributes_filter_admits]
  -- A key that is picked stands in both mappings or in neither, and then null stands in for both.
  have hattribute : ∀ key child, selector.Picks key child →
      (Mode.ofChild child).OverlooksUnder asked ((Table.get? entries key).getD .null)
        ((Table.get? others key).getD .null) := by
    intro key child hpicks
    have hpresent : key ∈ Table.keys entries ↔ key ∈ Table.keys others := by
      have hfiltered := congrArg (key ∈ ·) hkeys
      simpa [List.mem_filter, hpicks.admits] using hfiltered
    cases hitem : Table.get? entries key with
    | none =>
        have habsent : key ∉ Table.keys others :=
          fun hmem => Table.get?_eq_none_iff.mp hitem (hpresent.mpr hmem)
        rw [Table.get?_eq_none_iff.mpr habsent]
        exact .single (by simp [Value.null]) (.leaf _ .null)
    | some item =>
        cases hother : Table.get? others key with
        | none =>
            have hmem : key ∈ Table.keys entries :=
              Table.mem_keys_of_mem (Table.mem_of_get?_eq_some hitem)
            exact absurd (hpresent.mp hmem) (Table.get?_eq_none_iff.mp hother)
        | some other => exact hitems hpicks hitem hother
  rw [projectEntries, projectEntries, ← hattributes]
  have hsame : List.Forall₂ (fun entry other => entry = other ∧ selector.Picks entry.1 entry.2)
      (selector.attributes (Table.keys entries)) (selector.attributes (Table.keys entries)) :=
    List.forall₂_same.mpr fun entry hmem => ⟨rfl, (Selector.mem_attributes_iff.mp hmem).1⟩
  apply Eval.parallel_forEach hsame
  rintro ⟨key, child⟩ _ ⟨rfl, hpicks⟩
  exact Eval.parallel_map _ (parallel_projectAttribute hagain (hattribute key child hpicks))

theorem parallel_selectStep (hworlds : world.AnswersAlike asked twin) {selector : Selector}
    {value other : Value} (hvalue : selector.OverlooksPlain asked value other) :
    Eval.Parallel world twin Eq (selectStep world again selector value)
      (selectStep twin againTwin selector other) := by
  rcases hvalue with hvalue | ⟨node, rfl, rfl⟩
  · cases hvalue with
    | leaf | object => exact Eval.parallel_pure rfl
    | lazy hasked =>
        exact Eval.parallel_bind (Eval.parallel_evaluate (hworlds.produce hasked))
          fun _ _ => hagain
    | sequence hlength hitems => exact parallel_items hagain hlength hitems
    | mapping hkeys hitems =>
        exact Eval.parallel_map _ (parallel_projectEntries hagain hkeys hitems)
    | detail left otherLeft hright =>
        exact Eval.parallel_bind (Eval.parallel_log _) fun _ _ _ => hagain hright
  · exact Eval.parallel_pure rfl

theorem parallel_summaryStep (hworlds : world.AnswersAlike asked twin) {value other : Value}
    (hvalue : Mode.summary.Overlooks asked value other) :
    Eval.Parallel world twin Eq (summaryStep world again value)
      (summaryStep twin againTwin other) := by
  cases hvalue with
  | leaf | wholeSequence | wholeMapping | wholeObject => exact Eval.parallel_pure rfl
  | lazy hasked =>
      exact Eval.parallel_bind (Eval.parallel_evaluate (hworlds.produce hasked)) fun _ _ => hagain
  | summary right otherRight hleft =>
      exact Eval.parallel_bind (Eval.parallel_log _) fun _ _ _ => hagain hleft

theorem parallel_projectStep (hworlds : world.AnswersAlike asked twin) {mode : Mode}
    {value other : Value} (hvalue : mode.Overlooks asked value other) :
    Eval.Parallel world twin Eq (projectStep world again mode value)
      (projectStep twin againTwin mode other) := by
  cases mode with
  | summary => exact parallel_summaryStep hagain hworlds hvalue
  | select selector =>
      exact Eval.parallel_bind (parallel_unwrapObject hworlds hvalue)
        fun _ _ => parallel_selectStep hagain hworlds

end Parallel

theorem parallel_project {asked : Mode → NodeRef → Prop} {world twin : World σ}
    (hworlds : world.AnswersAlike asked twin) (fuel : Nat) {mode : Mode} {value other : Value}
    (hvalue : mode.Overlooks asked value other) :
    Eval.Parallel world twin Eq (project world fuel mode value) (project twin fuel mode other) := by
  induction fuel generalizing mode value other with
  | zero => exact Eval.parallel_exhausted
  | succ fuel ih => exact parallel_projectStep ih hworlds hvalue

/-! ### Nothing changed -/

section Reflexivity

variable {asked : Mode → NodeRef → Prop} (hall : ∀ mode node, asked mode node)
include hall

theorem Mode.overlooks_refl_both (value : Value) :
    ∀ mode : Mode, mode.Overlooks asked value value ∧ mode.OverlooksUnder asked value value := by
  induction value using Value.induction with
  | leaf atom => exact fun mode => ⟨.leaf mode atom, .single (by simp) (.leaf mode atom)⟩
  | lazy node =>
      intro mode
      have hoverlooks : mode.Overlooks asked (.lazy node) (.lazy node) := .lazy (hall mode node)
      exact ⟨hoverlooks, .single (by simp) hoverlooks⟩
  | object node =>
      intro mode
      have hoverlooks : mode.Overlooks asked (.object node) (.object node) := by
        cases mode with
        | select selector => exact .object (hall _ node)
        | summary => exact .wholeObject node
      exact ⟨hoverlooks, .single (by simp) hoverlooks⟩
  | dual left right hleft hright =>
      intro mode
      have hoverlooks : mode.Overlooks asked (.dual left right) (.dual left right) := by
        cases mode with
        | select selector => exact .detail left left (hright _).1
        | summary => exact .summary right right (hleft _).1
      exact ⟨hoverlooks, .single (by simp) hoverlooks⟩
  | sequence items hitems =>
      intro mode
      have hpairs : ∀ {item other : Value}, (item, other) ∈ items.zip items →
          mode.Overlooks asked item other :=
        (List.forall₂_iff_zip.mp (List.forall₂_same.mpr fun item hmem =>
          (hitems item hmem mode).1)).2
      refine ⟨?_, .items rfl hpairs⟩
      cases mode with
      | select selector => exact .sequence rfl hpairs
      | summary => exact .wholeSequence items
  | mapping entries hentries =>
      intro mode
      have hoverlooks : mode.Overlooks asked (.mapping entries) (.mapping entries) := by
        cases mode with
        | summary => exact .wholeMapping entries
        | select selector =>
            refine .mapping rfl fun {key child item other} _ hitem hother => ?_
            obtain rfl : item = other := Option.some.inj (hitem.symm.trans hother)
            exact (hentries (key, item) (Table.mem_of_get?_eq_some hitem) _).2
      exact ⟨hoverlooks, .single (by simp) hoverlooks⟩

theorem Mode.overlooks_refl (mode : Mode) (value : Value) : mode.Overlooks asked value value :=
  (overlooks_refl_both hall value mode).1

theorem World.answersAlike_refl (world : World σ) : world.AnswersAlike asked world where
  produce := by
    intro mode node _ state
    refine ⟨rfl, ?_⟩
    cases (world.produce node state).1 with
    | ok value => exact .ok (mode.overlooks_refl hall value)
    | error failure => exact .error failure
  convert := by
    intro selector node _ state
    refine ⟨rfl, ?_⟩
    cases (world.convert node state).1 with
    | none => exact .none
    | some plain => exact .some (Or.inl (Mode.overlooks_refl hall _ plain))

end Reflexivity

/-- **Noninterference.** From one state, the projections of two values that differ only in parts to
which the selector does not lead come to the same end, if they come to an end: to the same result or
the same error, in the same state, with the same log and the same calls. Asked in two worlds that
differ in such parts only, the calls may be answered differently in those parts. -/
theorem select_overlooked {asked : Mode → NodeRef → Prop} {world twin : World σ}
    (hworlds : world.AnswersAlike asked twin) {selector : Selector} {value changed : Value}
    (hvalue : (Mode.select selector).Overlooks asked value changed) (fuel : Nat) (state : σ) :
    (select twin fuel selector changed state).isSome =
        (select world fuel selector value state).isSome ∧
      ∀ run, select world fuel selector value state = some run →
        ∃ trace, select twin fuel selector changed state = some ⟨run.outcome, run.state, trace⟩ ∧
          List.Forall₂ (Step.Corresponds world twin) run.trace trace ∧
          logOf trace = logOf run.trace ∧ (twin = world → trace = run.trace) := by
  have hparallel := parallel_project hworlds fuel hvalue state
  change Option.Rel _ (select world fuel selector value state)
    (select twin fuel selector changed state) at hparallel
  generalize select world fuel selector value state = first at hparallel
  generalize select twin fuel selector changed state = second at hparallel
  cases hparallel with
  | none => exact ⟨rfl, fun run hrun => absurd hrun (by simp)⟩
  | @some first second hruns =>
      refine ⟨rfl, ?_⟩
      rintro run hrun
      obtain rfl := Option.some.inj hrun
      obtain ⟨outcome, after, trace⟩ := second
      obtain ⟨houtcome, hstate, htrace⟩ := hruns
      obtain rfl : first.state = after := hstate
      have hsame : first.outcome = outcome := by
        generalize first.outcome = begun at houtcome
        cases houtcome with
        | ok hresult => exact congrArg Except.ok hresult
        | error failure => rfl
      refine ⟨trace, by rw [hsame], htrace, (logOf_eq_of_corresponds htrace).symm, ?_⟩
      rintro rfl
      exact (eq_of_corresponds htrace).symm

theorem select_overlooked_sample :
    let shared : NodeRef := ⟨0, "shared"⟩
    let broken : NodeRef := ⟨1, "broken"⟩
    let produced (extra : List (String × Value)) : Value :=
      .mapping (("x", .leaf (.bool true)) :: extra)
    let answering (extra : List (String × Value)) : World Nat :=
      { produce := fun node calls =>
          (if node = shared then .ok (produced extra) else .error ⟨"down"⟩, calls + 1)
        convert := fun _ calls => (none, calls) }
    let world := answering [("y", .lazy broken)]
    let twin := answering []
    let inner : Selector := ⟨[("x", none), ("z", none)]⟩
    let asked (mode : Mode) (node : NodeRef) : Prop := mode = .select inner ∧ node = shared
    let selector : Selector := ⟨[("a", some inner)]⟩
    let value : Value := .mapping [("b", .lazy broken), ("a", .dual (.lazy broken) (.lazy shared))]
    let changed : Value := .mapping [("a", .dual .null (.lazy shared)), ("*", .null)]
    let run : Run Nat Failure Value :=
      ⟨.ok (.mapping [("a", .mapping [("x", .leaf (.bool true)), ("z", .null)])]), 1,
        [.logged .detailView, .logged .evaluating,
          .produced shared (.ok (produced [("y", .lazy broken)]))]⟩
    world.AnswersAlike asked twin ∧ (Mode.select selector).Overlooks asked value changed ∧
      select world 5 selector value 0 = some run ∧
        ∃ trace, select twin 5 selector changed 0 = some ⟨run.outcome, run.state, trace⟩ ∧
          logOf trace = logOf run.trace := by
  intro shared broken produced answering world twin inner asked selector value changed run
  have hproduced : (Mode.select inner).Overlooks asked (produced [("y", .lazy broken)])
      (produced []) := by
    refine .mapping rfl fun {key child item other} hpicks hitem hother => ?_
    obtain ⟨-, hnamed | ⟨-, hwild, -⟩⟩ := hpicks
    · obtain ⟨rfl, -⟩ | ⟨rfl, -⟩ : key = "x" ∧ child = none ∨ key = "z" ∧ child = none := by
        simpa [inner] using hnamed
      · obtain rfl : Value.leaf (.bool true) = item := Option.some.inj hitem
        obtain rfl : Value.leaf (.bool true) = other := Option.some.inj hother
        exact .single (by simp) (.leaf _ _)
      · exact absurd hother (by simp [Table.get?_cons])
    · exact absurd hwild (by decide)
  have hworlds : world.AnswersAlike asked twin := by
    constructor
    · rintro mode node ⟨rfl, rfl⟩ state
      exact ⟨rfl, .ok hproduced⟩
    · rintro _ node ⟨-, rfl⟩ state
      exact ⟨rfl, .none⟩
  have hvalue : (Mode.select selector).Overlooks asked value changed := by
    refine .mapping rfl fun {key child item other} hpicks hitem hother => ?_
    obtain ⟨-, hnamed | ⟨-, hwild, -⟩⟩ := hpicks
    · obtain ⟨rfl, rfl⟩ : key = "a" ∧ child = some inner := by simpa [selector] using hnamed
      obtain rfl : Value.dual (.lazy broken) (.lazy shared) = item := Option.some.inj hitem
      obtain rfl : Value.dual .null (.lazy shared) = other := Option.some.inj hother
      exact .single (by simp) (.detail _ _ (.lazy ⟨rfl, rfl⟩))
    · exact absurd hwild (by decide)
  have hrun : select world 5 selector value 0 = some run := rfl
  obtain ⟨-, hsame⟩ := select_overlooked hworlds hvalue 5 0
  obtain ⟨trace, htwin, -, hlog, -⟩ := hsame run hrun
  exact ⟨hworlds, hvalue, hrun, trace, htwin, hlog⟩

end TreeProjection
