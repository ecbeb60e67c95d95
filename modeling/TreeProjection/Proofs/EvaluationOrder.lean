import Mathlib.Tactic.Common
import TreeProjection.Proofs.Attributes
import TreeProjection.Proofs.Composition
import TreeProjection.Proofs.Itinerary
import TreeProjection.Proofs.SelectorShape
import TreeProjection.Proofs.Termination

/-!
# The calls of a projection, in order

Where nodes always answer the same, a projection calls exactly the nodes on its itinerary: every one
of them as often as it stands at a place that is reached, in the order of the places, and no other
(`calls_of_select`). At each place, the calls are the one that is due there and then those of the
parts (`Stance.asks_of_parts`).
-/

namespace TreeProjection

variable {σ ε α β : Type}

/-! ### Computations and their calls -/

namespace Eval

/-- From every state, all runs with enough fuel give this result and make these calls. -/
def Asks (family : Nat → Eval σ ε α) (result : α) (calls : List Step) : Prop :=
  ∀ state, ∃ run least, (∀ fuel, least ≤ fuel → family fuel state = some run) ∧
    run.outcome = .ok result ∧ callsOf run.trace = calls

theorem callsOf_append (first second : List Step) :
    callsOf (first ++ second) = callsOf first ++ callsOf second := by
  simp [callsOf]

theorem asks_pure (result : α) : Asks (fun _ => (pure result : Eval σ ε α)) result [] :=
  fun state => ⟨⟨.ok result, state, []⟩, 0, fun _ _ => rfl, rfl, rfl⟩

theorem asks_log (entry : LogEntry) : Asks (fun _ => (log entry : Eval σ ε Unit)) () [] :=
  fun state => ⟨⟨.ok (), state, [.logged entry]⟩, 0, fun _ _ => rfl, rfl, rfl⟩

theorem Asks.bind {first : Nat → Eval σ ε α} {next : Nat → α → Eval σ ε β} {result : α} {last : β}
    {calls more : List Step} (hfirst : Asks first result calls)
    (hnext : Asks (next · result) last more) :
    Asks (fun fuel => first fuel >>= next fuel) last (calls ++ more) := by
  intro state
  obtain ⟨⟨outcome, after, trace⟩, least, hrun, rfl, rfl⟩ := hfirst state
  obtain ⟨rest, leastRest, hrest, hlast, rfl⟩ := hnext after
  refine ⟨{ rest with trace := trace ++ rest.trace }, max least leastRest, ?_, hlast,
    callsOf_append trace rest.trace⟩
  intro fuel hfuel
  have hbegun : first fuel state = some ⟨.ok result, after, trace⟩ := hrun fuel (by omega)
  have hended : next fuel result after = some rest := hrest fuel (by omega)
  change Eval.bind (first fuel) (next fuel) state = _
  simp only [Eval.bind, hbegun, hended]

theorem Asks.map {family : Nat → Eval σ ε α} {result : α} {calls : List Step}
    (hfamily : Asks family result calls) (f : α → β) :
    Asks (fun fuel => (do return f (← family fuel) : Eval σ ε β)) (f result) calls := by
  rw [← List.append_nil calls]
  exact hfamily.bind (asks_pure (f result))

theorem Asks.succ {family later : Nat → Eval σ ε α} {result : α} {calls : List Step}
    (hfamily : Asks family result calls) (hlater : ∀ fuel, later (fuel + 1) = family fuel) :
    Asks later result calls := by
  intro state
  obtain ⟨run, least, hrun, hend⟩ := hfamily state
  refine ⟨run, least + 1, fun fuel hfuel => ?_, hend⟩
  cases fuel with
  | zero => omega
  | succ fuel =>
      rw [hlater fuel]
      exact hrun fuel (by omega)

theorem forEach_map {γ : Type} (f : β → Eval σ ε γ) (g : α → β) (items : List α) :
    forEach f (items.map g) = forEach (fun item => f (g item)) items := by
  induction items with
  | nil => rfl
  | cons item rest ih => rw [List.map_cons, forEach, forEach, ih]

/-- The calls for one item after those for the items before it. -/
theorem asks_forEach {f : Nat → α → Eval σ ε β} {calls : α → List Step} {items : List α}
    (hitems : ∀ item ∈ items, ∃ result, Asks (f · item) result (calls item)) :
    ∃ results, Asks (fun fuel => forEach (f fuel) items) results (items.flatMap calls) := by
  induction items with
  | nil => exact ⟨[], asks_pure []⟩
  | cons item rest ih =>
      obtain ⟨hitem, hrest⟩ := List.forall_mem_cons.mp hitems
      obtain ⟨result, hresult⟩ := hitem
      obtain ⟨results, hresults⟩ := ih hrest
      refine ⟨result :: results, ?_⟩
      rw [List.flatMap_cons]
      exact hresult.bind (hresults.map (result :: ·))

end Eval

section Calls

variable {world : World σ} {answers : Answers} (hworld : world.Gives answers)
include hworld

theorem asks_evaluate (node : NodeRef) : Eval.Asks (fun _ => evaluate world node)
    (answers.produced node) [.produced node (.ok (answers.produced node))] := by
  intro state
  have hanswer : world.produce node state =
      (.ok (answers.produced node), (world.produce node state).2) := by
    rw [← hworld.produce node state]
  exact ⟨_, 0, fun _ _ => evaluate_of_ok hanswer, rfl, rfl⟩

theorem asks_unwrapObject (node : NodeRef) : Eval.Asks (fun _ => unwrapObject world (.object node))
    ((answers.plain node).getD (.object node)) [.converted node (answers.plain node)] := by
  intro state
  rw [← hworld.convert node state]
  exact ⟨_, 0, fun _ _ => unwrapObject_object node state, rfl, rfl⟩

end Calls

/-! ### The calls at one place -/

namespace Stance

/-- The computation that a projection does at a place. -/
def eval (world : World σ) (fuel : Nat) : Stance → Value → Eval σ Failure Value
  | .reached mode => project world fuel mode
  | .under mode => projectAttribute (project world fuel mode)
  | .plain selector => selectStep world (project world fuel) selector

def Asks (world : World σ) (stance : Stance) (value : Value) (calls : List Step) : Prop :=
  ∃ result, Eval.Asks (stance.eval world · value) result calls

variable {world : World σ} {answers : Answers} {calls : Part → List Step}

theorem asks_items {mode : Mode} {items : List Value}
    (hparts : ∀ part ∈ itemParts mode items, part.stance.Asks world part.value (calls part)) :
    ∃ results, Eval.Asks (fun fuel => Eval.forEach (project world fuel mode) items) results
      ((itemParts mode items).flatMap calls) := by
  have heach : ∀ part ∈ itemParts mode items, ∃ result,
      Eval.Asks (fun fuel => project world fuel mode part.value) result (calls part) := by
    intro part hpart
    have hasks := hparts part hpart
    rwa [(mem_itemParts hpart).1] at hasks
  obtain ⟨results, hresults⟩ := Eval.asks_forEach heach
  refine ⟨results, ?_⟩
  have hitems : ∀ fuel, Eval.forEach (project world fuel mode) items =
      Eval.forEach (fun part => project world fuel mode part.value) (itemParts mode items) := by
    intro fuel
    calc Eval.forEach (project world fuel mode) items
        = Eval.forEach (project world fuel mode) ((itemParts mode items).map Part.value) := by
          rw [map_value_itemParts]
      _ = _ := Eval.forEach_map (project world fuel mode) Part.value (itemParts mode items)
  simpa only [hitems] using hresults

theorem asks_entries {selector : Selector} {entries : List (String × Value)}
    (hparts : ∀ part ∈ (selector.attributes (Table.keys entries)).map (attributePart entries),
      part.stance.Asks world part.value (calls part)) :
    ∃ results, Eval.Asks (fun fuel => projectEntries (project world fuel) selector entries) results
      (((selector.attributes (Table.keys entries)).map (attributePart entries)).flatMap calls) := by
  have heach : ∀ picked ∈ selector.attributes (Table.keys entries), ∃ result,
      Eval.Asks (fun fuel => (do
        return (picked.1, ← projectAttribute (project world fuel (.ofChild picked.2))
          ((Table.get? entries picked.1).getD .null)) : Eval σ Failure (String × Value)))
        result (calls (attributePart entries picked)) := by
    intro picked hpicked
    obtain ⟨result, hresult⟩ := hparts _ (List.mem_map_of_mem hpicked)
    exact ⟨(picked.1, result), hresult.map (picked.1, ·)⟩
  obtain ⟨results, hresults⟩ := Eval.asks_forEach heach
  refine ⟨results, ?_⟩
  rw [List.flatMap_map]
  exact hresults

variable (hworld : world.Gives answers)
include hworld

theorem asks_plain {selector : Selector} {value : Value}
    (hparts : ∀ part ∈ answers.parts (.plain selector) value,
      part.stance.Asks world part.value (calls part)) :
    Asks world (.plain selector) value ((answers.call? (.plain selector) value).toList ++
      (answers.parts (.plain selector) value).flatMap calls) := by
  cases value with
  | leaf atom => exact ⟨.leaf atom, Eval.asks_pure _⟩
  | object node => exact ⟨.object node, Eval.asks_pure _⟩
  | sequence items =>
      obtain ⟨results, hresults⟩ := asks_items hparts
      exact ⟨.sequence results, hresults.map Value.sequence⟩
  | mapping entries =>
      obtain ⟨results, hresults⟩ := asks_entries hparts
      exact ⟨.mapping results, hresults.map Value.mapping⟩
  | dual left right =>
      obtain ⟨result, hresult⟩ := hparts _ (List.mem_singleton.mpr rfl)
      refine ⟨result, ?_⟩
      rw [Answers.parts, Answers.selectedParts, List.flatMap_singleton]
      exact (Eval.asks_log .detailView).bind hresult
  | lazy node =>
      obtain ⟨result, hresult⟩ := hparts _ (List.mem_singleton.mpr rfl)
      refine ⟨result, ?_⟩
      rw [Answers.parts, Answers.selectedParts, List.flatMap_singleton]
      exact (asks_evaluate hworld node).bind hresult

theorem asks_summary {value : Value}
    (hparts : ∀ part ∈ answers.parts (.reached .summary) value,
      part.stance.Asks world part.value (calls part)) :
    Asks world (.reached .summary) value ((answers.call? (.reached .summary) value).toList ++
      (answers.parts (.reached .summary) value).flatMap calls) := by
  suffices hstep : ∃ result, Eval.Asks (fun fuel => summaryStep world (project world fuel) value)
      result ((answers.call? (.reached .summary) value).toList ++
        (answers.parts (.reached .summary) value).flatMap calls) by
    obtain ⟨result, hresult⟩ := hstep
    exact ⟨result, hresult.succ fun _ => rfl⟩
  cases value with
  | leaf | sequence | mapping | object => exact ⟨_, Eval.asks_pure _⟩
  | dual left right =>
      obtain ⟨result, hresult⟩ := hparts _ (List.mem_singleton.mpr rfl)
      refine ⟨result, ?_⟩
      rw [Answers.parts, Answers.modeParts, Answers.summaryParts, List.flatMap_singleton]
      exact (Eval.asks_log .summaryView).bind hresult
  | lazy node =>
      obtain ⟨result, hresult⟩ := hparts _ (List.mem_singleton.mpr rfl)
      refine ⟨result, ?_⟩
      rw [Answers.parts, Answers.modeParts, Answers.summaryParts, List.flatMap_singleton]
      exact (asks_evaluate hworld node).bind hresult

omit hworld in
theorem Asks.reached {selector : Selector} {value : Value} {calls : List Step}
    (hvalue : unwrapObject world value = pure value)
    (hplain : Asks world (.plain selector) value calls) :
    Asks world (.reached (.select selector)) value calls := by
  obtain ⟨result, hresult⟩ := hplain
  refine ⟨result, hresult.succ fun fuel => ?_⟩
  change unwrapObject world value >>= selectStep world (project world fuel) selector = _
  rw [hvalue, Eval.pure_bind]
  rfl

theorem asks_select {selector : Selector} {value : Value}
    (hparts : ∀ part ∈ answers.parts (.reached (.select selector)) value,
      part.stance.Asks world part.value (calls part)) :
    Asks world (.reached (.select selector)) value
      ((answers.call? (.reached (.select selector)) value).toList ++
        (answers.parts (.reached (.select selector)) value).flatMap calls) := by
  cases value with
  | object node =>
      suffices hstep : ∃ result, Eval.Asks (fun fuel =>
          selectStep world (project world fuel) selector
            ((answers.plain node).getD (.object node))) result
          ((answers.parts (.reached (.select selector)) (.object node)).flatMap calls) by
        obtain ⟨result, hresult⟩ := hstep
        exact ⟨result, ((asks_unwrapObject hworld node).bind hresult).succ fun _ => rfl⟩
      rw [Answers.parts, Answers.modeParts] at hparts ⊢
      cases hplain : answers.plain node with
      | none => exact ⟨.object node, Eval.asks_pure _⟩
      | some plain =>
          rw [hplain] at hparts
          obtain ⟨result, hresult⟩ := hparts _ (List.mem_singleton.mpr rfl)
          refine ⟨result, ?_⟩
          rw [Option.map_some, Option.toList_some, List.flatMap_singleton]
          exact hresult
  | _ => exact Asks.reached rfl (asks_plain hworld hparts)

/-- **The calls at a place.** The one that is due, and then those of the parts in their order. -/
theorem asks_of_parts {stance : Stance} {value : Value}
    (hparts : ∀ part ∈ answers.parts stance value,
      part.stance.Asks world part.value (calls part)) :
    stance.Asks world value
      ((answers.call? stance value).toList ++ (answers.parts stance value).flatMap calls) := by
  have hreached : ∀ mode, (∀ part ∈ answers.parts (.reached mode) value,
      part.stance.Asks world part.value (calls part)) →
      Asks world (.reached mode) value ((answers.call? (.reached mode) value).toList ++
        (answers.parts (.reached mode) value).flatMap calls) := by
    intro mode hmode
    cases mode with
    | select selector => exact asks_select hworld hmode
    | summary => exact asks_summary hworld hmode
  cases stance with
  | reached mode => exact hreached mode hparts
  | plain selector => exact asks_plain hworld hparts
  | under mode =>
      cases value with
      | sequence items =>
          obtain ⟨results, hresults⟩ := asks_items hparts
          exact ⟨.sequence results, hresults.map Value.sequence⟩
      | _ => exact hreached mode hparts

end Stance

/-! ### The calls of a whole projection -/

section Itineraries

variable {world : World σ} {answers : Answers}

theorem snd_visits (stance : Stance) (value : Value) (below : Part → List Visit)
    (parts : List Part) :
    (visitHere answers stance value ++ visitParts below parts).map Prod.snd =
      (answers.call? stance value).toList ++
        parts.flatMap fun part => (below part).map Prod.snd := by
  rw [List.map_append, visitHere, visitParts, List.map_map, List.map_flatMap]
  congr 1
  · exact List.map_id _
  · simp only [List.map_map]
    rfl

/-- The projection at this place makes the calls of an itinerary. -/
def Stance.Follows (world : World σ) (answers : Answers) (stance : Stance) (value : Value) : Prop :=
  ∃ visits, stance.Asks world value (visits.map Prod.snd) ∧ Itinerary answers stance value visits

variable (hworld : world.Gives answers)
include hworld

theorem Stance.follows_of_parts {stance : Stance} {value : Value}
    (hturns : ((answers.parts stance value).map Part.turn).Nodup)
    (hparts : ∀ part ∈ answers.parts stance value,
      part.stance.Follows world answers part.value) :
    stance.Follows world answers value := by
  choose! below hasks hbelow using hparts
  refine ⟨visitHere answers stance value ++ visitParts below (answers.parts stance value), ?_, ?_⟩
  · rw [snd_visits]
    exact asks_of_parts hworld hasks
  · exact Itinerary.node hturns hbelow

theorem follows_of_unfolds {value : Value} (hvalue : answers.Unfolds value) {stance : Stance}
    (hstance : stance.DistinctKeys) : stance.Follows world answers value :=
  Answers.Unfolds.parts_induction (motive := Stance.Follows world answers)
    (fun _ _ => Stance.follows_of_parts hworld) hvalue hstance

end Itineraries

/-- **Evaluation is exact.** If nodes always give the same answers and these end, then there is one
itinerary, and the calls of a projection are those on it, from every state and with all sufficient
fuel. -/
theorem calls_of_select {world : World σ} {answers : Answers} (hworld : world.Gives answers)
    {selector : Selector} (hselector : selector.DistinctKeys) {value : Value}
    (hvalue : answers.Unfolds value) :
    (∃! visits, Itinerary answers (.reached (.select selector)) value visits) ∧
      ∀ visits, Itinerary answers (.reached (.select selector)) value visits →
        ∀ state, ∃ run least, (∀ fuel, least ≤ fuel →
            select world fuel selector value state = some run) ∧
          (∃ result, run.outcome = .ok result) ∧
          callsOf run.trace = visits.map Prod.snd := by
  have hstance : (Stance.reached (.select selector)).DistinctKeys := hselector
  obtain ⟨visits, ⟨result, hasks⟩, hitinerary⟩ := follows_of_unfolds hworld hvalue hstance
  have hunique : ∀ others, Itinerary answers (.reached (.select selector)) value others →
      others = visits := fun others hothers =>
    hothers.unique hvalue hstance hitinerary
  refine ⟨⟨visits, hitinerary, hunique⟩, fun others hothers state => ?_⟩
  obtain ⟨run, least, hrun, houtcome, hcalls⟩ := hasks state
  rw [hunique others hothers]
  exact ⟨run, least, hrun, ⟨result, houtcome⟩, hcalls⟩

/-- A node is asked at both of its places, in the order of the selector, and what it gives is
entered at the first only. The object's plain form is an object again. What the wildcard admits
comes last, in the order of the mapping. -/
theorem calls_of_select_sample :
    let shared : NodeRef := ⟨0, "shared"⟩
    let inner : NodeRef := ⟨1, "inner"⟩
    let record : NodeRef := ⟨2, "record"⟩
    let other : NodeRef := ⟨3, "other"⟩
    let list : Value := .sequence [.lazy inner]
    let answers : Answers :=
      { produced := fun node => match node.address with
          | 0 => list
          | _ => .null
        plain := fun _ => some (.object other) }
    let world : World Nat :=
      { produce := fun node calls => (.ok (answers.produced node), calls + 1)
        convert := fun node calls => (answers.plain node, calls + 1) }
    let value : Value :=
      .mapping [("v", .lazy other), ("x", .lazy shared),
        ("y", .sequence [.lazy shared, .object record]), ("u", .lazy inner)]
    let selector : Selector := ⟨[("*", none), ("y", some ⟨[("z", none)]⟩), ("x", none)]⟩
    world.Gives answers ∧ selector.DistinctKeys ∧ answers.Unfolds value ∧
      ∃ visits, Itinerary answers (.reached (.select selector)) value visits ∧
        visits.map Prod.snd = [.produced shared (.ok list), .produced inner (.ok .null),
          .converted record (some (.object other)), .produced shared (.ok list),
          .produced other (.ok .null), .produced inner (.ok .null)] := by
  intro shared inner record other list answers world value selector
  have hworld : world.Gives answers := ⟨fun _ _ => rfl, fun _ _ => rfl⟩
  have hselector : selector.DistinctKeys :=
    ⟨by simp [Table.Distinct], ⟨⟨by simp [Table.Distinct], trivial⟩, trivial⟩⟩
  have hinner : answers.Unfolds (.lazy inner) := .lazy (.leaf .null)
  have hother : answers.Unfolds (.lazy other) := .lazy (.leaf .null)
  have hlist : answers.Unfolds list := .sequence (by simpa using hinner)
  have hshared : answers.Unfolds (.lazy shared) := .lazy hlist
  have hrecord : answers.Unfolds (.object record) := by
    apply Answers.Unfolds.object
    intro plain hplain hnone
    exact absurd (Option.some.inj hplain).symm (hnone other)
  have hitems : answers.Unfolds (.sequence [.lazy shared, .object record]) :=
    .sequence (by simpa using ⟨hshared, hrecord⟩)
  have hvalue : answers.Unfolds value :=
    .mapping (by simp [Table.Distinct]) (by simpa using ⟨hother, hshared, hitems, hinner⟩)
  obtain ⟨⟨visits, hitinerary, -⟩, hruns⟩ := calls_of_select hworld hselector hvalue
  obtain ⟨run, least, hrun, -, hcalls⟩ := hruns visits hitinerary 0
  have hlater : select world (least + 8) selector value 0 = some run :=
    hrun _ (Nat.le_add_right ..)
  have hmade : (select world (least + 8) selector value 0).map (callsOf ·.trace) =
      some [.produced shared (.ok list), .produced inner (.ok .null),
        .converted record (some (.object other)), .produced shared (.ok list),
        .produced other (.ok .null), .produced inner (.ok .null)] := by
    simp [select, project, projectStep, selectStep, summaryStep, unwrapObject, projectEntries,
      projectAttribute, Selector.attributes, Selector.named, Selector.admitted,
      Selector.hasWildcard, Selector.contains, Selector.wildcard, Table.contains, Table.get?_cons,
      Mode.ofChild, evaluate, bind, Eval.bind, Pure.pure, Eval.pure, Eval.convert, Eval.produce,
      Eval.log, Eval.forEach, callsOf, value, selector, world, answers, shared, inner, record,
      other, list, Value.null]
    rfl
  rw [hlater, Option.map_some, hcalls] at hmade
  exact ⟨hworld, hselector, hvalue, visits, hitinerary, Option.some.inj hmade⟩

end TreeProjection
