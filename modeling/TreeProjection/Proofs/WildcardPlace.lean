import Mathlib.Data.List.Forall2
import Mathlib.Tactic.Common
import TreeProjection.Proofs.Attributes
import TreeProjection.Proofs.Tables

/-!
# Where the wildcard stands

Of the wildcard of a selector only its presence counts. Two selectors that name the same attributes
in the same order, on every level that is reached through a name, are the same selector to a
projection if each level has a wildcard in both or in neither: it may stand anywhere among the
names, and whatever is nested below it is never looked at (`select_eq_of_sameButWildcard`).
-/

namespace TreeProjection

namespace Selector

mutual

/-- The two selectors name the same attributes in the same order and have a wildcard both or
neither. What is nested below the names is alike again; what is nested below the wildcard may be
anything. -/
inductive SameButWildcard : Selector → Selector → Prop where
  | intro {selector other : Selector} (hwildcard : selector.hasWildcard = other.hasWildcard)
      (hnamed : EntriesSame selector.named other.named) : SameButWildcard selector other

inductive EntriesSame :
    List (String × Option Selector) → List (String × Option Selector) → Prop where
  | nil : EntriesSame [] []
  | bare {entries others : List (String × Option Selector)} (key : String)
      (hrest : EntriesSame entries others) :
      EntriesSame ((key, none) :: entries) ((key, none) :: others)
  | nested {entries others : List (String × Option Selector)} (key : String)
      {child other : Selector} (hchild : SameButWildcard child other)
      (hrest : EntriesSame entries others) :
      EntriesSame ((key, some child) :: entries) ((key, some other) :: others)

end

theorem EntriesSame.forall₂ {entries others : List (String × Option Selector)}
    (hentries : EntriesSame entries others) :
    List.Forall₂ (EntryRel SameButWildcard) entries others := by
  induction entries generalizing others with
  | nil =>
      cases hentries
      exact .nil
  | cons entry entries ih =>
      cases hentries with
      | bare key hrest => exact .cons ⟨rfl, .none⟩ (ih hrest)
      | nested key hchild hrest => exact .cons ⟨rfl, .some hchild⟩ (ih hrest)

theorem contains_iff_mem_keys_named {selector : Selector} {key : String} (hkey : key ≠ wildcard) :
    selector.contains key = true ↔ key ∈ Table.keys selector.named := by
  have hnamed : Table.keys selector.named = selector.keys.filter fun key => key ≠ wildcard :=
    Table.keys_filter selector.entries fun key => key ≠ wildcard
  rw [contains, Table.contains_iff_mem_keys, hnamed, List.mem_filter, keys]
  simp [hkey]

namespace SameButWildcard

variable {selector other : Selector}

/-- The wildcard admits what neither of the two names, wherever it stands. -/
theorem admitted_eq (hsame : selector.SameButWildcard other) (present : List String) :
    selector.admitted present = other.admitted present := by
  obtain ⟨hwildcard, hnamed⟩ := hsame
  have hkeys : Table.keys other.named = Table.keys selector.named :=
    Table.keys_eq_of_forall₂ (fun _ _ hentry => hentry.1) hnamed.forall₂
  have hunnamed : ∀ key ∈ present, decide (key ≠ wildcard ∧ ¬selector.contains key) =
      decide (key ≠ wildcard ∧ ¬other.contains key) := by
    intro key _
    refine decide_eq_decide.mpr (and_congr_right fun hkey => not_congr ?_)
    rw [contains_iff_mem_keys_named hkey, contains_iff_mem_keys_named hkey, hkeys]
  rw [admitted, admitted, hwildcard, List.filter_congr hunnamed]

/-- Both keep the same attributes of a mapping, in the same order, with children that are alike. -/
theorem attributes (hsame : selector.SameButWildcard other) (present : List String) :
    List.Forall₂ (EntryRel SameButWildcard) (selector.attributes present)
      (other.attributes present) := by
  have hadmitted : List.Forall₂ (EntryRel SameButWildcard) (selector.admitted present)
      (other.admitted present) := by
    rw [← hsame.admitted_eq, List.forall₂_same]
    rintro ⟨key, child⟩ hentry
    obtain ⟨rfl, -⟩ := mem_admitted_iff.mp hentry
    exact ⟨rfl, .none⟩
  obtain ⟨-, hnamed⟩ := hsame
  exact List.rel_append hnamed.forall₂ hadmitted

end SameButWildcard

end Selector

theorem Eval.forEach_eq_of_forall₂ {σ ε α β γ : Type} {f : α → Eval σ ε γ} {g : β → Eval σ ε γ}
    {items : List α} {others : List β}
    (hitems : List.Forall₂ (fun item other => f item = g other) items others) :
    Eval.forEach f items = Eval.forEach g others := by
  induction hitems with
  | nil => rfl
  | cons hitem _ ih => rw [Eval.forEach, Eval.forEach, hitem, ih]

section Projection

variable {σ : Type} (world : World σ) {again : Mode → Value → Eval σ Failure Value}
  (hagain : ∀ {selector other : Selector}, selector.SameButWildcard other →
    again (.select selector) = again (.select other))
include hagain

theorem projectEntries_eq_of_sameButWildcard {selector other : Selector}
    (hsame : selector.SameButWildcard other) (entries : List (String × Value)) :
    projectEntries again selector entries = projectEntries again other entries := by
  refine Eval.forEach_eq_of_forall₂ ((hsame.attributes (Table.keys entries)).imp ?_)
  rintro ⟨key, child⟩ ⟨_, twin⟩ ⟨rfl, hchild⟩
  have hmode : again (.ofChild child) = again (.ofChild twin) := by
    cases hchild with
    | none => rfl
    | some hchild => exact hagain hchild
  dsimp only
  rw [hmode]

theorem selectStep_eq_of_sameButWildcard {selector other : Selector}
    (hsame : selector.SameButWildcard other) (value : Value) :
    selectStep world again selector value = selectStep world again other value := by
  cases value with
  | leaf | object => rfl
  | sequence items => rw [selectStep, selectStep, hagain hsame]
  | mapping entries =>
      rw [selectStep, selectStep, projectEntries_eq_of_sameButWildcard hagain hsame]
  | dual left right => rw [selectStep, selectStep, hagain hsame]
  | lazy node => rw [selectStep, selectStep, hagain hsame]

end Projection

theorem project_eq_of_sameButWildcard {σ : Type} (world : World σ) (fuel : Nat)
    {selector other : Selector} (hsame : selector.SameButWildcard other) :
    project world fuel (.select selector) = project world fuel (.select other) := by
  induction fuel generalizing selector other with
  | zero => rfl
  | succ fuel ih =>
      funext value
      rw [project, projectStep, projectStep]
      congr 1
      funext plain
      exact selectStep_eq_of_sameButWildcard world ih hsame plain

/-- **The wildcard's place.** Selectors that differ only in where their wildcards stand, and in what
is nested below these, project every value in the same way from every state of every world: to the
same outcome, with the same calls and the same log entries on the way, or without end. -/
theorem select_eq_of_sameButWildcard {σ : Type} (world : World σ) {selector other : Selector}
    (hsame : selector.SameButWildcard other) (fuel : Nat) (value : Value) (state : σ) :
    select world fuel selector value state = select world fuel other value state :=
  congrFun (congrFun (project_eq_of_sameButWildcard world fuel hsame) value) state

theorem select_eq_of_sameButWildcard_sample :
    let node : NodeRef := ⟨0, "node"⟩
    let truth : Value := .leaf (.bool true)
    let world : World Nat :=
      { produce := fun _ calls => (if calls < 2 then .ok truth else .error ⟨"spent"⟩, calls + 1)
        convert := fun _ calls => (none, calls) }
    let selector : Selector := ⟨[("b", some ⟨[("*", none), ("x", none)]⟩),
      ("*", some ⟨[("z", none)]⟩), ("a", none)]⟩
    let other : Selector := ⟨[("*", none), ("b", some ⟨[("x", none), ("*", some ⟨[("q", none)]⟩)]⟩),
      ("a", none)]⟩
    let value : Value := .mapping [("c", .lazy node), ("a", .lazy node),
      ("b", .mapping [("y", .lazy node), ("x", .dual (.lazy node) .null)])]
    let trace : List Step := [.logged .summaryView, .logged .evaluating, .produced node (.ok truth),
      .logged .evaluating, .produced node (.ok truth), .logged .evaluating,
      .produced node (.error ⟨"spent"⟩), .logged (.producerFailed "spent")]
    selector.SameButWildcard other ∧
      select world 6 selector value 0 = some ⟨.error ⟨"spent"⟩, 3, trace⟩ ∧
      select world 6 selector value 0 = select world 6 other value 0 := by
  intro node truth world selector other value trace
  have hinner : Selector.SameButWildcard ⟨[("*", none), ("x", none)]⟩
      ⟨[("x", none), ("*", some ⟨[("q", none)]⟩)]⟩ := ⟨rfl, .bare "x" .nil⟩
  have hsame : selector.SameButWildcard other := ⟨rfl, .nested "b" hinner (.bare "a" .nil)⟩
  have hrun : select world 6 selector value 0 = some ⟨.error ⟨"spent"⟩, 3, trace⟩ := by
    simp [select, project, projectStep, selectStep, summaryStep, unwrapObject, projectEntries,
      projectAttribute, Selector.attributes, Selector.named, Selector.admitted,
      Selector.hasWildcard, Selector.contains, Selector.wildcard, Table.contains, Table.get?_cons,
      Mode.ofChild, evaluate, bind, Eval.bind, Pure.pure, Eval.pure, Eval.produce, Eval.log,
      Eval.fail, Eval.forEach, value, selector, world, trace, truth, node]
  exact ⟨hsame, hrun, select_eq_of_sameButWildcard world hsame 6 value 0⟩

end TreeProjection
