import Mathlib.Data.List.Flatten
import Mathlib.Data.List.Forall2
import Mathlib.Data.Option.Defs
import Mathlib.Tactic.Common
import TreeProjection.Proofs.Attributes
import TreeProjection.Proofs.Steadiness
import TreeProjection.Proofs.Tables

/-!
# Asking for less

A selector asks for less than another if it is left of it when entries are deleted, on any level
(`Selector.Narrows`). The wildcard admits whatever is not named, so with it no other entry may go:
the keys of that entry would be admitted again.

Where nodes always answer the same, asking for less succeeds whenever asking for more does. It makes
some of the same calls in the same order, and its result is that of asking for more without the
attributes of the entries that were deleted (`select_narrowed`).
-/

namespace TreeProjection

namespace Selector

mutual

/-- The first selector is left of the second when entries are deleted. Where the wildcard stays, all
entries stay. -/
inductive Narrows : Selector → Selector → Prop where
  | intro {narrow wide : Selector} (hentries : EntriesNarrow narrow.entries wide.entries)
      (hwildcard : narrow.hasWildcard = true → narrow.keys = wide.keys) : Narrows narrow wide

inductive EntriesNarrow :
    List (String × Option Selector) → List (String × Option Selector) → Prop where
  | nil : EntriesNarrow [] []
  | deleted {entries others : List (String × Option Selector)} (entry : String × Option Selector)
      (hrest : EntriesNarrow entries others) : EntriesNarrow entries (entry :: others)
  | bare {entries others : List (String × Option Selector)} (key : String)
      (hrest : EntriesNarrow entries others) :
      EntriesNarrow ((key, none) :: entries) ((key, none) :: others)
  | nested {entries others : List (String × Option Selector)} (key : String)
      {child other : Selector} (hchild : Narrows child other)
      (hrest : EntriesNarrow entries others) :
      EntriesNarrow ((key, some child) :: entries) ((key, some other) :: others)

end

/-- The selector lacks the entry to which an attribute of the wide one belongs: the entry of its
name or, if there is none, the wildcard. -/
def lacks (narrow wide : Selector) (key : String) : Bool :=
  if wide.contains key then !narrow.contains key else !narrow.hasWildcard

/-- What is left of a result of the wide selector without the attributes that the narrow one lacks,
as far as both selectors go on. -/
def prune (narrow wide : Selector) : Value → Value
  | .sequence items => .sequence (items.map (prune narrow wide))
  | .mapping entries =>
      .mapping ((entries.filter fun entry => !narrow.lacks wide entry.1).map fun entry =>
        (entry.1, match narrow.child? entry.1, wide.child? entry.1 with
          | some child, some other => prune child other entry.2
          | _, _ => entry.2))
  | value => value
termination_by value => value.height
decreasing_by
  · have := Value.height_le_itemsHeight ‹_ ∈ items›
    rw [Value.height]
    omega
  · have := Value.height_le_entriesHeight ‹_ ∈ entries›
    rw [Value.height]
    omega

def pruneBelow : Option Selector → Option Selector → Value → Value
  | some child, some other => prune child other
  | _, _ => id

theorem prune_mapping (narrow wide : Selector) (entries : List (String × Value)) :
    narrow.prune wide (.mapping entries) =
      .mapping ((entries.filter fun entry => !narrow.lacks wide entry.1).map fun entry =>
        (entry.1, pruneBelow (narrow.child? entry.1) (wide.child? entry.1) entry.2)) := by
  rw [prune]
  congr 2
  funext entry
  cases narrow.child? entry.1 with
  | none => rfl
  | some child => cases wide.child? entry.1 <;> rfl

theorem prune_sequence (narrow wide : Selector) (items : List Value) :
    narrow.prune wide (.sequence items) = .sequence (items.map (narrow.prune wide)) := by
  rw [prune]

/-! ### The attributes that are left -/

variable {narrow wide : Selector}

theorem EntriesNarrow.keys_sublist {entries others : List (String × Option Selector)}
    (hentries : EntriesNarrow entries others) :
    (Table.keys entries).Sublist (Table.keys others) := by
  induction others generalizing entries with
  | nil =>
      cases hentries
      exact .slnil
  | cons other others ih =>
      cases hentries with
      | deleted _ hrest => exact (ih hrest).cons _
      | bare key hrest | nested key _ hrest => exact (ih hrest).cons_cons _

/-- Of the entries of the wide selector, those that are named by the narrow one are left. -/
theorem EntriesNarrow.forall₂ {entries others : List (String × Option Selector)}
    (hentries : EntriesNarrow entries others) (hothers : Table.Distinct others) :
    List.Forall₂ (EntryRel Narrows) entries
      (others.filter fun other => other.1 ∈ Table.keys entries) := by
  induction others generalizing entries with
  | nil =>
      cases hentries
      exact .nil
  | cons other others ih =>
      obtain ⟨hother, hrestDistinct⟩ := List.nodup_cons.mp hothers
      have hkept (key : String) (child : Option Selector) (rest : List (String × Option Selector))
          (hkey : key ∉ Table.keys others) :
          (others.filter fun other => other.1 ∈ Table.keys ((key, child) :: rest)) =
            others.filter fun other => other.1 ∈ Table.keys rest := by
        refine List.filter_congr fun entry hentry => ?_
        have hne : entry.1 ≠ key := fun heq => hkey (heq ▸ List.mem_map_of_mem hentry)
        simp [hne]
      cases hentries with
      | deleted _ hrest =>
          have hgone : other.1 ∉ Table.keys entries :=
            fun hmem => hother (hrest.keys_sublist.subset hmem)
          rw [List.filter_cons_of_neg (by simpa using hgone)]
          exact ih hrest hrestDistinct
      | bare key hrest =>
          rw [List.filter_cons_of_pos (by simp), hkept _ _ _ hother]
          exact .cons ⟨rfl, .none⟩ (ih hrest hrestDistinct)
      | nested key hchild hrest =>
          rw [List.filter_cons_of_pos (by simp), hkept _ _ _ hother]
          exact .cons ⟨rfl, .some hchild⟩ (ih hrest hrestDistinct)

theorem Narrows.named (hnarrows : narrow.Narrows wide) (hwide : Table.Distinct wide.entries) :
    List.Forall₂ (EntryRel Narrows) narrow.named
      (wide.named.filter fun entry => !narrow.lacks wide entry.1) := by
  obtain ⟨hentries, -⟩ := hnarrows
  have hleft : (wide.named.filter fun entry => !narrow.lacks wide entry.1) =
      (wide.entries.filter fun entry => entry.1 ∈ Table.keys narrow.entries).filter
        fun entry => entry.1 ≠ wildcard := by
    rw [Selector.named, List.filter_filter, List.filter_filter]
    refine List.filter_congr fun entry hentry => ?_
    have hlisted : wide.contains entry.1 = true := contains_of_mem_entries hentry
    rw [lacks, if_pos hlisted, Bool.not_not, contains, Bool.and_comm]
    congr 1
    rw [Bool.eq_iff_iff, Table.contains_iff_mem_keys, decide_eq_true_iff]
  rw [hleft]
  refine List.rel_filter ?_ (hentries.forall₂ hwide)
  rintro ⟨key, child⟩ ⟨_, other⟩ ⟨rfl, -⟩
  exact Iff.rfl

theorem Narrows.admitted (hnarrows : narrow.Narrows wide) (present : List String) :
    List.Forall₂ (EntryRel Narrows) (narrow.admitted present)
      ((wide.admitted present).filter fun picked => !narrow.lacks wide picked.1) := by
  obtain ⟨-, hwildcard⟩ := hnarrows
  have hlacks : ∀ picked ∈ wide.admitted present,
      narrow.lacks wide picked.1 = !narrow.hasWildcard := by
    rintro ⟨key, child⟩ hpicked
    obtain ⟨-, -, -, -, hunnamed⟩ := mem_admitted_iff.mp hpicked
    simp [lacks, hunnamed]
  by_cases hwild : narrow.hasWildcard = true
  · -- The wildcard stays, and with it all keys: what it admits is the same.
    have hsame := contains_of_perm (.of_eq (hwildcard hwild))
    have hall : narrow.admitted present = wide.admitted present := by
      rw [Selector.admitted, Selector.admitted, hasWildcard, hasWildcard, hsame]
    have hkept : ((wide.admitted present).filter fun picked => !narrow.lacks wide picked.1) =
        wide.admitted present := by
      rw [List.filter_eq_self]
      intro picked hpicked
      rw [hlacks picked hpicked, hwild]
      rfl
    rw [hall, hkept, List.forall₂_same]
    rintro ⟨key, child⟩ hpicked
    obtain ⟨rfl, -⟩ := mem_admitted_iff.mp hpicked
    exact ⟨rfl, .none⟩
  · have hnone :
        ((wide.admitted present).filter fun picked => !narrow.lacks wide picked.1) = [] := by
      rw [List.filter_eq_nil_iff]
      intro picked hpicked
      simp [hlacks picked hpicked, hwild]
    rw [hnone, Selector.admitted, if_neg hwild]
    exact .nil

/-- The attributes that the narrow selector keeps of a mapping are those of the wide one whose
entries were not deleted, in the same order. -/
theorem Narrows.attributes (hnarrows : narrow.Narrows wide) (hwide : Table.Distinct wide.entries)
    (present : List String) :
    List.Forall₂ (EntryRel Narrows) (narrow.attributes present)
      ((wide.attributes present).filter fun picked => !narrow.lacks wide picked.1) := by
  rw [Selector.attributes, Selector.attributes, List.filter_append]
  exact List.rel_append (hnarrows.named hwide) (hnarrows.admitted present)

theorem Narrows.distinct (hnarrows : narrow.Narrows wide) (hwide : Table.Distinct wide.entries) :
    Table.Distinct narrow.entries := by
  obtain ⟨hentries, -⟩ := hnarrows
  exact hwide.sublist hentries.keys_sublist

end Selector

/-! ### The projection by less -/

section Less

variable {σ : Type}

/-- Whenever the wide computation yields something, the narrow one yields what is left of its result
and leaves a part of its trace. -/
def Eval.EntailsLess {ε : Type} (left : Value → Value) (wide narrow : Eval σ ε Value) : Prop :=
  wide.Entails (fun trace kept => kept.Sublist trace) (fun result rest => rest = left result) narrow

theorem Eval.traceRel_sublist : TraceRel fun trace kept => kept.Sublist trace where
  refl := .refl
  append := .append

theorem eq_map_of_forall₂ {α β : Type} {f : α → β} {results : List α} {rests : List β}
    (hresults : List.Forall₂ (fun result rest => rest = f result) results rests) :
    rests = results.map f := by
  induction hresults with
  | nil => rfl
  | cons hresult _ ih => rw [hresult, ih, List.map_cons]

variable [Nonempty σ] {world : World σ} (hworld : world.Constant) {fuel : Nat}
include hworld

theorem entailsLess_items {mode other : Mode} {left whole : Value → Value}
    (hwhole : ∀ results, whole (.sequence results) = .sequence (results.map left))
    (hagain : ∀ item, (project world fuel mode item).EntailsLess left
      (project world fuel other item)) (items : List Value) :
    Eval.EntailsLess whole
      (do return Value.sequence (← Eval.forEach (project world fuel mode) items))
      (do return Value.sequence (← Eval.forEach (project world fuel other) items)) := by
  refine entails_items hworld Eval.traceRel_sublist
    (List.forall₂_same.mpr fun item _ => hagain item) fun results twins hresults => ?_
  rw [eq_map_of_forall₂ hresults, hwhole]

section Step

variable (hagain : ∀ {narrow wide : Selector}, narrow.Narrows wide → wide.DistinctKeys →
  ∀ value, (project world fuel (.select wide) value).EntailsLess (narrow.prune wide)
    (project world fuel (.select narrow) value))
include hagain

theorem entailsLess_projectAttribute {child other : Option Selector}
    (hchild : Option.Rel Selector.Narrows child other)
    (hother : (Mode.ofChild other).DistinctKeys) (item : Value) :
    (projectAttribute (project world fuel (.ofChild other)) item).EntailsLess
      (Selector.pruneBelow child other)
      (projectAttribute (project world fuel (.ofChild child)) item) := by
  cases hchild with
  | none => exact Eval.entails_self Eval.traceRel_sublist (fun _ => by rfl) _
  | @some child other hnarrows =>
      have heach := hagain hnarrows hother
      cases item with
      | sequence items =>
          exact entailsLess_items hworld (Selector.prune_sequence child other) heach items
      | _ => exact heach _

theorem entailsLess_mapping {narrow wide : Selector} (hnarrows : narrow.Narrows wide)
    (hwide : wide.DistinctKeys) (entries : List (String × Value)) :
    (selectStep world (project world fuel) wide (.mapping entries)).EntailsLess
      (narrow.prune wide) (selectStep world (project world fuel) narrow (.mapping entries)) := by
  intro result trace hyields
  obtain ⟨outs, houts, rfl, rfl⟩ := (yields_mapping_iff hworld).mp hyields
  have hpicked (selector : Selector) : ∀ picked ∈ selector.attributes (Table.keys entries),
      selector.Picks picked.1 picked.2 := fun _ hmem => (Selector.mem_attributes_iff.mp hmem).1
  have hfew := (List.forall₂_and_left _ _).mpr
    ⟨hpicked narrow, hnarrows.attributes hwide.distinct_entries (Table.keys entries)⟩
  have hmany := (List.forall₂_and_left _ _).mpr ⟨hpicked wide, houts⟩
  -- What belongs to an entry that was deleted is gone on both sides.
  have hleft := List.rel_filter (p := fun picked => !narrow.lacks wide picked.1)
    (q := fun out => !narrow.lacks wide out.1.1) (by rintro ⟨key, _⟩ _ ⟨-, rfl, -⟩; exact Iff.rfl)
    hmany
  obtain ⟨kept, hkept, hresults, htraces⟩ := Eval.exists_outs Eval.traceRel_sublist hfew.flip hleft
    (Q := YieldsAttribute world fuel entries)
    (R := fun entry rest => rest = (entry.1,
      Selector.pruneBelow (narrow.child? entry.1) (wide.child? entry.1) entry.2)) <| by
      rintro ⟨_, other⟩ ⟨key, child⟩ ⟨⟨_, item⟩, trace⟩ ⟨hnarrow, rfl, hchild⟩ ⟨hother, rfl, hitem⟩
      obtain ⟨_, kept, hkept, rfl, hsublist⟩ := entailsLess_projectAttribute hworld hagain hchild
        (hwide.ofChild hother) _ _ _ hitem
      refine ⟨((_, _), kept), ⟨rfl, hkept⟩, ?_, hsublist⟩
      rw [hnarrow.child?_eq (hnarrows.distinct hwide.distinct_entries),
        hother.child?_eq hwide.distinct_entries]
      rfl
  refine ⟨_, _, (yields_mapping_iff hworld).mpr ⟨kept, hkept, rfl, rfl⟩, ?_, ?_⟩
  · have hentries := eq_map_of_forall₂ (f := fun entry : String × Value => (entry.1,
      Selector.pruneBelow (narrow.child? entry.1) (wide.child? entry.1) entry.2))
      (List.forall₂_map_left_iff.mpr (List.forall₂_map_right_iff.mpr hresults))
    rw [hentries]
    dsimp only
    rw [Selector.prune_mapping, List.filter_map]
    rfl
  · exact htraces.trans (List.filter_sublist.flatMap _)

theorem entailsLess_selectStep {narrow wide : Selector} (hnarrows : narrow.Narrows wide)
    (hwide : wide.DistinctKeys) (value : Value) :
    (selectStep world (project world fuel) wide value).EntailsLess (narrow.prune wide)
      (selectStep world (project world fuel) narrow value) := by
  have hparts := composable_steady hworld
  have hsteady := steady_project hworld fuel (.select wide)
  have hT := Eval.traceRel_sublist
  cases value with
  | leaf | object => exact Eval.entails_pure hT (by rw [Selector.prune] <;> exact nofun)
  | sequence items =>
      exact entailsLess_items hworld (Selector.prune_sequence narrow wide)
        (hagain hnarrows hwide) items
  | mapping entries => exact entailsLess_mapping hworld hagain hnarrows hwide entries
  | dual left right =>
      exact .bind hT hparts.detailView (fun _ => hsteady right)
        fun _ _ _ => hagain hnarrows hwide right
  | lazy node =>
      exact .bind hT (hparts.evaluate node) hsteady
        fun value _ _ => hagain hnarrows hwide value

end Step

theorem entailsLess_project {narrow wide : Selector} (hnarrows : narrow.Narrows wide)
    (hwide : wide.DistinctKeys) (value : Value) :
    (project world fuel (.select wide) value).EntailsLess (narrow.prune wide)
      (project world fuel (.select narrow) value) := by
  have hparts := composable_steady hworld
  induction fuel generalizing narrow wide value with
  | zero => exact Eval.entails_exhausted
  | succ fuel ih =>
      exact .bind Eval.traceRel_sublist (hparts.unwrapObject value)
        (hparts.selectStep (hparts.project fuel) wide)
        fun value _ _ => entailsLess_selectStep hworld ih hnarrows hwide value

end Less

/-- **Asking for less.** Where nodes always answer the same, whenever the projection by the wide
selector succeeds, so does that by the narrow one, from every state. It leaves a part of the trace,
and so makes some of the calls, in the same order; its result is that of the wide one without what
the narrow one lacks. -/
theorem select_narrowed {σ : Type} {world : World σ} (hworld : world.Constant)
    {narrow wide : Selector} (hnarrows : narrow.Narrows wide) (hwide : wide.DistinctKeys)
    {fuel : Nat} {value result : Value} {state after : σ} {trace : List Step}
    (hrun : select world fuel wide value state = some ⟨.ok result, after, trace⟩) :
    ∃ kept, (select world fuel narrow value).Yields (narrow.prune wide result) kept ∧
      kept.Sublist trace ∧ (callsOf kept).Sublist (callsOf trace) := by
  have : Nonempty σ := ⟨state⟩
  have hyields := (steady_project hworld fuel (.select wide) value).yields hrun
  obtain ⟨_, kept, hkept, rfl, hsublist⟩ :=
    entailsLess_project hworld hnarrows hwide value _ _ hyields
  exact ⟨kept, hkept, hsublist, hsublist.filter _⟩

theorem select_narrowed_sample :
    let shared : NodeRef := ⟨0, "shared"⟩
    let record : NodeRef := ⟨1, "record"⟩
    let truth : Value := .leaf (.bool true)
    let produced : Value := .mapping [("k", truth),
      ("b", .sequence [.mapping [("x", truth), ("y", truth)], .object record])]
    let world : World Nat :=
      { produce := fun _ calls => (.ok produced, calls + 1)
        convert := fun _ calls => (some (.mapping [("x", .lazy shared)]), calls + 1) }
    let below (names : List (String × Option Selector)) : Selector :=
      ⟨[("b", some ⟨names⟩), ("*", none)]⟩
    let wide : Selector :=
      ⟨[("d", none), ("a", some (below [("x", none), ("y", none)])), ("*", none)]⟩
    let narrow : Selector := ⟨[("a", some (below [("y", none)]))]⟩
    let value : Value := .mapping [("e", truth), ("a", .lazy shared), ("d", .object record)]
    let result : Value := .mapping [("d", .object record),
      ("a", .mapping [("b", .sequence [.mapping [("x", truth), ("y", truth)],
        .mapping [("x", produced), ("y", .null)]]), ("k", truth)]), ("e", truth)]
    let trace : List Step := [.logged .evaluating, .produced shared (.ok produced),
      .converted record (some (.mapping [("x", .lazy shared)])), .logged .evaluating,
      .produced shared (.ok produced)]
    world.Constant ∧ narrow.Narrows wide ∧ wide.DistinctKeys ∧
      select world 6 wide value 0 = some ⟨.ok result, 3, trace⟩ ∧
      narrow.prune wide result = .mapping [("a", .mapping [("b", .sequence [.mapping [("y", truth)],
        .mapping [("y", .null)]]), ("k", truth)])] ∧
      ∃ kept, (select world 6 narrow value).Yields (narrow.prune wide result) kept ∧
        kept.Sublist trace ∧ (callsOf kept).Sublist (callsOf trace) := by
  intro shared record truth produced world below wide narrow value result trace
  have hworld : world.Constant := ⟨fun _ _ _ => rfl, fun _ _ _ => rfl⟩
  have hinner : Selector.Narrows ⟨[("y", none)]⟩ ⟨[("x", none), ("y", none)]⟩ :=
    ⟨.deleted _ (.bare _ .nil), by decide⟩
  have hbelow : (below [("y", none)]).Narrows (below [("x", none), ("y", none)]) :=
    ⟨.nested _ hinner (.bare _ .nil), fun _ => rfl⟩
  have hnarrows : narrow.Narrows wide :=
    ⟨.deleted _ (.nested _ hbelow (.deleted _ .nil)), by decide⟩
  have hwide : wide.DistinctKeys := by
    simp [wide, below, Selector.DistinctKeys, Selector.ChildrenDistinct, Table.Distinct]
  have hrun : select world 6 wide value 0 = some ⟨.ok result, 3, trace⟩ := by
    simp [select, project, projectStep, selectStep, summaryStep, unwrapObject, projectEntries,
      projectAttribute, Selector.attributes, Selector.named, Selector.admitted,
      Selector.hasWildcard, Selector.contains, Selector.wildcard, Table.contains, Table.get?_cons,
      Mode.ofChild, evaluate, bind, Eval.bind, Pure.pure, Eval.pure, Eval.convert, Eval.produce,
      Eval.log, Eval.forEach, value, wide, below, world, result, trace, produced, truth, shared,
      record, Value.null]
  have hpruned : narrow.prune wide result = .mapping [("a", .mapping
      [("b", .sequence [.mapping [("y", truth)], .mapping [("y", .null)]]), ("k", truth)])] := by
    simp [narrow, wide, below, result, Selector.prune, Selector.lacks, Selector.contains,
      Selector.hasWildcard, Selector.wildcard, Selector.child?, Selector.get?, Table.contains,
      Table.get?_cons]
  exact ⟨hworld, hnarrows, hwide, hrun, hpruned, select_narrowed hworld hnarrows hwide hrun⟩

end TreeProjection
