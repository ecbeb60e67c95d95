import Mathlib.Data.List.Forall2
import Mathlib.Tactic.Common
import TreeProjection.Proofs.Attributes
import TreeProjection.Proofs.Keeping
import TreeProjection.Proofs.Tables
import TreeProjection.Proofs.Termination
import TreeProjection.Proofs.TreeInduction

/-!
# What comes out of a projection is clean

As far as a selector goes on, a projection leaves no dual-view and no lazy node behind: what comes
out is a leaf, an object, a sequence of such results, or a mapping with the keys that the selector
asks for and such results below those that it nests another selector in (`Selector.Clean`). Whatever
nodes answer, and whether or not they answer the same the next time, every result of a projection
is clean (`select_clean`).

A clean result that is spelled out is what its selector keeps of it (`Selector.Clean.keep_eq`). So
projecting it again changes nothing and asks for nothing (`select_fixed`).
-/

namespace TreeProjection

variable {σ ε α β : Type}

/-! ### What computations can give -/

theorem exists_left_of_mem {R : α → β → Prop} {items : List α} {results : List β}
    (hitems : List.Forall₂ R items results) {result : β} (hresult : result ∈ results) :
    ∃ item ∈ items, R item result := by
  induction hitems with
  | nil => exact absurd hresult List.not_mem_nil
  | cons hitem _ ih =>
      rcases List.mem_cons.mp hresult with rfl | hrest
      · exact ⟨_, List.mem_cons_self .., hitem⟩
      · obtain ⟨item, hmem, hrelated⟩ := ih hrest
        exact ⟨item, List.mem_cons_of_mem _ hmem, hrelated⟩

namespace Eval

/-- Whatever the computation gives, from whatever state, has the property. -/
def GivesOnly (eval : Eval σ ε α) (p : α → Prop) : Prop :=
  ∀ result, eval.Gives result → p result

theorem gives_of_outcome {eval : Eval σ ε α} (state : σ) {result : α}
    (houtcome : (eval state).map Run.outcome = some (.ok result)) : eval.Gives result := by
  obtain ⟨run, hrun, hok⟩ := Option.map_eq_some_iff.mp houtcome
  exact ⟨state, run, hrun, hok⟩

variable {p : α → Prop} {q : β → Prop}

theorem givesOnly_exhausted : GivesOnly (exhausted : Eval σ ε α) p := by
  rintro result ⟨state, run, hrun, -⟩
  cases hrun

theorem givesOnly_pure {result : α} (hresult : p result) :
    GivesOnly (Pure.pure result : Eval σ ε α) p := by
  rintro other ⟨state, run, hrun, houtcome⟩
  obtain rfl := Option.some.inj hrun
  obtain rfl := Except.ok.inj houtcome
  exact hresult

theorem givesOnly_true (eval : Eval σ ε α) : GivesOnly eval fun _ => True :=
  fun _ _ => trivial

theorem GivesOnly.bind {first : Eval σ ε α} {next : α → Eval σ ε β} (hfirst : first.GivesOnly p)
    (hnext : ∀ result, p result → (next result).GivesOnly q) : (first >>= next).GivesOnly q := by
  rintro last ⟨state, run, hrun, houtcome⟩
  rcases bind_eq_some hrun with
    ⟨error, herror, -⟩ | ⟨result, after, trace, rest, hbegun, hended, rfl⟩
  · cases houtcome.symm.trans herror
  · have hresult : p result := hfirst result ⟨state, _, hbegun, rfl⟩
    exact hnext result hresult last ⟨after, rest, hended, houtcome⟩

theorem GivesOnly.map {eval : Eval σ ε α} {f : α → β} (heval : eval.GivesOnly p)
    (himp : ∀ result, p result → q (f result)) :
    GivesOnly (do return f (← eval) : Eval σ ε β) q :=
  heval.bind fun result hresult => givesOnly_pure (himp result hresult)

theorem givesOnly_forEach {R : α → β → Prop} {f : α → Eval σ ε β} {items : List α}
    (hitems : ∀ item ∈ items, (f item).GivesOnly (R item)) :
    (forEach f items).GivesOnly (List.Forall₂ R items) := by
  induction items with
  | nil => exact givesOnly_pure .nil
  | cons item rest ih =>
      obtain ⟨hitem, hrest⟩ := List.forall_mem_cons.mp hitems
      rw [forEach]
      refine hitem.bind fun result hresult => ?_
      exact (ih hrest).map fun results hresults => .cons hresult hresults

end Eval

/-! ### Clean values -/

/-- Neither a dual-view nor a lazy node. -/
def Value.Resolved : Value → Prop
  | .dual _ _ | .lazy _ => False
  | _ => True

namespace Selector

/-- What is left of a value where a selector went on. The keys of a mapping are those that the
selector names, in its order, and behind them further ones if there is a wildcard. -/
inductive Clean : Selector → Value → Prop where
  | leaf (selector : Selector) (atom : Leaf) : Clean selector (.leaf atom)
  | object (selector : Selector) (node : NodeRef) : Clean selector (.object node)
  | sequence {selector : Selector} {items : List Value}
      (hitems : ∀ item ∈ items, Clean selector item) : Clean selector (.sequence items)
  | mapping {selector : Selector} {entries : List (String × Value)} {further : List String}
      (hkeys : Table.keys entries = Table.keys selector.named ++ further)
      (hdistinct : Table.Distinct entries)
      (hwildcard : further ≠ [] → selector.hasWildcard = true)
      (hfurther : ∀ key ∈ further, key ≠ wildcard ∧ selector.contains key = false)
      (hnested : ∀ {key : String} {child : Selector} {item : Value},
        (key, some child) ∈ selector.entries → (key, item) ∈ entries → Clean child item)
      (hbare : ∀ {key : String} {item : Value}, (key, item) ∈ entries →
        (∀ child, (key, some child) ∉ selector.entries) → item.Resolved) :
      Clean selector (.mapping entries)

/-- Every entry on every level has a child, and none is the wildcard. -/
inductive NestedThroughout : Selector → Prop where
  | intro {selector : Selector} (hkeys : ∀ entry ∈ selector.entries, entry.1 ≠ wildcard)
      (hbare : ∀ key, (key, none) ∉ selector.entries)
      (hchildren : ∀ key child, (key, some child) ∈ selector.entries → NestedThroughout child) :
      NestedThroughout selector

/-- A selector that goes on everywhere leaves nothing but plain data. -/
theorem Clean.isPlain {selector : Selector} {value : Value} (hclean : selector.Clean value)
    (hnested : selector.NestedThroughout) : value.isPlain = true := by
  induction hclean with
  | leaf | object => rfl
  | sequence _ ih =>
      rw [Value.isPlain, Value.itemsPlain_iff]
      exact fun item hitem => ih item hitem hnested
  | @mapping selector entries further hkeys _ hwildcard _ _ _ ih =>
      obtain ⟨hnames, hbare, hchildren⟩ := hnested
      have hnone : further = [] := by
        by_contra hsome
        have hlisted := Table.contains_iff_mem_keys.mp (hwildcard hsome)
        obtain ⟨entry, hentry, hkey⟩ := List.mem_map.mp hlisted
        exact hnames entry hentry hkey
      rw [Value.isPlain, Value.entriesPlain_iff]
      rintro ⟨key, item⟩ hitem
      have hkey : key ∈ Table.keys selector.named := by
        rw [← List.append_nil (Table.keys _), ← hnone, ← hkeys]
        exact Table.mem_keys_of_mem hitem
      obtain ⟨⟨_, child⟩, hchild, rfl⟩ := List.mem_map.mp hkey
      have hentry := (mem_named_iff.mp hchild).1
      cases child with
      | none => exact absurd hentry (hbare _)
      | some child => exact ih hentry hitem (hchildren _ child hentry)

end Selector

/-! ### Every result is clean -/

namespace Mode

def Clean : Mode → Value → Prop
  | .select selector => selector.Clean
  | .summary => Value.Resolved

theorem clean_sequence {mode : Mode} {items : List Value}
    (hitems : ∀ item ∈ items, mode.Clean item) : mode.Clean (.sequence items) := by
  cases mode with
  | select selector => exact .sequence hitems
  | summary => exact trivial

/-- What may become of the value of an attribute: a sequence keeps its length, and each of its items
is clean. -/
structure CleanAttribute (mode : Mode) (item result : Value) : Prop where
  clean : mode.Clean result
  items {items : List Value} (hsequence : item = .sequence items) :
    ∃ results, result = .sequence results ∧ results.length = items.length ∧
      ∀ part ∈ results, mode.Clean part

end Mode

/-- An attribute of a mapping and what became of it. -/
def CleanEntry (entries : List (String × Value)) (picked : String × Option Selector)
    (kept : String × Value) : Prop :=
  kept.1 = picked.1 ∧
    (Mode.ofChild picked.2).CleanAttribute ((Table.get? entries picked.1).getD .null) kept.2

/-- What becomes of a mapping is clean if this is so for each of its attributes. -/
theorem Selector.Clean.of_entries {selector : Selector} (hselector : selector.DistinctKeys)
    {entries kept : List (String × Value)} (hentries : Table.Distinct entries)
    (hkept : List.Forall₂ (CleanEntry entries) (selector.attributes (Table.keys entries)) kept) :
    selector.Clean (.mapping kept) := by
  have hkeys : Table.keys kept = Table.keys (selector.attributes (Table.keys entries)) :=
    Table.keys_eq_of_forall₂ (fun _ _ hentry => hentry.1) hkept
  have hpicked : ∀ {key item}, (key, item) ∈ kept → ∃ child, selector.Picks key child ∧
      (Mode.ofChild child).Clean item := by
    intro key item hmem
    obtain ⟨⟨_, child⟩, hpicked, rfl, hclean⟩ := exists_left_of_mem hkept hmem
    exact ⟨child, (mem_attributes_iff.mp hpicked).1, hclean.clean⟩
  have hnames : Table.keys kept =
      Table.keys selector.named ++ Table.keys (selector.admitted (Table.keys entries)) := by
    rw [hkeys, attributes, Table.keys_append]
  refine .mapping hnames ?_ ?_ ?_ ?_ ?_
  · rw [Table.Distinct, hkeys]
    exact distinct_attributes hselector.distinct_entries hentries
  · intro hsome
    obtain ⟨key, hkey⟩ := List.exists_mem_of_ne_nil _ hsome
    obtain ⟨⟨_, child⟩, hadmitted, -⟩ := List.mem_map.mp hkey
    exact (mem_admitted_iff.mp hadmitted).2.1
  · intro key hkey
    obtain ⟨⟨_, child⟩, hadmitted, rfl⟩ := List.mem_map.mp hkey
    exact (mem_admitted_iff.mp hadmitted).2.2.2
  · intro key child item hnamed hitem
    obtain ⟨picked, ⟨-, hentry | ⟨-, -, hunnamed⟩⟩, hclean⟩ := hpicked hitem
    · have hsame : some child = picked := Option.some.inj <|
        (hselector.distinct_entries.get?_eq_some hnamed).symm.trans
          (hselector.distinct_entries.get?_eq_some hentry)
      rwa [← hsame] at hclean
    · exact absurd (contains_of_mem_entries hnamed) (by simp [hunnamed])
  · intro key item hitem hbare
    obtain ⟨_ | child, ⟨-, hentry | ⟨hchild, -⟩⟩, hclean⟩ := hpicked hitem
    · exact hclean
    · exact hclean
    · exact absurd hentry (hbare child)
    · cases hchild

theorem exists_sequence_of_picks {selector : Selector} (hselector : selector.DistinctKeys)
    {entries kept : List (String × Value)}
    (hkept : List.Forall₂ (CleanEntry entries) (selector.attributes (Table.keys entries)) kept)
    {key : String} {items : List Value} (hpicks : selector.Picks key none)
    (hsequence : Table.get? entries key = some (.sequence items)) :
    ∃ results, Table.get? kept key = some (.sequence results) ∧ results.length = items.length ∧
      ∀ part ∈ results, part.Resolved := by
  have hlisted : key ∈ Table.keys entries :=
    Table.mem_keys_of_mem (Table.mem_of_get?_eq_some hsequence)
  have hfound := Selector.get?_attributes_of_mem hselector.distinct_entries
    (Selector.mem_attributes_iff.mpr ⟨hpicks, Or.inr hlisted⟩)
  obtain ⟨item, hitem, -, hclean⟩ :=
    Table.get?_of_forall₂ (fun _ _ hentry => hentry.1) hkept hfound
  rw [hsequence, Option.getD_some] at hclean
  obtain ⟨results, rfl, hresults⟩ := hclean.items rfl
  exact ⟨results, hitem, hresults⟩

/-- Nodes give no mapping that lists a key twice. -/
structure World.DistinctKeys (world : World σ) : Prop where
  produce {node : NodeRef} {state : σ} {value : Value}
    (hanswer : (world.produce node state).1 = .ok value) : value.DistinctKeys
  convert {node : NodeRef} {state : σ} {plain : Value}
    (hanswer : (world.convert node state).1 = some plain) : plain.DistinctKeys

section Calls

variable {world : World σ} (hworld : world.DistinctKeys)
include hworld

theorem givesOnly_evaluate (node : NodeRef) :
    (evaluate world node).GivesOnly Value.DistinctKeys := by
  intro value hgives
  cases leads_of_gives_evaluate hgives with
  | produced hanswer => exact hworld.produce hanswer

theorem givesOnly_unwrapObject {value : Value} (hvalue : value.DistinctKeys) :
    (unwrapObject world value).GivesOnly Value.DistinctKeys := by
  intro plain hgives
  cases value with
  | object node =>
      rcases leads_of_gives_unwrapObject hgives with rfl | hleads
      · exact hvalue
      · cases hleads with
        | converted hanswer => exact hworld.convert hanswer
  | _ => exact Eval.givesOnly_pure hvalue plain hgives

end Calls

section Steps

variable {world : World σ} {again : Mode → Value → Eval σ Failure Value}
  (hagain : ∀ {mode : Mode} {value : Value}, mode.DistinctKeys → value.DistinctKeys →
    (again mode value).GivesOnly mode.Clean)
include hagain

theorem givesOnly_items {mode : Mode} (hmode : mode.DistinctKeys) {items : List Value}
    (hitems : ∀ item ∈ items, item.DistinctKeys) :
    (Eval.forEach (again mode) items).GivesOnly fun results =>
      results.length = items.length ∧ ∀ part ∈ results, mode.Clean part := by
  intro results hgives
  have hresults : List.Forall₂ (fun _ => mode.Clean) items results :=
    Eval.givesOnly_forEach (fun item hitem => hagain hmode (hitems item hitem)) results hgives
  refine ⟨hresults.length_eq.symm, fun part hpart => ?_⟩
  obtain ⟨-, -, hclean⟩ := exists_left_of_mem hresults hpart
  exact hclean

theorem givesOnly_projectAttribute {mode : Mode} (hmode : mode.DistinctKeys) {item : Value}
    (hitem : item.DistinctKeys) :
    (projectAttribute (again mode) item).GivesOnly (mode.CleanAttribute item) := by
  cases item with
  | sequence items =>
      rw [Value.DistinctKeys, Value.itemsDistinct_iff] at hitem
      refine (givesOnly_items hagain hmode hitem).map fun results hresults => ?_
      refine ⟨Mode.clean_sequence hresults.2, fun hsequence => ?_⟩
      obtain rfl := Value.sequence.inj hsequence
      exact ⟨results, rfl, hresults⟩
  | _ => exact fun result hgives => ⟨hagain hmode hitem result hgives, by simp⟩

theorem givesOnly_projectEntries {selector : Selector} (hselector : selector.DistinctKeys)
    {entries : List (String × Value)} (hentries : ∀ entry ∈ entries, entry.2.DistinctKeys) :
    (projectEntries again selector entries).GivesOnly
      (List.Forall₂ (CleanEntry entries) (selector.attributes (Table.keys entries))) := by
  refine Eval.givesOnly_forEach fun picked hpicked => ?_
  have hmode : (Mode.ofChild picked.2).DistinctKeys :=
    hselector.ofChild (Selector.mem_attributes_iff.mp hpicked).1
  have hitem : ((Table.get? entries picked.1).getD .null).DistinctKeys :=
    Value.item_of_forall (by simp [Value.null, Value.DistinctKeys]) hentries picked.1
  exact (givesOnly_projectAttribute hagain hmode hitem).map fun result hresult => ⟨rfl, hresult⟩

variable (hworld : world.DistinctKeys)
include hworld

theorem givesOnly_selectStep {selector : Selector} (hselector : selector.DistinctKeys)
    {value : Value} (hvalue : value.DistinctKeys) :
    (selectStep world again selector value).GivesOnly selector.Clean := by
  have hmode : (Mode.select selector).DistinctKeys := hselector
  cases value with
  | leaf atom => exact Eval.givesOnly_pure (.leaf selector atom)
  | object node => exact Eval.givesOnly_pure (.object selector node)
  | sequence items =>
      rw [Value.DistinctKeys, Value.itemsDistinct_iff] at hvalue
      exact (givesOnly_items hagain hmode hvalue).map fun results hresults => .sequence hresults.2
  | mapping entries =>
      obtain ⟨hkeys, hentries⟩ := hvalue
      rw [Value.entriesDistinct_iff] at hentries
      exact (givesOnly_projectEntries hagain hselector hentries).map
        fun kept hkept => .of_entries hselector hkeys hkept
  | dual left right =>
      exact (Eval.givesOnly_true _).bind fun _ _ => hagain hmode hvalue.2
  | lazy node =>
      exact (givesOnly_evaluate hworld node).bind fun _ hproduced => hagain hmode hproduced

theorem givesOnly_summaryStep {value : Value} (hvalue : value.DistinctKeys) :
    (summaryStep world again value).GivesOnly Value.Resolved := by
  cases value with
  | leaf | sequence | mapping | object => exact Eval.givesOnly_pure trivial
  | dual left right =>
      exact (Eval.givesOnly_true _).bind fun _ _ => hagain trivial hvalue.1
  | lazy node =>
      exact (givesOnly_evaluate hworld node).bind
        fun _ hproduced => hagain trivial hproduced

theorem givesOnly_projectStep {mode : Mode} (hmode : mode.DistinctKeys) {value : Value}
    (hvalue : value.DistinctKeys) : (projectStep world again mode value).GivesOnly mode.Clean := by
  cases mode with
  | select selector =>
      exact (givesOnly_unwrapObject hworld hvalue).bind
        fun _ hplain => givesOnly_selectStep hagain hworld hmode hplain
  | summary => exact givesOnly_summaryStep hagain hworld hvalue

end Steps

theorem givesOnly_project {world : World σ} (hworld : world.DistinctKeys) (fuel : Nat) {mode : Mode}
    (hmode : mode.DistinctKeys) {value : Value} (hvalue : value.DistinctKeys) :
    (project world fuel mode value).GivesOnly mode.Clean := by
  induction fuel generalizing mode value with
  | zero => exact Eval.givesOnly_exhausted
  | succ fuel ih =>
      exact givesOnly_projectStep (fun hmode hvalue => ih hmode hvalue) hworld hmode hvalue

/-- **Clean results.** Whatever a projection by a selector gives is clean, and plain if the selector
goes on everywhere. Without a selector no dual-view and no lazy node is given. Where a mapping that
is entered holds a sequence under an attribute that is picked bare, a sequence of the same length
comes out, without such nodes among its items. -/
theorem select_clean {world : World σ} (hworld : world.DistinctKeys) {selector : Selector}
    (hselector : selector.DistinctKeys) (fuel : Nat) :
    (∀ value : Value, value.DistinctKeys →
      (select world fuel selector value).GivesOnly fun result =>
        selector.Clean result ∧ (selector.NestedThroughout → result.isPlain = true)) ∧
    (∀ value : Value, value.DistinctKeys →
      (summarize world fuel value).GivesOnly Value.Resolved) ∧
    ∀ entries : List (String × Value), (Value.mapping entries).DistinctKeys →
      (projectEntries (project world fuel) selector entries).GivesOnly fun kept =>
        ∀ key items, selector.Picks key none → Table.get? entries key = some (.sequence items) →
          ∃ results, Table.get? kept key = some (.sequence results) ∧
            results.length = items.length ∧ ∀ part ∈ results, part.Resolved := by
  have hmode : (Mode.select selector).DistinctKeys := hselector
  have hsummary : Mode.summary.DistinctKeys := trivial
  refine ⟨fun value hvalue result hgives => ?_, fun value hvalue => ?_, ?_⟩
  · have hclean : selector.Clean result := givesOnly_project hworld fuel hmode hvalue result hgives
    exact ⟨hclean, hclean.isPlain⟩
  · exact givesOnly_project hworld fuel hsummary hvalue
  · rintro entries ⟨-, hentries⟩ kept hgives key items hpicks hsequence
    rw [Value.entriesDistinct_iff] at hentries
    have hkept := givesOnly_projectEntries
      (fun hmode hvalue => givesOnly_project hworld fuel hmode hvalue) hselector hentries kept hgives
    exact exists_sequence_of_picks hselector hkept hpicks hsequence

/-- The lazy node gives a sequence first and a leaf then. -/
theorem select_clean_sample :
    let node : NodeRef := ⟨0, "shared"⟩
    let inner : Value := .dual .null .null
    let world : World Nat :=
      { produce := fun _ calls =>
          (.ok (if calls = 0 then .sequence [inner] else .leaf (.bool false)), calls + 1)
        convert := fun _ calls => (none, calls) }
    let selector : Selector := ⟨[("b", none), ("*", none)]⟩
    let items : List Value := [.dual (.leaf (.bool true)) .null, .lazy node]
    let entries : List (String × Value) := [("a", .sequence items), ("b", .lazy node)]
    let kept : List (String × Value) := [("b", .sequence [inner]),
      ("a", .sequence [.leaf (.bool true), .leaf (.bool false)])]
    world.DistinctKeys ∧ selector.DistinctKeys ∧ (Value.mapping entries).DistinctKeys ∧
      (select world 4 selector (.mapping entries)).Gives (.mapping kept) ∧
      selector.Clean (.mapping kept) ∧
      ∃ results, Table.get? kept "a" = some (.sequence results) ∧
        results.length = items.length ∧ ∀ part ∈ results, part.Resolved := by
  intro node inner world selector items entries kept
  have hworld : world.DistinctKeys := by
    constructor
    · intro asked calls value hanswer
      obtain rfl := Except.ok.inj hanswer
      split <;> simp [inner, Value.DistinctKeys, Value.ItemsDistinct, Value.null]
    · intro asked calls plain hanswer
      cases hanswer
  have hselector : selector.DistinctKeys := ⟨by simp [Table.Distinct], trivial⟩
  have hentries : (Value.mapping entries).DistinctKeys := by
    simp [entries, items, Value.DistinctKeys, Value.EntriesDistinct, Value.ItemsDistinct,
      Value.null, Table.Distinct]
  have hgives : (select world 4 selector (.mapping entries)).Gives (.mapping kept) :=
    Eval.gives_of_outcome 0 rfl
  obtain ⟨hclean, -, -⟩ := select_clean hworld hselector 4
  obtain ⟨-, -, hsequences⟩ := select_clean hworld hselector 3
  have hfiltered : (projectEntries (project world 3) selector entries).Gives kept :=
    Eval.gives_of_outcome 0 rfl
  exact ⟨hworld, hselector, hentries, hgives, (hclean _ hentries _ hgives).1,
    hsequences entries hentries kept hfiltered "a" items ⟨by decide, Or.inr ⟨rfl, rfl, rfl⟩⟩ rfl⟩

/-! ### Clean results are fixed points -/

theorem Mode.keep_mapping_eq_self {selector : Selector} {entries : List (String × Value)}
    (hdistinct : Table.Distinct entries)
    (hkeys : Table.keys (selector.attributes (Table.keys entries)) = Table.keys entries)
    (hitems : ∀ {key : String} {child : Option Selector} {item : Value},
      (key, child) ∈ selector.attributes (Table.keys entries) → (key, item) ∈ entries →
        (Mode.ofChild child).keep item = item) :
    (Mode.select selector).keep (.mapping entries) = .mapping entries := by
  rw [keep_mapping]
  refine congrArg Value.mapping (hdistinct.ext ?_ fun key => ?_).symm
  · exact hkeys.symm.trans (Table.keys_map _ fun key child =>
      (Mode.ofChild child).keep ((Table.get? entries key).getD .null)).symm
  · rw [Table.get?_map _ fun key child =>
      (Mode.ofChild child).keep ((Table.get? entries key).getD .null)]
    cases hpicked : Table.get? (selector.attributes (Table.keys entries)) key with
    | none =>
        rw [Table.get?_eq_none_iff, hkeys] at hpicked
        exact Table.get?_eq_none_iff.mpr hpicked
    | some child =>
        have hmem := Table.mem_of_get?_eq_some hpicked
        have hlisted : key ∈ Table.keys entries := by
          rw [← hkeys]
          exact Table.mem_keys_of_mem hmem
        obtain ⟨⟨_, item⟩, hitem, rfl⟩ := List.mem_map.mp hlisted
        rw [hdistinct.get?_eq_some hitem, Option.map_some, Option.getD_some, hitems hmem hitem]

theorem Selector.Clean.keep_eq {selector : Selector} {value : Value}
    (hclean : selector.Clean value) : (Mode.select selector).keep value = value := by
  induction hclean with
  | leaf selector atom => exact Mode.keep_leaf _ atom
  | object selector node => simp [Mode.keep]
  | @sequence selector items _ ih =>
      rw [Mode.keep_sequence]
      exact congrArg Value.sequence ((List.map_congr_left ih).trans (List.map_id' items))
  | @mapping selector entries further hkeys hdistinct hwildcard hfurther _ _ ih =>
      have hattributes : Table.keys (selector.attributes (Table.keys entries)) =
          Table.keys entries := by
        rw [hkeys, keys_attributes_named_append hwildcard hfurther]
      refine Mode.keep_mapping_eq_self hdistinct hattributes fun {key child item} hpicked hitem => ?_
      -- Only below a named key does a selector go on, and what stands there is clean for it.
      obtain ⟨⟨-, hnamed | ⟨rfl, -⟩⟩, -⟩ := mem_attributes_iff.mp hpicked
      · cases child with
        | none => exact Mode.keep_summary item
        | some child => exact ih hnamed hitem
      · exact Mode.keep_summary item

/-- **Fixed points.** If a projection gives a result that is spelled out, the projection of that
result by the same selector is the result again, in every world and without asking it. -/
theorem select_fixed {world : World σ} (hworld : world.DistinctKeys) {selector : Selector}
    (hselector : selector.DistinctKeys) {value : Value} (hvalue : value.DistinctKeys) {fuel : Nat}
    {result : Value} (hgives : (select world fuel selector value).Gives result)
    (hresult : result.SpelledOut) :
    ∀ {τ : Type} (other : World τ) (state : τ) (more : Nat), result.height < more →
      select other more selector result state = some ⟨.ok result, state, []⟩ := by
  intro τ other state more hmore
  have hmode : (Mode.select selector).DistinctKeys := hselector
  have hclean : selector.Clean result := givesOnly_project hworld fuel hmode hvalue result hgives
  rw [select, project_spelledOut hresult hmore, hclean.keep_eq]
  rfl

/-- The second projection finds a mapping in place of the lazy node, with the key that it lacked,
and the key that the wildcard admitted behind the one that is named. -/
theorem select_fixed_sample :
    let node : NodeRef := ⟨0, "record"⟩
    let world : World Nat :=
      { produce := fun _ calls => (.ok (.mapping []), calls + 1)
        convert := fun _ calls => (none, calls) }
    let selector : Selector := ⟨[("*", none), ("b", some ⟨[("x", none)]⟩)]⟩
    let value : Value := .mapping [("a", .dual .null .null), ("b", .lazy node)]
    let result : Value := .mapping [("b", .mapping [("x", .null)]), ("a", .null)]
    world.DistinctKeys ∧ selector.DistinctKeys ∧ value.DistinctKeys ∧ result.SpelledOut ∧
      (select world 4 selector value).Gives result ∧
      select world 3 selector result 0 = some ⟨.ok result, 0, []⟩ := by
  intro node world selector value result
  have hworld : world.DistinctKeys := by
    constructor
    · intro asked calls value hanswer
      obtain rfl := Except.ok.inj hanswer
      simp [Value.DistinctKeys, Value.EntriesDistinct, Table.Distinct]
    · intro asked calls plain hanswer
      cases hanswer
  have hselector : selector.DistinctKeys :=
    ⟨by simp [Table.Distinct], ⟨by simp [Table.Distinct], trivial⟩, trivial⟩
  have hvalue : value.DistinctKeys := by
    simp [value, Value.DistinctKeys, Value.EntriesDistinct, Value.null, Table.Distinct]
  have hresult : result.SpelledOut :=
    .mapping (by simp [Value.null, Value.SpelledOut.leaf, Value.SpelledOut.mapping])
  have hgives : (select world 4 selector value).Gives result :=
    Eval.gives_of_outcome 0 rfl
  have hheight : result.height < 3 := by
    simp [result, Value.height, Value.entriesHeight, Value.null]
  exact ⟨hworld, hselector, hvalue, hresult, hgives,
    select_fixed hworld hselector hvalue hgives hresult world 0 3 hheight⟩

end TreeProjection
