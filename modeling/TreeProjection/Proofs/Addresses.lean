import Mathlib.Data.List.Induction
import Mathlib.Tactic.Common
import TreeProjection.Proofs.SpelledOut
import TreeProjection.Proofs.Tables

/-!
# The projection of a value, address by address

An address leads from a value down to a part of it, by keys and by indices. Walking an address in a
mode says whether the part there is reached at all, and in which mode (`Mode.walk?`). For values
that are spelled out this decides the projection: a part that is reached stays where it was and
keeps its kind, a key that is asked for where the mapping lacks it holds null, and nothing else is
there (`select_spelledOut`).
-/

namespace TreeProjection

inductive AddressStep where
  | key (key : String)
  | index (index : Nat)
deriving DecidableEq

abbrev Address : Type := List AddressStep

namespace Value

def child? : Value → AddressStep → Option Value
  | .mapping entries, .key key => Table.get? entries key
  | .sequence items, .index index => items[index]?
  | _, _ => none

/-- The part at an address, if the address does not lead out of the value. -/
def at? (value : Value) : Address → Option Value
  | [] => some value
  | step :: rest => (value.child? step).bind (·.at? rest)

theorem at?_append (value : Value) (above below : Address) :
    value.at? (above ++ below) = (value.at? above).bind (·.at? below) := by
  induction above generalizing value with
  | nil => rfl
  | cons step rest ih =>
      rw [List.cons_append, at?, at?]
      cases value.child? step with
      | none => rfl
      | some part => exact ih part

theorem at?_concat (value : Value) (address : Address) (step : AddressStep) :
    value.at? (address ++ [step]) = (value.at? address).bind (·.child? step) := by
  rw [at?_append]
  cases value.at? address with
  | none => rfl
  | some part =>
      rw [Option.bind_some, Option.bind_some, at?]
      cases part.child? step <;> rfl

end Value

namespace Mode

/-- The mode in which a step leads on: a selector goes on to what it nests below a key, and stops
at a key that it names bare or that its wildcard admits. -/
def enter? : Mode → AddressStep → Option Mode
  | .summary, _ => some .summary
  | .select selector, .index _ => some (.select selector)
  | .select selector, .key key =>
      if key = Selector.wildcard then none
      else match selector.get? key with
        | some child => some (.ofChild child)
        | none => if selector.hasWildcard then some .summary else none

/-- The mode in which the part at an address is reached. -/
def walk? (mode : Mode) : Address → Option Mode
  | [] => some mode
  | step :: rest => (mode.enter? step).bind (·.walk? rest)

/-- An address that a selector asks for where the mapping it reached has no such key. -/
def Supplies (mode : Mode) (value : Value) (address : Address) : Prop :=
  ∃ above key selector entries, address = above ++ [.key key] ∧
    mode.walk? above = some (.select selector) ∧ value.at? above = some (.mapping entries) ∧
    Table.get? entries key = none ∧ key ≠ Selector.wildcard ∧ selector.contains key = true

/-- The keys of a mapping after projection: a selector's own names in its order, then what its
wildcard admits in the mapping's order; all of them where no selector goes on. -/
def keysKept : Mode → List String → List String
  | .summary, present => present
  | .select selector, present =>
      selector.keys.filter (fun key => key ≠ Selector.wildcard) ++
        if selector.hasWildcard then
          present.filter fun key => key ≠ Selector.wildcard ∧ ¬selector.contains key
        else []

/-- Same kind, same leaf, same length, and the keys that are kept. -/
def Keeps (mode : Mode) : Value → Value → Prop
  | .sequence items, other => ∃ others, other = .sequence others ∧ others.length = items.length
  | .mapping entries, other =>
      ∃ others, other = .mapping others ∧ Table.keys others = mode.keysKept (Table.keys entries)
  | part, other => other = part

end Mode

/-! ### The attributes of a mapping -/

namespace Selector

theorem keys_attributes (selector : Selector) (present : List String) :
    Table.keys (selector.attributes present) = (Mode.select selector).keysKept present := by
  have hnamed : Table.keys selector.named =
      selector.keys.filter fun key => key ≠ wildcard :=
    Table.keys_filter selector.entries fun key => key ≠ wildcard
  rw [attributes, Table.keys_append, hnamed, Mode.keysKept, admitted]
  congr 1
  split
  · simp [Table.keys, Function.comp_def]
  · rfl

theorem get?_named (selector : Selector) (key : String) :
    Table.get? selector.named key = if key = wildcard then none else selector.get? key := by
  have hfilter := Table.get?_filter selector.entries (fun key => key ≠ wildcard) key
  rw [named, hfilter, get?]
  by_cases hstar : key = wildcard <;> simp [hstar]

theorem get?_admitted (selector : Selector) (present : List String) (key : String) :
    Table.get? (selector.admitted present) key =
      if selector.hasWildcard = true ∧ key ∈ present ∧ key ≠ wildcard ∧ selector.get? key = none
      then some none else none := by
  have hcontains : selector.contains key = (selector.get? key).isSome := rfl
  rw [admitted]
  by_cases hwild : selector.hasWildcard = true
  · rw [if_pos hwild, Table.get?_uniform]
    simp [hwild, hcontains]
  · simp [hwild]

/-- An attribute is there if the selector names it, or if its wildcard admits it. -/
theorem get?_attributes (selector : Selector) (present : List String) (key : String) :
    Table.get? (selector.attributes present) key =
      if key = wildcard then none
      else (selector.get? key).or
        (if selector.hasWildcard = true ∧ key ∈ present then some none else none) := by
  rw [attributes, Table.get?_append, get?_named, get?_admitted]
  by_cases hstar : key = wildcard
  · simp [hstar]
  · cases hget : selector.get? key <;> simp [hstar]

end Selector

/-! ### One step down -/

namespace Mode

/-- A part that is there goes where the mode leads, and nowhere if the mode rejects the step. -/
theorem child?_keep_of_some {mode : Mode} {value part : Value} {step : AddressStep}
    (hpart : value.child? step = some part) :
    (mode.keep value).child? step = (mode.enter? step).map (·.keep part) := by
  cases mode with
  | summary => simpa [enter?] using hpart
  | select selector =>
      cases value with
      | mapping entries =>
          cases step with
          | index index => simp [Value.child?] at hpart
          | key key =>
              rw [Value.child?] at hpart
              have hlisted : key ∈ Table.keys entries := by
                rw [← Table.contains_iff_mem_keys, Table.contains, hpart]
                rfl
              rw [keep_mapping, Value.child?, Table.get?_map _ fun key child =>
                (Mode.ofChild child).keep ((Table.get? entries key).getD .null),
                Selector.get?_attributes, hpart, Option.getD_some, enter?]
              by_cases hstar : key = Selector.wildcard
              · simp [hstar]
              · rw [if_neg hstar, if_neg hstar]
                cases selector.get? key with
                | some child => simp
                | none =>
                    by_cases hwild : selector.hasWildcard = true <;> simp [hwild, hlisted, ofChild]
      | sequence items =>
          cases step with
          | key key => simp [Value.child?] at hpart
          | index index =>
              rw [Value.child?] at hpart
              rw [keep_sequence, Value.child?, List.getElem?_map, hpart, enter?]
              rfl
      | _ => simp [Value.child?] at hpart

/-- Where the value has no part, only null can stand, under a key that a selector asks for. -/
theorem child?_keep_of_none {mode : Mode} {value : Value} {step : AddressStep}
    (hnone : value.child? step = none) (other : Value) :
    (mode.keep value).child? step = some other ↔ other = .null ∧
      ∃ key selector entries, step = .key key ∧ mode = .select selector ∧
        value = .mapping entries ∧ Table.get? entries key = none ∧ key ≠ Selector.wildcard ∧
        selector.contains key = true := by
  cases mode with
  | summary => simp [hnone]
  | select selector =>
      cases value with
      | mapping entries =>
          cases step with
          | index index => simp [keep_mapping, Value.child?]
          | key key =>
              rw [Value.child?] at hnone
              have hlisted : key ∉ Table.keys entries := Table.get?_eq_none_iff.mp hnone
              have hcontains : selector.contains key = (selector.get? key).isSome := rfl
              rw [keep_mapping, Value.child?, Table.get?_map _ fun key child =>
                (Mode.ofChild child).keep ((Table.get? entries key).getD .null),
                Selector.get?_attributes, hnone, Option.getD_none, Value.null]
              by_cases hstar : key = Selector.wildcard
              · simp [hstar]
              · cases hget : selector.get? key with
                | none => simp [hstar, hlisted, hcontains, hget]
                | some child =>
                    simpa [hstar, hnone, hcontains, hget] using
                      (eq_comm : Value.leaf .null = other ↔ _)
      | sequence items =>
          cases step with
          | key key => simp [keep_sequence, Value.child?]
          | index index =>
              rw [Value.child?, List.getElem?_eq_none_iff] at hnone
              simp [keep_sequence, Value.child?, hnone]
      | _ => simp [keep, Value.child?]

/-! ### A whole address -/

theorem at?_keep_of_some {mode : Mode} {value part : Value} {address : Address}
    (hpart : value.at? address = some part) :
    (mode.keep value).at? address = (mode.walk? address).map (·.keep part) := by
  induction address generalizing mode value with
  | nil =>
      rw [Value.at?, Option.some.injEq] at hpart
      rw [Value.at?, walk?, hpart]
      rfl
  | cons step rest ih =>
      rw [Value.at?, Option.bind_eq_some_iff] at hpart
      obtain ⟨next, hnext, hrest⟩ := hpart
      rw [Value.at?, walk?, child?_keep_of_some hnext]
      cases mode.enter? step with
      | none => rfl
      | some below => exact ih hrest

theorem supplies_concat_iff {mode : Mode} {value : Value} {above : Address} {step : AddressStep} :
    mode.Supplies value (above ++ [step]) ↔
      ∃ key selector entries, step = .key key ∧ mode.walk? above = some (.select selector) ∧
        value.at? above = some (.mapping entries) ∧ Table.get? entries key = none ∧
        key ≠ Selector.wildcard ∧ selector.contains key = true := by
  constructor
  · rintro ⟨other, key, selector, entries, heq, hrest⟩
    obtain ⟨rfl, hstep⟩ := List.append_inj' heq rfl
    exact ⟨key, selector, entries, List.singleton_inj.mp hstep, hrest⟩
  · rintro ⟨key, selector, entries, rfl, hrest⟩
    exact ⟨above, key, selector, entries, rfl, hrest⟩

theorem at?_keep_of_none {mode : Mode} {value : Value} {address : Address}
    (hnone : value.at? address = none) (other : Value) :
    (mode.keep value).at? address = some other ↔ other = .null ∧ mode.Supplies value address := by
  induction address using List.reverseRecOn generalizing other with
  | nil => simp [Value.at?] at hnone
  | append_singleton above step ih =>
      rw [Value.at?_concat] at hnone ⊢
      rw [supplies_concat_iff]
      cases hpart : value.at? above with
      | none =>
          -- Null has no parts, so nothing hangs below what was supplied.
          have hleaf : ∀ found, (mode.keep value).at? above = some found →
              found.child? step = none := by
            intro found hfound
            rw [((ih hpart found).mp hfound).1]
            rfl
          cases hfound : (mode.keep value).at? above with
          | none => simp
          | some found => simp [hleaf found hfound]
      | some part =>
          rw [hpart, Option.bind_some] at hnone
          rw [at?_keep_of_some hpart]
          cases hwalk : mode.walk? above with
          | none => simp
          | some below =>
              rw [Option.map_some, Option.bind_some, child?_keep_of_none hnone]
              simp only [Option.some.injEq]

theorem keeps_keep (mode : Mode) (part : Value) : mode.Keeps part (mode.keep part) := by
  cases part with
  | sequence items => exact ⟨_, mode.keep_sequence items, List.length_map _⟩
  | mapping entries =>
      cases mode with
      | summary => exact ⟨entries, keep_summary _, rfl⟩
      | select selector =>
          refine ⟨_, keep_mapping selector entries, ?_⟩
          rw [← Selector.keys_attributes, Table.keys_map _ fun key child =>
            (Mode.ofChild child).keep ((Table.get? entries key).getD .null)]
  | _ => simp [Keeps, keep]

end Mode

/-- **The projection law.** A value that is spelled out has a projection by every selector, found
without asking for anything. What stands in it is, address by address, what the selector admits of
the value, and null under the keys that it asks for in vain. -/
theorem select_spelledOut (selector : Selector) {value : Value} (hvalue : value.SpelledOut) :
    ∃ result : Value,
      (∀ {σ : Type} (world : World σ) (state : σ) (fuel : Nat), value.height < fuel →
        select world fuel selector value state = some ⟨.ok result, state, []⟩) ∧
      (∀ address, (result.at? address).isSome = true ↔
        ((value.at? address).isSome = true ∧
          ((Mode.select selector).walk? address).isSome = true) ∨
        (Mode.select selector).Supplies value address) ∧
      (∀ address, (Mode.select selector).Supplies value address →
        result.at? address = some .null) ∧
      (∀ address part mode, value.at? address = some part →
        (Mode.select selector).walk? address = some mode →
        ∃ other, result.at? address = some other ∧ mode.Keeps part other) := by
  have hsupplied : ∀ address, (Mode.select selector).Supplies value address →
      value.at? address = none := by
    rintro address ⟨above, key, asked, entries, rfl, -, hmapping, hlacks, -⟩
    rw [Value.at?_concat, hmapping, Option.bind_some]
    exact hlacks
  have hnull : ∀ address, (Mode.select selector).Supplies value address →
      ((Mode.select selector).keep value).at? address = some .null := by
    intro address hsupplies
    exact (Mode.at?_keep_of_none (hsupplied address hsupplies) _).mpr ⟨rfl, hsupplies⟩
  refine ⟨(Mode.select selector).keep value, ?_, ?_, hnull, ?_⟩
  · intro σ world state fuel hfuel
    rw [select, project_spelledOut hvalue hfuel]
    rfl
  · intro address
    cases hpart : value.at? address with
    | none =>
        simp [Option.isSome_iff_exists, Mode.at?_keep_of_none hpart]
    | some part =>
        have hnot : ¬(Mode.select selector).Supplies value address := by
          intro hsupplies
          rw [hsupplied address hsupplies] at hpart
          exact absurd hpart (by simp)
        simp [Mode.at?_keep_of_some hpart, hnot]
  · intro address part mode hpart hwalk
    refine ⟨mode.keep part, ?_, mode.keeps_keep part⟩
    rw [Mode.at?_keep_of_some hpart, hwalk, Option.map_some]

/-- The wildcard admits `a` with all that stands in it, but no attribute of its own name. -/
theorem select_spelledOut_sample :
    let part : Value := .mapping [("x", .leaf (.bool true)), ("y", .null)]
    let value : Value := .mapping [("a", part), ("b", .sequence [part]), ("*", .null)]
    let selector : Selector := ⟨[("b", some ⟨[("z", none), ("x", none)]⟩), ("*", none)]⟩
    value.SpelledOut ∧ value.height < 4 ∧
      ∃ result, select World.closed 4 selector value () = some ⟨.ok result, (), []⟩ ∧
        result.at? [.key "b", .index 0, .key "z"] = some .null ∧
        result.at? [.key "b", .index 0, .key "x"] = some (.leaf (.bool true)) ∧
        result.at? [.key "b", .index 0, .key "y"] = none ∧
        result.at? [.key "a", .key "x"] = some (.leaf (.bool true)) ∧
        result.at? [.key "*"] = none := by
  intro part value selector
  have hpart : part.SpelledOut := .mapping (by simp [Value.null, Value.SpelledOut.leaf])
  have hvalue : value.SpelledOut :=
    .mapping (by simp [Value.null, Value.SpelledOut.leaf, Value.SpelledOut.sequence, hpart])
  have hheight : value.height < 4 := by
    simp [value, part, Value.height, Value.entriesHeight, Value.itemsHeight, Value.null]
  obtain ⟨result, hrun, hthere, hnull, hkept⟩ := select_spelledOut selector hvalue
  refine ⟨hvalue, hheight, result, hrun World.closed () 4 hheight, ?_, ?_, ?_, ?_, ?_⟩
  · exact hnull _ ⟨[.key "b", .index 0], "z", _, _, rfl, rfl, rfl, rfl, by decide, rfl⟩
  · obtain ⟨other, hother, hleaf⟩ :=
      hkept [.key "b", .index 0, .key "x"] (.leaf (.bool true)) .summary rfl rfl
    rw [hother, hleaf]
  · rw [← Option.not_isSome_iff_eq_none, hthere]
    rintro (⟨-, hwalk⟩ | ⟨above, key, asked, entries, haddress, hwalk, -, -, -, hasked⟩)
    · exact absurd hwalk (by decide)
    · obtain ⟨rfl, hstep⟩ := List.append_inj'
        (show [.key "b", .index 0] ++ [.key "y"] = above ++ [.key key] from haddress) rfl
      obtain rfl : "y" = key := AddressStep.key.inj (List.singleton_inj.mp hstep)
      obtain rfl : ⟨[("z", none), ("x", none)]⟩ = asked := Mode.select.inj (Option.some.inj hwalk)
      exact absurd hasked (by decide)
  · obtain ⟨other, hother, hleaf⟩ :=
      hkept [.key "a", .key "x"] (.leaf (.bool true)) .summary rfl rfl
    rw [hother, hleaf]
  · rw [← Option.not_isSome_iff_eq_none, hthere]
    rintro (⟨-, hwalk⟩ | ⟨above, key, asked, entries, haddress, hwalk, -, -, hwildcard, -⟩)
    · exact absurd hwalk (by decide)
    · obtain ⟨-, hstep⟩ := List.append_inj'
        (show [] ++ [.key "*"] = above ++ [.key key] from haddress) rfl
      exact hwildcard (AddressStep.key.inj (List.singleton_inj.mp hstep)).symm

end TreeProjection
