import TreeProjection.Filter
import TreeProjection.Proofs.SelectorReading
import TreeProjection.Proofs.SelectorShape

/-!
# Writing a selector and reading it back

A written entry, read at the beginning of a label, is stored in the level around it and leaves that
level ready for the next comma (`readLevels_entry`). A well formed selector is therefore read back
as it was written, and as the reader finds nothing but well formed selectors, no other selector is
(`parse_render_iff_wellFormed`).
-/

namespace TreeProjection

namespace Selector

/-- The text of one entry. -/
def entryChars : String × Option Selector → List Char
  | (key, none) => key.toList
  | (key, some child) => key.toList ++ '[' :: child.renderChars ++ [']']

theorem renderEntries_eq_map (entries : List (String × Option Selector)) :
    renderEntries entries = entries.map entryChars := by
  induction entries with
  | nil => rfl
  | cons entry rest ih =>
      obtain ⟨key, _ | child⟩ := entry <;> rw [renderEntries, ih, List.map_cons, entryChars]

/-! ### From one entry to a level -/

theorem readLevels_key {key : String} (hkey : ∀ c ∈ key.toList, IsLabelChar c)
    (stored : List (String × Option Selector)) (around : List OpenLevel) (rest : List Char) :
    readLevels ⟨stored, ""⟩ around (key.toList ++ rest) = readLevels ⟨stored, key⟩ around rest := by
  rw [readLevels_label hkey, String.empty_append, String.ofList_toList]

theorem readLevels_entry {key : String} {child : Option Selector}
    (hkey : ∀ c ∈ key.toList, IsLabelChar c) (hempty : key = "" → child ≠ none)
    (hchild : ∀ inner, child = some inner → ReadsAs inner.renderChars inner)
    (stored : List (String × Option Selector)) :
    ∃ level : OpenLevel, level.commit = ⟨Table.insert stored key child, ""⟩ ∧
      ∀ around rest, readLevels ⟨stored, ""⟩ around (entryChars (key, child) ++ rest) =
        readLevels level around rest := by
  cases child with
  | none =>
      have hne : key ≠ "" := fun heq => hempty heq rfl
      exact ⟨⟨stored, key⟩, OpenLevel.commit_of_ne hne stored, readLevels_key hkey stored⟩
  | some inner =>
      refine ⟨⟨Table.insert stored key (some inner), ""⟩, rfl, fun around rest => ?_⟩
      have hbrackets : entryChars (key, some inner) ++ rest =
          key.toList ++ '[' :: (inner.renderChars ++ ']' :: rest) := by
        simp [entryChars]
      rw [hbrackets, readLevels_key hkey, readLevels_open, (hchild inner rfl).nest_eq]
      rfl

theorem readLevels_entries {entries : List (String × Option Selector)}
    (hkeys : ∀ key child, (key, child) ∈ entries → ∀ c ∈ key.toList, IsLabelChar c)
    (hempty : ("", none) ∉ entries)
    (hchildren : ∀ key child, (key, some child) ∈ entries → ReadsAs child.renderChars child)
    (stored : List (String × Option Selector)) :
    ∃ level : OpenLevel,
      level.commit =
        ⟨entries.foldl (fun table pair => Table.insert table pair.1 pair.2) stored, ""⟩ ∧
      ∀ around rest,
        readLevels ⟨stored, ""⟩ around ([','].intercalate (entries.map entryChars) ++ rest) =
          readLevels level around rest := by
  induction entries generalizing stored with
  | nil => exact ⟨⟨stored, ""⟩, rfl, fun _ _ => rfl⟩
  | cons entry entries ih =>
      obtain ⟨key, child⟩ := entry
      obtain ⟨level, hcommit, hread⟩ := readLevels_entry (hkeys key child (List.mem_cons_self ..))
        (fun hkey hnone => hempty (by rw [hkey, hnone]; exact List.mem_cons_self ..))
        (fun inner hinner => hchildren key inner (hinner ▸ List.mem_cons_self ..)) stored
      -- Only between two entries is there a comma, and that is what commits the first.
      cases entries with
      | nil =>
          refine ⟨level, hcommit, fun around rest => ?_⟩
          rw [List.map_singleton, List.intercalate_singleton, hread]
      | cons next entries =>
          obtain ⟨last, hlast, hrest⟩ :=
            ih (fun other inner hmem => hkeys other inner (List.mem_cons_of_mem _ hmem))
              (fun hmem => hempty (List.mem_cons_of_mem _ hmem))
              (fun other inner hmem => hchildren other inner (List.mem_cons_of_mem _ hmem))
              (Table.insert stored key child)
          refine ⟨last, hlast, fun around rest => ?_⟩
          rw [List.map_cons, List.map_cons, List.intercalate_cons_cons, ← List.map_cons,
            List.append_assoc, List.append_assoc, hread, List.cons_append, List.nil_append,
            readLevels_comma, hcommit, hrest]

/-- A well formed selector that names no key twice is read back from its text. -/
theorem WellFormed.readsAs {selector : Selector} (hwell : WellFormed selector)
    (hdistinct : selector.DistinctKeys) : ReadsAs selector.renderChars selector := by
  induction hwell with
  | @intro entries hkeys hempty _ ih =>
      obtain ⟨htable, hinner⟩ := distinctKeys_iff.mp hdistinct
      obtain ⟨level, hcommit, hread⟩ := readLevels_entries hkeys hempty
        (fun key child hmem => ih key child hmem (hinner key child hmem)) []
      -- Storing entries under keys that are all new puts them in a row as they were.
      refine ⟨level, ?_, ?_⟩
      · rw [OpenLevel.close, hcommit]
        exact congrArg Selector.mk (htable.ofList_eq)
      · rw [renderChars, renderEntries_eq_map]
        exact hread

theorem WellFormed.parse_render {selector : Selector} (hwell : WellFormed selector)
    (hbuilt : Built selector) : parse selector.render = selector := by
  rw [parse, render, String.toList_ofList, (hwell.readsAs hbuilt.distinctKeys).read_eq]

theorem parse_render_parse (text : String) : parse (parse text).render = parse text :=
  (wellFormed_parse text).parse_render (built_parse text)

end Selector

/-! ### Filters with one selector -/

theorem callsOf_logged_append (entries : List LogEntry) (trace : List Step) :
    callsOf (entries.map Step.logged ++ trace) = callsOf trace := by
  simp [callsOf, Step.isCall]

/-- What a run gives and calls, its reports left out. -/
def Run.effect {σ ε α : Type} (run : Run σ ε α) : Except ε α × σ × List Step :=
  (run.outcome, run.state, callsOf run.trace)

namespace Filter

variable {σ : Type} {world : World σ}

/-- A use reports the parse, if there was one, and then projects. -/
theorem run_eq (fuel : Nat) (filter : Filter) (value : Value) (state : σ) :
    filter.run world fuel value state =
      (select world fuel filter.selector value state).map fun run =>
        { run with trace := filter.useLog.map Step.logged ++ run.trace } := by
  change Eval.bind (Eval.logAll filter.useLog)
    (fun _ => select world fuel filter.selector value) state = _
  simp only [Eval.bind, Eval.logAll]
  cases select world fuel filter.selector value state <;> rfl

theorem effect_run (fuel : Nat) (filter : Filter) (value : Value) (state : σ) :
    (filter.run world fuel value state).map Run.effect =
      (select world fuel filter.selector value state).map Run.effect := by
  rw [run_eq, Option.map_map]
  congr 1
  funext run
  simp only [Function.comp_apply, Run.effect, callsOf_logged_append]

end Filter

namespace Selector

/-- **Reading back.** What the reader finds is well formed; of all selectors that can be built, the
well formed ones are those that are read back from their text. So every text has a canonical form:
the text of its selector, which is read as the same selector, written as itself, and as a filter
gives the same and calls the same nodes, in every world. -/
theorem parse_render_iff_wellFormed :
    (∀ text, WellFormed (parse text) ∧ Built (parse text)) ∧
      (∀ selector, Built selector → (parse selector.render = selector ↔ WellFormed selector)) ∧
      ∀ text, parse (parse text).render = parse text ∧
        (parse (parse text).render).render = (parse text).render ∧
        ∀ (σ : Type) (world : World σ) (fuel : Nat) (value : Value) (state : σ),
          ((Filter.compile (parse text).render).run world fuel value state).map Run.effect =
            ((Filter.compile text).run world fuel value state).map Run.effect := by
  refine ⟨fun text => ⟨wellFormed_parse text, built_parse text⟩, fun selector hbuilt => ⟨?_, ?_⟩,
    fun text => ⟨parse_render_parse text, ?_, ?_⟩⟩
  · intro hread
    rw [← hread]
    exact wellFormed_parse _
  · exact fun hwell => hwell.parse_render hbuilt
  · rw [parse_render_parse]
  · intro σ world fuel value state
    have hselector :
        (Filter.compile (parse text).render).selector = (Filter.compile text).selector :=
      parse_render_parse text
    rw [Filter.effect_run, Filter.effect_run, hselector]

theorem parse_render_iff_wellFormed_sample :
    let named := (empty.insert "a" none).insert "" (some empty)
    let bare := named.insert "" none
    Built named ∧ WellFormed named ∧ parse named.render = named ∧
      Built bare ∧ ¬WellFormed bare ∧ parse bare.render ≠ bare := by
  intro named bare
  obtain ⟨-, hreadBack, -⟩ := parse_render_iff_wellFormed
  have hnamed : Built named := (Built.empty.bare "a").nested .empty ""
  have hbare : Built bare := hnamed.bare ""
  have hwell : WellFormed named :=
    (wellFormed_empty.insert (by simp [IsLabelChar]) (by simp) (by simp)).insert (by simp) (by simp)
      fun _ hinner => Option.some.inj hinner ▸ wellFormed_empty
  have habsent : ∀ selector, WellFormed selector → ("", none) ∉ selector.entries := by
    rintro _ ⟨-, hempty, -⟩
    exact hempty
  have hill : ¬WellFormed bare :=
    fun hbareWell => habsent bare hbareWell (by simp [bare, named, empty, insert, Table.insert])
  exact ⟨hnamed, hwell, (hreadBack named hnamed).mpr hwell, hbare, hill,
    fun hread => hill ((hreadBack bare hbare).mp hread)⟩

end Selector

end TreeProjection
