import Mathlib.Tactic.Common
import TreeProjection.Proofs.DocumentText

/-!
# Output that is read again

JSON output without the selector can be the input of the next execution. It is read as the projected
document, from which the same selector keeps everything, so an execution on the output comes to what
it would have come to on the input, in either style (`execute_stable`).
-/

namespace TreeProjection

/-! ### What is kept of a document -/

namespace Mode

variable {mode : Mode} {document : Json}

theorem nesting_keepDocument_le (mode : Mode) (document : Json) :
    (mode.keepDocument document).nesting ≤ document.nesting := by
  rw [Json.nesting, Json.nesting, ← keep_ofJson]
  exact mode.height_keep_le (.ofJson document)

theorem shaped_keepDocument (hmode : mode.DistinctKeys) {levels : Nat}
    (hshaped : document.Shaped levels) : (mode.keepDocument document).Shaped levels := by
  constructor
  · exact Nat.le_trans (mode.nesting_keepDocument_le document) hshaped.nesting_le
  · rw [Json.DistinctKeys, ← keep_ofJson]
    exact distinctKeys_keep hmode hshaped.distinctKeys

theorem keepDocument_keepDocument (hmode : mode.DistinctKeys) (document : Json) :
    mode.keepDocument (mode.keepDocument document) = mode.keepDocument document := by
  calc mode.keepDocument (mode.keepDocument document)
      = (mode.keep (.ofJson (mode.keepDocument document))).document := rfl
    _ = (mode.keep (mode.keep (.ofJson document))).document := by
      rw [← keep_ofJson mode document]
    _ = (mode.keep (.ofJson document)).document := by rw [keep_keep hmode]

end Mode

namespace CommandLine

variable {options : Options} {input : String}

theorem execute_json (hformat : options.format = .json) (hbare : options.showSelector = false)
    {document projected : Json} (hparse : Json.parse input = .ok document)
    (hprojects : (Selector.parse options.selector).Projects document projected)
    (palette : Json.Palette) (compact : Bool) :
    (execute palette { options with compact := compact } input).outcome =
      .ok (projected.render (if compact then .compact else .pretty)) := by
  have hsame : (Selector.parse { options with compact := compact }.selector).Projects document
      projected := hprojects
  rw [execute_of_parse_ok hparse hsame]
  simp [hbare, renderAs, hformat]

/-- **Output is stable.** JSON output without the selector, of a projection that holds no double, is
nested no deeper than the input and read as the projected document. Executed on the output in either
style, the same selector gives what it gives on the input in that style. -/
theorem execute_stable (hformat : options.format = .json)
    (hbare : options.showSelector = false) {document : Json}
    (hparse : Json.parse input = .ok document) :
    ∃ projected, (Selector.parse options.selector).Projects document projected ∧
      projected.nesting ≤ document.nesting ∧ document.nesting ≤ Json.greatestNesting ∧
      (projected.FloatFree → ∀ palette (compact again : Bool), ∃ text,
        (execute palette { options with compact := compact } input).outcome = .ok text ∧
        Json.parse text = .ok projected ∧
        (execute palette { options with compact := again } text).outcome =
          (execute palette { options with compact := again } input).outcome) := by
  have hmode : (Mode.select (Selector.parse options.selector)).DistinctKeys :=
    (Selector.built_parse options.selector).distinctKeys
  have hshaped := Json.parse_shape hparse
  have hprojects := (Selector.parse options.selector).projects_keepDocument document
  have hagain := (Selector.parse options.selector).projects_keepDocument
    ((Mode.select (Selector.parse options.selector)).keepDocument document)
  rw [Mode.keepDocument_keepDocument hmode] at hagain
  refine ⟨_, hprojects, Mode.nesting_keepDocument_le _ document, hshaped.nesting_le, ?_⟩
  intro hfree palette compact again
  have hread := Json.parse_render hfree (Mode.shaped_keepDocument hmode hshaped)
    (if compact then .compact else .pretty)
  refine ⟨_, execute_json hformat hbare hparse hprojects palette compact, hread, ?_⟩
  rw [execute_json hformat hbare hread hagain, execute_json hformat hbare hparse hprojects]

theorem execute_stable_sample :
    let options : Options := ⟨"c,*", none, .json, true, false, false, 0⟩
    let nested : Json := .array [.string "\x01\"", .number (.integer (-5)), .object []]
    let document : Json := .object [("a", nested)]
    let projected : Json := .object [("c", .null), ("a", nested)]
    Json.parse (document.render .pretty) = .ok document ∧
      ∃ text, (execute .plain options (document.render .pretty)).outcome = .ok text ∧
        Json.parse text = .ok projected ∧ (execute .plain options text).outcome = .ok text := by
  intro options nested document projected
  have hnested : nested.FloatFree := by
    refine .sequence (List.forall_mem_cons.mpr ⟨.leaf nofun, ?_⟩)
    refine List.forall_mem_cons.mpr ⟨.leaf nofun, List.forall_mem_singleton.mpr ?_⟩
    exact .mapping (List.forall_mem_nil _)
  have hdocument : document.FloatFree := .mapping (List.forall_mem_singleton.mpr hnested)
  have hprojected : projected.FloatFree :=
    .mapping (List.forall_mem_cons.mpr ⟨.leaf nofun, List.forall_mem_singleton.mpr hnested⟩)
  have hshaped : document.Shaped Json.greatestNesting := by
    constructor
    · decide
    · simp [Json.DistinctKeys, document, nested, Value.ofJson, Value.itemsOfJson,
        Value.entriesOfJson, Value.DistinctKeys, Value.ItemsDistinct, Value.EntriesDistinct,
        Table.Distinct]
  have hparse := Json.parse_render hdocument hshaped .pretty
  have hselector : Selector.parse options.selector = ⟨[("c", none), ("*", none)]⟩ := by
    change Selector.parse "c,*" = _
    rfl
  obtain ⟨other, hprojects, -, -, hstable⟩ := execute_stable
    (show options.format = .json from rfl) (show options.showSelector = false from rfl) hparse
  obtain rfl : other = projected := by
    have hrun := hprojects Unit .closed 5 () (by decide)
    rw [hselector] at hrun
    have hcomputed : select .closed 5 ⟨[("c", none), ("*", none)]⟩ (.ofJson document) () =
        some ⟨.ok (.ofJson projected), (), []⟩ := rfl
    have hsame := Option.some.inj (hrun.symm.trans hcomputed)
    have hvalue : Value.ofJson other = .ofJson projected :=
      Except.ok.inj (congrArg Run.outcome hsame)
    rw [← Value.document_ofJson other, hvalue, Value.document_ofJson]
  obtain ⟨text, htext, hread, hagain⟩ := hstable hprojected .plain true true
  exact ⟨hparse, text, htext, hread, hagain.trans htext⟩

end CommandLine

end TreeProjection
