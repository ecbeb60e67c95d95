import TreeProjection.Proofs.Layout
import TreeProjection.Proofs.OutlineLines
import TreeProjection.Proofs.Stability

/-!
# What the program gives out

An outline shows the entries of a document in document order, one after the other on a line each,
in the colours of the palette (`Json.Outlined`). So the output of an execution is known for either
format: it is the text of the projected document, as JSON or as an outline (`RendersAs`). An
execution fails only where there is no document, and a program that fails has no output
(`execute_error_iff_parse_error`).
-/

namespace TreeProjection

namespace Json

/-! ### The text of an outline -/

/-- What stands in front of an entry. -/
inductive Labelled (palette : Palette) : Marker → List Char → Prop where
  | key (name : String) : Labelled palette (.key name)
      (palette.key.before ++ name.toList ++ palette.key.behind ++ [':'])
  | dash : Labelled palette .dash ['-']

/-- A document on a single line, in colour. -/
inductive Painted (palette : Palette) (document : Json) : List Char → Prop where
  | intro {text : List Char} (htext : Written .compact 0 document text) :
      Painted palette document (palette.value.before ++ text ++ palette.value.behind)

/-- The line of an entry, behind two spaces for each level. It shows no value if the entry has
entries of its own. -/
inductive EntryLine (palette : Palette) (depth : Nat) : Marker × Json → List Char → Prop where
  | above {marker : Marker} {item : Json} {label : List Char}
      (hlabel : Labelled palette marker label) (hparts : item.parts ≠ []) :
      EntryLine palette depth (marker, item) (List.replicate (2 * depth) ' ' ++ label)
  | leaf {marker : Marker} {item : Json} {label value : List Char}
      (hlabel : Labelled palette marker label) (hparts : item.parts = [])
      (hvalue : Painted palette item value) :
      EntryLine palette depth (marker, item)
        (List.replicate (2 * depth) ' ' ++ (label ++ ' ' :: value))

/-- The text of an outline: the lines of all entries in document order, or the document itself if it
has none. -/
inductive Outlined (palette : Palette) (document : Json) : List Char → Prop where
  | single {text : List Char} (hparts : document.parts = [])
      (htext : Painted palette document text) : Outlined palette document text
  | entries {paths : List (List Nat)} {lines : List (List Char)} (hparts : document.parts ≠ [])
      (hpaths : document.EntryPaths paths)
      (hlines : List.Forall₂ (fun path line => ∃ entry, document.entryAt? path = some entry ∧
        EntryLine palette (path.length - 1) entry line) paths lines) :
      Outlined palette document (['\n'].intercalate lines)

theorem labelled_text (palette : Palette) (marker : Marker) :
    Labelled palette marker (marker.text palette) := by
  cases marker with
  | key name => exact .key name
  | dash => exact .dash

theorem painted_apply (palette : Palette) (document : Json) :
    Painted palette document (palette.value.apply (write .compact 0 document)) :=
  .intro (written_write .compact 0 document)

theorem entryLine_text (palette : Palette) (depth : Nat) (entry : Marker × Json) :
    EntryLine palette depth entry ((OutlineLine.entry depth entry.1 entry.2).text palette) := by
  obtain ⟨marker, item⟩ := entry
  by_cases hparts : item.parts = []
  · rw [OutlineLine.text, value_entry_of_leaf hparts]
    exact .leaf (labelled_text palette marker) hparts (painted_apply palette item)
  · rw [OutlineLine.text, value_entry_of_parts hparts]
    exact .above (labelled_text palette marker) hparts

/-- **The text of an outline.** It shows the entries of the document, each on its line. -/
theorem outlined_renderOutline (palette : Palette) (document : Json) :
    document.Outlined palette (renderOutline palette document).toList := by
  rw [renderOutline, String.toList_ofList]
  by_cases hparts : document.parts = []
  · rw [outline_of_leaf hparts, List.map_singleton, List.intercalate_singleton]
    exact .single hparts (painted_apply palette document)
  · obtain ⟨paths, hpaths, hlines⟩ := exists_paths document
    rw [outline_of_parts hparts]
    refine .entries hparts hpaths ?_
    rw [List.forall₂_map_right_iff]
    refine (hlines 0).imp ?_
    rintro path _ ⟨entry, hentry, rfl⟩
    rw [Nat.zero_add]
    exact ⟨entry, hentry, entryLine_text palette _ entry⟩

end Json

namespace CommandLine

/-! ### The text of an execution -/

/-- A text of the document in the format and style that the options ask for. As JSON it is read as
the document again, unless that holds doubles. -/
structure RendersAs (palette : Json.Palette) (options : Options) (document : Json)
    (text : String) : Prop where
  written (hformat : options.format = .json) :
    Json.Written (if options.compact then .compact else .pretty) 0 document text.toList
  readBack (hformat : options.format = .json) (hfree : document.FloatFree) :
    Json.parse text = .ok document
  outlined (hformat : options.format = .text) : document.Outlined palette text.toList

theorem rendersAs_renderAs {document : Json}
    (hshaped : document.Shaped Json.greatestNesting) (palette : Json.Palette) (options : Options) :
    RendersAs palette options document (renderAs palette options document) := by
  have hjson (hformat : options.format = .json) : renderAs palette options document =
      document.render (if options.compact then .compact else .pretty) := by
    rw [renderAs, hformat]
  constructor
  · intro hformat
    rw [hjson hformat, Json.render, String.toList_ofList]
    exact Json.written_write _ 0 document
  · intro hformat hfree
    rw [hjson hformat]
    exact Json.parse_render hfree hshaped _
  · intro hformat
    rw [renderAs, hformat]
    exact Json.outlined_renderOutline palette document

/-- **Only what is no document fails.** An execution fails if and only if its text is no document,
and says so. Otherwise what comes out is the projected document, in the format and style that the
options ask for, behind the selector if that is to be shown. The program has no output if it fails;
unless it is broken off it fails only if there is no text, or none that is a document, and otherwise
its output is that of the execution. -/
theorem execute_error_iff_parse_error (options : Options) :
    (∀ palette input failure, (execute palette options input).outcome = .error failure ↔
      ∃ error, Json.parse input = .error error ∧ failure = .invalidDocument error ∧
        failure.message = "invalid JSON input: " ++ error.message) ∧
    (∀ palette input document, Json.parse input = .ok document → ∃ projected text,
      (Value.ofJson document).Mirrors document ∧ (Value.ofJson projected).Mirrors projected ∧
        (Selector.parse options.selector).Projects document projected ∧
        RendersAs palette options projected text ∧
        (execute palette options input).outcome =
          .ok ((if options.showSelector then
            "<TreeFilter " ++ (Selector.parse options.selector).render ++ ">" ++ "\n" else "") ++
              text)) ∧
    ∀ environment content,
      ((options.answer environment content).exitCode ≠ 0 →
        (options.answer environment content).output = "") ∧
      (environment.reporting ≠ .brokenOff →
        ((options.answer environment content).exitCode = 0 ↔
          ∃ text document, readText options.origin content = .ok text ∧
            Json.parse text = .ok document) ∧
        ∀ text output, readText options.origin content = .ok text →
          (execute (environment.palette options) options text).outcome = .ok output →
          options.answer environment content = ⟨0, output ++ "\n", none⟩) := by
  refine ⟨?_, ?_, ?_⟩
  · intro palette input failure
    rw [execute_outcome_eq_error_iff]
    constructor
    · rintro ⟨error, hparse, rfl⟩
      exact ⟨error, hparse, rfl, rfl⟩
    · rintro ⟨error, hparse, hfailure, -⟩
      exact ⟨error, hparse, hfailure⟩
  · intro palette input document hparse
    have hmode : (Mode.select (Selector.parse options.selector)).DistinctKeys :=
      (Selector.built_parse options.selector).distinctKeys
    have hshaped := Mode.shaped_keepDocument hmode (Json.parse_shape hparse)
    have hprojects := (Selector.parse options.selector).projects_keepDocument document
    exact ⟨_, _, Value.mirrors_ofJson _, Value.mirrors_ofJson _, hprojects,
      rendersAs_renderAs hshaped palette options,
      execute_outcome_of_parse_ok hparse hprojects palette⟩
  · intro environment content
    refine ⟨answer_output_of_exitCode_ne_zero, fun hreporting => ?_⟩
    exact ⟨answer_exitCode_eq_zero_iff hreporting,
      fun text output hread houtcome => answer_of_execute_ok hreporting hread houtcome⟩

/-- An execution whose JSON stands behind the selector, one with an outline, and a run of the
program that finds no file. -/
theorem execute_error_iff_parse_error_sample :
    let behind : Options := ⟨"b[c],a", none, .json, true, true, true, 0⟩
    let outline : Options := ⟨"b[c],a", none, .text, false, false, true, 0⟩
    let environment : Environment := ⟨[], false⟩
    let input := "\x7b\"b\":\x7b\"d\":null,\"c\":[\"x\\\"\",-7]\x7d\x7d"
    let list : Json := .array [.string "x\"", .number (.integer (-7))]
    let projected : Json := .object [("b", .object [("c", list)]), ("a", .null)]
    Json.parse input = .ok (.object [("b", .object [("d", .null), ("c", list)])]) ∧
      (∃ text, RendersAs .plain behind projected text ∧
        (execute .plain behind input).outcome = .ok ("<TreeFilter b[c],a>\n" ++ text) ∧
        text = "\x7b\"b\":\x7b\"c\":[\"x\\\"\",-7]\x7d,\"a\":null\x7d") ∧
      (∃ text, RendersAs .plain outline projected text ∧
        (execute .plain outline input).outcome = .ok text ∧
        text = "b:\n  c:\n    - \"x\\\"\"\n    - -7\na: null") ∧
      (behind.answer environment (.error .notFound)).exitCode ≠ 0 ∧
        (behind.answer environment (.error .notFound)).output = "" := by
  intro behind outline environment input list projected
  let document : Json := .object [("b", .object [("d", .null), ("c", list)])]
  have hlist : list.FloatFree := by
    have hinteger : ∀ value, Leaf.integer (-7) ≠ .number value := by simp
    refine .sequence (List.forall_mem_cons.mpr ⟨.leaf (by simp), ?_⟩)
    exact List.forall_mem_singleton.mpr (.leaf hinteger)
  have hdocument : document.FloatFree := by
    refine .mapping (List.forall_mem_singleton.mpr (.mapping (List.forall_mem_cons.mpr ?_)))
    exact ⟨.leaf (by simp), List.forall_mem_singleton.mpr hlist⟩
  have hshaped : document.Shaped Json.greatestNesting := by
    constructor
    · decide
    · simp [Json.DistinctKeys, document, list, Value.ofJson, Value.itemsOfJson,
        Value.entriesOfJson, Value.DistinctKeys, Value.ItemsDistinct, Value.EntriesDistinct,
        Table.Distinct]
  have hinput : document.render .compact = input := by decide
  have hparse : Json.parse input = .ok document :=
    hinput ▸ Json.parse_render hdocument hshaped .compact
  have hselector : Selector.parse "b[c],a" = ⟨[("b", some ⟨[("c", none)]⟩), ("a", none)]⟩ := rfl
  have hprojected {other : Json} (hprojects : (Selector.parse "b[c],a").Projects document other) :
      other = projected := by
    have hrun := hprojects Unit .closed 5 () (by decide)
    rw [hselector] at hrun
    have hcomputed : select .closed 5 ⟨[("b", some ⟨[("c", none)]⟩), ("a", none)]⟩
        (.ofJson document) () = some ⟨.ok (.ofJson projected), (), []⟩ := rfl
    have hsame := Option.some.inj (hrun.symm.trans hcomputed)
    have hvalue : Value.ofJson other = .ofJson projected :=
      Except.ok.inj (congrArg Run.outcome hsame)
    rw [← Value.document_ofJson other, hvalue, Value.document_ofJson]
  obtain ⟨-, hbehind, hprogram⟩ := execute_error_iff_parse_error behind
  obtain ⟨-, houtline, -⟩ := execute_error_iff_parse_error outline
  obtain ⟨_, text, -, -, hprojects, hrenders, houtcome⟩ := hbehind .plain _ _ hparse
  obtain rfl := hprojected hprojects
  obtain ⟨_, lines, -, -, hshown, hlines, hended⟩ := houtline .plain _ _ hparse
  obtain rfl := hprojected hshown
  have htext : text = renderAs .plain behind projected := by
    have hsame := houtcome.symm.trans (execute_outcome_of_parse_ok hparse hprojects .plain)
    exact (String.append_right_inj _).mp (Except.ok.inj hsame)
  have hlinesText : lines = renderAs .plain outline projected := by
    have hsame := hended.symm.trans (execute_outcome_of_parse_ok hparse hshown .plain)
    exact (String.append_right_inj _).mp (Except.ok.inj hsame)
  obtain ⟨hempty, hzero⟩ := hprogram environment (.error .notFound)
  have hfailed : (behind.answer environment (.error .notFound)).exitCode ≠ 0 := by
    rw [Ne, (hzero (by decide)).1]
    rintro ⟨text, document, hread, -⟩
    have herror : readText behind.origin (.error .notFound) =
        .error (behind.origin.failureMessage .notFound) := rfl
    rw [herror] at hread
    cases hread
  refine ⟨hparse, ⟨text, hrenders, ?_, ?_⟩, ⟨lines, hlines, ?_, ?_⟩, hfailed, hempty hfailed⟩
  · rw [houtcome]
    change Except.ok ("<TreeFilter " ++ (Selector.parse "b[c],a").render ++ ">" ++ "\n" ++ text) = _
    rw [hselector]
    rfl
  · rw [htext]
    decide
  · rw [hended]
    exact congrArg Except.ok String.empty_append
  · rw [hlinesText]
    decide

end CommandLine

end TreeProjection
