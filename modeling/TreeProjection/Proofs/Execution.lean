import TreeProjection.CommandLine.Program
import TreeProjection.Proofs.Keeping

/-!
# How an execution ends

What a selector keeps of a document is a document again (`Mode.keep_ofJson`). So once a text has
been read as a document, neither the projection nor the conversion of what it gives can fail:
`execute` fails only where the text is no document (`execute_outcome_eq_error_iff`), and the output
is that of the projected document otherwise (`execute_of_parse_ok`). The program has an output only
if an execution has ended with it (`answer_cases`).
-/

namespace TreeProjection

/-! ### What is kept of a document -/

/-- The document that a mode keeps of a document. -/
def Mode.keepDocument (mode : Mode) (document : Json) : Json :=
  (mode.keep (.ofJson document)).document

theorem Mode.keep_ofJson (mode : Mode) (document : Json) :
    mode.keep (.ofJson document) = .ofJson (mode.keepDocument document) := by
  have hkept := (Value.madeOf_ofJson document).keep ⟨trivial, rfl⟩ mode
  have hfinite := hkept.mono fun _ hatom => hatom.1
  have hsigned := hkept.mono fun _ hatom => hatom.2
  rw [keepDocument, hfinite.ofJson_document, Value.mapLeaves_eq_self hsigned]

/-- In every world the projection of the document ends with the projected one, asks for nothing
and leaves no trace. -/
def Selector.Projects (selector : Selector) (document projected : Json) : Prop :=
  ∀ (σ : Type) (world : World σ) (fuel : Nat) (state : σ), (Value.ofJson document).height < fuel →
    select world fuel selector (.ofJson document) state = some ⟨.ok (.ofJson projected), state, []⟩

theorem Selector.projects_keepDocument (selector : Selector) (document : Json) :
    selector.Projects document ((Mode.select selector).keepDocument document) := by
  intro σ world fuel state hfuel
  rw [select, project_spelledOut (Value.madeOf_ofJson document).spelledOut hfuel, Mode.keep_ofJson]
  rfl

theorem Selector.Projects.projectClosed_eq {selector : Selector} {document projected : Json}
    (hprojects : selector.Projects document projected) :
    projectClosed (.select selector) (.ofJson document) = ⟨.ok (.ofJson projected), (), []⟩ := by
  have hrun := hprojects Unit .closed _ () (Nat.lt_succ_self _)
  exact Option.get_of_eq_some _ hrun

theorem Value.ConvertsTo.toJsonClosed_eq {value : Value} {document : Json}
    (hconverts : value.ConvertsTo document) : value.toJsonClosed = ⟨.ok document, (), []⟩ :=
  Option.get_of_eq_some _ (hconverts Unit .closed _ () (Nat.lt_succ_self _))

namespace CommandLine

/-! ### Executions -/

variable {palette : Json.Palette} {options : Options} {input : String}

theorem present_ofJson (palette : Json.Palette) (options : Options) (filter : Filter)
    (document : Json) : present palette options filter (.ofJson document) =
      .ok ((if options.showSelector then filter.describe ++ "\n" else "") ++
        renderAs palette options document) := by
  rw [present, (Value.convertsTo_ofJson document).toJsonClosed_eq]

theorem execute_of_parse_error {error : Json.DocumentError}
    (hparse : Json.parse input = .error error) :
    execute palette options input = ⟨.error (.invalidDocument error), []⟩ := by
  rw [execute, hparse]

theorem execute_of_parse_ok {document projected : Json} (hparse : Json.parse input = .ok document)
    (hprojects : (Selector.parse options.selector).Projects document projected) :
    execute palette options input =
      let filter := Filter.compile options.selector
      ⟨.ok ((if options.showSelector then filter.describe ++ "\n" else "") ++
          renderAs palette options projected),
        filter.useLog ++ [.applying filter.describe]⟩ := by
  have hrun : projectClosed (.select (Filter.compile options.selector).selector)
      (.ofJson document) = ⟨.ok (.ofJson projected), (), []⟩ := hprojects.projectClosed_eq
  rw [execute, hparse]
  dsimp only
  rw [hrun]
  dsimp only
  rw [present_ofJson]
  rfl

theorem execute_outcome_of_parse_ok {document projected : Json}
    (hparse : Json.parse input = .ok document)
    (hprojects : (Selector.parse options.selector).Projects document projected)
    (palette : Json.Palette) : (execute palette options input).outcome =
      .ok ((if options.showSelector then
          "<TreeFilter " ++ (Selector.parse options.selector).render ++ ">" ++ "\n" else "") ++
        renderAs palette options projected) := by
  rw [execute_of_parse_ok hparse hprojects]
  rfl

theorem execute_outcome_eq_error_iff {failure : ExecutionError} :
    (execute palette options input).outcome = .error failure ↔
      ∃ error, Json.parse input = .error error ∧ failure = .invalidDocument error := by
  cases hparse : Json.parse input with
  | error error =>
      rw [execute_of_parse_error hparse]
      constructor
      · intro hfailure
        exact ⟨error, rfl, (Except.error.inj hfailure).symm⟩
      · rintro ⟨other, hother, rfl⟩
        rw [Except.error.inj hother]
  | ok document =>
      have houtcome := execute_outcome_of_parse_ok hparse
        ((Selector.parse options.selector).projects_keepDocument document) palette
      constructor
      · intro hfailure
        exact absurd (houtcome.symm.trans hfailure) nofun
      · rintro ⟨error, herror, -⟩
        exact absurd herror nofun

/-! ### Answers -/

variable {environment : Environment} {content : Except ReadFailure ByteArray}

theorem answer_of_execute_ok {output : String} (hreporting : environment.reporting ≠ .brokenOff)
    (hread : readText options.origin content = .ok input)
    (houtcome : (execute (environment.palette options) options input).outcome = .ok output) :
    options.answer environment content = ⟨0, output ++ "\n", none⟩ := by
  rw [Options.answer, if_neg hreporting, hread]
  dsimp only
  rw [houtcome]

/-- There is no output unless an execution has ended with it. -/
theorem answer_cases (options : Options) (environment : Environment)
    (content : Except ReadFailure ByteArray) :
    ((options.answer environment content).exitCode ≠ 0 ∧
        (options.answer environment content).output = "") ∨
      ∃ text output, readText options.origin content = .ok text ∧
        (execute (environment.palette options) options text).outcome = .ok output ∧
        options.answer environment content = ⟨0, output ++ "\n", none⟩ := by
  have hfailed : (1 : UInt8) ≠ 0 := by decide
  have hbroken : (101 : UInt8) ≠ 0 := by decide
  by_cases hreporting : environment.reporting = .brokenOff
  · rw [Options.answer, if_pos hreporting]
    exact .inl ⟨hbroken, rfl⟩
  · cases hread : readText options.origin content with
    | error message =>
        rw [Options.answer, if_neg hreporting, hread]
        exact .inl ⟨hfailed, rfl⟩
    | ok text =>
        cases houtcome : (execute (environment.palette options) options text).outcome with
        | error failure =>
            rw [Options.answer, if_neg hreporting, hread]
            dsimp only
            rw [houtcome]
            exact .inl ⟨hfailed, rfl⟩
        | ok output =>
            have hanswer := answer_of_execute_ok hreporting hread houtcome
            exact .inr ⟨text, output, rfl, houtcome, hanswer⟩

theorem answer_output_of_exitCode_ne_zero
    (hfailed : (options.answer environment content).exitCode ≠ 0) :
    (options.answer environment content).output = "" := by
  rcases answer_cases options environment content with ⟨-, hempty⟩ | ⟨text, output, -, -, hanswer⟩
  · exact hempty
  · rw [hanswer] at hfailed
    exact absurd rfl hfailed

theorem answer_exitCode_eq_zero_iff (hreporting : environment.reporting ≠ .brokenOff) :
    (options.answer environment content).exitCode = 0 ↔
      ∃ text document, readText options.origin content = .ok text ∧
        Json.parse text = .ok document := by
  constructor
  · intro hzero
    rcases answer_cases options environment content with
      ⟨hfailed, -⟩ | ⟨text, output, hread, houtcome, -⟩
    · exact absurd hzero hfailed
    · cases hparse : Json.parse text with
      | ok document => exact ⟨text, document, hread, hparse⟩
      | error error =>
          rw [execute_of_parse_error hparse] at houtcome
          exact absurd houtcome nofun
  · rintro ⟨text, document, hread, hparse⟩
    have houtcome := execute_outcome_of_parse_ok hparse
      ((Selector.parse options.selector).projects_keepDocument document)
      (environment.palette options)
    rw [answer_of_execute_ok hreporting hread houtcome]

end CommandLine

end TreeProjection
