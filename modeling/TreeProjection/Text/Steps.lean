/-!
# Reading step by step

A reader that keeps a state is given by its single step. It comes to an end because each step but
the last one leaves less of the text than it was given.
-/

namespace TreeProjection.Text

/-- Reads a text step by step. A step makes another state of a state and the text left, or a result
at last. Nothing is read by steps that leave as much as they were given. -/
def readSteps? {σ α : Type} (step? : σ → List Char → Option ((σ ⊕ α) × List Char)) (state : σ)
    (text : List Char) : Option (α × List Char) :=
  match step? state text with
  | none => none
  | some (.inr result, rest) => some (result, rest)
  | some (.inl next, rest) =>
      if rest.length < text.length then readSteps? step? next rest else none
termination_by text.length
decreasing_by assumption

end TreeProjection.Text
