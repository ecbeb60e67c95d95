/-!
# Nesting of patterns

How deeply a pattern is nested: a group, a repetition and a class each add a level to what they
hold, and so does a row of several parts.
-/

namespace TreeProjection.Text.Pattern

/-- The nesting of parts side by side, of which only several make a row. -/
def sideBySide : List Nat → Nat
  | [] => 0
  | [part] => part
  | first :: parts => parts.foldl max first + 1

/-- The deepest nesting that a pattern may have. -/
def deepest : Nat := 250

end TreeProjection.Text.Pattern
