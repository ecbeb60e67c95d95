import TreeProjection.Json.Fault

/-!
# Reading from the front of a text

A reader takes something from the front of a text and leaves less than it was given, which is why a
reader that calls others on what is left comes to an end. `Parsed.later` and `Parsed.chain` carry
the bound along.
-/

namespace TreeProjection.Json

/-- Something read from the front of a text, and what is left, which is shorter than a bound. -/
structure Parsed (α : Type) (bound : Nat) where
  value : α
  rest : List Char
  shorter : rest.length < bound

namespace Parsed

variable {α β : Type} {bound : Nat}

/-- A result in front of a text of which nothing has been read. -/
def before (value : α) (text : List Char) : Parsed α (text.length + 1) :=
  ⟨value, text, Nat.lt_succ_self _⟩

def map (f : α → β) (parsed : Parsed α bound) : Parsed β bound :=
  ⟨f parsed.value, parsed.rest, parsed.shorter⟩

def later (parsed : Parsed α bound) : Parsed α (bound + 1) :=
  ⟨parsed.value, parsed.rest, Nat.lt_succ_of_lt parsed.shorter⟩

/-- What is read from the text that something else has left. -/
def chain (first : Parsed α bound) (second : Parsed β (first.rest.length + 1)) : Parsed β bound :=
  ⟨second.value, second.rest, Nat.lt_of_le_of_lt (Nat.le_of_lt_succ second.shorter) first.shorter⟩

end Parsed

/-- What a reader makes of a text that is shorter than a bound. -/
abbrev Result (α : Type) (bound : Nat) : Type := Except ReadError (Parsed α bound)

/-- Reads something from the front of a text and leaves less than all of it. -/
abbrev Reader (α : Type) : Type := (text : List Char) → Result α text.length

/-- Space, line feed, carriage return and tab. -/
def isBlank (c : Char) : Bool := c == ' ' || c == '\n' || c == '\r' || c == '\t'

def nextMark? : (text : List Char) → Option (Parsed Char text.length)
  | [] => none
  | c :: text => if isBlank c then (nextMark? text).map Parsed.later else some (.before c text)

end TreeProjection.Json
