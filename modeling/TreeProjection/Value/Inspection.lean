import TreeProjection.Value
import TreeProjection.Binary64.Decimal
import TreeProjection.Text.Invisible

/-!
# Values shown for inspection

`Value.inspect` shows a value with the kind of each of its nodes. Texts stand between quotation
marks, with characters that cannot be seen named by their code. A lazy node shows nothing of itself,
an object its label.
-/

namespace TreeProjection

namespace Text

def inspectChar (c : Char) : String :=
  if c = '\x00' then "\\0"
  else if c = '\t' then "\\t"
  else if c = '\r' then "\\r"
  else if c = '\n' then "\\n"
  else if c = '"' then "\\\""
  else if c = '\\' then "\\\\"
  else if isInvisible c then
    "\\u\x7b" ++ String.ofList (Nat.toDigits 16 c.toNat) ++ "\x7d"
  else
    c.toString

def inspect (text : String) : String :=
  "\"" ++ String.join (text.toList.map inspectChar) ++ "\""

end Text

/-- Ties go away from zero. Numbers from `0.0001` up to sixteen digits in front of the point are
shown positionally; a plus sign is never shown. -/
def Binary64.inspectLayout : DecimalLayout := ⟨.away, -3, 16, false⟩

def Binary64.inspect (x : Binary64) : String :=
  if x.isFinite then String.ofList (x.text Binary64.inspectLayout) else x.nonFiniteText

def Leaf.inspect : Leaf → String
  | .null => "Null"
  | .bool value => "Bool(" ++ (if value then "true" else "false") ++ ")"
  | .integer value => "Integer(" ++ toString value.toInt ++ ")"
  | .unsigned value => "Unsigned(" ++ toString value.toNat ++ ")"
  | .number value => "Number(" ++ value.inspect ++ ")"
  | .string text => "String(" ++ Text.inspect text ++ ")"

namespace Value

mutual

/-- The kind of each node, with what it holds in brackets. -/
def inspect : Value → String
  | .leaf atom => "Scalar(" ++ atom.inspect ++ ")"
  | .sequence items => "Sequence([" ++ ", ".intercalate (inspectItems items) ++ "])"
  | .mapping entries =>
      "Mapping(\x7b" ++ ", ".intercalate (inspectEntries entries) ++ "\x7d)"
  | .dual left right =>
      "DualView \x7b left: " ++ inspect left ++ ", right: " ++ inspect right ++ " \x7d"
  | .lazy _ => "Lazy(Lazy(..))"
  | .object node => "Scalar(Object(Opaque(" ++ node.label ++ ")))"

def inspectItems : List Value → List String
  | [] => []
  | item :: rest => inspect item :: inspectItems rest

def inspectEntries : List (String × Value) → List String
  | [] => []
  | (key, item) :: rest => (Text.inspect key ++ ": " ++ inspect item) :: inspectEntries rest

end

end Value

end TreeProjection
