import TreeProjection.Table
import TreeProjection.Binary64

/-!
# JSON documents

A document as it is read and written: objects keep the order of their members, and a number is
either an integer that fits 64 bits, signed or unsigned, or a finite double.
-/

namespace TreeProjection

/-- A number of a document. -/
inductive JsonNumber where
  | integer (value : Int) (least : -0x8000000000000000 ≤ value := by omega)
      (greatest : value < 0x10000000000000000 := by omega)
  | float (value : Binary64) (finite : value.isFinite = true)
deriving DecidableEq

/-- A JSON document. The members of an object are a table: they keep their order of arrival. -/
inductive Json where
  | null
  | bool (value : Bool)
  | number (value : JsonNumber)
  | string (text : String)
  | array (items : List Json)
  | object (members : List (String × Json))

namespace Json

instance : Inhabited Json := ⟨.null⟩

/-- An array or an object that is not empty. -/
def isNested : Json → Bool
  | .array items => !items.isEmpty
  | .object members => !members.isEmpty
  | _ => false

end Json

end TreeProjection
