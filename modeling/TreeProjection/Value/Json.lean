import TreeProjection.Json
import TreeProjection.Binary64.Decimal
import TreeProjection.Projection

/-!
# Values and JSON documents

Every document is a value (`Value.ofJson`). The way back is strict: `Value.toJson` accepts mappings,
sequences, leaves with finite numbers, and objects that have a plain form which is no object itself;
it refuses the first node in document order that is anything else. A lazy node is never produced.
-/

namespace TreeProjection

inductive ConversionError where
  | dualView
  | lazyNode
  | noPlainForm (object : NodeRef)
  | nonFinite (value : Binary64)
deriving DecidableEq

def ConversionError.message : ConversionError → String
  | .dualView => "dual-view node must be filtered before conversion"
  | .lazyNode => "lazy node must be filtered before conversion"
  | .noPlainForm object =>
      "opaque object has no plain data representation: Opaque(" ++ object.label ++ ")"
  | .nonFinite value => "number " ++ value.nonFiniteText ++ " cannot be represented as JSON"

/-- An integer is signed as long as it fits. -/
def JsonNumber.toLeaf : JsonNumber → Leaf
  | .integer value _ _ =>
      if value < 0x8000000000000000 then .integer (Int64.ofInt value)
      else .unsigned (UInt64.ofNat value.toNat)
  | .float value _ => .number value

theorem JsonNumber.least_le_unsigned (value : UInt64) :
    (-0x8000000000000000 : Int) ≤ value.toNat := by
  omega

theorem JsonNumber.unsigned_lt (value : UInt64) : (value.toNat : Int) < 0x10000000000000000 := by
  have := value.toNat_lt
  omega

theorem JsonNumber.signed_lt (value : Int64) : value.toInt < 0x10000000000000000 :=
  Int.lt_trans (Int64.toInt_lt value) (by decide)

def Leaf.toJson : Leaf → Except ConversionError Json
  | .null => .ok .null
  | .bool value => .ok (.bool value)
  | .integer value =>
      .ok (.number (.integer value.toInt (Int64.le_toInt value) (JsonNumber.signed_lt value)))
  | .unsigned value =>
      .ok (.number (.integer value.toNat (JsonNumber.least_le_unsigned value)
        (JsonNumber.unsigned_lt value)))
  | .number value =>
      if hfinite : value.isFinite = true then
        .ok (.number (.float value hfinite))
      else
        .error (.nonFinite value)
  | .string text => .ok (.string text)

namespace Value

mutual

def ofJson : Json → Value
  | .null => .leaf .null
  | .bool value => .leaf (.bool value)
  | .number value => .leaf value.toLeaf
  | .string text => .leaf (.string text)
  | .array items => .sequence (itemsOfJson items)
  | .object members => .mapping (entriesOfJson members)

def itemsOfJson : List Json → List Value
  | [] => []
  | item :: rest => ofJson item :: itemsOfJson rest

def entriesOfJson : List (String × Json) → List (String × Value)
  | [] => []
  | (key, item) :: rest => (key, ofJson item) :: entriesOfJson rest

end

variable {σ : Type}

/-- One step of the conversion; `again` converts the parts. -/
def toJsonStep (world : World σ) (again : Value → Eval σ ConversionError Json) :
    Value → Eval σ ConversionError Json
  | .leaf atom =>
      match atom.toJson with
      | .ok document => return document
      | .error error => Eval.fail error
  | .sequence items => do return .array (← Eval.forEach again items)
  | .mapping entries => do
      return .object (← Eval.forEach (fun (key, item) => do return (key, ← again item)) entries)
  | .dual _ _ => Eval.fail .dualView
  | .lazy _ => Eval.fail .lazyNode
  | .object node => do
      match ← Eval.convert world node with
      | none => Eval.fail (.noPlainForm node)
      | some (.object _) => Eval.fail (.noPlainForm node)
      | some plain => again plain

def toJson (world : World σ) : Nat → Value → Eval σ ConversionError Json
  | 0 => fun _ => Eval.exhausted
  | fuel + 1 => toJsonStep world (toJson world fuel)

/-- In a world without nodes a conversion ends if it has more fuel than the value is high. -/
theorem total_toJson_closed {fuel : Nat} {value : Value} (hfuel : value.height < fuel) :
    (toJson World.closed fuel value).Total := by
  induction fuel generalizing value with
  | zero => exact absurd hfuel (Nat.not_lt_zero _)
  | succ fuel ih =>
    cases value with
    | leaf atom =>
      change (match atom.toJson with
        | .ok document => (return document : Eval Unit ConversionError Json)
        | .error error => Eval.fail error).Total
      cases atom.toJson with
      | ok document => exact Eval.total_pure _
      | error error => exact Eval.total_fail _
    | sequence items =>
      refine Eval.total_bind (Eval.total_forEach fun item hmem => ih ?_) fun _ => Eval.total_pure _
      have := height_le_itemsHeight hmem
      rw [height] at hfuel
      omega
    | mapping entries =>
      refine Eval.total_bind (Eval.total_forEach fun entry hmem => ?_) fun _ => Eval.total_pure _
      refine Eval.total_bind (ih ?_) fun _ => Eval.total_pure _
      have := height_le_entriesHeight hmem
      rw [height] at hfuel
      omega
    | dual | lazy => exact Eval.total_fail _
    | object node => exact fun _ => rfl

def toJsonClosed (value : Value) : Run Unit ConversionError Json :=
  (toJson World.closed (value.height + 1) value ()).get
    (total_toJson_closed (Nat.lt_succ_self _) ())

end Value

end TreeProjection
