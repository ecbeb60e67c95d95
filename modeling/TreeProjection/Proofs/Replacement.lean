import Mathlib.Data.List.Forall2
import Mathlib.Tactic.Common
import TreeProjection.Proofs.Addresses
import TreeProjection.Proofs.EvaluationOrder
import TreeProjection.Proofs.Tables

/-!
# Replacing a part of a value

Where nodes always answer the same, what becomes of a value depends on its parts only through what
becomes of them: there is a frame for each place that is reached, and whatever is put at the place,
the result is the frame with the result of that part at the same address (`Stance.exists_frame`).
-/

namespace TreeProjection

variable {σ ε α β : Type}

/-! ### Parts of values -/

namespace Value

/-- The value with another part at a step. -/
def setChild : Value → AddressStep → Value → Value
  | .mapping entries, .key key, new => .mapping (Table.insert entries key new)
  | .sequence items, .index index, new => .sequence (items.set index new)
  | value, _, _ => value

/-- The value with another part at an address. An address that leads out of it changes nothing. -/
def put : Value → Address → Value → Value
  | _, [], new => new
  | value, step :: rest, new =>
      match value.child? step with
      | some part => value.setChild step (part.put rest new)
      | none => value

theorem child?_setChild {value part : Value} {step : AddressStep}
    (hpart : value.child? step = some part) (new : Value) :
    (value.setChild step new).child? step = some new := by
  cases value with
  | mapping entries =>
      cases step with
      | key key => rw [setChild, child?, Table.get?_insert, if_pos rfl]
      | index index => cases hpart
  | sequence items =>
      cases step with
      | key key => cases hpart
      | index index =>
          obtain ⟨hindex, -⟩ := List.getElem?_eq_some_iff.mp hpart
          rw [setChild, child?, List.getElem?_set_self hindex]
  | _ => cases hpart

theorem setChild_setChild (value : Value) (step : AddressStep) (first second : Value) :
    (value.setChild step first).setChild step second = value.setChild step second := by
  cases value with
  | mapping entries =>
      cases step with
      | key key => rw [setChild, setChild, setChild, Table.insert_insert]
      | index index => rfl
  | sequence items =>
      cases step with
      | key key => rfl
      | index index => rw [setChild, setChild, setChild, List.set_set]
  | _ => rfl

theorem at?_put {value : Value} {address : Address} (hvalue : (value.at? address).isSome = true)
    (new : Value) : (value.put address new).at? address = some new := by
  induction address generalizing value with
  | nil => rfl
  | cons step rest ih =>
      rw [at?] at hvalue
      cases hpart : value.child? step with
      | none => simp [hpart] at hvalue
      | some part =>
          rw [hpart, Option.bind_some] at hvalue
          simp only [put, hpart]
          rw [at?, child?_setChild hpart, Option.bind_some, ih hvalue]

theorem put_put (value : Value) (address : Address) (first second : Value) :
    (value.put address first).put address second = value.put address second := by
  induction address generalizing value with
  | nil => rfl
  | cons step rest ih =>
      cases hpart : value.child? step with
      | none => simp only [put, hpart]
      | some part =>
          simp only [put, hpart, child?_setChild hpart]
          rw [setChild_setChild, ih]

end Value

theorem Answers.Unfolds.child? {answers : Answers} {value part : Value} {step : AddressStep}
    (hvalue : answers.Unfolds value) (hpart : value.child? step = some part) :
    answers.Unfolds part := by
  cases hvalue with
  | sequence hitems =>
      cases step with
      | key key => cases hpart
      | index index => exact hitems part (List.mem_of_getElem? hpart)
  | mapping hkeys hentries =>
      cases step with
      | key key => exact hentries _ (Table.mem_of_get?_eq_some hpart)
      | index index => cases hpart
  | _ => cases hpart

theorem Answers.Unfolds.at? {answers : Answers} {value part : Value} {address : Address}
    (hvalue : answers.Unfolds value) (hpart : value.at? address = some part) :
    answers.Unfolds part := by
  induction address generalizing value with
  | nil => exact Option.some.inj hpart ▸ hvalue
  | cons step rest ih =>
      rw [Value.at?, Option.bind_eq_some_iff] at hpart
      obtain ⟨child, hchild, hrest⟩ := hpart
      exact ih (hvalue.child? hchild) hrest

/-! ### Places by address -/

namespace Stance

/-- The mode that goes on from a place. -/
def mode : Stance → Mode
  | .reached mode | .under mode => mode
  | .plain selector => .select selector

/-- Without a selector that goes on, only the sequence directly under an attribute is entered. -/
def entersItems : Stance → Bool
  | .reached .summary => false
  | _ => true

/-- How the part at a step is reached, if it is. -/
def enter? (stance : Stance) : AddressStep → Option Stance
  | .key key =>
      match stance.mode with
      | .select selector => ((Mode.select selector).enter? (.key key)).map .under
      | .summary => none
  | .index _ => if stance.entersItems then some (.reached stance.mode) else none

/-- How the part at an address is reached, if it is. -/
def walk? (stance : Stance) : Address → Option Stance
  | [] => some stance
  | step :: rest => (stance.enter? step).bind (·.walk? rest)

end Stance

theorem Selector.picks_of_enter? {selector : Selector} {key : String} {mode : Mode}
    (henter : (Mode.select selector).enter? (.key key) = some mode) :
    ∃ child, mode = .ofChild child ∧ selector.Picks key child := by
  rw [Mode.enter?] at henter
  split at henter
  · cases henter
  · rename_i hstar
    split at henter
    · rename_i child hnamed
      exact ⟨child, (Option.some.inj henter).symm, hstar,
        Or.inl (Table.mem_of_get?_eq_some hnamed)⟩
    · rename_i hunnamed
      split at henter
      · rename_i hwildcard
        refine ⟨none, (Option.some.inj henter).symm, hstar, Or.inr ⟨rfl, hwildcard, ?_⟩⟩
        have hnone : Table.get? selector.entries key = none := hunnamed
        rw [contains, Table.contains, hnone, Option.isSome_none]
      · cases henter

namespace Stance

theorem DistinctKeys.mode {stance : Stance} (hstance : stance.DistinctKeys) :
    stance.mode.DistinctKeys := by
  cases stance with
  | reached mode | under mode => exact hstance
  | plain selector => exact hstance

theorem enter?_cases {stance next : Stance} {step : AddressStep}
    (henter : stance.enter? step = some next) :
    (∃ selector key child, stance.mode = .select selector ∧ step = .key key ∧
      next = .under (.ofChild child) ∧ selector.Picks key child) ∨
    ∃ index, step = .index index ∧ next = .reached stance.mode ∧ stance.entersItems = true := by
  cases step with
  | key key =>
      rw [enter?] at henter
      split at henter
      · rename_i selector hmode
        obtain ⟨mode, hmodeEnter, rfl⟩ := Option.map_eq_some_iff.mp henter
        obtain ⟨child, rfl, hpicks⟩ := Selector.picks_of_enter? hmodeEnter
        exact Or.inl ⟨selector, key, child, hmode, rfl, rfl, hpicks⟩
      · cases henter
  | index index =>
      rw [enter?] at henter
      split at henter
      · rename_i hitems
        exact Or.inr ⟨index, rfl, (Option.some.inj henter).symm, hitems⟩
      · cases henter

theorem DistinctKeys.enter? {stance next : Stance} {step : AddressStep}
    (hstance : stance.DistinctKeys) (henter : stance.enter? step = some next) :
    next.DistinctKeys := by
  have hmode := hstance.mode
  rcases enter?_cases henter with ⟨selector, key, child, hselect, -, rfl, hpicks⟩ | ⟨-, -, rfl, -⟩
  · rw [hselect] at hmode
    exact Selector.DistinctKeys.ofChild hmode hpicks
  · exact hmode

theorem DistinctKeys.walk? {stance below : Stance} {address : Address}
    (hstance : stance.DistinctKeys) (hwalk : stance.walk? address = some below) :
    below.DistinctKeys := by
  induction address generalizing stance with
  | nil => exact Option.some.inj hwalk ▸ hstance
  | cons step rest ih =>
      rw [Stance.walk?, Option.bind_eq_some_iff] at hwalk
      obtain ⟨next, henter, hrest⟩ := hwalk
      exact ih (hstance.enter? henter) hrest

end Stance

/-! ### Results -/

namespace Eval

/-- From every state, all runs with enough fuel give this result, by the same calls. -/
def Reaches (family : Nat → Eval σ ε α) (result : α) : Prop :=
  ∃ calls, Asks family result calls

theorem reaches_pure (result : α) : Reaches (fun _ => (pure result : Eval σ ε α)) result :=
  ⟨[], asks_pure result⟩

theorem reaches_log (entry : LogEntry) :
    Reaches (fun _ => (log entry : Eval σ ε Unit)) () :=
  ⟨[], asks_log entry⟩

theorem Reaches.bind {first : Nat → Eval σ ε α} {next : Nat → α → Eval σ ε β} {result : α}
    {last : β} (hfirst : Reaches first result) (hnext : Reaches (next · result) last) :
    Reaches (fun fuel => first fuel >>= next fuel) last := by
  obtain ⟨calls, hcalls⟩ := hfirst
  obtain ⟨more, hmore⟩ := hnext
  exact ⟨calls ++ more, hcalls.bind hmore⟩

theorem Reaches.map {family : Nat → Eval σ ε α} {result : α} (hfamily : Reaches family result)
    (f : α → β) : Reaches (fun fuel => (do return f (← family fuel) : Eval σ ε β)) (f result) :=
  hfamily.bind (reaches_pure (f result))

/-- One unit of fuel more or less makes no difference. -/
theorem reaches_succ_iff {family later : Nat → Eval σ ε α} {result : α}
    (hlater : ∀ fuel, later (fuel + 1) = family fuel) :
    Reaches later result ↔ Reaches family result := by
  constructor
  · rintro ⟨calls, hcalls⟩
    refine ⟨calls, fun state => ?_⟩
    obtain ⟨run, least, hrun, hend⟩ := hcalls state
    refine ⟨run, least, fun fuel hfuel => ?_, hend⟩
    rw [← hlater fuel]
    exact hrun (fuel + 1) (by omega)
  · rintro ⟨calls, hcalls⟩
    exact ⟨calls, hcalls.succ hlater⟩

theorem reaches_forEach {f : Nat → α → Eval σ ε β} {items : List α} {results : List β}
    (hitems : List.Forall₂ (fun item result => Reaches (f · item) result) items results) :
    Reaches (fun fuel => forEach (f fuel) items) results := by
  induction hitems with
  | nil => exact reaches_pure []
  | @cons item result rest results hitem _ ih => exact hitem.bind (ih.map (result :: ·))

end Eval

namespace Stance

def Reaches (world : World σ) (stance : Stance) (value result : Value) : Prop :=
  Eval.Reaches (stance.eval world · value) result

variable {world : World σ} {answers : Answers}

theorem exists_reaches (hworld : world.Gives answers) {stance : Stance}
    (hstance : stance.DistinctKeys) {value : Value} (hvalue : answers.Unfolds value) :
    ∃ result, stance.Reaches world value result := by
  obtain ⟨visits, ⟨result, hasks⟩, -⟩ := follows_of_unfolds hworld hvalue hstance
  exact ⟨result, _, hasks⟩

theorem reaches_reached_iff_plain {selector : Selector} {value result : Value}
    (hvalue : ∀ node, value ≠ .object node) :
    (Stance.reached (.select selector)).Reaches world value result ↔
      (Stance.plain selector).Reaches world value result := by
  refine Eval.reaches_succ_iff fun fuel => ?_
  have hunwrap : unwrapObject world value = pure value := by
    cases value with
    | object node => exact absurd rfl (hvalue node)
    | _ => rfl
  change unwrapObject world value >>= selectStep world (project world fuel) selector = _
  rw [hunwrap, Eval.pure_bind]
  rfl

theorem reaches_under_iff_reached {mode : Mode} {value result : Value}
    (hvalue : ∀ items, value = .sequence items → mode ≠ .summary) :
    (Stance.under mode).Reaches world value result ↔
      (Stance.reached mode).Reaches world value result := by
  cases value with
  | sequence items =>
      cases mode with
      | summary => exact absurd rfl (hvalue items rfl)
      | select selector =>
          have hobject : ∀ node, Value.sequence items ≠ .object node := by simp
          exact (reaches_reached_iff_plain hobject).symm
  | _ => exact Iff.rfl

/-- Where a selector goes on, what is no object has the same result however it is reached. -/
theorem reaches_iff_plain {stance : Stance} {selector : Selector}
    (hmode : stance.mode = .select selector) {value result : Value}
    (hvalue : ∀ node, value ≠ .object node) :
    stance.Reaches world value result ↔ (Stance.plain selector).Reaches world value result := by
  cases stance with
  | plain other =>
      obtain rfl : other = selector := Mode.select.inj hmode
      exact Iff.rfl
  | reached mode =>
      obtain rfl : mode = .select selector := hmode
      exact reaches_reached_iff_plain hvalue
  | under mode =>
      obtain rfl : mode = .select selector := hmode
      rw [reaches_under_iff_reached (by simp), reaches_reached_iff_plain hvalue]

theorem reaches_sequence {stance : Stance} (hstance : stance.entersItems = true)
    {items results : List Value}
    (hitems : List.Forall₂ ((Stance.reached stance.mode).Reaches world) items results) :
    stance.Reaches world (.sequence items) (.sequence results) := by
  have hall : Eval.Reaches (fun fuel => (do
      return .sequence (← Eval.forEach (project world fuel stance.mode) items) :
        Eval σ Failure Value)) (.sequence results) :=
    (Eval.reaches_forEach hitems).map Value.sequence
  cases hmode : stance.mode with
  | select selector =>
      rw [hmode] at hall
      rw [reaches_iff_plain hmode (by simp)]
      exact hall
  | summary =>
      rw [hmode] at hall
      cases stance with
      | reached mode =>
          obtain rfl : mode = .summary := hmode
          cases hstance
      | under mode =>
          obtain rfl : mode = .summary := hmode
          exact hall
      | plain selector => cases hmode

theorem reaches_mapping {stance : Stance} {selector : Selector}
    (hmode : stance.mode = .select selector) {entries : List (String × Value)}
    {results : String × Option Selector → Value}
    (hentries : ∀ picked ∈ selector.attributes (Table.keys entries),
      (Stance.under (.ofChild picked.2)).Reaches world
        ((Table.get? entries picked.1).getD .null) (results picked)) :
    stance.Reaches world (.mapping entries) (.mapping <|
      (selector.attributes (Table.keys entries)).map fun picked => (picked.1, results picked)) := by
  rw [reaches_iff_plain hmode (by simp)]
  refine Eval.Reaches.map (Eval.reaches_forEach ?_) Value.mapping
  rw [List.forall₂_map_right_iff, List.forall₂_same]
  exact fun picked hpicked => (hentries picked hpicked).map (picked.1, ·)

/-! ### Frames -/

section Frames

variable (hworld : world.Gives answers)
include hworld

theorem exists_frame_index {stance : Stance} (hstance : stance.DistinctKeys)
    (henters : stance.entersItems = true) {items : List Value}
    (hitems : ∀ item ∈ items, answers.Unfolds item) (index : Nat) :
    ∃ results : List Value, results.length = items.length ∧ ∀ other result,
      (Stance.reached stance.mode).Reaches world other result →
        stance.Reaches world (.sequence (items.set index other))
          (.sequence (results.set index result)) := by
  have hreached : (Stance.reached stance.mode).DistinctKeys := hstance.mode
  have heach : ∀ item ∈ items, ∃ result, (Stance.reached stance.mode).Reaches world item result :=
    fun item hitem => exists_reaches hworld hreached (hitems item hitem)
  choose! results hresults using heach
  refine ⟨items.map results, List.length_map _, fun other result hother => ?_⟩
  refine reaches_sequence henters (List.forall₂_iff_get.mpr ⟨by simp, fun place hplace _ => ?_⟩)
  rw [List.length_set] at hplace
  by_cases hsame : index = place
  · simpa [hsame] using hother
  · simpa [List.getElem_set_ne hsame] using hresults _ (List.getElem_mem hplace)

theorem exists_frame_key {stance : Stance} {selector : Selector} (hselector : selector.DistinctKeys)
    (hmode : stance.mode = .select selector) {entries : List (String × Value)}
    (hkeys : Table.Distinct entries) (hentries : ∀ entry ∈ entries, answers.Unfolds entry.2)
    {key : String} {child : Option Selector} (hpicks : selector.Picks key child)
    (hlisted : key ∈ Table.keys entries) :
    ∃ kept : List (String × Value), key ∈ Table.keys kept ∧ ∀ other result,
      (Stance.under (.ofChild child)).Reaches world other result →
        stance.Reaches world (.mapping (Table.insert entries key other))
          (.mapping (Table.insert kept key result)) := by
  have hdistinct : Table.Distinct (selector.attributes (Table.keys entries)) :=
    Selector.distinct_attributes hselector.distinct_entries hkeys
  have hpicked : (key, child) ∈ selector.attributes (Table.keys entries) :=
    Selector.mem_attributes_iff.mpr ⟨hpicks, Or.inr hlisted⟩
  have hnamed : key ∈ Table.keys (selector.attributes (Table.keys entries)) :=
    Table.mem_keys_of_mem hpicked
  have heach : ∀ picked ∈ selector.attributes (Table.keys entries), ∃ result,
      (Stance.under (.ofChild picked.2)).Reaches world
        ((Table.get? entries picked.1).getD .null) result := by
    intro picked hmem
    have hchild : (Stance.under (.ofChild picked.2)).DistinctKeys :=
      hselector.ofChild (Selector.mem_attributes_iff.mp hmem).1
    exact exists_reaches hworld hchild (Value.item_of_forall (.leaf .null) hentries picked.1)
  choose! results hresults using heach
  refine ⟨(selector.attributes (Table.keys entries)).map fun picked => (picked.1, results picked),
    by simpa [Table.keys] using hnamed, fun other result hother => ?_⟩
  have hsame : Table.keys (Table.insert entries key other) = Table.keys entries := by
    rw [Table.keys_insert, if_pos hlisted]
  rw [Table.insert_map hdistinct hnamed, ← hsame]
  refine reaches_mapping hmode fun picked hmem => ?_
  rw [hsame] at hmem
  rw [Table.get?_insert]
  by_cases hkey : picked.1 = key
  · have hchild : picked.2 = child := by
      have hfound := Selector.get?_attributes_of_mem hselector.distinct_entries hmem
      rw [hkey, Selector.get?_attributes_of_mem hselector.distinct_entries hpicked] at hfound
      exact (Option.some.inj hfound).symm
    rw [if_pos hkey, if_pos hkey.symm, Option.getD_some, hchild]
    exact hother
  · rw [if_neg hkey, if_neg (Ne.symm hkey)]
    exact hresults picked hmem

theorem exists_frame_step {stance next : Stance} (hstance : stance.DistinctKeys)
    {value item : Value} (hvalue : answers.Unfolds value) {step : AddressStep}
    (henter : stance.enter? step = some next) (hitem : value.child? step = some item) :
    ∃ frame : Value, (frame.child? step).isSome = true ∧ ∀ other result,
      next.Reaches world other result →
        stance.Reaches world (value.setChild step other) (frame.setChild step result) := by
  rcases enter?_cases henter with
    ⟨selector, key, child, hmode, rfl, rfl, hpicks⟩ | ⟨index, rfl, rfl, hitems⟩
  · cases hvalue with
    | mapping hkeys hentries =>
        have hselector : (Mode.select selector).DistinctKeys := hmode ▸ hstance.mode
        have hlisted := Table.contains_iff_mem_keys.mp (Option.isSome_of_eq_some hitem)
        obtain ⟨kept, hkept, hframe⟩ :=
          exists_frame_key hworld hselector hmode hkeys hentries hpicks hlisted
        exact ⟨.mapping kept, Table.contains_iff_mem_keys.mpr hkept, hframe⟩
    | _ => cases hitem
  · cases hvalue with
    | sequence hparts =>
        obtain ⟨results, hlength, hframe⟩ := exists_frame_index hworld hstance hitems hparts index
        obtain ⟨hindex, -⟩ := List.getElem?_eq_some_iff.mp hitem
        have hinside : index < results.length := by
          rw [hlength]
          exact hindex
        refine ⟨.sequence results, ?_, hframe⟩
        rw [Value.child?, List.getElem?_eq_getElem hinside, Option.isSome_some]
    | _ => cases hitem

/-- **Frames.** What becomes of a value depends on the part at an address only through what becomes
of that part. -/
theorem exists_frame {stance below : Stance} (hstance : stance.DistinctKeys) {value part : Value}
    (hvalue : answers.Unfolds value) {address : Address}
    (hwalk : stance.walk? address = some below) (hpart : value.at? address = some part) :
    ∃ frame : Value, (frame.at? address).isSome = true ∧ ∀ other result,
      below.Reaches world other result →
        stance.Reaches world (value.put address other) (frame.put address result) := by
  induction address generalizing stance value with
  | nil =>
      obtain rfl : stance = below := Option.some.inj hwalk
      exact ⟨.null, rfl, fun other result hother => hother⟩
  | cons step rest ih =>
      rw [walk?, Option.bind_eq_some_iff] at hwalk
      rw [Value.at?, Option.bind_eq_some_iff] at hpart
      obtain ⟨next, henter, hrest⟩ := hwalk
      obtain ⟨item, hitem, hbelow⟩ := hpart
      have hunfolds : answers.Unfolds item := hvalue.child? hitem
      obtain ⟨inner, hinner, hframe⟩ := ih (hstance.enter? henter) hunfolds hrest hbelow
      obtain ⟨outer, houter, hstep⟩ := exists_frame_step hworld hstance hvalue henter hitem
      -- The frame below the step goes where the frame of the step holds the part.
      obtain ⟨held, hheld⟩ := Option.isSome_iff_exists.mp houter
      have hset : (outer.setChild step inner).child? step = some inner :=
        Value.child?_setChild hheld inner
      refine ⟨outer.setChild step inner, ?_, fun other result hother => ?_⟩
      · rw [Value.at?, hset, Option.bind_some]
        exact hinner
      · simp only [Value.put, hitem, hset]
        rw [Value.setChild_setChild]
        exact hstep _ _ (hframe other result hother)

end Frames

end Stance

end TreeProjection
