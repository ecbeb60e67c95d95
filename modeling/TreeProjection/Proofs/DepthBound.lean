import Mathlib.Tactic.Common
import TreeProjection.Proofs.CleanResults
import TreeProjection.Proofs.EvaluationOrder
import TreeProjection.Proofs.Itinerary

/-!
# How deep a projection evaluates

The calls of a projection are made at places of the value and of what its nodes have given on the
way, each call at a place of its own (`Tour`). Whatever nodes answer, and however a projection ends,
no place of a call lies under more keys of mappings than the selector is deep; other turns do not
count (`calls_within_depth`). This holds of projections that do not end as well, for it holds
wherever they are cut off (`projectUntil`).
-/

namespace TreeProjection

variable {σ ε α β : Type}

/-! ### The depth of a selector -/

theorem Selector.depth_le_childDepth {entries : List (String × Option Selector)} {key : String}
    {child : Selector} (hmem : (key, some child) ∈ entries) :
    child.depth ≤ childDepth entries := by
  induction entries with
  | nil => exact absurd hmem List.not_mem_nil
  | cons entry rest ih =>
      rcases List.mem_cons.mp hmem with rfl | htail
      · rw [childDepth]
        exact Nat.le_max_left ..
      · obtain ⟨other, _ | sibling⟩ := entry
        · rw [childDepth]
          exact ih htail
        · rw [childDepth]
          exact (ih htail).trans (Nat.le_max_right ..)

def Mode.depth : Mode → Nat
  | .select selector => selector.depth
  | .summary => 0

def Stance.depth : Stance → Nat
  | .reached mode | .under mode => mode.depth
  | .plain selector => selector.depth

/-- Below an attribute that is picked a selector is less deep. -/
theorem Selector.Picks.depth_lt {selector : Selector} {key : String} {child : Option Selector}
    (hpicks : selector.Picks key child) : (Mode.ofChild child).depth < selector.depth := by
  obtain ⟨entries⟩ := selector
  obtain ⟨-, hpicked⟩ := hpicks
  have hsome : entries ≠ [] := by
    rintro rfl
    rcases hpicked with hnamed | ⟨-, hwild, -⟩
    · exact List.not_mem_nil hnamed
    · exact absurd hwild nofun
  obtain ⟨entry, rest, rfl⟩ := List.exists_cons_of_ne_nil hsome
  change _ < 1 + childDepth (entry :: rest)
  cases child with
  | none => exact Nat.lt_add_right _ Nat.zero_lt_one
  | some child =>
      rcases hpicked with hnamed | ⟨hbare, -⟩
      · have hle : child.depth ≤ childDepth (entry :: rest) := depth_le_childDepth hnamed
        rw [Mode.ofChild, Mode.depth]
        omega
      · cases hbare

/-! ### Places and what is found there -/

def Turn.isKey : Turn → Bool
  | .key _ => true
  | _ => false

/-- How many keys of mappings lie above a place. -/
def Place.keyCount (place : Place) : Nat := place.countP Turn.isKey

/-- The call is one of the node that this value is. -/
def Value.IsAsked : Value → Step → Prop
  | .lazy node, .produced asked _ => asked = node
  | .object node, .converted asked _ => asked = node
  | _, _ => False

/-- The turns lead from the root to the value. Below a lazy node or an object stands what it gave
when it was asked at that very place; below a key that a mapping does not have stands null. -/
inductive Found (root : Value) (visits : List Visit) : Place → Value → Prop where
  | root : Found root visits [] root
  | key {place : Place} {entries : List (String × Value)}
      (hfound : Found root visits place (.mapping entries)) (key : String) :
      Found root visits (place ++ [.key key]) ((Table.get? entries key).getD .null)
  | index {place : Place} {items : List Value} {index : Nat} {item : Value}
      (hfound : Found root visits place (.sequence items)) (hitem : items[index]? = some item) :
      Found root visits (place ++ [.index index]) item
  | left {place : Place} {left right : Value}
      (hfound : Found root visits place (.dual left right)) :
      Found root visits (place ++ [.left]) left
  | right {place : Place} {left right : Value}
      (hfound : Found root visits place (.dual left right)) :
      Found root visits (place ++ [.right]) right
  | produced {place : Place} {node : NodeRef} {value : Value}
      (hfound : Found root visits place (.lazy node))
      (hcall : (place, .produced node (.ok value)) ∈ visits) :
      Found root visits (place ++ [.produced]) value
  | plain {place : Place} {node : NodeRef} {plain : Value}
      (hfound : Found root visits place (.object node))
      (hcall : (place, .converted node (some plain)) ∈ visits) :
      Found root visits (place ++ [.plain]) plain

/-- What is found from a part of the root is found from the root. -/
theorem Found.inside {root part : Value} {turn : Turn} {own visits : List Visit} {place : Place}
    {target : Value} (hfound : Found part own place target)
    (hpart : Found root visits [turn] part)
    (hown : ∀ visit ∈ own, (turn :: visit.1, visit.2) ∈ visits) :
    Found root visits (turn :: place) target := by
  induction hfound with
  | root => exact hpart
  | key _ key ih => exact ih.key key
  | index _ hitem ih => exact ih.index hitem
  | left _ ih => exact ih.left
  | right _ ih => exact ih.right
  | produced _ hcall ih => exact ih.produced (hown _ hcall)
  | plain _ hcall ih => exact ih.plain (hown _ hcall)

/-- Calls at places of their own, each made of the node that is found there and under so many keys
at most. -/
structure Tour (bound : Nat) (root : Value) (visits : List Visit) : Prop where
  nodup : (visits.map Prod.fst).Nodup
  found {place : Place} {call : Step} (hvisit : (place, call) ∈ visits) :
    ∃ target, Found root visits place target ∧ target.IsAsked call
  within {visit : Visit} (hvisit : visit ∈ visits) : Place.keyCount visit.1 ≤ bound

theorem tour_nil (bound : Nat) (root : Value) : Tour bound root [] where
  nodup := List.nodup_nil
  found hvisit := absurd hvisit List.not_mem_nil
  within hvisit := absurd hvisit List.not_mem_nil

/-- The call of the root, if there is one, and the tours of its parts. -/
theorem Tour.of_parts {bound : Nat} {root : Value} {call? : Option Step} {parts : List Part}
    {below : Part → List Visit} (hcall : ∀ call, call? = some call → root.IsAsked call)
    (hturns : (parts.map Part.turn).Nodup)
    (hparts : ∀ part ∈ parts, Found root (call?.toList.map (([] : Place), ·) ++
      visitParts below parts) [part.turn] part.value)
    (hdepth : ∀ part ∈ parts, Place.keyCount [part.turn] + part.stance.depth ≤ bound)
    (hbelow : ∀ part ∈ parts, Tour part.stance.depth part.value (below part)) :
    Tour bound root (call?.toList.map (([] : Place), ·) ++ visitParts below parts) := by
  have hhere : ∀ {place : Place} {call : Step},
      (place, call) ∈ call?.toList.map (([] : Place), ·) → place = [] ∧ call? = some call := by
    intro place call hmem
    obtain ⟨other, hother, heq⟩ := List.mem_map.mp hmem
    obtain ⟨rfl, rfl⟩ := Prod.mk.inj heq
    exact ⟨rfl, Option.mem_toList.mp hother⟩
  refine ⟨?_, ?_, ?_⟩
  · rw [List.map_append, List.nodup_append]
    refine ⟨?_, nodup_places_visitParts hturns fun part hpart => (hbelow part hpart).nodup, ?_⟩
    · cases call? <;> simp
    · rintro place hroot other hother rfl
      obtain ⟨⟨here, call⟩, hmem, rfl⟩ := List.mem_map.mp hroot
      obtain ⟨⟨there, otherCall⟩, hvisit, heq⟩ := List.mem_map.mp hother
      obtain ⟨part, -, rest, hcons, -⟩ := mem_visitParts_iff.mp hvisit
      exact List.cons_ne_nil _ _ (hcons.symm.trans (heq.trans (hhere hmem).1))
  · intro place call hvisit
    rcases List.mem_append.mp hvisit with hmem | hmem
    · obtain ⟨rfl, hsome⟩ := hhere hmem
      exact ⟨root, .root, hcall call hsome⟩
    · obtain ⟨part, hpart, rest, rfl, hrest⟩ := mem_visitParts_iff.mp hmem
      obtain ⟨target, hfound, hasked⟩ := (hbelow part hpart).found hrest
      refine ⟨target, hfound.inside (hparts part hpart) fun visit hown => ?_, hasked⟩
      exact List.mem_append_right _ (mem_visitParts_iff.mpr ⟨part, hpart, visit.1, rfl, hown⟩)
  · rintro ⟨place, call⟩ hvisit
    rcases List.mem_append.mp hvisit with hmem | hmem
    · rw [(hhere hmem).1]
      exact Nat.zero_le _
    · obtain ⟨part, hpart, rest, rfl, hrest⟩ := mem_visitParts_iff.mp hmem
      have hcount : Place.keyCount rest ≤ part.stance.depth := (hbelow part hpart).within hrest
      have hsplit : Place.keyCount (part.turn :: rest) =
          Place.keyCount [part.turn] + Place.keyCount rest :=
        (List.countP_append : ([part.turn] ++ rest).countP _ = _)
      have hle := hdepth part hpart
      dsimp only
      omega

theorem Tour.call {bound : Nat} {root : Value} {call : Step} (hcall : root.IsAsked call) :
    Tour bound root [([], call)] where
  nodup := List.nodup_singleton _
  found hvisit := by
    obtain ⟨rfl, rfl⟩ := Prod.mk.inj (List.mem_singleton.mp hvisit)
    exact ⟨root, .root, hcall⟩
  within hvisit := by
    obtain rfl := List.mem_singleton.mp hvisit
    exact Nat.zero_le _

/-- The call of the root, if there is one, and then the tour of its only part. -/
theorem Tour.of_part {root target : Value} {own : List Visit} {stance : Stance}
    (htour : Tour stance.depth target own) (turn : Turn) (call? : Option Step)
    (hcall : ∀ call, call? = some call → root.IsAsked call) (hturn : turn.isKey = false)
    (htarget : ∀ visits, (∀ call, call? = some call → ([], call) ∈ visits) →
      Found root visits [turn] target) :
    ∃ visits, visits.map Prod.snd = call?.toList ++ own.map Prod.snd ∧
      Tour stance.depth root visits := by
  let part : Part := ⟨turn, stance, target⟩
  have hall : Tour stance.depth root (call?.toList.map (([] : Place), ·) ++
      visitParts (fun _ => own) [part]) := by
    refine .of_parts hcall (List.nodup_singleton _) ?_ ?_ ?_
    · exact List.forall_mem_singleton.mpr (htarget _ fun call hsome => by simp [hsome])
    · exact List.forall_mem_singleton.mpr (by simp [part, Place.keyCount, hturn])
    · exact List.forall_mem_singleton.mpr htour
  refine ⟨_, ?_, hall⟩
  cases call? <;> simp [visitParts]

/-! ### Computations that go on a tour -/

/-- However the computation ends, its calls make up a tour. -/
def Eval.Tours (eval : Eval σ ε α) (bound : Nat) (root : Value) : Prop :=
  ∀ state run, eval state = some run →
    ∃ visits, visits.map Prod.snd = callsOf run.trace ∧ Tour bound root visits

/-- The calls below each part, one part after the other. -/
def callsBelow (below : Part → List Visit) (parts : List Part) : List Step :=
  parts.flatMap fun part => (below part).map Prod.snd

theorem snd_visitParts (below : Part → List Visit) (parts : List Part) :
    (visitParts below parts).map Prod.snd = callsBelow below parts := by
  rw [visitParts, callsBelow, List.map_flatMap]
  simp only [List.map_map]
  rfl

theorem exists_below_cons {part : Part} {parts : List Part} (hnew : part.turn ∉ parts.map Part.turn)
    {own : List Visit} {below : Part → List Visit}
    (hown : Tour part.stance.depth part.value own)
    (hbelow : ∀ other ∈ parts, Tour other.stance.depth other.value (below other)) :
    ∃ all, callsBelow all (part :: parts) = own.map Prod.snd ++ callsBelow below parts ∧
      ∀ other ∈ part :: parts, Tour other.stance.depth other.value (all other) := by
  -- Turns tell the parts apart, so the new part has not been toured by `below`.
  let all : Part → List Visit := fun other => if other.turn = part.turn then own else below other
  have hpart : all part = own := if_pos rfl
  have hparts : ∀ other ∈ parts, all other = below other := by
    intro other hother
    have hne : other.turn ≠ part.turn := fun heq => hnew (heq ▸ List.mem_map_of_mem hother)
    exact if_neg hne
  refine ⟨all, ?_, ?_⟩
  · rw [callsBelow, List.flatMap_cons, hpart]
    exact congrArg _ (List.flatMap_congr fun other hother => by rw [hparts other hother])
  · refine List.forall_mem_cons.mpr ⟨hpart ▸ hown, fun other hother => ?_⟩
    rw [hparts other hother]
    exact hbelow other hother

namespace Eval

variable {bound : Nat} {root : Value}

theorem tours_of_silent {eval : Eval σ ε α}
    (heval : ∀ state run, eval state = some run → callsOf run.trace = []) :
    eval.Tours bound root :=
  fun state run hrun => ⟨[], (heval state run hrun).symm, tour_nil bound root⟩

theorem tours_pure (result : α) : Tours (Pure.pure result : Eval σ ε α) bound root := by
  refine tours_of_silent fun state run hrun => ?_
  obtain rfl := Option.some.inj hrun
  rfl

theorem exists_run_of_map {eval : Eval σ ε α} {f : α → β} {state : σ} {run : Run σ ε β}
    (hrun : (do return f (← eval) : Eval σ ε β) state = some run) :
    ∃ begun, eval state = some begun ∧ begun.trace = run.trace := by
  rcases bind_eq_some hrun with
    ⟨error, -, hfirst⟩ | ⟨result, after, trace, rest, hfirst, hrest, rfl⟩
  · exact ⟨_, hfirst, rfl⟩
  · obtain rfl := Option.some.inj hrest
    exact ⟨_, hfirst, (List.append_nil trace).symm⟩

theorem Tours.map {eval : Eval σ ε α} (heval : eval.Tours bound root) (f : α → β) :
    Tours (do return f (← eval) : Eval σ ε β) bound root := by
  intro state run hrun
  obtain ⟨begun, hbegun, htrace⟩ := exists_run_of_map hrun
  exact htrace ▸ heval state begun hbegun

/-- Part after part, as far as the computation comes. -/
theorem exists_below {f : α → Eval σ ε β} {p : α → Part} {items : List α}
    (hturns : ((items.map p).map Part.turn).Nodup)
    (hitems : ∀ item ∈ items, (f item).Tours (p item).stance.depth (p item).value)
    {state : σ} {run : Run σ ε (List β)} (hrun : forEach f items state = some run) :
    ∃ below, callsOf run.trace = callsBelow below (items.map p) ∧
      ∀ other ∈ items.map p, Tour other.stance.depth other.value (below other) := by
  induction items generalizing state run with
  | nil =>
      obtain rfl := Option.some.inj hrun
      exact ⟨fun _ => [], rfl, by simp⟩
  | cons item rest ih =>
      obtain ⟨hnew, hdistinct⟩ := List.nodup_cons.mp hturns
      obtain ⟨hitem, hrest⟩ := List.forall_mem_cons.mp hitems
      rw [forEach] at hrun
      rcases bind_eq_some hrun with
        ⟨error, -, hfirst⟩ | ⟨result, after, trace, later, hfirst, hlater, rfl⟩
      · obtain ⟨own, hown, htour⟩ := hitem state _ hfirst
        obtain ⟨below, hcalls, htours⟩ := exists_below_cons hnew htour (fun other _ =>
          tour_nil other.stance.depth other.value)
        refine ⟨below, ?_, htours⟩
        rw [List.map_cons, hcalls, hown]
        simp [callsBelow]
      · obtain ⟨own, hown, htour⟩ := hitem state _ hfirst
        obtain ⟨begun, hbegun, htrace⟩ := exists_run_of_map hlater
        obtain ⟨behind, hbehind, hothers⟩ := ih hdistinct hrest hbegun
        obtain ⟨below, hcalls, htours⟩ := exists_below_cons hnew htour hothers
        refine ⟨below, ?_, htours⟩
        rw [List.map_cons, hcalls, hown, ← hbehind, htrace, callsOf_append]

theorem tours_forEach {f : α → Eval σ ε β} {p : α → Part} {items : List α}
    (hturns : ((items.map p).map Part.turn).Nodup)
    (hparts : ∀ other ∈ items.map p, ∀ visits, Found root visits [other.turn] other.value)
    (hdepth : ∀ other ∈ items.map p, Place.keyCount [other.turn] + other.stance.depth ≤ bound)
    (hitems : ∀ item ∈ items, (f item).Tours (p item).stance.depth (p item).value) :
    (forEach f items).Tours bound root := by
  intro state run hrun
  obtain ⟨below, hcalls, htours⟩ := exists_below hturns hitems hrun
  have htour : Tour bound root ((none : Option Step).toList.map (([] : Place), ·) ++
      visitParts below (items.map p)) :=
    .of_parts nofun hturns (fun other hother => hparts other hother _) hdepth htours
  exact ⟨_, (snd_visitParts below _).trans hcalls.symm, htour⟩

/-- A view is reported, and then the part that was chosen is toured. -/
theorem tours_view (mode : Mode) {entry : LogEntry} {eval : Eval σ ε α} {turn : Turn}
    {value : Value} (hturn : turn.isKey = false)
    (hvalue : ∀ visits, Found root visits [turn] value) (heval : eval.Tours mode.depth value) :
    Tours (do log entry; eval) mode.depth root := by
  intro state run hrun
  rcases bind_eq_some hrun with ⟨error, -, hlog⟩ | ⟨_, after, trace, rest, hlog, hrest, rfl⟩
  · cases hlog
  · obtain ⟨own, hown, htour⟩ := heval after rest hrest
    obtain ⟨-, -, rfl⟩ := Run.mk.inj (Option.some.inj hlog)
    have htour : Tour (Stance.reached mode).depth value own := htour
    obtain ⟨visits, hvisits, hall⟩ := htour.of_part turn none nofun hturn
      fun visits _ => hvalue visits
    exact ⟨visits, hvisits.trans hown, hall⟩

end Eval

section Steps

variable {world : World σ} {again : Mode → Value → Eval σ Failure Value}
  (hagain : ∀ {mode : Mode} {value : Value}, mode.DistinctKeys → value.DistinctKeys →
    (again mode value).Tours mode.depth value)
include hagain

theorem tours_items {mode : Mode} (hmode : mode.DistinctKeys) {items : List Value}
    (hitems : (Value.sequence items).DistinctKeys) :
    Eval.Tours (do return Value.sequence (← Eval.forEach (again mode) items)) mode.depth
      (.sequence items) := by
  rw [Value.DistinctKeys, Value.itemsDistinct_iff] at hitems
  have hparts : Eval.forEach (again mode) items =
      Eval.forEach (fun part : Part => again mode part.value) (itemParts mode items) := by
    calc Eval.forEach (again mode) items
        = Eval.forEach (again mode) ((itemParts mode items).map Part.value) := by
          rw [map_value_itemParts]
      _ = _ := Eval.forEach_map (again mode) Part.value (itemParts mode items)
  rw [hparts]
  refine (Eval.tours_forEach (p := id) ?_ ?_ ?_ ?_).map Value.sequence
  · rw [List.map_id]
    exact nodup_turn_itemParts mode items
  · rw [List.map_id]
    intro part hpart visits
    obtain ⟨index, hindex, rfl⟩ := List.mem_mapIdx.mp hpart
    exact Found.index .root (List.getElem?_eq_getElem hindex)
  · rw [List.map_id]
    intro part hpart
    obtain ⟨index, hindex, rfl⟩ := List.mem_mapIdx.mp hpart
    simp [Place.keyCount, Turn.isKey, Stance.depth]
  · intro part hpart
    obtain ⟨hstance, hmem⟩ := mem_itemParts hpart
    rw [id_eq, hstance]
    exact hagain hmode (hitems _ hmem)

theorem tours_projectAttribute {mode : Mode} (hmode : mode.DistinctKeys) {item : Value}
    (hitem : item.DistinctKeys) :
    (projectAttribute (again mode) item).Tours mode.depth item := by
  cases item with
  | sequence items => exact tours_items hagain hmode hitem
  | _ => exact hagain hmode hitem

theorem tours_entries {selector : Selector} (hselector : selector.DistinctKeys)
    {entries : List (String × Value)} (hentries : (Value.mapping entries).DistinctKeys) :
    (projectEntries again selector entries).Tours selector.depth (.mapping entries) := by
  obtain ⟨hkeys, hitems⟩ := hentries
  rw [Value.entriesDistinct_iff] at hitems
  refine Eval.tours_forEach (p := attributePart entries) ?_ ?_ ?_ ?_
  · have hdistinct := Selector.distinct_attributes hselector.distinct_entries hkeys
    have hturns := List.Nodup.map (fun _ _ => Turn.key.inj) hdistinct
    rw [Table.keys, List.map_map] at hturns
    rw [List.map_map]
    exact hturns
  · rw [List.forall_mem_map]
    exact fun picked _ visits => Found.key .root picked.1
  · rw [List.forall_mem_map]
    intro picked hpicked
    have hlt := (Selector.mem_attributes_iff.mp hpicked).1.depth_lt
    change 1 + (Mode.ofChild picked.2).depth ≤ selector.depth
    omega
  · intro picked hpicked
    have hmode := hselector.ofChild (Selector.mem_attributes_iff.mp hpicked).1
    have hitem : ((Table.get? entries picked.1).getD .null).DistinctKeys :=
      Value.item_of_forall (by simp [Value.null, Value.DistinctKeys]) hitems picked.1
    exact (tours_projectAttribute hagain hmode hitem).map (picked.1, ·)

variable (hworld : world.DistinctKeys)
include hworld

/-- The call of a lazy node, and then the tour of what it gave. -/
theorem tours_lazy {mode : Mode} (hmode : mode.DistinctKeys) (node : NodeRef) :
    (evaluate world node >>= again mode).Tours mode.depth (.lazy node) := by
  intro state run hrun
  cases hanswer : world.produce node state with
  | mk outcome after =>
      cases outcome with
      | error failure =>
          have hfailed := evaluate_of_error hanswer
          rcases Eval.bind_eq_some hrun with
            ⟨error, -, hfirst⟩ | ⟨value, _, _, _, hfirst, -⟩
          · obtain ⟨-, -, htrace⟩ := Run.mk.inj (Option.some.inj (hfailed.symm.trans hfirst))
            refine ⟨[([], .produced node (.error failure))], ?_, .call rfl⟩
            rw [← htrace]
            rfl
          · cases hfailed.symm.trans hfirst
      | ok value =>
          have hbegun := evaluate_of_ok hanswer
          rcases Eval.bind_eq_some hrun with
            ⟨error, -, hfirst⟩ | ⟨given, last, _, rest, hfirst, hrest, rfl⟩
          · cases hbegun.symm.trans hfirst
          · obtain ⟨hgiven, rfl, rfl⟩ := Run.mk.inj (Option.some.inj (hbegun.symm.trans hfirst))
            obtain rfl := Except.ok.inj hgiven
            have hvalue : value.DistinctKeys := hworld.produce (congrArg Prod.fst hanswer)
            obtain ⟨own, hown, htour⟩ := hagain hmode hvalue after rest hrest
            have htour : Tour (Stance.reached mode).depth value own := htour
            obtain ⟨visits, hvisits, hall⟩ := htour.of_part .produced
              (some (.produced node (.ok value)))
              (fun call hcall => Option.some.inj hcall ▸ rfl) rfl
              fun visits hmem => Found.produced .root (hmem _ rfl)
            refine ⟨visits, hvisits.trans ?_, hall⟩
            rw [hown]
            rfl

theorem tours_selectStep {selector : Selector} (hselector : selector.DistinctKeys) {value : Value}
    (hvalue : value.DistinctKeys) :
    (selectStep world again selector value).Tours selector.depth value := by
  have hmode : (Mode.select selector).DistinctKeys := hselector
  cases value with
  | leaf | object => exact Eval.tours_pure _
  | sequence items => exact tours_items hagain hmode hvalue
  | mapping entries => exact (tours_entries hagain hselector hvalue).map Value.mapping
  | dual left right =>
      exact Eval.tours_view (.select selector) rfl (fun _ => Found.right .root)
        (hagain hmode hvalue.2)
  | lazy node => exact tours_lazy hagain hworld hmode node

/-- The call of an object, and then the tour of its plain form. -/
theorem tours_object {selector : Selector} (hselector : selector.DistinctKeys) (node : NodeRef) :
    (unwrapObject world (.object node) >>= selectStep world again selector).Tours selector.depth
      (.object node) := by
  intro state run hrun
  cases hanswer : world.convert node state with
  | mk plain after =>
      have hbegun : unwrapObject world (.object node) state = some ⟨.ok (plain.getD (.object node)),
          after, [.converted node plain]⟩ := by rw [unwrapObject_object, hanswer]
      rcases Eval.bind_eq_some hrun with
        ⟨error, -, hfirst⟩ | ⟨value, last, _, rest, hfirst, hrest, rfl⟩
      · cases hbegun.symm.trans hfirst
      · obtain ⟨hvalue, rfl, rfl⟩ := Run.mk.inj (Option.some.inj (hbegun.symm.trans hfirst))
        obtain rfl := Except.ok.inj hvalue
        cases plain with
        | none =>
            obtain rfl := Option.some.inj hrest
            exact ⟨[([], .converted node none)], rfl, .call rfl⟩
        | some plain =>
            have hplain : plain.DistinctKeys := hworld.convert (congrArg Prod.fst hanswer)
            obtain ⟨own, hown, htour⟩ :=
              tours_selectStep hagain hworld hselector hplain after rest hrest
            have htour : Tour (Stance.plain selector).depth plain own := htour
            obtain ⟨visits, hvisits, hall⟩ := htour.of_part .plain
              (some (.converted node (some plain)))
              (fun call hcall => Option.some.inj hcall ▸ rfl) rfl
              fun visits hmem => Found.plain .root (hmem _ rfl)
            refine ⟨visits, hvisits.trans ?_, hall⟩
            rw [hown]
            rfl

theorem tours_summaryStep {value : Value} (hvalue : value.DistinctKeys) :
    (summaryStep world again value).Tours 0 value := by
  have hmode : Mode.summary.DistinctKeys := trivial
  cases value with
  | leaf | sequence | mapping | object => exact Eval.tours_pure _
  | dual left right =>
      exact Eval.tours_view .summary rfl (fun _ => Found.left .root) (hagain hmode hvalue.1)
  | lazy node => exact tours_lazy hagain hworld hmode node

theorem tours_projectStep {mode : Mode} (hmode : mode.DistinctKeys) {value : Value}
    (hvalue : value.DistinctKeys) :
    (projectStep world again mode value).Tours mode.depth value := by
  cases mode with
  | summary => exact tours_summaryStep hagain hworld hvalue
  | select selector =>
      cases value with
      | object node => exact tours_object hagain hworld hmode node
      | _ =>
          change Eval.Tours (Pure.pure _ >>= _) _ _
          rw [Eval.pure_bind]
          exact tours_selectStep hagain hworld hmode hvalue

end Steps

/-! ### Whole projections -/

/-- A projection that goes down so many levels, and does something else instead of going on. -/
def projectUntil (world : World σ) (stop : Mode → Value → Eval σ Failure Value) :
    Nat → Mode → Value → Eval σ Failure Value
  | 0 => stop
  | levels + 1 => projectStep world (projectUntil world stop levels)

theorem project_eq_projectUntil (world : World σ) (fuel : Nat) :
    project world fuel = projectUntil world (fun _ _ => Eval.exhausted) fuel := by
  induction fuel with
  | zero => rfl
  | succ fuel ih => rw [project, projectUntil, ih]

theorem tours_projectUntil {world : World σ} (hworld : world.DistinctKeys)
    {stop : Mode → Value → Eval σ Failure Value}
    (hstop : ∀ mode value state run, stop mode value state = some run → callsOf run.trace = [])
    (levels : Nat) {mode : Mode} (hmode : mode.DistinctKeys) {value : Value}
    (hvalue : value.DistinctKeys) :
    (projectUntil world stop levels mode value).Tours mode.depth value := by
  induction levels generalizing mode value with
  | zero => exact Eval.tours_of_silent (hstop mode value)
  | succ levels ih =>
      exact tours_projectStep (fun hmode hvalue => ih hmode hvalue) hworld hmode hvalue

/-- **Evaluation is bounded by depth.** However a projection ends, its calls are made at places of
their own, each of the node that is found there, under as many keys of mappings as the selector is
deep at most; without any depth, under no key at all. The same holds of a projection that is cut off
after some levels, and so of one that never ends. -/
theorem calls_within_depth {world : World σ} (hworld : world.DistinctKeys) {selector : Selector}
    (hselector : selector.DistinctKeys) {value : Value} (hvalue : value.DistinctKeys) {state : σ}
    {run : Run σ Failure Value}
    (hrun : (∃ fuel, select world fuel selector value state = some run) ∨
      ∃ levels failure, projectUntil world (fun _ _ => Eval.fail failure) levels (.select selector)
        value state = some run) :
    ∃ visits, visits.map Prod.snd = callsOf run.trace ∧ Tour selector.depth value visits ∧
      (selector.depth = 0 → ∀ visit ∈ visits, ∀ key, Turn.key key ∉ visit.1) := by
  have hmode : (Mode.select selector).DistinctKeys := hselector
  have htours : ∃ visits, visits.map Prod.snd = callsOf run.trace ∧
      Tour selector.depth value visits := by
    rcases hrun with ⟨fuel, hrun⟩ | ⟨levels, failure, hrun⟩
    · -- Where the fuel is used up there is no run at all, so this one was never cut off.
      rw [select, project_eq_projectUntil] at hrun
      refine tours_projectUntil hworld (fun _ _ _ _ hstopped => ?_) fuel hmode hvalue state run hrun
      cases hstopped
    · refine tours_projectUntil hworld (fun _ _ _ _ hstopped => ?_) levels hmode hvalue state run
        hrun
      obtain rfl := Option.some.inj hstopped
      rfl
  obtain ⟨visits, hcalls, htour⟩ := htours
  refine ⟨visits, hcalls, htour, fun hzero visit hvisit key hkey => ?_⟩
  have hcount : Place.keyCount visit.1 = 0 := Nat.le_zero.mp (hzero ▸ htour.within hvisit)
  exact absurd (List.countP_eq_zero.mp hcount _ hkey) (by simp [Turn.isKey])

/-- The lazy node gives itself again below the one attribute that is asked for, until it fails. -/
theorem calls_within_depth_sample :
    let node : NodeRef := ⟨0, "node"⟩
    let again : Value := .mapping [("a", .lazy node), ("b", .lazy node)]
    let hidden : Value := .dual (.lazy node) .null
    let world : World Nat :=
      { produce := fun _ calls => (match calls with
          | 0 => .ok again
          | 1 => .ok hidden
          | _ => .error ⟨"down"⟩, calls + 1)
        convert := fun _ calls => (none, calls) }
    let selector : Selector := ⟨[("a", none)]⟩
    let calls : List Step := [.produced node (.ok again), .produced node (.ok hidden),
      .produced node (.error ⟨"down"⟩)]
    world.DistinctKeys ∧ selector.DistinctKeys ∧ selector.depth = 1 ∧
      (∃ run, select world 5 selector (.lazy node) 0 = some run ∧ callsOf run.trace = calls) ∧
      ∃ visits, visits.map Prod.snd = calls ∧ Tour 1 (.lazy node) visits := by
  intro node again hidden world selector calls
  have hworld : world.DistinctKeys := by
    constructor
    · intro asked calls value hanswer
      match calls with
      | 0 =>
          obtain rfl := Except.ok.inj hanswer
          simp [again, Value.DistinctKeys, Value.EntriesDistinct, Table.Distinct]
      | 1 =>
          obtain rfl := Except.ok.inj hanswer
          simp [hidden, Value.null, Value.DistinctKeys]
      | _ + 2 => cases hanswer
    · intro asked calls plain hanswer
      cases hanswer
  have hselector : selector.DistinctKeys := ⟨by simp [Table.Distinct], trivial⟩
  have hvalue : (Value.lazy node).DistinctKeys := trivial
  have hdepth : selector.depth = 1 := rfl
  obtain ⟨run, hrun, hcalls⟩ : ∃ run, select world 5 selector (.lazy node) 0 = some run ∧
      callsOf run.trace = calls := ⟨_, rfl, rfl⟩
  obtain ⟨visits, hvisits, htour, -⟩ :=
    calls_within_depth hworld hselector hvalue (.inl ⟨5, hrun⟩)
  exact ⟨hworld, hselector, hdepth, ⟨run, hrun, hcalls⟩, visits, hvisits.trans hcalls, htour⟩

end TreeProjection
