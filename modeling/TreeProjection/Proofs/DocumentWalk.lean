import Mathlib.Tactic.Common
import TreeProjection.Proofs.Composition
import TreeProjection.Proofs.Documents

/-!
# The walk of a conversion

Think of a walk through a value in document order that takes no offence at anything: it passes
dual-view and lazy nodes by and goes on in what an object converts to (`Walk`). The conversion to a
document goes the same way up to the first node that it refuses. It asks the same objects in the
same order up to there and never asks a lazy node; if there is nothing to refuse, it ends with a
document that mirrors the tree that was walked (`toJson_of_walk`). An object that converts to an
object is refused as soon as it was asked, and a walk need not go on in the other one.
-/

namespace TreeProjection

/-- What a walk meets: a node without parts, or an object with what it converts to. -/
inductive Encounter where
  | leaf (atom : Leaf)
  | dual
  | lazy (node : NodeRef)
  | object (node : NodeRef) (plain : Option Value)

namespace Encounter

/-- Why a document cannot hold what was met, if it cannot. -/
def error? : Encounter → Option ConversionError
  | .leaf (.number value) => if value.isFinite = true then none else some (.nonFinite value)
  | .leaf _ => none
  | .dual => some .dualView
  | .lazy _ => some .lazyNode
  | .object node none => some (.noPlainForm node)
  | .object node (some (.object _)) => some (.noPlainForm node)
  | .object _ (some _) => none

def conversion? : Encounter → Option Step
  | .object node plain => some (.converted node plain)
  | _ => none

/-- All that is met up to the first that a document cannot hold, this one included. -/
def heeded : List Encounter → List Encounter
  | [] => []
  | encounter :: rest =>
      if encounter.error? = none then encounter :: heeded rest else [encounter]

/-- The result if a document can hold all that was met, and otherwise the first error. -/
def verdict {α : Type} (met : List Encounter) (result : α) : Except ConversionError α :=
  match met.findSome? error? with
  | none => .ok result
  | some error => .error error

variable {met behind : List Encounter}

theorem verdict_of_none {α : Type} {result : α} (hmet : met.findSome? error? = none) :
    verdict met result = .ok result := by
  rw [verdict, hmet]

theorem verdict_of_some {α : Type} {result : α} {error : ConversionError}
    (hmet : met.findSome? error? = some error) : verdict met result = .error error := by
  rw [verdict, hmet]

theorem heeded_eq_self (hmet : met.findSome? error? = none) : heeded met = met := by
  induction met with
  | nil => rfl
  | cons encounter rest ih =>
      obtain ⟨hfirst, hrest⟩ : encounter.error? = none ∧ rest.findSome? error? = none := by
        simpa using hmet
      rw [heeded, if_pos hfirst, ih (by simpa using hrest)]

theorem heeded_append (met behind : List Encounter) : heeded (met ++ behind) =
    if met.findSome? error? = none then met ++ heeded behind else heeded met := by
  induction met with
  | nil => rfl
  | cons encounter rest ih =>
      rw [List.cons_append, heeded, heeded, ih]
      cases herror : encounter.error? with
      | some error => simp [herror]
      | none =>
          by_cases hrest : rest.findSome? error? = none <;> simp [herror, hrest]

theorem heeded_split {offender : Encounter} {error : ConversionError}
    (hmet : ∀ encounter ∈ met, encounter.error? = none) (hoffender : offender.error? = some error) :
    heeded (met ++ offender :: behind) = met ++ [offender] := by
  rw [heeded_append, if_pos (List.findSome?_eq_none_iff.mpr hmet), heeded, hoffender, if_neg nofun]

end Encounter

variable {σ α β : Type}

/-- A walk through values one after the other, from one state of the world to another, with the
trees that were walked and what was met. An object is asked once, and the walk goes on in its plain
form before it comes to what follows the object. If the plain form is an object again, the walk may
leave that one alone. -/
inductive Walk (world : World σ) : σ → List Value → List Value → List Encounter → σ → Prop where
  | done (state : σ) : Walk world state [] [] [] state
  | leaf (atom : Leaf) {state last : σ} {rest trees : List Value} {met : List Encounter}
      (hrest : Walk world state rest trees met last) :
      Walk world state (.leaf atom :: rest) (.leaf atom :: trees) (.leaf atom :: met) last
  | sequence {state middle last : σ} {items parts rest trees : List Value}
      {met behind : List Encounter} (hitems : Walk world state items parts met middle)
      (hrest : Walk world middle rest trees behind last) :
      Walk world state (.sequence items :: rest) (.sequence parts :: trees) (met ++ behind) last
  | mapping {state middle last : σ} {entries : List (String × Value)}
      {parts rest trees : List Value} {met behind : List Encounter}
      (hentries : Walk world state (entries.map Prod.snd) parts met middle)
      (hrest : Walk world middle rest trees behind last) :
      Walk world state (.mapping entries :: rest)
        (.mapping ((Table.keys entries).zip parts) :: trees) (met ++ behind) last
  | dual (left right : Value) {state last : σ} {rest trees : List Value} {met : List Encounter}
      (hrest : Walk world state rest trees met last) :
      Walk world state (.dual left right :: rest) (.dual left right :: trees) (.dual :: met) last
  | lazy (node : NodeRef) {state last : σ} {rest trees : List Value} {met : List Encounter}
      (hrest : Walk world state rest trees met last) :
      Walk world state (.lazy node :: rest) (.lazy node :: trees) (.lazy node :: met) last
  | shut {node : NodeRef} {state middle last : σ} {rest trees : List Value} {met : List Encounter}
      (hanswer : world.convert node state = (none, middle))
      (hrest : Walk world middle rest trees met last) :
      Walk world state (.object node :: rest) (.object node :: trees) (.object node none :: met)
        last
  | opened {node : NodeRef} {plain tree : Value} {state begun middle last : σ}
      {rest trees : List Value} {met behind : List Encounter}
      (hanswer : world.convert node state = (some plain, begun))
      (hplain : Walk world begun [plain] [tree] met middle)
      (hrest : Walk world middle rest trees behind last) :
      Walk world state (.object node :: rest) (tree :: trees)
        ((.object node (some plain) :: met) ++ behind) last
  | exchanged {node other : NodeRef} {state middle last : σ} {rest trees : List Value}
      {met : List Encounter} (hanswer : world.convert node state = (some (.object other), middle))
      (hrest : Walk world middle rest trees met last) :
      Walk world state (.object node :: rest) (.object other :: trees)
        (.object node (some (.object other)) :: met) last

/-! ### Computations that follow a walk -/

/-- With enough fuel the computation ends as the encounters of a walk demand, if nothing refuses in
the last state of the walk. It makes the conversions of the encounters that are heeded. -/
def Eval.Follows (family : Nat → Eval σ ConversionError α) (state : σ) (result : α)
    (met : List Encounter) (last : σ) : Prop :=
  ∃ after least, (met.findSome? Encounter.error? = none → after = last) ∧
    ∀ fuel, least ≤ fuel → family fuel state = some ⟨Encounter.verdict met result, after,
      (Encounter.heeded met).filterMap Encounter.conversion?⟩

namespace Eval

theorem bind_assoc {ε γ : Type} (first : Eval σ ε α) (next : α → Eval σ ε β)
    (more : β → Eval σ ε γ) :
    (first >>= next) >>= more = first >>= fun result => next result >>= more := by
  funext state
  change Eval.bind (Eval.bind first next) more state =
    Eval.bind first (fun result => Eval.bind (next result) more) state
  simp only [Eval.bind]
  rcases first state with _ | ⟨_ | result, after, trace⟩
  · rfl
  · rfl
  · dsimp only
    rcases next result after with _ | ⟨_ | final, last, rest⟩
    · rfl
    · rfl
    · dsimp only
      cases more final last with
      | none => rfl
      | some run => simp

/-- The entries of a mapping one after the other are its values, put under their keys. -/
theorem forEach_entries {ε : Type} (f : α → Eval σ ε β) (entries : List (String × α)) :
    (forEach (fun (key, item) => do return (key, ← f item)) entries :
      Eval σ ε (List (String × β))) =
      do return (Table.keys entries).zip (← forEach f (entries.map Prod.snd)) := by
  induction entries with
  | nil => rfl
  | cons entry rest ih =>
      rw [forEach, ih, List.map_cons, forEach]
      simp only [bind_assoc, pure_bind]
      rfl

variable {state middle last : σ} {met behind : List Encounter}

theorem follows_pure (result : α) (state : σ) :
    Follows (fun _ => (Pure.pure result : Eval σ ConversionError α)) state result [] state :=
  ⟨state, 0, fun _ => rfl, fun _ _ => rfl⟩

theorem Follows.bind {first : Nat → Eval σ ConversionError α}
    {next : Nat → α → Eval σ ConversionError β} {begun : α} {result : β}
    (hfirst : Follows first state begun met middle)
    (hnext : Follows (next · begun) middle result behind last) :
    Follows (fun fuel => first fuel >>= next fuel) state result (met ++ behind) last := by
  obtain ⟨after, least, hafter, hrun⟩ := hfirst
  cases herror : met.findSome? Encounter.error? with
  | some error =>
      refine ⟨after, least, by simp [herror], fun fuel hfuel => ?_⟩
      have hfailed := hrun fuel hfuel
      rw [Encounter.verdict_of_some herror] at hfailed
      change Eval.bind (first fuel) (next fuel) state = _
      simp [Eval.bind, hfailed, herror, Encounter.heeded_append, Encounter.verdict]
  | none =>
      obtain rfl := hafter herror
      obtain ⟨final, leastNext, hfinal, hended⟩ := hnext
      refine ⟨final, max least leastNext, by simpa [herror] using hfinal, fun fuel hfuel => ?_⟩
      have hbegun := hrun fuel (by omega)
      rw [Encounter.verdict_of_none herror, Encounter.heeded_eq_self herror] at hbegun
      have hrest := hended fuel (by omega)
      change Eval.bind (first fuel) (next fuel) state = _
      simp [Eval.bind, hbegun, hrest, herror, Encounter.heeded_append, Encounter.verdict]

theorem Follows.map {family : Nat → Eval σ ConversionError α} {result : α}
    (hfamily : Follows family state result met last) (f : α → β) :
    Follows (fun fuel => (do return f (← family fuel) : Eval σ ConversionError β)) state (f result)
      met last := by
  rw [← List.append_nil met]
  exact hfamily.bind (follows_pure (f result) last)

theorem Follows.succ {family later : Nat → Eval σ ConversionError α} {result : α}
    (hfamily : Follows family state result met last)
    (hlater : ∀ fuel, later (fuel + 1) = family fuel) : Follows later state result met last := by
  obtain ⟨after, least, hafter, hrun⟩ := hfamily
  refine ⟨after, least + 1, hafter, fun fuel hfuel => ?_⟩
  cases fuel with
  | zero => omega
  | succ fuel =>
      rw [hlater fuel]
      exact hrun fuel (by omega)

/-- Where the first that is met is refused at once, nothing that follows counts. -/
theorem follows_of_refused {family : Nat → Eval σ ConversionError α} {encounter : Encounter}
    {error : ConversionError} {after : σ} (herror : encounter.error? = some error)
    (hrun : ∀ fuel, family fuel state =
      some ⟨.error error, after, encounter.conversion?.toList⟩)
    (result : α) (met : List Encounter) (last : σ) :
    Follows family state result (encounter :: met) last := by
  refine ⟨after, 0, by simp [herror], fun fuel _ => ?_⟩
  rw [hrun fuel]
  cases hconversion : encounter.conversion? <;>
    simp [herror, Encounter.heeded, hconversion, Encounter.verdict]

theorem follows_of_accepted {family : Nat → Eval σ ConversionError α} {result : α} {after : σ}
    {encounter : Encounter} (herror : encounter.error? = none)
    (hrun : ∀ fuel, family fuel state = some ⟨.ok result, after, encounter.conversion?.toList⟩) :
    Follows family state result [encounter] after := by
  refine ⟨after, 0, fun _ => rfl, fun fuel _ => ?_⟩
  rw [hrun fuel]
  cases hconversion : encounter.conversion? <;>
    simp [herror, Encounter.heeded, hconversion, Encounter.verdict]

theorem follows_singleton {f : Nat → α → Eval σ ConversionError β} {item : α} {result : β}
    (hitems : Follows (fun fuel => forEach (f fuel) [item]) state [result] met last) :
    Follows (f · item) state result met last := by
  obtain ⟨after, least, hafter, hrun⟩ := hitems
  refine ⟨after, least, hafter, fun fuel hfuel => ?_⟩
  rcases bind_eq_some (hrun fuel hfuel) with
    ⟨error, houtcome, hfirst⟩ | ⟨begun, middle, trace, rest, hfirst, hrest, heq⟩
  · refine hfirst.trans ?_
    cases herror : met.findSome? Encounter.error? with
    | none => simp [Encounter.verdict, herror] at houtcome
    | some other =>
        obtain rfl : other = error := by simpa [Encounter.verdict, herror] using houtcome
        simp [Encounter.verdict, herror]
  · obtain rfl : (⟨.ok [begun], middle, []⟩ : Run σ ConversionError (List β)) = rest :=
      Option.some.inj hrest
    obtain ⟨houtcome, rfl, htrace⟩ := Run.mk.inj heq
    refine hfirst.trans ?_
    rw [htrace, List.append_nil]
    cases herror : met.findSome? Encounter.error? with
    | some error => simp [Encounter.verdict, herror] at houtcome
    | none =>
        obtain rfl : result = begun := by simpa [Encounter.verdict, herror] using houtcome
        simp [Encounter.verdict, herror]

end Eval

/-! ### The conversion follows the walk -/

section Conversion

variable {world : World σ}

theorem follows_refused {value : Value} {encounter : Encounter} {error : ConversionError}
    {state : σ} (herror : encounter.error? = some error) (after : σ)
    (hrun : ∀ again, Value.toJsonStep world again value state =
      some ⟨.error error, after, encounter.conversion?.toList⟩)
    (document : Json) (met : List Encounter) (last : σ) :
    Eval.Follows (Value.toJson world · value) state document (encounter :: met) last :=
  (Eval.follows_of_refused herror (fun fuel => hrun (Value.toJson world fuel)) document met
    last).succ fun _ => rfl

theorem Encounter.error?_leaf (atom : Leaf) : (Encounter.leaf atom).error? =
    match atom.toJson with
      | .ok _ => none
      | .error error => some error := by
  cases atom with
  | number value => by_cases hfinite : value.isFinite = true <;> simp [error?, Leaf.toJson, hfinite]
  | _ => rfl

theorem follows_leaf (atom : Leaf) (state : σ) :
    Eval.Follows (Value.toJson world · (.leaf atom)) state (Value.document (.leaf atom))
      [.leaf atom] state := by
  have herror := Encounter.error?_leaf atom
  cases hdocument : atom.toJson with
  | error error =>
      rw [hdocument] at herror
      refine follows_refused herror state (fun again => ?_) _ [] state
      simp only [Value.toJsonStep, hdocument]
      rfl
  | ok document =>
      rw [hdocument] at herror
      have hsame : Value.document (.leaf atom) = document := by
        rw [Value.document, Leaf.document, hdocument]
      rw [hsame]
      have hmade : Eval.Follows (fun _ => (Pure.pure document : Eval σ ConversionError Json)) state
          document [.leaf atom] state := Eval.follows_of_accepted herror fun _ => rfl
      refine hmade.succ fun fuel => ?_
      simp only [Value.toJson, Value.toJsonStep, hdocument]

theorem convert_eq_some {node : NodeRef} {plain : Value} {state begun : σ}
    (hanswer : world.convert node state = (some plain, begun)) :
    (Eval.convert world node : Eval σ ConversionError (Option Value)) state =
      some ⟨.ok (some plain), begun, [.converted node (some plain)]⟩ := by
  rw [Eval.convert, hanswer]

/-- The other object is not asked, whatever the walk meets in it. -/
theorem follows_exchanged {node other : NodeRef} {state begun : σ}
    (hanswer : world.convert node state = (some (.object other), begun)) (document : Json)
    (met : List Encounter) (last : σ) :
    Eval.Follows (Value.toJson world · (.object node)) state document
      (.object node (some (.object other)) :: met) last := by
  refine follows_refused rfl begun (fun again => ?_) document met last
  simp only [Value.toJsonStep]
  change Eval.bind _ _ _ = _
  simp only [Eval.bind, convert_eq_some hanswer]
  rfl

theorem follows_opened {node : NodeRef} {plain tree : Value} {state begun last : σ}
    {met : List Encounter} (hanswer : world.convert node state = (some plain, begun))
    (hplain : Eval.Follows (Value.toJson world · plain) begun tree.document met last) :
    Eval.Follows (Value.toJson world · (.object node)) state tree.document
      (.object node (some plain) :: met) last := by
  have hasked (herror : (Encounter.object node (some plain)).error? = none) :
      Eval.Follows (fun _ => (Eval.convert world node : Eval σ ConversionError _)) state
        (some plain) [.object node (some plain)] begun :=
    Eval.follows_of_accepted herror fun _ => convert_eq_some hanswer
  cases plain with
  | object other => exact follows_exchanged hanswer _ met last
  | _ =>
      refine Eval.Follows.succ (?_ : Eval.Follows (fun fuel => Value.toJsonStep world
        (Value.toJson world fuel) (.object node)) state tree.document _ last) fun _ => rfl
      simp only [Value.toJsonStep]
      exact (hasked rfl).bind hplain

theorem Walk.follows {state last : σ} {values trees : List Value} {met : List Encounter}
    (hwalk : Walk world state values trees met last) :
    Eval.Follows (fun fuel => Eval.forEach (Value.toJson world fuel) values) state
      (trees.map Value.document) met last := by
  have hcons {value tree : Value} {rest trees : List Value} {state middle last : σ}
      {met behind : List Encounter}
      (hvalue : Eval.Follows (Value.toJson world · value) state tree.document met middle)
      (hrest : Eval.Follows (fun fuel => Eval.forEach (Value.toJson world fuel) rest) middle
        (trees.map Value.document) behind last) :
      Eval.Follows (fun fuel => Eval.forEach (Value.toJson world fuel) (value :: rest)) state
        ((tree :: trees).map Value.document) (met ++ behind) last :=
    hvalue.bind (hrest.map (tree.document :: ·))
  induction hwalk with
  | done state => exact Eval.follows_pure [] state
  | leaf atom _ ih => exact hcons (follows_leaf atom _) ih
  | sequence _ _ hitems hrest =>
      refine hcons ?_ hrest
      rw [Value.document]
      exact (hitems.map Json.array).succ fun _ => rfl
  | @mapping _ _ _ entries _ _ _ _ _ _ _ hentries hrest =>
      refine hcons ?_ hrest
      rw [Value.document]
      have hkeys := hentries.map fun documents => Json.object ((Table.keys entries).zip documents)
      rw [List.zip_map_right] at hkeys
      refine hkeys.succ fun fuel => ?_
      rw [Value.toJson, Value.toJsonStep, Eval.forEach_entries, Eval.bind_assoc]
      simp only [Eval.pure_bind]
  | dual left right _ ih => exact hcons (follows_refused rfl _ (fun _ => rfl) _ [] _) ih
  | lazy node _ ih => exact hcons (follows_refused rfl _ (fun _ => rfl) _ [] _) ih
  | @shut node _ middle _ _ _ _ hanswer _ ih =>
      refine hcons (follows_refused rfl middle (fun again => ?_) _ [] middle) ih
      simp only [Value.toJsonStep]
      change Eval.bind _ _ _ = _
      simp only [Eval.bind, Eval.convert, hanswer]
      rfl
  | opened hanswer _ _ hplain hrest =>
      exact hcons (follows_opened hanswer (Eval.follows_singleton hplain)) hrest
  | exchanged hanswer _ ih => exact hcons (follows_exchanged hanswer _ [] _) ih

end Conversion

/-! ### Trees that a document can hold -/

theorem Encounter.isFinite_of_error?_leaf {atom : Leaf}
    (hatom : (Encounter.leaf atom).error? = none) : atom.IsFinite := by
  cases atom with
  | number value =>
      by_contra hinfinite
      have hvalue : ¬value.isFinite = true := hinfinite
      simp [error?, hvalue] at hatom
  | _ => trivial

theorem Walk.madeOf {world : World σ} {state last : σ} {values trees : List Value}
    {met : List Encounter} (hwalk : Walk world state values trees met last)
    (hmet : ∀ encounter ∈ met, encounter.error? = none) :
    ∀ tree ∈ trees, tree.MadeOf Leaf.IsFinite := by
  induction hwalk with
  | done => simp
  | leaf atom _ ih =>
      obtain ⟨hatom, hrest⟩ := List.forall_mem_cons.mp hmet
      exact List.forall_mem_cons.mpr ⟨.leaf (Encounter.isFinite_of_error?_leaf hatom), ih hrest⟩
  | sequence _ _ hitems hrest =>
      rw [List.forall_mem_append] at hmet
      exact List.forall_mem_cons.mpr ⟨.sequence (hitems hmet.1), hrest hmet.2⟩
  | mapping _ _ hentries hrest =>
      rw [List.forall_mem_append] at hmet
      refine List.forall_mem_cons.mpr ⟨.mapping fun entry hentry => ?_, hrest hmet.2⟩
      exact hentries hmet.1 entry.2 (List.of_mem_zip hentry).2
  | dual => exact absurd (List.forall_mem_cons.mp hmet).1 nofun
  | lazy => exact absurd (List.forall_mem_cons.mp hmet).1 nofun
  | shut => exact absurd (List.forall_mem_cons.mp hmet).1 nofun
  | opened _ _ _ hplain hrest =>
      obtain ⟨hopened, hbehind⟩ := List.forall_mem_append.mp hmet
      have htree := hplain (List.forall_mem_cons.mp hopened).2
      exact List.forall_mem_cons.mpr ⟨htree _ (List.mem_singleton_self _), hrest hbehind⟩
  | exchanged => exact absurd (List.forall_mem_cons.mp hmet).1 nofun

/-- As far as a walk goes in it, no object and no number that is not finite. -/
inductive Value.Settled : Value → Prop where
  | leaf {atom : Leaf} (hatom : atom.IsFinite) : Settled (.leaf atom)
  | sequence {items : List Value} (hitems : ∀ item ∈ items, Settled item) :
      Settled (.sequence items)
  | mapping {entries : List (String × Value)} (hentries : ∀ entry ∈ entries, Settled entry.2) :
      Settled (.mapping entries)
  | dual (left right : Value) : Settled (.dual left right)
  | lazy (node : NodeRef) : Settled (.lazy node)

/-- The walk through a value in front of another walk. -/
def Value.Ahead (world : World σ) (value : Value) : Prop :=
  ∀ {state last : σ} {rest trees : List Value} {met : List Encounter},
    Walk world state rest trees met last →
      ∃ tree own, Walk world state (value :: rest) (tree :: trees) (own ++ met) last ∧
        ((∀ encounter ∈ own, encounter.error? = none) ↔ value.isPlain = true)

theorem exists_walk {world : World σ} {values : List Value}
    (hvalues : ∀ value ∈ values, value.Ahead world) (state : σ) :
    ∃ trees met, Walk world state values trees met state ∧
      ((∀ encounter ∈ met, encounter.error? = none) ↔ ∀ value ∈ values, value.isPlain = true) := by
  induction values with
  | nil => exact ⟨[], [], .done state, by simp⟩
  | cons value rest ih =>
      obtain ⟨hvalue, hrest⟩ := List.forall_mem_cons.mp hvalues
      obtain ⟨trees, met, hwalk, hmet⟩ := ih hrest
      obtain ⟨tree, own, hahead, hown⟩ := hvalue hwalk
      exact ⟨_, _, hahead, by rw [List.forall_mem_append, hown, hmet, List.forall_mem_cons]⟩

theorem Value.Settled.ahead {value : Value} (hvalue : value.Settled) (world : World σ) :
    value.Ahead world := by
  induction hvalue with
  | @leaf atom hatom =>
      intro _ _ _ _ _ hrest
      refine ⟨_, [.leaf atom], .leaf atom hrest, ?_⟩
      have hnone : (Encounter.leaf atom).error? = none := by
        rw [Encounter.error?_leaf, hatom.toJson_eq]
      simp [hnone, isPlain]
  | sequence _ ih =>
      intro state _ _ _ _ hrest
      obtain ⟨parts, own, hwalk, hown⟩ := exists_walk ih state
      refine ⟨_, own, .sequence hwalk hrest, ?_⟩
      rw [hown, isPlain, itemsPlain_iff]
  | mapping _ ih =>
      intro state _ _ _ _ hrest
      obtain ⟨parts, own, hwalk, hown⟩ := exists_walk (List.forall_mem_map.mpr ih) state
      refine ⟨_, own, .mapping hwalk hrest, ?_⟩
      rw [hown, isPlain, entriesPlain_iff, List.forall_mem_map]
  | dual left right =>
      intro _ _ _ _ _ hrest
      exact ⟨_, [.dual], .dual left right hrest, by simp [Encounter.error?, isPlain]⟩
  | lazy node =>
      intro _ _ _ _ _ hrest
      exact ⟨_, [.lazy node], .lazy node hrest, by simp [Encounter.error?, isPlain]⟩

/-! ### Lazy nodes are not asked -/

def Eval.AsksNoLazy {ε : Type} (eval : Eval σ ε α) : Prop :=
  ∀ state run, eval state = some run → ∀ node outcome, Step.produced node outcome ∉ run.trace

namespace Eval

variable {ε : Type}

theorem asksNoLazy_pure (result : α) : AsksNoLazy (Pure.pure result : Eval σ ε α) := by
  rintro state run hrun node outcome
  obtain rfl := Option.some.inj hrun
  exact List.not_mem_nil

theorem AsksNoLazy.bind {first : Eval σ ε α} {next : α → Eval σ ε β} (hfirst : first.AsksNoLazy)
    (hnext : ∀ result, (next result).AsksNoLazy) : (first >>= next).AsksNoLazy := by
  intro state run hrun node outcome
  rcases bind_eq_some hrun with
    ⟨error, -, hbegun⟩ | ⟨result, after, trace, rest, hbegun, hended, rfl⟩
  · exact hfirst state _ hbegun node outcome
  · rw [List.mem_append, not_or]
    exact ⟨hfirst state _ hbegun node outcome, hnext result after rest hended node outcome⟩

theorem asksNoLazy_forEach {f : α → Eval σ ε β} {items : List α}
    (hitems : ∀ item ∈ items, (f item).AsksNoLazy) : (forEach f items).AsksNoLazy := by
  induction items with
  | nil => exact asksNoLazy_pure []
  | cons item rest ih =>
      obtain ⟨hitem, hrest⟩ := List.forall_mem_cons.mp hitems
      rw [forEach]
      exact hitem.bind fun _ => (ih hrest).bind fun _ => asksNoLazy_pure _

end Eval

theorem asksNoLazy_toJson (world : World σ) (fuel : Nat) (value : Value) :
    (Value.toJson world fuel value).AsksNoLazy := by
  have hfail (error : ConversionError) :
      (Eval.fail error : Eval σ ConversionError Json).AsksNoLazy := by
    rintro state run hrun node outcome
    obtain rfl := Option.some.inj hrun
    exact List.not_mem_nil
  induction fuel generalizing value with
  | zero => exact fun _ _ hrun => absurd hrun nofun
  | succ fuel ih =>
      rw [Value.toJson]
      cases value with
      | leaf atom =>
          rw [Value.toJsonStep]
          cases atom.toJson with
          | ok document => exact Eval.asksNoLazy_pure document
          | error error => exact hfail error
      | sequence items =>
          exact (Eval.asksNoLazy_forEach fun item _ => ih item).bind
            fun _ => Eval.asksNoLazy_pure _
      | mapping entries =>
          exact (Eval.asksNoLazy_forEach fun entry _ => (ih entry.2).bind
            fun _ => Eval.asksNoLazy_pure _).bind fun _ => Eval.asksNoLazy_pure _
      | dual | lazy => exact hfail _
      | object node =>
          have hconvert : (Eval.convert world node : Eval σ ConversionError _).AsksNoLazy := by
            rintro state run hrun other outcome
            obtain rfl := Option.some.inj hrun
            simp
          refine hconvert.bind fun plain => ?_
          split
          · exact hfail _
          · exact hfail _
          · exact ih _

/-- The conversion has ended as a walk with these encounters demands: well if a document can hold
all of them, and otherwise with the error of the first that it cannot hold. -/
structure Run.Heeds (run : Run σ ConversionError Json) (met : List Encounter) (tree : Value)
    (last : σ) : Prop where
  ok_iff : (∃ document, run.outcome = .ok document) ↔
    ∀ encounter ∈ met, encounter.error? = none
  of_ok {document : Json} (hok : run.outcome = .ok document) :
    tree.Mirrors document ∧ run.state = last ∧ run.trace = met.filterMap Encounter.conversion?
  of_error {error : ConversionError} (herror : run.outcome = .error error) :
    ∃ before offender behind, met = before ++ offender :: behind ∧
      (∀ encounter ∈ before, encounter.error? = none) ∧ offender.error? = some error ∧
      run.trace = (before ++ [offender]).filterMap Encounter.conversion?

theorem Walk.exists_run {world : World σ} {state last : σ} {value tree : Value}
    {met : List Encounter} (hwalk : Walk world state [value] [tree] met last) :
    ∃ run least, (∀ fuel, least ≤ fuel → value.toJson world fuel state = some run) ∧
      run.Heeds met tree last := by
  obtain ⟨after, least, hafter, hrun⟩ := Eval.follows_singleton hwalk.follows
  refine ⟨_, least, hrun, ?_⟩
  cases herror : met.findSome? Encounter.error? with
  | none =>
      have hmet := List.findSome?_eq_none_iff.mp herror
      rw [Encounter.verdict_of_none herror, Encounter.heeded_eq_self herror, hafter herror]
      refine ⟨⟨fun _ => hmet, fun _ => ⟨_, rfl⟩⟩, fun hok => ?_, nofun⟩
      obtain rfl := Except.ok.inj hok
      have htree := hwalk.madeOf hmet tree (List.mem_singleton_self _)
      exact ⟨htree.mirrors_document, rfl, rfl⟩
  | some error =>
      obtain ⟨before, offender, behind, rfl, hoffender, hbefore⟩ :=
        List.findSome?_eq_some_iff.mp herror
      rw [Encounter.verdict_of_some herror]
      refine ⟨⟨nofun, fun hmet => ?_⟩, nofun, fun hother => ?_⟩
      · exact absurd (hoffender.symm.trans (hmet offender (by simp))) nofun
      · obtain rfl := Except.error.inj hother
        refine ⟨before, offender, behind, rfl, hbefore, hoffender, ?_⟩
        rw [Encounter.heeded_split hbefore hoffender]

/-- **The first offender.** Let a walk through a value end. Then the conversion to a document ends
as well. It succeeds if and only if the walk meets nothing that a document cannot hold; the document
mirrors the tree that was walked, and the conversions are those of the walk. Otherwise it fails with
the error of the first encounter of that kind, and the conversions are those of the walk up to
there. No conversion ever asks a lazy node. Of a value without objects whose numbers are finite, it
succeeds if and only if the value is plain. -/
theorem toJson_of_walk (world : World σ) :
    (∀ {state last : σ} {value tree : Value} {met : List Encounter},
      Walk world state [value] [tree] met last →
        ∃ run least, (∀ fuel, least ≤ fuel → value.toJson world fuel state = some run) ∧
          run.Heeds met tree last) ∧
    (∀ fuel (value : Value), (value.toJson world fuel).AsksNoLazy) ∧
    ∀ (value : Value) (state : σ), value.Settled →
      ∃ run least, (∀ fuel, least ≤ fuel → value.toJson world fuel state = some run) ∧
        ((∃ document, run.outcome = .ok document) ↔ value.isPlain = true) := by
  refine ⟨Walk.exists_run, asksNoLazy_toJson world, fun value state hvalue => ?_⟩
  obtain ⟨tree, own, hwalk, hown⟩ := hvalue.ahead world (.done state)
  rw [List.append_nil] at hwalk
  obtain ⟨run, least, hrun, hheeds⟩ := hwalk.exists_run
  exact ⟨run, least, hrun, hheeds.ok_iff.trans hown⟩

/-- The record converts once, and then no more; the relay converts to itself. -/
theorem toJson_of_walk_sample :
    let record : NodeRef := ⟨0, "record"⟩
    let node : NodeRef := ⟨1, "node"⟩
    let relay : NodeRef := ⟨2, "relay"⟩
    let plain : Value := .mapping [("a", .leaf (.bool true))]
    let world : World Nat :=
      { produce := fun _ calls => (.ok .null, calls + 1)
        convert := fun asked calls => (if asked = relay then some (.object relay)
          else if calls = 0 then some plain else none, calls + 1) }
    let accepted : Value := .sequence [.object record, .leaf (.unsigned 7)]
    let held : List Encounter := [.object record (some plain), .leaf (.bool true),
      .leaf (.unsigned 7)]
    let value : Value := .sequence [.object record, .object relay, .lazy node, .object record]
    let tree : Value := .sequence [plain, .object relay, .lazy node, .object record]
    let met : List Encounter := [.object record (some plain), .leaf (.bool true),
      .object relay (some (.object relay)), .lazy node, .object record none]
    let settled : Value := .mapping [("b", .leaf .null), ("a", .sequence [.leaf (.bool true)])]
    Walk world 0 [accepted] [.sequence [plain, .leaf (.unsigned 7)]] held 1 ∧
      (∃ run least, (∀ fuel, least ≤ fuel → accepted.toJson world fuel 0 = some run) ∧
        run.Heeds held (.sequence [plain, .leaf (.unsigned 7)]) 1 ∧
        run = ⟨.ok (.array [.object [("a", .bool true)], .number (.integer 7)]), 1,
          [.converted record (some plain)]⟩) ∧
      Walk world 0 [value] [tree] met 3 ∧
      (∃ run least, (∀ fuel, least ≤ fuel → value.toJson world fuel 0 = some run) ∧
        run.Heeds met tree 3 ∧ run = ⟨.error (.noPlainForm relay), 2,
          [.converted record (some plain), .converted relay (some (.object relay))]⟩) ∧
      settled.Settled ∧
      ∃ run least, (∀ fuel, least ≤ fuel → settled.toJson world fuel 0 = some run) ∧
        run.outcome = .ok (.object [("b", .null), ("a", .array [.bool true])]) := by
  intro record node relay plain world accepted held value tree met settled
  have hplain : Walk world 1 [plain] [plain] [.leaf (.bool true)] 1 :=
    @Walk.mapping _ world 1 1 1 [("a", .leaf (.bool true))] _ _ _ _ _
      (.leaf (.bool true) (.done 1)) (.done 1)
  have hheld : Walk world 0 [accepted] [.sequence [plain, .leaf (.unsigned 7)]] held 1 :=
    .sequence (.opened rfl hplain (.leaf (.unsigned 7) (.done 1))) (.done 1)
  have hmet : Walk world 0 [value] [tree] met 3 :=
    .sequence (.opened rfl hplain (.exchanged rfl (.lazy node (.shut rfl (.done 3))))) (.done 3)
  have hsettled : settled.Settled := by
    refine .mapping (List.forall_mem_cons.mpr ⟨.leaf trivial, List.forall_mem_singleton.mpr ?_⟩)
    exact .sequence (List.forall_mem_singleton.mpr (.leaf trivial))
  obtain ⟨hwalks, -, hplainly⟩ := toJson_of_walk world
  obtain ⟨run, least, hrun, hheeds⟩ := hwalks hheld
  obtain ⟨other, enough, hother, hrefused⟩ := hwalks hmet
  obtain ⟨last, limit, hlast, -⟩ := hplainly settled 0 hsettled
  have hlater := hrun (least + 4) (Nat.le_add_right ..)
  have hstopped := hother (enough + 4) (Nat.le_add_right ..)
  have hended := hlast (limit + 4) (Nat.le_add_right ..)
  refine ⟨hheld, ⟨run, least, hrun, hheeds, (Option.some.inj hlater).symm⟩, hmet,
    ⟨other, enough, hother, hrefused, (Option.some.inj hstopped).symm⟩, hsettled, last, limit,
    hlast, ?_⟩
  rw [← Option.some.inj hended]

end TreeProjection
