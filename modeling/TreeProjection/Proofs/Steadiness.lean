import Mathlib.Data.List.Forall2
import Mathlib.Tactic.Common
import TreeProjection.Proofs.Composition

/-!
# Nodes that always answer the same

Where a node gives the same whenever it is asked, it makes no difference from which state a
projection starts: if it succeeds from one, it succeeds from all, with one result and one trace
(`steady_project`). What such a computation yields is put together from what its parts yield
(`yields_bind_iff`, `yields_forEach_iff`), so that two of them can be compared part by part:
`Entails` says that one of them yields something related to all that the other yields.
-/

namespace TreeProjection

variable {σ ε α β γ δ : Type}

/-- A node gives the same whenever it is asked. It may fail, but then it always does. -/
structure World.Constant (world : World σ) : Prop where
  produce (node : NodeRef) (state other : σ) :
    (world.produce node state).1 = (world.produce node other).1
  convert (node : NodeRef) (state other : σ) :
    (world.convert node state).1 = (world.convert node other).1

namespace Eval

/-- The computation succeeds from every state, with this result and this trace. -/
def Yields (eval : Eval σ ε α) (result : α) (trace : List Step) : Prop :=
  ∀ state, ∃ after, eval state = some ⟨.ok result, after, trace⟩

/-- If the computation succeeds from one state, it does the same from all. -/
def Steady (eval : Eval σ ε α) : Prop :=
  ∀ state after result trace, eval state = some ⟨.ok result, after, trace⟩ →
    eval.Yields result trace

theorem Steady.yields {eval : Eval σ ε α} (heval : eval.Steady) {state after : σ} {result : α}
    {trace : List Step} (hrun : eval state = some ⟨.ok result, after, trace⟩) :
    eval.Yields result trace :=
  heval state after result trace hrun

theorem steady_exhausted : Steady (exhausted : Eval σ ε α) := nofun

theorem yields_pure (result : α) : Yields (Pure.pure result : Eval σ ε α) result [] :=
  fun state => ⟨state, rfl⟩

theorem steady_pure (result : α) : Steady (Pure.pure result : Eval σ ε α) := by
  intro state after other trace hrun
  obtain ⟨rfl, rfl, rfl⟩ : result = other ∧ state = after ∧ [] = trace := by
    simpa [Pure.pure, Eval.pure] using hrun
  exact yields_pure result

theorem steady_log (entry : LogEntry) : Steady (log entry : Eval σ ε Unit) := by
  intro state after result trace hrun other
  obtain ⟨rfl, rfl⟩ : state = after ∧ [.logged entry] = trace := by simpa [log] using hrun
  exact ⟨other, rfl⟩

theorem bind_eq_some_ok_iff {first : Eval σ ε α} {next : α → Eval σ ε β} {state last : σ}
    {result : β} {trace : List Step} :
    (first >>= next) state = some ⟨.ok result, last, trace⟩ ↔
      ∃ middle after before rest, first state = some ⟨.ok middle, after, before⟩ ∧
        next middle after = some ⟨.ok result, last, rest⟩ ∧ trace = before ++ rest := by
  constructor
  · intro hrun
    rcases bind_eq_some hrun with
      ⟨error, herror, -⟩ | ⟨middle, after, before, rest, hfirst, hrest, heq⟩
    · cases herror
    · obtain ⟨houtcome, rfl, rfl⟩ := Run.mk.inj heq
      rw [houtcome]
      exact ⟨middle, after, before, rest.trace, hfirst, hrest, rfl⟩
  · rintro ⟨middle, after, before, rest, hfirst, hrest, rfl⟩
    change Eval.bind first next state = _
    simp only [Eval.bind, hfirst, hrest]

theorem Yields.bind {first : Eval σ ε α} {next : α → Eval σ ε β} {middle : α} {result : β}
    {before rest : List Step} (hfirst : first.Yields middle before)
    (hnext : (next middle).Yields result rest) :
    (first >>= next).Yields result (before ++ rest) := by
  intro state
  obtain ⟨after, hbegun⟩ := hfirst state
  obtain ⟨last, hended⟩ := hnext after
  exact ⟨last, bind_eq_some_ok_iff.mpr ⟨middle, after, before, rest, hbegun, hended, rfl⟩⟩

theorem Steady.bind {first : Eval σ ε α} {next : α → Eval σ ε β} (hfirst : first.Steady)
    (hnext : ∀ result, (next result).Steady) : (first >>= next).Steady := by
  intro state last result trace hrun
  obtain ⟨middle, after, before, rest, hbegun, hended, rfl⟩ := bind_eq_some_ok_iff.mp hrun
  exact (hfirst.yields hbegun).bind ((hnext middle).yields hended)

theorem Steady.map {eval : Eval σ ε α} (heval : eval.Steady) (f : α → β) :
    Steady (do return f (← eval) : Eval σ ε β) :=
  heval.bind fun _ => steady_pure _

theorem steady_forEach {f : α → Eval σ ε β} (hf : ∀ item, (f item).Steady) (items : List α) :
    (forEach f items).Steady := by
  induction items with
  | nil => exact steady_pure []
  | cons item rest ih => exact (hf item).bind fun _ => ih.map _

section Parts

variable [Nonempty σ]

theorem yields_pure_iff {result other : α} {trace : List Step} :
    (Pure.pure result : Eval σ ε α).Yields other trace ↔ other = result ∧ trace = [] := by
  constructor
  · intro hyields
    obtain ⟨after, hrun⟩ := hyields (Classical.arbitrary σ)
    obtain ⟨rfl, -, rfl⟩ : result = other ∧ _ = after ∧ [] = trace := by
      simpa [Pure.pure, Eval.pure] using hrun
    exact ⟨rfl, rfl⟩
  · rintro ⟨rfl, rfl⟩
    exact yields_pure other

theorem yields_bind_iff {first : Eval σ ε α} {next : α → Eval σ ε β} (hfirst : first.Steady)
    (hnext : ∀ result, (next result).Steady) {result : β} {trace : List Step} :
    (first >>= next).Yields result trace ↔ ∃ middle before rest, first.Yields middle before ∧
      (next middle).Yields result rest ∧ trace = before ++ rest := by
  constructor
  · intro hyields
    obtain ⟨last, hrun⟩ := hyields (Classical.arbitrary σ)
    obtain ⟨middle, after, before, rest, hbegun, hended, rfl⟩ := bind_eq_some_ok_iff.mp hrun
    exact ⟨middle, before, rest, hfirst.yields hbegun, (hnext middle).yields hended, rfl⟩
  · rintro ⟨middle, before, rest, hbegun, hended, rfl⟩
    exact hbegun.bind hended

theorem yields_map_iff {eval : Eval σ ε α} (heval : eval.Steady) {f : α → β} {result : β}
    {trace : List Step} : Yields (do return f (← eval) : Eval σ ε β) result trace ↔
      ∃ middle, eval.Yields middle trace ∧ result = f middle := by
  rw [yields_bind_iff heval fun _ => steady_pure _]
  simp [yields_pure_iff]

/-- The results for all items, each with what it left of the trace. -/
theorem yields_forEach_iff {f : α → Eval σ ε β} (hf : ∀ item, (f item).Steady) {items : List α}
    {results : List β} {trace : List Step} :
    (forEach f items).Yields results trace ↔ ∃ outs : List (β × List Step),
      List.Forall₂ (fun item out => (f item).Yields out.1 out.2) items outs ∧
        results = outs.map Prod.fst ∧ trace = outs.flatMap Prod.snd := by
  induction items generalizing results trace with
  | nil =>
      rw [forEach, yields_pure_iff]
      simp
  | cons item rest ih =>
      have hrest := steady_forEach hf rest
      rw [forEach, yields_bind_iff (hf item) fun _ => hrest.map _]
      simp only [yields_map_iff hrest, ih, List.forall₂_cons_left_iff]
      constructor
      · rintro ⟨result, before, behind, hitem, ⟨_, ⟨outs, houts, rfl, rfl⟩, rfl⟩, rfl⟩
        exact ⟨(result, before) :: outs, ⟨_, _, hitem, houts, rfl⟩, rfl, rfl⟩
      · rintro ⟨_, ⟨⟨result, before⟩, outs, hitem, houts, rfl⟩, rfl, rfl⟩
        exact ⟨result, before, _, hitem, ⟨_, ⟨outs, houts, rfl, rfl⟩, rfl⟩, rfl⟩

end Parts

/-! ### One computation after the example of another -/

/-- Traces stay related when they are continued by related ones. -/
structure TraceRel (T : List Step → List Step → Prop) : Prop where
  refl (trace : List Step) : T trace trace
  append {trace other rest behind : List Step} (hbefore : T trace other) (hrest : T rest behind) :
    T (trace ++ rest) (other ++ behind)

/-- Whenever the first computation yields something, so does the second, with results and traces
that are related. -/
def Entails (T : List Step → List Step → Prop) (R : α → β → Prop) (first : Eval σ ε α)
    (second : Eval σ ε β) : Prop :=
  ∀ result trace, first.Yields result trace →
    ∃ other rest, second.Yields other rest ∧ R result other ∧ T trace rest

section Entails

variable {T : List Step → List Step → Prop} {R : α → β → Prop}

theorem entails_self (hT : TraceRel T) {R : α → α → Prop} (hR : ∀ result, R result result)
    (eval : Eval σ ε α) : eval.Entails T R eval :=
  fun result trace hyields => ⟨result, trace, hyields, hR result, hT.refl trace⟩

/-- Side by side, what the others yield and what they leave of the trace. -/
theorem exists_outs (hT : TraceRel T) {E : γ → δ → Prop} {P : γ → α × List Step → Prop}
    {Q : δ → β × List Step → Prop} {items : List γ} {others : List δ}
    {outs : List (α × List Step)} (hitems : List.Forall₂ E items others)
    (houts : List.Forall₂ P items outs)
    (heach : ∀ item other out, E item other → P item out →
      ∃ twin, Q other twin ∧ R out.1 twin.1 ∧ T out.2 twin.2) :
    ∃ twins, List.Forall₂ Q others twins ∧
      List.Forall₂ (fun out twin => R out.1 twin.1) outs twins ∧
        T (outs.flatMap Prod.snd) (twins.flatMap Prod.snd) := by
  induction hitems generalizing outs with
  | nil =>
      cases houts
      exact ⟨[], .nil, .nil, hT.refl []⟩
  | cons hitem _ ih =>
      cases houts with
      | @cons _ out _ outs hout hrest =>
          obtain ⟨twin, htwin, hresult, htrace⟩ := heach _ _ _ hitem hout
          obtain ⟨twins, htwins, hresults, htraces⟩ := ih hrest
          refine ⟨twin :: twins, .cons htwin htwins, .cons hresult hresults, ?_⟩
          rw [List.flatMap_cons, List.flatMap_cons]
          exact hT.append htrace htraces

variable [Nonempty σ]

theorem entails_exhausted : (exhausted : Eval σ ε α).Entails T R exhausted := by
  intro result trace hyields
  obtain ⟨after, hrun⟩ := hyields (Classical.arbitrary σ)
  exact absurd hrun nofun

theorem entails_pure (hT : TraceRel T) {result : α} {other : β} (hresult : R result other) :
    (Pure.pure result : Eval σ ε α).Entails T R (Pure.pure other) := by
  intro _ trace hyields
  obtain ⟨rfl, rfl⟩ := yields_pure_iff.mp hyields
  exact ⟨other, [], yields_pure other, hresult, hT.refl []⟩

theorem Entails.bind (hT : TraceRel T) {first : Eval σ ε γ} {next : γ → Eval σ ε α}
    {more : γ → Eval σ ε β} (hfirst : first.Steady) (hnext : ∀ middle, (next middle).Steady)
    (heach : ∀ middle trace, first.Yields middle trace → (next middle).Entails T R (more middle)) :
    (first >>= next).Entails T R (first >>= more) := by
  intro result trace hyields
  obtain ⟨middle, before, rest, hbegun, hended, rfl⟩ := (yields_bind_iff hfirst hnext).mp hyields
  obtain ⟨other, behind, hother, hresult, htrace⟩ := heach middle before hbegun result rest hended
  exact ⟨other, before ++ behind, hbegun.bind hother, hresult, hT.append (hT.refl before) htrace⟩

end Entails

end Eval

/-! ### Projections -/

theorem composable_steady {world : World σ} (hworld : world.Constant) :
    Composable world Eval.Steady where
  exhausted := Eval.steady_exhausted
  pure := Eval.steady_pure
  bind := Eval.Steady.bind
  detailView := Eval.steady_log .detailView
  summaryView := Eval.steady_log .summaryView
  convert node := by
    intro state after result trace hrun other
    obtain ⟨rfl, -, rfl⟩ : (world.convert node state).1 = result ∧ _ = after ∧
        [.converted node (world.convert node state).1] = trace := by
      simpa [Eval.convert] using hrun
    rw [hworld.convert node state other]
    exact ⟨_, rfl⟩
  evaluate node := by
    intro state after result trace hrun other
    have hsame := hworld.produce node state other
    cases hanswer : world.produce node state with
    | mk outcome middle =>
        cases hother : world.produce node other with
        | mk otherOutcome otherMiddle =>
            rw [hanswer, hother] at hsame
            obtain rfl : outcome = otherOutcome := hsame
            cases outcome with
            | ok value =>
                rw [evaluate_of_ok hanswer] at hrun
                obtain ⟨rfl, -, rfl⟩ : value = result ∧ middle = after ∧ _ = trace := by
                  simpa using hrun
                exact ⟨otherMiddle, evaluate_of_ok hother⟩
            | error failure =>
                rw [evaluate_of_error hanswer] at hrun
                simp at hrun

/-- What an attribute of a mapping yields, under its key, and what it leaves of the trace. -/
def YieldsAttribute (world : World σ) (fuel : Nat) (entries : List (String × Value))
    (picked : String × Option Selector) (out : (String × Value) × List Step) : Prop :=
  out.1.1 = picked.1 ∧ (projectAttribute (project world fuel (.ofChild picked.2))
    ((Table.get? entries picked.1).getD .null)).Yields out.1.2 out.2

section Projections

variable {world : World σ} (hworld : world.Constant)
include hworld

theorem steady_project (fuel : Nat) (mode : Mode) (value : Value) :
    (project world fuel mode value).Steady :=
  (composable_steady hworld).project fuel mode value

variable [Nonempty σ] {fuel : Nat} {selector : Selector} {mode : Mode} {result : Value}
  {trace : List Step}

theorem yields_items_iff {items : List Value} :
    Eval.Yields (do return Value.sequence (← Eval.forEach (project world fuel mode) items))
        result trace ↔
      ∃ outs : List (Value × List Step),
        List.Forall₂ (fun item out => (project world fuel mode item).Yields out.1 out.2)
          items outs ∧
        result = .sequence (outs.map Prod.fst) ∧ trace = outs.flatMap Prod.snd := by
  have hP := composable_steady hworld
  have heach := hP.project fuel mode
  rw [Eval.yields_map_iff (hP.forEach fun item _ => heach item)]
  constructor
  · rintro ⟨results, hresults, rfl⟩
    obtain ⟨outs, houts, rfl, rfl⟩ := (Eval.yields_forEach_iff heach).mp hresults
    exact ⟨outs, houts, rfl, rfl⟩
  · rintro ⟨outs, houts, rfl, rfl⟩
    exact ⟨_, (Eval.yields_forEach_iff heach).mpr ⟨outs, houts, rfl, rfl⟩, rfl⟩

theorem entails_items {T : List Step → List Step → Prop} (hT : Eval.TraceRel T) {other : Mode}
    {R S : Value → Value → Prop} {items others : List Value}
    (hitems : List.Forall₂ (fun item twin =>
      (project world fuel mode item).Entails T R (project world fuel other twin)) items others)
    (hsequence : ∀ results twins, List.Forall₂ R results twins →
      S (.sequence results) (.sequence twins)) :
    Eval.Entails T S
      (do return Value.sequence (← Eval.forEach (project world fuel mode) items))
      (do return Value.sequence (← Eval.forEach (project world fuel other) others)) := by
  intro result trace hyields
  obtain ⟨outs, houts, rfl, rfl⟩ := (yields_items_iff hworld).mp hyields
  obtain ⟨twins, htwins, hresults, htraces⟩ := Eval.exists_outs hT hitems houts
    (Q := fun twin out => (project world fuel other twin).Yields out.1 out.2) (R := R) <| by
      intro item twin out heach hout
      obtain ⟨result, rest, hyields, hresult, htrace⟩ := heach out.1 out.2 hout
      exact ⟨(result, rest), hyields, hresult, htrace⟩
  refine ⟨_, _, (yields_items_iff hworld).mpr ⟨twins, htwins, rfl, rfl⟩, ?_, htraces⟩
  exact hsequence _ _ (List.forall₂_map_left_iff.mpr (List.forall₂_map_right_iff.mpr hresults))

theorem yields_mapping_iff {entries : List (String × Value)} :
    (selectStep world (project world fuel) selector (.mapping entries)).Yields result trace ↔
      ∃ outs : List ((String × Value) × List Step),
        List.Forall₂ (YieldsAttribute world fuel entries)
          (selector.attributes (Table.keys entries)) outs ∧
        result = .mapping (outs.map Prod.fst) ∧ trace = outs.flatMap Prod.snd := by
  have hP := composable_steady hworld
  have hitem (picked : String × Option Selector) :
      (projectAttribute (project world fuel (.ofChild picked.2))
        ((Table.get? entries picked.1).getD .null)).Steady :=
    hP.projectAttribute (hP.project fuel _) _
  have heach (picked : String × Option Selector) (out : (String × Value) × List Step) :
      Eval.Yields (do
        return (picked.1, ← projectAttribute (project world fuel (.ofChild picked.2))
          ((Table.get? entries picked.1).getD .null)) : Eval σ Failure (String × Value))
        out.1 out.2 ↔ YieldsAttribute world fuel entries picked out := by
    obtain ⟨⟨key, item⟩, left⟩ := out
    rw [Eval.yields_map_iff (hitem picked)]
    constructor
    · rintro ⟨middle, hmiddle, heq⟩
      obtain ⟨rfl, rfl⟩ := Prod.mk.inj heq
      exact ⟨rfl, hmiddle⟩
    · rintro ⟨rfl, hmiddle⟩
      exact ⟨item, hmiddle, rfl⟩
  have hentries (results : List (String × Value)) :
      (projectEntries (project world fuel) selector entries).Yields results trace ↔ _ :=
    Eval.yields_forEach_iff fun picked => (hitem picked).map (picked.1, ·)
  simp only [heach] at hentries
  rw [selectStep, Eval.yields_map_iff (hP.projectEntries (hP.project fuel) selector entries)]
  constructor
  · rintro ⟨results, hresults, rfl⟩
    obtain ⟨outs, houts, rfl, rfl⟩ := (hentries results).mp hresults
    exact ⟨outs, houts, rfl, rfl⟩
  · rintro ⟨outs, houts, rfl, rfl⟩
    exact ⟨_, (hentries _).mpr ⟨outs, houts, rfl, rfl⟩, rfl⟩

end Projections

end TreeProjection
