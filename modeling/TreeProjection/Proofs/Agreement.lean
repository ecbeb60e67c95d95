import Mathlib.Data.List.Forall2
import Mathlib.Data.List.Perm.Subperm
import Mathlib.Tactic.Common
import TreeProjection.Proofs.Numbers
import TreeProjection.Proofs.Reordering

/-!
# What comparing trees means

Two tables are compared in one direction: they have the same number of entries, and for each entry
of the first there is one under its key in the second. Where no key is listed twice that is enough
to find every entry of the second as well (`Table.Matches.keys_perm`). So selectors are equal if and
only if one is the other in another order, and values if and only if one is the other in another
order with equal leaves (`agrees_up_to_order`). Both comparisons are symmetric and transitive. Every
selector equals itself; a value does unless it holds a NaN.
-/

namespace TreeProjection

theorem forall₂_comp_iff {α β γ : Type} {R : α → β → Prop} {S : β → γ → Prop} {first : List α}
    {last : List γ} : List.Forall₂ (fun item final => ∃ middle, R item middle ∧ S middle final)
        first last ↔ ∃ middles, List.Forall₂ R first middles ∧ List.Forall₂ S middles last := by
  constructor
  · intro hboth
    induction hboth with
    | nil => exact ⟨[], .nil, .nil⟩
    | cons hitem _ ih =>
        obtain ⟨middle, hfirst, hsecond⟩ := hitem
        obtain ⟨middles, hfirsts, hseconds⟩ := ih
        exact ⟨middle :: middles, .cons hfirst hfirsts, .cons hsecond hseconds⟩
  · rintro ⟨middles, hfirst, hsecond⟩
    induction hfirst generalizing last with
    | nil =>
        cases hsecond
        exact .nil
    | cons hitem _ ih =>
        cases hsecond with
        | cons hlast hrest => exact .cons ⟨_, hitem, hlast⟩ (ih hrest)

/-! ### Tables that are compared in one direction -/

namespace Table

variable {α β γ : Type}

/-- Tables with the same keys and with related items stand side by side. -/
theorem keys_eq_and_forall₂_iff {R : α → β → Prop} {first : Table α} {second : Table β} :
    keys second = keys first ∧ List.Forall₂ R (first.map Prod.snd) (second.map Prod.snd) ↔
      List.Forall₂ (fun entry other => other.1 = entry.1 ∧ R entry.2 other.2) first second := by
  induction first generalizing second with
  | nil => cases second <;> simp
  | cons entry rest ih =>
      cases second with
      | nil => simp
      | cons other others =>
          rw [List.forall₂_cons, ← ih, List.map_cons, List.map_cons, List.forall₂_cons, keys, keys,
            List.map_cons, List.map_cons, List.cons.injEq, and_and_and_comm]
          rfl

/-- As many entries, and under the key of each entry of the first something related in the
second. -/
structure Matches (R : α → β → Prop) (first : Table α) (second : Table β) : Prop where
  length_eq : first.length = second.length
  exists_related : ∀ {key : String} {item : α}, (key, item) ∈ first →
    ∃ other, get? second key = some other ∧ R item other

namespace Matches

variable {R : α → β → Prop} {first : Table α} {second : Table β} (hmatches : Matches R first second)
include hmatches

/-- The keys of the first are all listed in the second. There are as many, so these are all. -/
theorem keys_perm (hfirst : Distinct first) : (keys first).Perm (keys second) := by
  have hsubset : keys first ⊆ keys second := by
    intro key hkey
    obtain ⟨⟨_, item⟩, hitem, rfl⟩ := List.mem_map.mp hkey
    obtain ⟨other, hother, -⟩ := hmatches.exists_related hitem
    exact mem_keys_of_mem (mem_of_get?_eq_some hother)
  refine (List.subperm_of_subset hfirst hsubset).perm_of_length_le ?_
  rw [keys, keys, List.length_map, List.length_map]
  exact hmatches.length_eq.ge

theorem distinct (hfirst : Distinct first) : Distinct second :=
  (hmatches.keys_perm hfirst).nodup_iff.mp hfirst

theorem related (hfirst : Distinct first) {key : String} {item : α} {other : β}
    (hitem : (key, item) ∈ first) (hother : (key, other) ∈ second) : R item other := by
  obtain ⟨twin, htwin, hrelated⟩ := hmatches.exists_related hitem
  have hsecond := hmatches.distinct hfirst
  obtain rfl : twin = other := Option.some.inj (htwin.symm.trans (hsecond.get?_eq_some hother))
  exact hrelated

theorem exists_left (hfirst : Distinct first) {key : String} {other : β}
    (hother : (key, other) ∈ second) : ∃ item, (key, item) ∈ first ∧ R item other := by
  obtain ⟨item, hitem⟩ := exists_mem_of_perm (hmatches.keys_perm hfirst).symm hother
  exact ⟨item, hitem, hmatches.related hfirst hitem hother⟩

theorem symm (hfirst : Distinct first) {S : β → α → Prop}
    (hback : ∀ {key : String} {item : α} {other : β}, (key, item) ∈ first → R item other →
      S other item) : Matches S second first := by
  refine ⟨hmatches.length_eq.symm, fun {key other} hother => ?_⟩
  obtain ⟨item, hitem, hrelated⟩ := hmatches.exists_left hfirst hother
  exact ⟨item, hfirst.get?_eq_some hitem, hback hitem hrelated⟩

theorem imp {S : α → β → Prop} (himp : ∀ {key : String} {item : α} {other : β},
    (key, item) ∈ first → R item other → S item other) : Matches S first second := by
  refine ⟨hmatches.length_eq, fun {key item} hitem => ?_⟩
  obtain ⟨other, hother, hrelated⟩ := hmatches.exists_related hitem
  exact ⟨other, hother, himp hitem hrelated⟩

theorem trans {S : β → γ → Prop} {third : Table γ} (hnext : Matches S second third)
    {T : α → γ → Prop} (hboth : ∀ {key : String} {item : α} {other : β} {last : γ},
      (key, item) ∈ first → R item other → S other last → T item last) :
    Matches T first third := by
  refine ⟨hmatches.length_eq.trans hnext.length_eq, fun {key item} hitem => ?_⟩
  obtain ⟨other, hother, hrelated⟩ := hmatches.exists_related hitem
  obtain ⟨last, hlast, hfinal⟩ := hnext.exists_related (mem_of_get?_eq_some hother)
  exact ⟨last, hlast, hboth hitem hrelated hfinal⟩

end Matches

section Middles

variable {P : α → β → Prop} {Q : β → γ → Prop} {first : Table α} {last : Table γ}

/-- Items that are related by way of something in between make a table in between: the keys of the
first, in the order of the last. -/
theorem Matches.exists_middles [Nonempty β] (hfirst : Distinct first)
    (hmatches : Matches (fun item final => ∃ middle, P item middle ∧ Q middle final) first last) :
    ∃ middles : Table β, (keys first).Perm (keys middles) ∧
      (∀ {key : String} {item : α} {middle : β}, (key, item) ∈ first → (key, middle) ∈ middles →
        P item middle) ∧
      List.Forall₂ (fun entry other => other.1 = entry.1 ∧ Q entry.2 other.2) middles last := by
  have hmiddle : ∀ entry ∈ last, ∃ middle, (∃ item, (entry.1, item) ∈ first ∧ P item middle) ∧
      Q middle entry.2 := by
    rintro ⟨key, final⟩ hfinal
    obtain ⟨item, hitem, middle, hbefore, hbehind⟩ := hmatches.exists_left hfirst hfinal
    exact ⟨middle, ⟨item, hitem, hbefore⟩, hbehind⟩
  choose! middle hbefore hbehind using hmiddle
  refine ⟨last.map fun entry => (entry.1, middle entry), ?_, ?_, ?_⟩
  · have hkeys : keys (last.map fun entry => (entry.1, middle entry)) = keys last := by
      simp [keys, Function.comp_def]
    rw [hkeys]
    exact hmatches.keys_perm hfirst
  · intro key item part hitem hpart
    obtain ⟨⟨_, final⟩, hfinal, heq⟩ := List.mem_map.mp hpart
    obtain ⟨rfl, rfl⟩ := Prod.mk.inj heq
    obtain ⟨twin, htwin, hrelated⟩ := hbefore _ hfinal
    obtain rfl : item = twin := Option.some.inj <|
      (hfirst.get?_eq_some hitem).symm.trans (hfirst.get?_eq_some htwin)
    exact hrelated
  · rw [List.forall₂_map_left_iff]
    exact List.forall₂_same.mpr fun entry hentry => ⟨rfl, hbehind entry hentry⟩

theorem matches_of_middles {middles : Table β} (hkeys : (keys first).Perm (keys middles))
    (hitems : ∀ {key : String} {item : α} {middle : β}, (key, item) ∈ first →
      (key, middle) ∈ middles → P item middle)
    (hlast : List.Forall₂ (fun entry other => other.1 = entry.1 ∧ Q entry.2 other.2) middles
      last) :
    Matches (fun item final => ∃ middle, P item middle ∧ Q middle final) first last := by
  constructor
  · have hlength : first.length = middles.length := by
      simpa [keys] using hkeys.length_eq
    exact hlength.trans hlast.length_eq
  · intro key item hitem
    have hlisted : (get? middles key).isSome = true :=
      contains_iff_mem_keys.mpr (hkeys.mem_iff.mp (mem_keys_of_mem hitem))
    obtain ⟨middle, hmiddle⟩ := Option.isSome_iff_exists.mp hlisted
    obtain ⟨final, hfinal, -, hbehind⟩ :=
      get?_of_forall₂ (fun _ _ hentry => hentry.1) hlast hmiddle
    exact ⟨final, hfinal, middle, hitems hitem (mem_of_get?_eq_some hmiddle), hbehind⟩

end Middles

theorem Distinct.matches_self {table : Table α} (hdistinct : Distinct table) {R : α → α → Prop}
    (hself : ∀ entry ∈ table, R entry.2 entry.2) : Matches R table table :=
  ⟨rfl, fun hitem => ⟨_, hdistinct.get?_eq_some hitem, hself _ hitem⟩⟩

end Table

/-! ### Selectors -/

namespace Selector

variable {selector other third : Selector}

theorem DistinctKeys.of_mem_entries (hselector : selector.DistinctKeys) {key : String}
    {child : Selector} (hchild : (key, some child) ∈ selector.entries) : child.DistinctKeys := by
  obtain ⟨entries⟩ := selector
  exact (distinctKeys_iff.mp hselector).2 key child hchild

theorem childAgrees_iff {child twin : Option Selector} : childAgrees child twin = true ↔
    Option.Rel (fun child twin => child.agrees twin = true) child twin := by
  cases child <;> cases twin <;> simp [childAgrees]

theorem agrees_iff_matches : selector.agrees other = true ↔
    Table.Matches (Option.Rel fun child twin => child.agrees twin = true) selector.entries
      other.entries := by
  obtain ⟨entries⟩ := selector
  rw [agrees, Bool.and_eq_true, beq_iff_eq, entriesAgree_iff]
  constructor
  · rintro ⟨hlength, hentries⟩
    refine ⟨hlength, fun {key child} hchild => ?_⟩
    obtain ⟨twin, htwin, hagree⟩ := hentries _ hchild
    exact ⟨twin, htwin, childAgrees_iff.mp hagree⟩
  · rintro ⟨hlength, hentries⟩
    refine ⟨hlength, ?_⟩
    rintro ⟨key, child⟩ hchild
    obtain ⟨twin, htwin, hagree⟩ := hentries hchild
    exact ⟨twin, htwin, childAgrees_iff.mpr hagree⟩

theorem reordered_of_agrees (hselector : selector.DistinctKeys)
    (hagree : selector.agrees other = true) : selector.Reordered other := by
  induction selector using Selector.induction generalizing other with
  | step selector ih =>
      have hmatches := agrees_iff_matches.mp hagree
      have hdistinct := hselector.distinct_entries
      refine .intro (hmatches.keys_perm hdistinct) ?_ ?_
      · intro key child twin hchild htwin
        cases hmatches.related hdistinct hchild htwin <;> rfl
      · intro key child twin hchild htwin
        cases hmatches.related hdistinct hchild htwin with
        | some hagree => exact ih key child hchild (hselector.of_mem_entries hchild) hagree

theorem agrees_self (hselector : selector.DistinctKeys) : selector.agrees selector = true := by
  induction selector using Selector.induction with
  | step selector ih =>
      refine agrees_iff_matches.mpr (hselector.distinct_entries.matches_self ?_)
      rintro ⟨key, child⟩ hchild
      cases child with
      | none => exact .none
      | some child => exact .some (ih key child hchild (hselector.of_mem_entries hchild))

theorem agrees_trans (hfirst : selector.agrees other = true)
    (hsecond : other.agrees third = true) : selector.agrees third = true := by
  induction selector using Selector.induction generalizing other third with
  | step selector ih =>
      rw [agrees_iff_matches] at hfirst hsecond ⊢
      refine hfirst.trans hsecond fun {key child twin last} hchild hagree hnext => ?_
      cases hagree with
      | none => exact hnext
      | some hagree =>
          cases hnext with
          | some hnext => exact .some (ih key _ hchild hagree hnext)

end Selector

/-! ### Values -/

/-- Two leaves of one kind that are equal. Numbers are equal if they are the same number. -/
inductive Leaf.Equal : Leaf → Leaf → Prop where
  | same {atom : Leaf} (hatom : ∀ x, atom ≠ .number x) : Equal atom atom
  | number {x y : Binary64} {number : Int} (hx : x.number? = some number)
      (hy : y.number? = some number) : Equal (.number x) (.number y)

theorem Leaf.agrees_of_ne_number {atom : Leaf} (hatom : ∀ x, atom ≠ .number x) (other : Leaf) :
    atom.agrees other = decide (atom = other) := by
  cases atom with
  | number x => exact absurd rfl (hatom x)
  | _ => cases other <;> simp [agrees]

namespace Leaf.Equal

variable {atom other third : Leaf}

theorem symm (hequal : atom.Equal other) : other.Equal atom := by
  cases hequal with
  | same hatom => exact .same hatom
  | number hx hy => exact .number hy hx

theorem trans (hfirst : atom.Equal other) (hsecond : other.Equal third) : atom.Equal third := by
  cases hfirst with
  | same hatom => exact hsecond
  | number hx hy =>
      cases hsecond with
      | same hatom => exact absurd rfl (hatom _)
      | number hy' hz =>
          obtain rfl := Option.some.inj (hy.symm.trans hy')
          exact .number hx hz

end Leaf.Equal

theorem Leaf.agrees_iff_equal {atom other : Leaf} :
    atom.agrees other = true ↔ atom.Equal other := by
  by_cases hnumber : ∃ x, atom = .number x
  · obtain ⟨x, rfl⟩ := hnumber
    cases other with
    | number y =>
        rw [agrees, Binary64.ieeeEq_iff_number?]
        constructor
        · rintro ⟨number, hx, hy⟩
          exact .number hx hy
        · intro hequal
          cases hequal with
          | same hatom => exact absurd rfl (hatom x)
          | number hx hy => exact ⟨_, hx, hy⟩
    | _ => exact ⟨nofun, nofun⟩
  · have hatom : ∀ x, atom ≠ .number x := fun x heq => hnumber ⟨x, heq⟩
    rw [agrees_of_ne_number hatom, decide_eq_true_iff]
    constructor
    · rintro rfl
      exact .same hatom
    · intro hequal
      cases hequal with
      | same => rfl
      | number => exact absurd rfl (hatom _)

namespace Value

/-- The same tree, entry for entry: leaves are equal, lazy nodes and objects are the same nodes. -/
inductive Alike : Value → Value → Prop where
  | leaf {atom other : Leaf} (hequal : atom.Equal other) : Alike (.leaf atom) (.leaf other)
  | sequence {items others : List Value} (hitems : List.Forall₂ Alike items others) :
      Alike (.sequence items) (.sequence others)
  | mapping {entries others : List (String × Value)}
      (hkeys : Table.keys others = Table.keys entries)
      (hitems : List.Forall₂ Alike (entries.map Prod.snd) (others.map Prod.snd)) :
      Alike (.mapping entries) (.mapping others)
  | dual {left right other twin : Value} (hleft : Alike left other) (hright : Alike right twin) :
      Alike (.dual left right) (.dual other twin)
  | lazy {node other : NodeRef} (haddress : node.address = other.address) :
      Alike (.lazy node) (.lazy other)
  | object {node other : NodeRef} (haddress : node.address = other.address) :
      Alike (.object node) (.object other)

/-- Some leaf of the value is a NaN. What a lazy node or an object would give is not looked at. -/
inductive HoldsNaN : Value → Prop where
  | leaf {x : Binary64} (hnan : x.isNaN = true) : HoldsNaN (.leaf (.number x))
  | sequence {items : List Value} {item : Value} (hmem : item ∈ items) (hitem : HoldsNaN item) :
      HoldsNaN (.sequence items)
  | mapping {entries : List (String × Value)} {key : String} {item : Value}
      (hmem : (key, item) ∈ entries) (hitem : HoldsNaN item) : HoldsNaN (.mapping entries)
  | left {left : Value} (right : Value) (hleft : HoldsNaN left) : HoldsNaN (.dual left right)
  | right (left : Value) {right : Value} (hright : HoldsNaN right) : HoldsNaN (.dual left right)

/-- One level of the comparison: nodes of one kind, with parts that are related. -/
inductive Level (R : Value → Value → Prop) : Value → Value → Prop where
  | leaf {atom other : Leaf} (hequal : atom.Equal other) : Level R (.leaf atom) (.leaf other)
  | sequence {items others : List Value} (hitems : List.Forall₂ R items others) :
      Level R (.sequence items) (.sequence others)
  | mapping {entries others : List (String × Value)} (hmatches : Table.Matches R entries others) :
      Level R (.mapping entries) (.mapping others)
  | dual {left right other twin : Value} (hleft : R left other) (hright : R right twin) :
      Level R (.dual left right) (.dual other twin)
  | lazy {node other : NodeRef} (haddress : node.address = other.address) :
      Level R (.lazy node) (.lazy other)
  | object {node other : NodeRef} (haddress : node.address = other.address) :
      Level R (.object node) (.object other)

theorem itemsAgree_iff {items others : List Value} : itemsAgree items others = true ↔
    List.Forall₂ (fun item other => item.agrees other = true) items others := by
  induction items generalizing others with
  | nil => cases others <;> simp [itemsAgree]
  | cons item rest ih => cases others <;> simp [itemsAgree, ih]

theorem entriesAgree_iff_forall {entries others : List (String × Value)} :
    entriesAgree entries others = true ↔ ∀ entry ∈ entries,
      ∃ other, Table.get? others entry.1 = some other ∧ entry.2.agrees other = true := by
  induction entries with
  | nil => simp [entriesAgree]
  | cons entry rest ih =>
      rw [entriesAgree, Bool.and_eq_true, ih, List.forall_mem_cons]
      cases hfound : Table.get? others entry.1 <;> simp

variable {value other third : Value}

theorem agrees_iff_level : value.agrees other = true ↔
    Level (fun value other => value.agrees other = true) value other := by
  constructor
  · intro hagree
    cases value with
    | leaf atom =>
        cases other with
        | leaf other => exact .leaf (Leaf.agrees_iff_equal.mp hagree)
        | _ => cases hagree
    | sequence items =>
        cases other with
        | sequence others => exact .sequence (itemsAgree_iff.mp hagree)
        | _ => cases hagree
    | mapping entries =>
        cases other with
        | mapping others =>
            rw [agrees, Bool.and_eq_true, beq_iff_eq, entriesAgree_iff_forall] at hagree
            exact .mapping ⟨hagree.1, fun hitem => hagree.2 _ hitem⟩
        | _ => cases hagree
    | dual left right =>
        cases other with
        | dual other twin =>
            rw [agrees, Bool.and_eq_true] at hagree
            exact .dual hagree.1 hagree.2
        | _ => cases hagree
    | lazy node =>
        cases other with
        | lazy other => exact .lazy (beq_iff_eq.mp hagree)
        | _ => cases hagree
    | object node =>
        cases other with
        | object other => exact .object (beq_iff_eq.mp hagree)
        | _ => cases hagree
  · intro hlevel
    cases hlevel with
    | leaf hequal => exact Leaf.agrees_iff_equal.mpr hequal
    | sequence hitems => exact itemsAgree_iff.mpr hitems
    | mapping hmatches =>
        rw [agrees, hmatches.length_eq, beq_self_eq_true, Bool.true_and]
        exact entriesAgree_iff_forall.mpr fun entry hentry => hmatches.exists_related hentry
    | dual hleft hright => rw [agrees, hleft, hright, Bool.and_self]
    | lazy haddress | object haddress => exact beq_iff_eq.mpr haddress

theorem agrees_symm (hvalue : value.DistinctKeys) (hagree : value.agrees other = true) :
    other.agrees value = true := by
  induction value using Value.induction generalizing other with
  | leaf atom =>
      cases agrees_iff_level.mp hagree with
      | leaf hequal => exact agrees_iff_level.mpr (.leaf hequal.symm)
  | sequence items ih =>
      rw [DistinctKeys, itemsDistinct_iff] at hvalue
      cases agrees_iff_level.mp hagree with
      | sequence hitems =>
          have hback := (List.forall₂_and_left _ _).mpr ⟨fun _ hmem => hmem, hitems⟩
          refine agrees_iff_level.mpr (.sequence (hback.imp ?_).flip)
          exact fun item other hitem => ih item hitem.1 (hvalue item hitem.1) hitem.2
  | mapping entries ih =>
      obtain ⟨hkeys, hentries⟩ := hvalue
      rw [entriesDistinct_iff] at hentries
      cases agrees_iff_level.mp hagree with
      | mapping hmatches =>
          refine agrees_iff_level.mpr (.mapping (hmatches.symm hkeys ?_))
          exact fun hitem hagree => ih _ hitem (hentries _ hitem) hagree
  | dual left right hleft hright =>
      cases agrees_iff_level.mp hagree with
      | dual hother htwin =>
          exact agrees_iff_level.mpr (.dual (hleft hvalue.1 hother) (hright hvalue.2 htwin))
  | lazy node =>
      cases agrees_iff_level.mp hagree with
      | lazy haddress => exact agrees_iff_level.mpr (.lazy haddress.symm)
  | object node =>
      cases agrees_iff_level.mp hagree with
      | object haddress => exact agrees_iff_level.mpr (.object haddress.symm)

theorem agrees_trans (hfirst : value.agrees other = true) (hsecond : other.agrees third = true) :
    value.agrees third = true := by
  induction value using Value.induction generalizing other third with
  | leaf atom =>
      cases agrees_iff_level.mp hfirst with
      | leaf hequal =>
          cases agrees_iff_level.mp hsecond with
          | leaf hnext => exact agrees_iff_level.mpr (.leaf (hequal.trans hnext))
  | sequence items ih =>
      cases agrees_iff_level.mp hfirst with
      | sequence hitems =>
          cases agrees_iff_level.mp hsecond with
          | sequence hnext =>
              have hboth := forall₂_comp_iff.mpr ⟨_, hitems, hnext⟩
              have hmembers := (List.forall₂_and_left _ _).mpr ⟨fun _ hmem => hmem, hboth⟩
              refine agrees_iff_level.mpr (.sequence (hmembers.imp ?_))
              exact fun item third ⟨hmem, other, hagree, hlast⟩ => ih item hmem hagree hlast
  | mapping entries ih =>
      cases agrees_iff_level.mp hfirst with
      | mapping hmatches =>
          cases agrees_iff_level.mp hsecond with
          | mapping hnext =>
              refine agrees_iff_level.mpr (.mapping (hmatches.trans hnext ?_))
              exact fun hitem hagree hlast => ih _ hitem hagree hlast
  | dual left right hleft hright =>
      cases agrees_iff_level.mp hfirst with
      | dual hother htwin =>
          cases agrees_iff_level.mp hsecond with
          | dual hnext hlast =>
              exact agrees_iff_level.mpr (.dual (hleft hother hnext) (hright htwin hlast))
  | lazy node =>
      cases agrees_iff_level.mp hfirst with
      | lazy haddress =>
          cases agrees_iff_level.mp hsecond with
          | lazy hnext => exact agrees_iff_level.mpr (.lazy (haddress.trans hnext))
  | object node =>
      cases agrees_iff_level.mp hfirst with
      | object haddress =>
          cases agrees_iff_level.mp hsecond with
          | object hnext => exact agrees_iff_level.mpr (.object (haddress.trans hnext))

/-! ### Another order and equal leaves -/

theorem reordered_sequence_iff {items others : List Value} :
    (sequence items).Reordered (.sequence others) ↔ List.Forall₂ Reordered items others := by
  rw [List.forall₂_iff_get]
  constructor
  · intro hvalues
    cases hvalues with
    | sequence hlength hitems =>
        exact ⟨hlength, fun index hitem hother =>
          hitems (List.getElem?_eq_getElem hitem) (List.getElem?_eq_getElem hother)⟩
  · rintro ⟨hlength, hitems⟩
    refine .sequence hlength fun {index item other} hitem hother => ?_
    obtain ⟨hbound, rfl⟩ := List.getElem?_eq_some_iff.mp hitem
    obtain ⟨hbehind, rfl⟩ := List.getElem?_eq_some_iff.mp hother
    exact hitems index hbound hbehind

theorem alike_mapping_iff {entries others : List (String × Value)} :
    (mapping entries).Alike (.mapping others) ↔
      List.Forall₂ (fun entry other => other.1 = entry.1 ∧ entry.2.Alike other.2) entries
        others := by
  rw [← Table.keys_eq_and_forall₂_iff]
  constructor
  · intro halike
    cases halike with
    | mapping hkeys hitems => exact ⟨hkeys, hitems⟩
  · rintro ⟨hkeys, hitems⟩
    exact .mapping hkeys hitems

/-- Equal values are the same in another order, with equal leaves. -/
theorem exists_reordered_alike (hvalue : value.DistinctKeys) (hagree : value.agrees other = true) :
    ∃ middle, value.Reordered middle ∧ middle.Alike other := by
  induction value using Value.induction generalizing other with
  | leaf atom =>
      cases agrees_iff_level.mp hagree with
      | leaf hequal => exact ⟨.leaf atom, .leaf atom, .leaf hequal⟩
  | sequence items ih =>
      rw [DistinctKeys, itemsDistinct_iff] at hvalue
      cases agrees_iff_level.mp hagree with
      | @sequence _ others hitems =>
          have hmembers := (List.forall₂_and_left _ _).mpr ⟨fun _ hmem => hmem, hitems⟩
          have hboth : List.Forall₂ (fun item other => ∃ middle,
              item.Reordered middle ∧ middle.Alike other) items others :=
            hmembers.imp fun item other hitem => ih item hitem.1 (hvalue item hitem.1) hitem.2
          obtain ⟨middles, hreordered, halike⟩ := forall₂_comp_iff.mp hboth
          exact ⟨.sequence middles, reordered_sequence_iff.mpr hreordered, .sequence halike⟩
  | mapping entries ih =>
      obtain ⟨hkeys, hentries⟩ := hvalue
      rw [entriesDistinct_iff] at hentries
      cases agrees_iff_level.mp hagree with
      | @mapping _ others hmatches =>
          have hboth : Table.Matches (fun item other => ∃ middle : Value,
              item.Reordered middle ∧ middle.Alike other) entries others :=
            hmatches.imp fun hitem hagree => ih _ hitem (hentries _ hitem) hagree
          obtain ⟨middles, hperm, hreordered, halike⟩ := hboth.exists_middles hkeys
          exact ⟨.mapping middles, .mapping hperm hreordered, alike_mapping_iff.mpr halike⟩
  | dual left right hleft hright =>
      cases agrees_iff_level.mp hagree with
      | dual hother htwin =>
          obtain ⟨first, hfirst, hfirstAlike⟩ := hleft hvalue.1 hother
          obtain ⟨second, hsecond, hsecondAlike⟩ := hright hvalue.2 htwin
          exact ⟨.dual first second, .dual hfirst hsecond, .dual hfirstAlike hsecondAlike⟩
  | lazy node =>
      cases agrees_iff_level.mp hagree with
      | lazy haddress => exact ⟨.lazy node, .lazy node, .lazy haddress⟩
  | object node =>
      cases agrees_iff_level.mp hagree with
      | object haddress => exact ⟨.object node, .object node, .object haddress⟩

theorem Reordered.agrees_of_alike {middle : Value} (hreordered : value.Reordered middle)
    (halike : middle.Alike other) : value.agrees other = true := by
  induction value using Value.induction generalizing middle other with
  | leaf atom =>
      cases hreordered
      cases halike with
      | leaf hequal => exact agrees_iff_level.mpr (.leaf hequal)
  | sequence items ih =>
      cases hreordered with
      | @sequence _ middles hlength hitems =>
          cases halike with
          | sequence hothers =>
              have hfirst := reordered_sequence_iff.mp (.sequence hlength hitems)
              have hboth := forall₂_comp_iff.mpr ⟨_, hfirst, hothers⟩
              have hmembers := (List.forall₂_and_left _ _).mpr ⟨fun _ hmem => hmem, hboth⟩
              refine agrees_iff_level.mpr (.sequence (hmembers.imp ?_))
              exact fun item other ⟨hmem, middle, hsame, hequal⟩ => ih item hmem hsame hequal
  | mapping entries ih =>
      cases hreordered with
      | @mapping _ middles hkeys hentries =>
          have hshape := halike
          cases hshape with
          | @mapping _ others =>
              have hboth := Table.matches_of_middles hkeys hentries (alike_mapping_iff.mp halike)
              refine agrees_iff_level.mpr (.mapping (hboth.imp ?_))
              rintro key item other hitem ⟨middle, hsame, hequal⟩
              exact ih _ hitem hsame hequal
  | dual left right hleft hright =>
      cases hreordered with
      | dual hfirst hsecond =>
          cases halike with
          | dual hother htwin =>
              exact agrees_iff_level.mpr (.dual (hleft hfirst hother) (hright hsecond htwin))
  | lazy node =>
      cases hreordered
      cases halike with
      | lazy haddress => exact agrees_iff_level.mpr (.lazy haddress)
  | object node =>
      cases hreordered
      cases halike with
      | object haddress => exact agrees_iff_level.mpr (.object haddress)

/-! ### Values that equal themselves -/

theorem HoldsNaN.not_agrees_self (hnan : value.HoldsNaN) (hvalue : value.DistinctKeys) :
    ¬value.agrees value = true := by
  intro hagree
  induction hnan with
  | @leaf x hnan =>
      cases agrees_iff_level.mp hagree with
      | leaf hequal =>
          cases hequal with
          | same hatom => exact hatom x rfl
          | number hx => simp [Binary64.number?, hnan] at hx
  | sequence hmem _ ih =>
      rw [DistinctKeys, itemsDistinct_iff] at hvalue
      cases agrees_iff_level.mp hagree with
      | sequence hitems => exact ih (hvalue _ hmem) (List.forall₂_same.mp hitems _ hmem)
  | mapping hmem _ ih =>
      obtain ⟨hkeys, hentries⟩ := hvalue
      rw [entriesDistinct_iff] at hentries
      cases agrees_iff_level.mp hagree with
      | mapping hmatches => exact ih (hentries _ hmem) (hmatches.related hkeys hmem hmem)
  | left right _ ih =>
      cases agrees_iff_level.mp hagree with
      | dual hleft _ => exact ih hvalue.1 hleft
  | right left _ ih =>
      cases agrees_iff_level.mp hagree with
      | dual _ hright => exact ih hvalue.2 hright

theorem agrees_self (hvalue : value.DistinctKeys) (hclean : ¬value.HoldsNaN) :
    value.agrees value = true := by
  induction value using Value.induction with
  | leaf atom =>
      refine agrees_iff_level.mpr (.leaf ?_)
      cases atom with
      | number x =>
          have hnumber : ∃ number, x.number? = some number := by
            have hx : ¬x.isNaN = true := fun hnan => hclean (.leaf hnan)
            exact ⟨_, if_neg hx⟩
          obtain ⟨number, hnumber⟩ := hnumber
          exact .number hnumber hnumber
      | _ => exact .same nofun
  | sequence items ih =>
      rw [DistinctKeys, itemsDistinct_iff] at hvalue
      refine agrees_iff_level.mpr (.sequence (List.forall₂_same.mpr fun item hmem => ?_))
      exact ih item hmem (hvalue item hmem) fun hnan => hclean (.sequence hmem hnan)
  | mapping entries ih =>
      obtain ⟨hkeys, hentries⟩ := hvalue
      rw [entriesDistinct_iff] at hentries
      refine agrees_iff_level.mpr (.mapping (hkeys.matches_self fun entry hmem => ?_))
      exact ih entry hmem (hentries entry hmem) fun hnan => hclean (.mapping hmem hnan)
  | dual left right hleft hright =>
      refine agrees_iff_level.mpr (.dual ?_ ?_)
      · exact hleft hvalue.1 fun hnan => hclean (.left right hnan)
      · exact hright hvalue.2 fun hnan => hclean (.right left hnan)
  | lazy node => exact agrees_iff_level.mpr (.lazy rfl)
  | object node => exact agrees_iff_level.mpr (.object rfl)

end Value

/-! ### Both comparisons -/

/-- **Equality of trees.** Let no level list a key twice. A selector equals another if and only if
that is the same selector with entries in another order, at any levels; a value equals another if
and only if that is the same value with entries in another order and with equal leaves. Equality of
selectors is an equivalence. Equality of values is symmetric and transitive, and a value equals
itself if and only if it holds no NaN outside of lazy nodes and objects. -/
theorem agrees_up_to_order {selector other third : Selector} (hselector : selector.DistinctKeys)
    {value twin last : Value} (hvalue : value.DistinctKeys) :
    ((selector.agrees other = true ↔ selector.Reordered other) ∧
      selector.agrees selector = true ∧
      (selector.agrees other = true → other.agrees selector = true) ∧
      (selector.agrees other = true → other.agrees third = true →
        selector.agrees third = true)) ∧
    ((value.agrees twin = true ↔ ∃ middle, value.Reordered middle ∧ middle.Alike twin) ∧
      (value.agrees value = true ↔ ¬value.HoldsNaN) ∧
      (value.agrees twin = true → twin.agrees value = true) ∧
      (value.agrees twin = true → twin.agrees last = true → value.agrees last = true)) := by
  refine ⟨⟨⟨Selector.reordered_of_agrees hselector, Selector.Reordered.agrees⟩, ?_, ?_, ?_⟩,
    ⟨⟨Value.exists_reordered_alike hvalue, ?_⟩, ⟨?_, Value.agrees_self hvalue⟩, ?_, ?_⟩⟩
  · exact Selector.agrees_self hselector
  · exact fun hagree => (Selector.reordered_of_agrees hselector hagree).symm.agrees
  · exact Selector.agrees_trans
  · rintro ⟨middle, hreordered, halike⟩
    exact hreordered.agrees_of_alike halike
  · exact fun hagree hnan => hnan.not_agrees_self hvalue hagree
  · exact Value.agrees_symm hvalue
  · exact Value.agrees_trans

theorem agrees_up_to_order_sample :
    let zero : Value := .leaf (.number ⟨0⟩)
    let minusZero : Value := .leaf (.number ⟨0x8000000000000000⟩)
    let nan : Value := .leaf (.number ⟨0x7FF8000000000000⟩)
    let node : Value := .lazy ⟨0, "node"⟩
    let selector : Selector := ⟨[("b", some ⟨[("y", none), ("x", some .empty)]⟩), ("*", none)]⟩
    let other : Selector := ⟨[("*", none), ("b", some ⟨[("x", some .empty), ("y", none)]⟩)]⟩
    let value : Value := .mapping [("p", zero),
      ("q", .sequence [.mapping [("a", .dual node minusZero), ("b", .null)]])]
    let twin : Value := .mapping [
      ("q", .sequence [.mapping [("b", .null), ("a", .dual node zero)]]), ("p", minusZero)]
    let spoilt : Value := .sequence [.mapping [("a", .dual node nan)]]
    selector.DistinctKeys ∧ selector.Reordered other ∧ selector.agrees selector = true ∧
      other.agrees selector = true ∧ value.DistinctKeys ∧ twin ≠ value ∧
      (∃ middle, value.Reordered middle ∧ middle.Alike twin) ∧ twin.agrees value = true ∧
      value.agrees value = true ∧ spoilt.HoldsNaN ∧ ¬spoilt.agrees spoilt = true := by
  intro zero minusZero nan node selector other value twin spoilt
  have hselector : selector.DistinctKeys := by
    simp [selector, Selector.empty, Selector.DistinctKeys, Selector.ChildrenDistinct,
      Table.Distinct]
  have hvalue : value.DistinctKeys := by
    simp [value, zero, minusZero, node, Value.null, Value.DistinctKeys, Value.EntriesDistinct,
      Value.ItemsDistinct, Table.Distinct]
  have hspoilt : spoilt.DistinctKeys := by
    simp [spoilt, nan, node, Value.DistinctKeys, Value.EntriesDistinct, Value.ItemsDistinct,
      Table.Distinct]
  obtain ⟨⟨hreordered, hself, hback, -⟩, hvalues, -, hreturn, hround⟩ :=
    @agrees_up_to_order selector other other hselector value twin value hvalue
  obtain ⟨-, -, hspoiltSelf, -⟩ :=
    @agrees_up_to_order selector other other hselector spoilt twin twin hspoilt
  have hselectors : selector.agrees other = true := rfl
  have htwin : value.agrees twin = true := rfl
  have hnan : spoilt.HoldsNaN :=
    .sequence (List.mem_singleton.mpr rfl) (.mapping (List.mem_singleton.mpr rfl)
      (.right _ (.leaf rfl)))
  refine ⟨hselector, hreordered.mp hselectors, hself, hback hselectors, hvalue, ?_,
    hvalues.mp htwin, hreturn htwin, hround htwin (hreturn htwin), hnan,
    fun hagree => hspoiltSelf.mp hagree hnan⟩
  simp [twin, value]

end TreeProjection
