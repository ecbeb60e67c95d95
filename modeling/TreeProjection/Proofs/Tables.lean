import Mathlib.Data.List.Forall2
import Mathlib.Data.List.Induction
import Mathlib.Tactic.Common
import TreeProjection.Table

/-!
# What tables hold

A table built from pairs lists each key at its first appearance (`keys_ofList`) and holds what came
last under it (`get?_ofList`). Its keys in order and what it holds under each of them determine it
(`Distinct.ext`), so these two facts say everything about it.
-/

namespace TreeProjection

namespace Table

variable {α β : Type}

theorem mem_keys_of_mem {table : Table α} {key : String} {item : α} (hmem : (key, item) ∈ table) :
    key ∈ keys table :=
  List.mem_map_of_mem (f := Prod.fst) hmem

theorem get?_append (first second : Table α) (wanted : String) :
    get? (first ++ second) wanted = (get? first wanted).or (get? second wanted) := by
  induction first with
  | nil => simp
  | cons pair rest ih =>
      obtain ⟨key, item⟩ := pair
      rw [List.cons_append, get?_cons, get?_cons, ih]
      by_cases heq : key = wanted <;> simp [heq]

theorem keys_append (first second : Table α) :
    keys (first ++ second) = keys first ++ keys second := by
  simp [keys]

theorem get?_map (table : Table α) (f : String → α → β) (wanted : String) :
    get? (table.map fun pair => (pair.1, f pair.1 pair.2)) wanted =
      (get? table wanted).map (f wanted) := by
  induction table with
  | nil => simp
  | cons pair rest ih =>
      obtain ⟨key, item⟩ := pair
      rw [List.map_cons, get?_cons, get?_cons, ih]
      by_cases heq : key = wanted <;> simp [heq]

theorem keys_map (table : Table α) (f : String → α → β) :
    keys (table.map fun pair => (pair.1, f pair.1 pair.2)) = keys table := by
  simp [keys, Function.comp_def]

theorem get?_filter (table : Table α) (p : String → Bool) (wanted : String) :
    get? (table.filter fun pair => p pair.1) wanted =
      if p wanted then get? table wanted else none := by
  induction table with
  | nil => simp
  | cons pair rest ih =>
      obtain ⟨key, item⟩ := pair
      rw [List.filter_cons, get?_cons]
      by_cases heq : key = wanted
      · subst heq
        by_cases hkey : p key = true
        · simp [hkey, get?_cons]
        · simp [hkey, ih]
      · by_cases hkey : p key = true
        · simp [hkey, get?_cons, heq, ih]
        · simp [hkey, heq, ih]

theorem keys_filter (table : Table α) (p : String → Bool) :
    keys (table.filter fun pair => p pair.1) = (keys table).filter p := by
  simp [keys, List.filter_map, Function.comp_def]

theorem get?_uniform (listed : List String) (item : α) (wanted : String) :
    get? (listed.map fun key => (key, item)) wanted =
      if wanted ∈ listed then some item else none := by
  induction listed with
  | nil => simp
  | cons key rest ih =>
      rw [List.map_cons, get?_cons, ih]
      by_cases heq : key = wanted
      · simp [heq]
      · simp [heq, Ne.symm heq]

/-! ### Storing -/

theorem mem_insert {table : Table α} {wanted : String} {new : α} {pair : String × α}
    (hmem : pair ∈ insert table wanted new) : pair = (wanted, new) ∨ pair ∈ table := by
  induction table with
  | nil => simpa [insert] using hmem
  | cons head rest ih =>
      obtain ⟨key, item⟩ := head
      rw [insert] at hmem
      split at hmem
      · rename_i heq
        rcases List.mem_cons.mp hmem with hpair | hrest
        · exact Or.inl (heq ▸ hpair)
        · exact Or.inr (List.mem_cons_of_mem _ hrest)
      · rcases List.mem_cons.mp hmem with hpair | hrest
        · exact Or.inr (hpair ▸ List.mem_cons_self ..)
        · exact (ih hrest).imp_right (List.mem_cons_of_mem _)

theorem insert_of_notMem {table : Table α} {wanted : String} (hnew : wanted ∉ keys table)
    (new : α) : insert table wanted new = table ++ [(wanted, new)] := by
  induction table with
  | nil => rfl
  | cons head rest ih =>
      obtain ⟨key, item⟩ := head
      rw [keys_cons, List.mem_cons, not_or] at hnew
      rw [insert, if_neg (Ne.symm hnew.1), ih hnew.2, List.cons_append]

theorem insert_insert (table : Table α) (key : String) (first second : α) :
    insert (insert table key first) key second = insert table key second := by
  induction table with
  | nil => simp [insert]
  | cons pair rest ih =>
      obtain ⟨head, item⟩ := pair
      by_cases hhead : head = key <;> simp [insert, hhead, ih]

/-- Storing under a known key replaces what is held there and nothing else. -/
theorem insert_map {table : Table α} (hdistinct : Distinct table) {key : String}
    (hlisted : key ∈ keys table) (f : String × α → β) (new : β) :
    insert (table.map fun pair => (pair.1, f pair)) key new =
      table.map fun pair => (pair.1, if pair.1 = key then new else f pair) := by
  induction table with
  | nil => exact absurd hlisted List.not_mem_nil
  | cons pair rest ih =>
      obtain ⟨head, item⟩ := pair
      obtain ⟨hnew, hrest⟩ : head ∉ keys rest ∧ (keys rest).Nodup := List.nodup_cons.mp hdistinct
      rw [List.map_cons, List.map_cons, insert]
      by_cases hhead : head = key
      · rw [if_pos hhead, if_pos hhead]
        refine congrArg (_ :: ·) (List.map_congr_left fun other hother => ?_)
        have hother : other.1 ≠ key := by
          rintro rfl
          exact hnew (hhead ▸ List.mem_map_of_mem hother)
        rw [if_neg hother]
      · rw [if_neg hhead, if_neg hhead, ih hrest]
        exact (List.mem_cons.mp hlisted).resolve_left (Ne.symm hhead)

theorem ofList_concat (pairs : List (String × α)) (pair : String × α) :
    ofList (pairs ++ [pair]) = insert (ofList pairs) pair.1 pair.2 := by
  simp [ofList]

theorem mem_ofList {pairs : List (String × α)} {pair : String × α} (hmem : pair ∈ ofList pairs) :
    pair ∈ pairs := by
  induction pairs using List.reverseRecOn with
  | nil => exact hmem
  | append_singleton pairs last ih =>
      rw [ofList_concat] at hmem
      rcases mem_insert hmem with rfl | hold
      · simp
      · exact List.mem_append_left _ (ih hold)

theorem Distinct.ofList_eq {table : Table α} (hdistinct : Distinct table) :
    ofList table = table := by
  induction table using List.reverseRecOn with
  | nil => rfl
  | append_singleton table pair ih =>
      obtain ⟨key, item⟩ := pair
      rw [Distinct, keys_append, List.nodup_append] at hdistinct
      obtain ⟨htable, -, hdisjoint⟩ := hdistinct
      have hnew : key ∉ keys table :=
        fun hmem => hdisjoint key hmem key (List.mem_singleton.mpr rfl) rfl
      rw [ofList_concat, ih htable, insert_of_notMem hnew]

/-- Each key stands where it first appeared, once. -/
theorem keys_ofList (pairs : List (String × α)) : keys (ofList pairs) = (keys pairs).eraseDups := by
  induction pairs using List.reverseRecOn with
  | nil => simp [ofList]
  | append_singleton pairs pair ih =>
      obtain ⟨key, item⟩ := pair
      rw [ofList_concat, keys_insert, ih, keys_append, List.eraseDups_append, keys_cons, keys_nil]
      by_cases hmem : key ∈ keys pairs
      · simp [hmem, List.removeAll]
      · simp [hmem, List.removeAll, List.eraseDups_cons]

/-- What came last under a key is what the table holds. -/
theorem get?_ofList (pairs : List (String × α)) (wanted : String) :
    get? (ofList pairs) wanted = get? pairs.reverse wanted := by
  induction pairs using List.reverseRecOn with
  | nil => simp [ofList]
  | append_singleton pairs pair ih =>
      rw [ofList_concat, get?_insert, ih, List.reverse_concat, get?_cons]

/-- A table is determined by its keys in order and by what it holds under each of them. -/
theorem Distinct.ext {first second : Table α} (hdistinct : Distinct first)
    (hkeys : keys first = keys second)
    (hget : ∀ wanted, get? first wanted = get? second wanted) : first = second := by
  induction first generalizing second with
  | nil =>
      rw [keys_nil] at hkeys
      exact (List.map_eq_nil_iff.mp hkeys.symm).symm
  | cons pair rest ih =>
      obtain ⟨key, item⟩ := pair
      cases second with
      | nil => simp at hkeys
      | cons other others =>
          obtain ⟨otherKey, otherItem⟩ := other
          rw [keys_cons, keys_cons, List.cons.injEq] at hkeys
          obtain ⟨rfl, htail⟩ := hkeys
          obtain ⟨hhead, hrest⟩ : key ∉ keys rest ∧ (keys rest).Nodup :=
            List.nodup_cons.mp hdistinct
          have hitem : item = otherItem := by simpa [get?_cons] using hget key
          have hothers : rest = others := by
            refine ih hrest htail fun wanted => ?_
            by_cases heq : key = wanted
            · subst heq
              rw [get?_eq_none_iff.mpr hhead, get?_eq_none_iff.mpr (htail ▸ hhead)]
            · simpa [get?_cons, heq] using hget wanted
          rw [hitem, hothers]

/-! ### Tables side by side -/

section SideBySide

variable {R : String × α → String × β → Prop}
  (hsame : ∀ pair other, R pair other → other.1 = pair.1)
  {first : Table α} {second : Table β} (htables : List.Forall₂ R first second)
include hsame htables

theorem keys_eq_of_forall₂ : keys second = keys first := by
  induction htables with
  | nil => rfl
  | cons hpair _ ih => exact congrArg₂ List.cons (hsame _ _ hpair) ih

theorem get?_of_forall₂ {wanted : String} {item : α} (hfound : get? first wanted = some item) :
    ∃ other, get? second wanted = some other ∧ R (wanted, item) (wanted, other) := by
  induction htables with
  | nil => exact absurd hfound nofun
  | @cons pair other rest others hpair _ ih =>
      obtain ⟨key, held⟩ := pair
      obtain ⟨otherKey, otherHeld⟩ := other
      obtain rfl : otherKey = key := hsame _ _ hpair
      rw [get?_cons] at hfound ⊢
      by_cases hkey : otherKey = wanted
      · rw [if_pos hkey] at hfound ⊢
        subst hkey
        exact ⟨otherHeld, rfl, Option.some.inj hfound ▸ hpair⟩
      · rw [if_neg hkey] at hfound ⊢
        exact ih hfound

end SideBySide

end Table

end TreeProjection
