/-!
# Tables in order of arrival

A table lists its keys in the order in which they first arrived: storing under a known key keeps
the key's place and replaces what it holds (`keys_insert`, `get?_insert`). Tables that are built
by `insert` alone never list a key twice (`distinct_ofList`).

The recursive types of this library hold their entries as plain lists of pairs, so a table is
such a list and `Table.Distinct` is a predicate on it.
-/

namespace TreeProjection

/-- Pairs of a key and what is stored under it, in order of arrival. -/
abbrev Table (α : Type) : Type := List (String × α)

namespace Table

variable {α : Type}

def get? : Table α → String → Option α
  | [], _ => none
  | (key, item) :: rest, wanted => if key = wanted then some item else get? rest wanted

/-- Stores under a key: a known key keeps its place, a new one goes to the end. -/
def insert : Table α → String → α → Table α
  | [], wanted, new => [(wanted, new)]
  | (key, item) :: rest, wanted, new =>
      if key = wanted then (key, new) :: rest else (key, item) :: insert rest wanted new

/-- The table after all pairs are stored, one after the other. -/
def ofList (pairs : List (String × α)) : Table α :=
  pairs.foldl (fun table pair => insert table pair.1 pair.2) []

def keys (table : Table α) : List String := table.map Prod.fst

def contains (table : Table α) (wanted : String) : Bool := (get? table wanted).isSome

def Distinct (table : Table α) : Prop := (keys table).Nodup

@[simp] theorem keys_nil : keys ([] : Table α) = [] := rfl

@[simp] theorem keys_cons (key : String) (item : α) (rest : Table α) :
    keys ((key, item) :: rest) = key :: keys rest := rfl

@[simp] theorem get?_nil (wanted : String) : get? ([] : Table α) wanted = none := rfl

theorem get?_cons (key wanted : String) (item : α) (rest : Table α) :
    get? ((key, item) :: rest) wanted = if key = wanted then some item else get? rest wanted := rfl

/-- A key is found exactly when it is listed. -/
theorem contains_iff_mem_keys {table : Table α} {wanted : String} :
    contains table wanted = true ↔ wanted ∈ keys table := by
  unfold contains
  induction table with
  | nil => simp
  | cons pair rest ih =>
    obtain ⟨key, item⟩ := pair
    by_cases heq : key = wanted
    · simp [get?_cons, heq]
    · simp [get?_cons, heq, ih, Ne.symm heq]

theorem get?_eq_none_iff {table : Table α} {wanted : String} :
    get? table wanted = none ↔ wanted ∉ keys table := by
  rw [← contains_iff_mem_keys, contains]
  cases get? table wanted <;> simp

/-- What is found under a key stands in the table as a pair. -/
theorem mem_of_get?_eq_some {table : Table α} {wanted : String} {item : α}
    (hfound : get? table wanted = some item) : (wanted, item) ∈ table := by
  induction table with
  | nil => simp at hfound
  | cons pair rest ih =>
    obtain ⟨key, head⟩ := pair
    rw [get?_cons] at hfound
    split at hfound
    · rename_i heq
      simp_all
    · exact List.mem_cons_of_mem _ (ih hfound)

/-- In a table that lists no key twice, each pair is found under its key. -/
theorem Distinct.get?_eq_some {table : Table α} (hdistinct : Distinct table) {wanted : String}
    {item : α} (hmem : (wanted, item) ∈ table) : get? table wanted = some item := by
  induction table with
  | nil => simp at hmem
  | cons pair rest ih =>
    obtain ⟨key, head⟩ := pair
    have hparts : key ∉ keys rest ∧ (keys rest).Nodup := List.nodup_cons.mp hdistinct
    rw [get?_cons]
    rcases List.mem_cons.mp hmem with heq | htail
    · simp_all
    · have hlisted : wanted ∈ keys rest := List.mem_map.mpr ⟨(wanted, item), htail, rfl⟩
      have hne : key ≠ wanted := fun heq => hparts.1 (heq ▸ hlisted)
      simpa [hne] using ih hparts.2 htail

/-- After storing, the key holds the new item and every other key what it held. -/
theorem get?_insert (table : Table α) (key wanted : String) (new : α) :
    get? (insert table key new) wanted = if key = wanted then some new else get? table wanted := by
  induction table with
  | nil => simp [insert, get?_cons]
  | cons pair rest ih =>
    obtain ⟨head, item⟩ := pair
    by_cases hhead : head = key
    · subst hhead
      by_cases heq : head = wanted <;> simp [insert, get?_cons, heq]
    · by_cases heq : head = wanted
      · subst heq
        simp [insert, get?_cons, hhead, Ne.symm hhead]
      · simp [insert, get?_cons, hhead, heq, ih]

/-- Storing keeps the order of the known keys and adds a new key at the end. -/
theorem keys_insert (table : Table α) (key : String) (new : α) :
    keys (insert table key new) =
      if key ∈ keys table then keys table else keys table ++ [key] := by
  induction table with
  | nil => simp [insert]
  | cons pair rest ih =>
    obtain ⟨head, item⟩ := pair
    by_cases hhead : head = key
    · simp [insert, hhead]
    · by_cases hrest : key ∈ keys rest <;> simp [insert, hhead, Ne.symm hhead, ih, hrest]

theorem Distinct.insert {table : Table α} (hdistinct : Distinct table) (key : String) (new : α) :
    Distinct (table.insert key new) := by
  unfold Distinct at *
  rw [keys_insert]
  split
  · exact hdistinct
  · rename_i hnew
    rw [List.nodup_append]
    refine ⟨hdistinct, List.pairwise_singleton .., ?_⟩
    intro a ha b hb heq
    rw [List.mem_singleton.mp hb] at heq
    exact hnew (heq ▸ ha)

/-- A table built pair by pair lists no key twice. -/
theorem distinct_ofList (pairs : List (String × α)) : Distinct (ofList pairs) := by
  have hfold : ∀ table : Table α, Distinct table →
      Distinct (pairs.foldl (fun table pair => insert table pair.1 pair.2) table) := by
    induction pairs with
    | nil => exact fun table htable => htable
    | cons pair rest ih => exact fun table htable => ih _ (htable.insert _ _)
  exact hfold [] List.nodup_nil

end Table

end TreeProjection
