import Mathlib.Data.List.Chain
import Mathlib.Tactic.Common
import TreeProjection.Proofs.DocumentText

/-!
# Which characters are written

A number is written with digits, a point, an exponent mark and signs only (`isNumeral_of_mem_text`).
In a string, what would break the line is escaped, and a quotation mark stands behind a backslash
(`guarded_escaped`). So a document in compact style is one line (`lineBreak_notMem_write`).
-/

namespace TreeProjection

/-! ### Numbers -/

/-- The characters that numbers are written with. -/
def IsNumeral (c : Char) : Prop := c.isDigit = true ∨ c ∈ ['.', 'e', '-', '+']

theorem isNumeral_of_mem_toDigits {n : Nat} {c : Char} (hmem : c ∈ Nat.toDigits 10 n) :
    IsNumeral c :=
  Or.inl (Nat.isDigit_of_mem_toDigits (by decide) (by decide) hmem)

namespace Binary64

theorem isDigit_of_mem_significantDigits {n : Nat} {c : Char} (hmem : c ∈ significantDigits n) :
    c.isDigit = true := by
  rw [significantDigits, List.mem_reverse] at hmem
  have hdigit := List.mem_reverse.mp ((List.dropWhile_sublist _).mem hmem)
  exact Nat.isDigit_of_mem_toDigits (by decide) (by decide) hdigit

theorem isDigit_of_mem_shortest {tie : Tie} {magnitude : Nat} {c : Char}
    (hmem : c ∈ (shortest tie magnitude).digits) : c.isDigit = true := by
  have hzero : ∀ d ∈ ['0'], d.isDigit = true := List.forall_mem_singleton.mpr (by decide)
  rw [shortest] at hmem
  split at hmem
  · exact hzero c hmem
  · dsimp only at hmem
    cases hfound : List.findSome? _ (List.range' 1 17) with
    | none =>
        rw [hfound] at hmem
        exact hzero c hmem
    | some decimal =>
        rw [hfound] at hmem
        obtain ⟨count, -, hcandidate⟩ := List.exists_of_findSome?_eq_some hfound
        obtain ⟨multiple, -, hdecimal⟩ := Option.bind_eq_some_iff.mp hcandidate
        rw [← Option.some.inj hdecimal] at hmem
        exact isDigit_of_mem_significantDigits hmem

end Binary64

namespace DecimalLayout

variable {layout : DecimalLayout} {decimal : Decimal} {c : Char}

theorem isNumeral_of_mem_positional (hdigits : ∀ d ∈ decimal.digits, d.isDigit = true)
    (hmem : c ∈ positional decimal) : IsNumeral c := by
  have hzero : IsNumeral '0' := Or.inl (by decide)
  have hpoint : IsNumeral '.' := Or.inr (by decide)
  rw [positional] at hmem
  split at hmem
  · simp only [List.cons_append, List.mem_cons, List.mem_append] at hmem
    rcases hmem with rfl | rfl | hmem | hmem
    · exact hzero
    · exact hpoint
    · rw [List.eq_of_mem_replicate hmem]
      exact hzero
    · exact Or.inl (hdigits c hmem)
  · simp only [List.mem_append, List.mem_cons] at hmem
    rcases hmem with (hmem | hmem) | rfl | hmem
    · exact Or.inl (hdigits c (List.mem_of_mem_take hmem))
    · rw [List.eq_of_mem_replicate hmem]
      exact hzero
    · exact hpoint
    · split at hmem
      · rw [List.mem_singleton.mp hmem]
        exact hzero
      · exact Or.inl (hdigits c (List.mem_of_mem_drop hmem))

theorem isNumeral_of_mem_scientific (hdigits : ∀ d ∈ decimal.digits, d.isDigit = true)
    (hmem : c ∈ layout.scientific decimal) : IsNumeral c := by
  simp only [scientific, List.mem_append, List.mem_cons] at hmem
  rcases hmem with ((hmem | hmem) | rfl | hmem) | hmem
  · exact Or.inl (hdigits c (List.mem_of_mem_take hmem))
  · split at hmem
    · exact absurd hmem List.not_mem_nil
    · rcases List.mem_cons.mp hmem with rfl | hmem
      · exact Or.inr (by decide)
      · exact Or.inl (hdigits c (List.mem_of_mem_drop hmem))
  · exact Or.inr (by decide)
  · have hsign : c = '-' ∨ c = '+' := by
      split at hmem
      · exact Or.inl (List.mem_singleton.mp hmem)
      · split at hmem
        · exact Or.inr (List.mem_singleton.mp hmem)
        · exact absurd hmem List.not_mem_nil
    rcases hsign with rfl | rfl <;> exact Or.inr (by decide)
  · exact isNumeral_of_mem_toDigits hmem

theorem isNumeral_of_mem_write (hdigits : ∀ d ∈ decimal.digits, d.isDigit = true)
    (hmem : c ∈ layout.write decimal) : IsNumeral c := by
  rw [write] at hmem
  split at hmem
  · exact isNumeral_of_mem_positional hdigits hmem
  · exact isNumeral_of_mem_scientific hdigits hmem

theorem write_ne_nil (layout : DecimalLayout) (decimal : Decimal) : layout.write decimal ≠ [] := by
  unfold write
  split
  · unfold positional
    split <;> simp
  · simp [scientific]

end DecimalLayout

theorem isNumeral_of_mem_sign {negative : Prop} [Decidable negative] {c : Char}
    (hmem : c ∈ if negative then ['-'] else []) : IsNumeral c := by
  split at hmem
  · rw [List.mem_singleton.mp hmem]
    exact Or.inr (by decide)
  · exact absurd hmem List.not_mem_nil

theorem JsonNumber.isNumeral_of_mem_text {number : JsonNumber} {c : Char}
    (hmem : c ∈ number.text) : IsNumeral c := by
  cases number with
  | integer value least greatest =>
      rcases List.mem_append.mp hmem with hmem | hmem
      · exact isNumeral_of_mem_sign hmem
      · exact isNumeral_of_mem_toDigits hmem
  | float value finite =>
      rcases List.mem_append.mp hmem with hmem | hmem
      · exact isNumeral_of_mem_sign hmem
      · exact DecimalLayout.isNumeral_of_mem_write
          (fun d hd => Binary64.isDigit_of_mem_shortest hd) hmem

theorem JsonNumber.text_ne_nil (number : JsonNumber) : number.text ≠ [] := by
  cases number with
  | integer value least greatest => simp [text]
  | float value finite =>
      have hwrite := layout.write_ne_nil (Binary64.shortest layout.tie value.magnitude)
      simp [text, Binary64.text, hwrite]

theorem JsonNumber.notMem_text {number : JsonNumber} {c : Char} (hc : ¬IsNumeral c) :
    c ∉ number.text :=
  fun hmem => hc (isNumeral_of_mem_text hmem)

namespace Json

/-! ### Strings -/

/-- A quotation mark stands behind a backslash only. -/
abbrev Guarded (text : List Char) : Prop := text.IsChain fun c d => d = '"' → c = '\\'

theorem hexDigits_plain : ∀ n < 0x20, '\n' ∉ hexDigits 4 n ∧
    Guarded ('\\' :: 'u' :: hexDigits 4 n) := by
  decide

theorem lineBreak_notMem_escape (c : Char) : '\n' ∉ escape c := by
  rcases escape_cases c with ⟨letter, hescape, hshort⟩ | ⟨hescape, hcontrol⟩ |
    ⟨hescape, -, -, hprintable⟩
  · have hletter : letter ≠ '\n' := by
      rintro rfl
      simp [shortEscape?] at hshort
    rw [hescape]
    simp [hletter.symm]
  · rw [hescape]
    simp [(hexDigits_plain c.toNat hcontrol).1]
  · rw [hescape, List.mem_singleton]
    rintro rfl
    exact hprintable (by decide)

theorem lineBreak_notMem_quote (text : List Char) : '\n' ∉ quote text := by
  have hinner : '\n' ∉ text.flatMap escape := by
    intro hmem
    obtain ⟨c, -, hc⟩ := List.mem_flatMap.mp hmem
    exact lineBreak_notMem_escape c hc
  simp [quote, hinner]

theorem guarded_escape (c : Char) :
    Guarded (escape c) ∧ escape c ≠ [] ∧ (escape c).head? ≠ some '"' := by
  rcases escape_cases c with ⟨letter, hescape, -⟩ | ⟨hescape, hcontrol⟩ | ⟨hescape, hc, -, -⟩
  · rw [hescape]
    simp
  · rw [hescape]
    exact ⟨(hexDigits_plain c.toNat hcontrol).2, List.cons_ne_nil _ _, by simp⟩
  · rw [hescape]
    simp [hc]

theorem guarded_escaped (text : List Char) : Guarded (text.flatMap escape) := by
  have hnil : [] ∉ text.map escape := by
    intro hmem
    obtain ⟨c, -, hc⟩ := List.mem_map.mp hmem
    exact (guarded_escape c).2.1 hc
  rw [List.flatMap_def, Guarded, List.isChain_flatten hnil, List.forall_mem_map]
  refine ⟨fun c _ => (guarded_escape c).1, ?_⟩
  refine List.Pairwise.isChain (List.pairwise_of_forall_mem_list fun before _ behind hmem => ?_)
  obtain ⟨c, -, rfl⟩ := List.mem_map.mp hmem
  rintro d - _ hhead rfl
  exact absurd hhead (guarded_escape c).2.2

/-! ### Documents -/

theorem write_ne_nil (depth : Nat) (document : Json) : write .compact depth document ≠ [] := by
  cases document with
  | null => simp [write]
  | bool value => cases value <;> simp [write]
  | number number => exact number.text_ne_nil
  | string text => simp [write, quote]
  | array items => cases items <;> simp [write, writeItems, enclose]
  | object members => cases members <;> simp [write, writeMembers, enclose]

theorem mem_intercalate {separator : List Char} {texts : List (List Char)} {c : Char}
    (hmem : c ∈ separator.intercalate texts) : c ∈ separator ∨ ∃ text ∈ texts, c ∈ text := by
  induction texts with
  | nil => simp at hmem
  | cons text rest ih =>
      cases rest with
      | nil =>
          rw [List.intercalate_singleton] at hmem
          exact Or.inr ⟨text, List.mem_singleton_self text, hmem⟩
      | cons other others =>
          rw [List.intercalate_cons_cons, List.mem_append, List.mem_append] at hmem
          rcases hmem with (hmem | hmem) | hmem
          · exact Or.inr ⟨text, List.mem_cons_self, hmem⟩
          · exact Or.inl hmem
          · exact (ih hmem).imp_right fun ⟨inner, hinner, hc⟩ =>
              ⟨inner, List.mem_cons_of_mem text hinner, hc⟩

theorem lineBreak_notMem_enclose {depth : Nat} {opening closing : Char} {texts : List (List Char)}
    (hopening : opening ≠ '\n') (hclosing : closing ≠ '\n') (htexts : ∀ text ∈ texts, '\n' ∉ text) :
    '\n' ∉ enclose .compact depth opening closing texts := by
  cases texts with
  | nil => simp [enclose, hopening.symm, hclosing.symm]
  | cons text rest =>
      have hinner : '\n' ∉ [','].intercalate (text :: rest) := by
        intro hmem
        rcases mem_intercalate hmem with hcomma | ⟨part, hpart, hc⟩
        · exact absurd hcomma (by decide)
        · exact htexts part hpart hc
      simp [enclose, Style.lineBreak, hopening.symm, hclosing.symm, hinner]

/-- In compact style a document is one line. -/
theorem lineBreak_notMem_write (depth : Nat) (document : Json) :
    '\n' ∉ write .compact depth document := by
  induction document using Json.induction generalizing depth with
  | null => simp [write]
  | bool value => cases value <;> simp [write]
  | number number => exact JsonNumber.notMem_text (by simp [IsNumeral])
  | string text => exact lineBreak_notMem_quote text.toList
  | array items ih =>
      rw [write, writeItems_eq_map]
      refine lineBreak_notMem_enclose (by decide) (by decide) ?_
      exact List.forall_mem_map.mpr fun item hitem => ih item hitem (depth + 1)
  | object members ih =>
      rw [write, writeMembers_eq_map]
      refine lineBreak_notMem_enclose (by decide) (by decide) ?_
      refine List.forall_mem_map.mpr fun member hmember => ?_
      simp [Style.colon, lineBreak_notMem_quote, ih member hmember]

end Json

end TreeProjection
