import TreeProjection.Proofs.OutlineLines

/-!
# Outlines can be read back

The lines of an outline determine the document: the entries of an entry are the deeper lines behind
it (`outline_injective`). The text determines the lines as long as a key cannot be taken for
something else: it breaks no line, holds no colon and begins with neither a space nor a dash
(`Legible.eq_of_text_eq`). So two documents without doubles and with such keys have the same outline
only if they are the same document (`renderOutline_eq_iff`).
-/

namespace TreeProjection.Json

variable {document other : Json} {depth : Nat}

/-! ### Documents from lines -/

theorem parts_array_ne_object {items : List Json} {members : List (String × Json)}
    (hparts : (array items).parts ≠ []) : (array items).parts ≠ (object members).parts := by
  cases items with
  | nil => exact absurd rfl hparts
  | cons item items => cases members <;> simp [parts]

theorem eq_of_parts_eq (hparts : document.parts ≠ []) (heq : document.parts = other.parts) :
    document = other := by
  cases document with
  | array items =>
      cases other with
      | array others =>
          have hinjective : Function.Injective fun item : Json => (Marker.dash, item) := by
            rintro item _ ⟨⟩
            rfl
          rw [hinjective.list_map heq]
      | object members => exact absurd heq (parts_array_ne_object hparts)
      | _ => exact absurd heq hparts
  | object members =>
      cases other with
      | object others =>
          have hinjective : Function.Injective fun member : String × Json =>
              (Marker.key member.1, member.2) := by
            rintro ⟨key, item⟩ ⟨_, _⟩ ⟨⟩
            rfl
          rw [hinjective.list_map heq]
      | array items => exact absurd heq.symm (parts_array_ne_object (heq ▸ hparts))
      | _ => exact absurd heq hparts
  | _ => exact absurd rfl hparts

theorem le_depth_of_mem_entryLines {line : OutlineLine} (hline : line ∈ entryLines depth document) :
    depth ≤ line.depth := by
  induction document using parts_induction generalizing depth with
  | step document ih =>
      obtain ⟨part, hpart, rfl | hline⟩ := mem_entryLines_iff.mp hline
      · exact Nat.le_refl depth
      · exact Nat.le_of_succ_le (ih part hpart hline)

/-- What is deeper than an entry and stands directly behind it belongs to it. -/
theorem takeWhile_block (depth : Nat) (item : Json) (parts : List (Marker × Json)) :
    (entryLines (depth + 1) item ++ parts.flatMap (block depth)).takeWhile
      (fun line => decide (depth < line.depth)) = entryLines (depth + 1) item := by
  rw [List.takeWhile_append_of_pos]
  · cases parts with
    | nil => simp
    | cons part rest => simp [block, OutlineLine.entry]
  · intro line hline
    exact decide_eq_true (le_depth_of_mem_entryLines hline)

theorem eq_of_flatMap_block_eq {parts others : List (Marker × Json)}
    (hinner : ∀ part ∈ parts, ∀ item, entryLines (depth + 1) part.2 = entryLines (depth + 1) item →
      part.2.parts = item.parts)
    (hlines : parts.flatMap (block depth) = others.flatMap (block depth)) : parts = others := by
  induction parts generalizing others with
  | nil =>
      cases others with
      | nil => rfl
      | cons other others => simp [block] at hlines
  | cons part parts ih =>
      cases others with
      | nil => simp [block] at hlines
      | cons other others =>
          obtain ⟨marker, item⟩ := part
          obtain ⟨otherMarker, otherItem⟩ := other
          obtain ⟨hpart, hinner⟩ := List.forall_mem_cons.mp hinner
          rw [List.flatMap_cons, List.flatMap_cons, block, block, List.cons_append,
            List.cons_append, List.cons_eq_cons] at hlines
          obtain ⟨hentry, hbehind⟩ := hlines
          have hdeeper : entryLines (depth + 1) item = entryLines (depth + 1) otherItem := by
            have htake := congrArg (List.takeWhile fun line => decide (depth < line.depth)) hbehind
            rwa [takeWhile_block, takeWhile_block] at htake
          rw [hdeeper, List.append_cancel_left_eq] at hbehind
          obtain ⟨-, hmarker, hvalue⟩ := OutlineLine.mk.inj hentry
          obtain rfl := Option.some.inj hmarker
          have hparts := hpart otherItem hdeeper
          have hitem : item = otherItem := by
            by_cases hleaf : item.parts = []
            · rw [isNested_eq_false_iff.mpr hleaf,
                isNested_eq_false_iff.mpr (hparts.symm.trans hleaf)] at hvalue
              exact Option.some.inj hvalue
            · exact eq_of_parts_eq hleaf hparts
          rw [hitem, ih hinner hbehind]

theorem parts_eq_of_entryLines_eq (hlines : entryLines depth document = entryLines depth other) :
    document.parts = other.parts := by
  induction document using parts_induction generalizing other depth with
  | step document ih =>
      rw [entryLines_eq_flatMap, entryLines_eq_flatMap] at hlines
      exact eq_of_flatMap_block_eq (fun part hpart item => ih part hpart) hlines

/-- The lines of an outline determine the document. -/
theorem outline_injective : Function.Injective outline := by
  intro document other hlines
  by_cases hparts : document.parts = []
  · have hleaf := outline_of_leaf hparts
    by_cases hothers : other.parts = []
    · rw [hleaf, outline_of_leaf hothers] at hlines
      simpa using hlines
    · obtain ⟨marker, item, rest, hcons⟩ := exists_outline_eq_cons hothers
      rw [hleaf, hcons] at hlines
      simp [OutlineLine.entry] at hlines
  · by_cases hothers : other.parts = []
    · obtain ⟨marker, item, rest, hcons⟩ := exists_outline_eq_cons hparts
      rw [outline_of_leaf hothers, hcons] at hlines
      simp [OutlineLine.entry] at hlines
    · rw [outline_of_parts hparts, outline_of_parts hothers] at hlines
      exact eq_of_parts_eq hparts (parts_eq_of_entryLines_eq hlines)

/-! ### Values from their text -/

theorem leaf_cases {motive : ∀ document : Json, document.parts = [] → Prop}
    (null : motive .null rfl) (bool : ∀ value, motive (.bool value) rfl)
    (number : ∀ value, motive (.number value) rfl) (string : ∀ text, motive (.string text) rfl)
    (array : motive (.array []) rfl) (object : motive (.object []) rfl) (document : Json)
    (hparts : document.parts = []) : motive document hparts := by
  cases document with
  | null => exact null
  | bool value => exact bool value
  | number value => exact number value
  | string text => exact string text
  | array items =>
      obtain rfl : items = [] := List.map_eq_nil_iff.mp hparts
      exact array
  | object members =>
      obtain rfl : members = [] := List.map_eq_nil_iff.mp hparts
      exact object

theorem shaped_of_leaf (hparts : document.parts = []) : Shaped greatestNesting document := by
  induction document, hparts using leaf_cases with
  | null => exact shaped_leaf .null rfl
  | bool value => exact shaped_leaf (.bool value) rfl
  | number value => exact shaped_leaf (.number value) rfl
  | string text => exact shaped_leaf (.string text) rfl
  | array => exact shaped_array_iff.mpr ⟨_, rfl, List.forall_mem_nil _⟩
  | object => exact shaped_object_iff.mpr ⟨_, rfl, List.nodup_nil, List.forall_mem_nil _⟩

theorem write_injOn_leaves {value other : Json} (hfree : value.FloatFree)
    (hotherFree : other.FloatFree) (hparts : value.parts = []) (hothers : other.parts = [])
    (htext : write .compact 0 value = write .compact 0 other) : value = other := by
  have hparse := parse_render hfree (shaped_of_leaf hparts) .compact
  have hother := parse_render hotherFree (shaped_of_leaf hothers) .compact
  rw [render, htext, ← render, hother] at hparse
  exact (Except.ok.inj hparse).symm

/-- A document without entries is a string, or it is written without colons and quotation marks. -/
theorem string_or_notMem (hparts : document.parts = []) : (∃ text, document = .string text) ∨
    ':' ∉ write .compact 0 document ∧ '"' ∉ write .compact 0 document := by
  induction document, hparts using leaf_cases with
  | null => exact Or.inr (by decide)
  | bool value => cases value <;> exact Or.inr (by decide)
  | number value =>
      exact Or.inr ⟨JsonNumber.notMem_text (by simp [IsNumeral]),
        JsonNumber.notMem_text (by simp [IsNumeral])⟩
  | string text => exact Or.inl ⟨text, rfl⟩
  | array => exact Or.inr (by decide)
  | object => exact Or.inr (by decide)

theorem exists_digit (value : Int) (least : -0x8000000000000000 ≤ value)
    (greatest : value < 0x10000000000000000) : ∃ sign digit rest,
      JsonNumber.text (.integer value least greatest) = sign ++ digit :: rest ∧
        (sign = [] ∨ sign = ['-']) ∧ digit.isDigit = true := by
  obtain ⟨digit, rest, hdigits, hdigit, -⟩ := exists_toDigits_cons value.natAbs
  rw [JsonNumber.text, hdigits]
  refine ⟨_, digit, rest, rfl, ?_, hdigit⟩
  by_cases hnegative : value < 0
  · exact Or.inr (if_pos hnegative)
  · exact Or.inl (if_neg hnegative)

/-- A document without entries begins with no space, and with no dash but that of a number. -/
theorem write_of_leaf (hparts : document.parts = []) (hfree : document.FloatFree) :
    ∃ sign c rest, write .compact 0 document = sign ++ c :: rest ∧
      (sign = [] ∨ sign = ['-']) ∧ c ≠ ' ' ∧ c ≠ '-' := by
  induction document, hparts using leaf_cases with
  | null => exact ⟨[], _, _, rfl, Or.inl rfl, by decide, by decide⟩
  | bool value => cases value <;> exact ⟨[], _, _, rfl, Or.inl rfl, by decide, by decide⟩
  | number number =>
      cases number with
      | float value finite =>
          cases hfree with
          | leaf hatom => exact absurd rfl (hatom value)
      | integer value least greatest =>
          obtain ⟨sign, digit, rest, htext, hsign, hdigit⟩ := exists_digit value least greatest
          refine ⟨sign, digit, rest, htext, hsign, ?_, ?_⟩ <;>
          · rintro rfl
            exact absurd hdigit (by decide)
  | string text => exact ⟨[], _, _, rfl, Or.inl rfl, by decide, by decide⟩
  | array => exact ⟨[], _, _, rfl, Or.inl rfl, by decide, by decide⟩
  | object => exact ⟨[], _, _, rfl, Or.inl rfl, by decide, by decide⟩

/-! ### Lines from their text -/

/-- A key that cannot be taken for something else in an outline. -/
structure Ordinary (key : String) : Prop where
  unbroken : Unbroken key
  colon_notMem : ':' ∉ key.toList
  space_notHead : key.toList.head? ≠ some ' '
  dash_notHead : key.toList.head? ≠ some '-'

/-- A line that can be read back. -/
inductive Legible : OutlineLine → Prop where
  | document {value : Json} (hfree : value.FloatFree) (hparts : value.parts = []) :
      Legible ⟨0, none, some value⟩
  | entry {depth : Nat} {marker : Marker} {item : Json}
      (hmarker : ∀ key, marker = .key key → Ordinary key) (hfree : item.FloatFree) :
      Legible (.entry depth marker item)

theorem replicate_append_inj {m n : Nat} {first second : List Char}
    (hfirst : first.head? ≠ some ' ') (hsecond : second.head? ≠ some ' ')
    (htext : List.replicate m ' ' ++ first = List.replicate n ' ' ++ second) :
    m = n ∧ first = second := by
  induction m generalizing n with
  | zero =>
      cases n with
      | zero => exact ⟨rfl, htext⟩
      | succ n =>
          rw [List.replicate_zero, List.nil_append] at htext
          rw [htext] at hfirst
          exact absurd rfl hfirst
  | succ m ih =>
      cases n with
      | zero =>
          rw [List.replicate_zero, List.nil_append] at htext
          rw [← htext] at hsecond
          exact absurd rfl hsecond
      | succ n =>
          rw [List.replicate_succ, List.replicate_succ, List.cons_append, List.cons_append,
            List.cons_eq_cons] at htext
          obtain ⟨heq, htexts⟩ := ih htext.2
          exact ⟨congrArg Nat.succ heq, htexts⟩

/-- A name ends in front of the first colon. -/
theorem colon_append_inj {name otherName behind otherBehind : List Char} (hname : ':' ∉ name)
    (hother : ':' ∉ otherName) (htext : name ++ ':' :: behind = otherName ++ ':' :: otherBehind) :
    name = otherName ∧ behind = otherBehind := by
  have htake : ∀ {letters : List Char} (rest : List Char), ':' ∉ letters →
      (letters ++ ':' :: rest).takeWhile (· != ':') = letters := by
    intro letters rest hletters
    rw [List.takeWhile_append_of_pos]
    · simp
    · rintro c hc
      exact bne_iff_ne.mpr fun heq => hletters (heq ▸ hc)
  have hletters := congrArg (List.takeWhile (· != ':')) htext
  rw [htake behind hname, htake otherBehind hother] at hletters
  rw [hletters, List.append_cancel_left_eq, List.cons_eq_cons] at htext
  exact ⟨hletters, htext.2⟩

section Labels

variable {marker otherMarker : Marker} (hmarker : ∀ key, marker = .key key → Ordinary key)
include hmarker

theorem head?_label (behind : List Char) : (marker.label ++ behind).head? ≠ some ' ' := by
  cases marker with
  | dash => simp [Marker.label]
  | key name =>
      have hname := (hmarker name rfl).space_notHead
      cases hletters : name.toList with
      | nil => simp [Marker.label, hletters]
      | cons c rest =>
          rw [hletters] at hname
          simpa [Marker.label, hletters] using hname

theorem label_key_ne_dash {name : String} (hname : marker = .key name)
    (behind otherBehind : List Char) :
    marker.label ++ behind ≠ Marker.dash.label ++ otherBehind := by
  subst hname
  have hdash := (hmarker name rfl).dash_notHead
  intro htext
  cases hletters : name.toList with
  | nil => simp [Marker.label, hletters] at htext
  | cons c rest =>
      rw [hletters] at hdash
      simp [Marker.label, hletters] at htext
      simp [htext.1] at hdash

theorem label_append_cancel (hother : ∀ key, otherMarker = .key key → Ordinary key)
    {behind otherBehind : List Char}
    (htext : marker.label ++ behind = otherMarker.label ++ otherBehind) :
    marker = otherMarker ∧ behind = otherBehind := by
  cases marker with
  | dash =>
      cases otherMarker with
      | dash => exact ⟨rfl, List.append_cancel_left htext⟩
      | key name => exact absurd htext.symm (label_key_ne_dash hother rfl otherBehind behind)
  | key name =>
      cases otherMarker with
      | dash => exact absurd htext (label_key_ne_dash hmarker rfl behind otherBehind)
      | key otherName =>
          have hcolons : name.toList ++ ':' :: behind = otherName.toList ++ ':' :: otherBehind := by
            simpa [Marker.label] using htext
          obtain ⟨hletters, hbehind⟩ := colon_append_inj (hmarker name rfl).colon_notMem
            (hother otherName rfl).colon_notMem hcolons
          rw [String.toList_inj.mp hletters]
          exact ⟨rfl, hbehind⟩

end Labels

/-- What is shown behind the label determines the value of the line. -/
theorem entry_eq_of_behindLabel_eq {marker : Marker} (hfree : document.FloatFree)
    (hotherFree : other.FloatFree) (hbehind : behindLabel document = behindLabel other) :
    OutlineLine.entry depth marker document = .entry depth marker other := by
  by_cases hparts : document.parts = []
  · by_cases hothers : other.parts = []
    · rw [behindLabel_of_leaf hparts, behindLabel_of_leaf hothers, List.cons_eq_cons] at hbehind
      rw [write_injOn_leaves hfree hotherFree hparts hothers hbehind.2]
    · rw [behindLabel_of_leaf hparts, behindLabel_of_parts hothers] at hbehind
      exact absurd hbehind (List.cons_ne_nil _ _)
  · by_cases hothers : other.parts = []
    · rw [behindLabel_of_parts hparts, behindLabel_of_leaf hothers] at hbehind
      exact absurd hbehind.symm (List.cons_ne_nil _ _)
    · rw [OutlineLine.entry, OutlineLine.entry, isNested_iff.mpr hparts, isNested_iff.mpr hothers]
      rfl

/-- A string is not written like a key in front of another string. -/
theorem quote_ne_append_quote (text key other : List Char) :
    quote text ≠ key ++ ':' :: ' ' :: quote other := by
  intro htext
  have hopened : '"' :: text.flatMap escape = key ++ ':' :: ' ' :: '"' :: other.flatMap escape := by
    have hclosed : '"' :: text.flatMap escape ++ ['"'] =
        key ++ ':' :: ' ' :: '"' :: other.flatMap escape ++ ['"'] := by
      simpa [quote] using htext
    exact List.append_cancel_right hclosed
  cases key with
  | nil => exact absurd (List.cons_eq_cons.mp hopened).1 (by decide)
  | cons c key =>
      rw [List.cons_append, List.cons_eq_cons] at hopened
      have hguarded := guarded_escaped text
      rw [hopened.2, Guarded, List.isChain_append] at hguarded
      have hspace : Guarded (' ' :: '"' :: other.flatMap escape) := hguarded.2.1.tail
      exact absurd (hspace.rel rfl) (by decide)

theorem quote_ne_append_behindLabel (text key : List Char) (item : Json) :
    quote text ≠ key ++ ':' :: behindLabel item := by
  intro htext
  have hquotation : '"' ∈ behindLabel item := by
    have hlast : (quote text).getLast? = some '"' := List.getLast?_concat
    rw [htext, List.getLast?_append_of_ne_nil _ (List.cons_ne_nil _ _)] at hlast
    simpa using List.mem_of_getLast? hlast
  by_cases hparts : item.parts = []
  · rw [behindLabel_of_leaf hparts] at htext hquotation
    rcases string_or_notMem hparts with ⟨other, rfl⟩ | ⟨-, hnotMem⟩
    · exact quote_ne_append_quote text key other.toList htext
    · simp [hnotMem] at hquotation
  · rw [behindLabel_of_parts hparts] at hquotation
    exact absurd hquotation List.not_mem_nil

/-- A document without entries is not written like a line of an entry. -/
theorem write_ne_text_entry {value item : Json} {marker : Marker}
    (hmarker : ∀ key, marker = .key key → Ordinary key) (hparts : value.parts = [])
    (hfree : value.FloatFree) :
    write .compact 0 value ≠ (OutlineLine.entry depth marker item).text .plain := by
  intro htext
  obtain ⟨sign, c, rest, hvalue, hsign, hspace, hdash⟩ := write_of_leaf hparts hfree
  have hhead : (write .compact 0 value).head? ≠ some ' ' := by
    rw [hvalue]
    rcases hsign with rfl | rfl <;> simp [hspace]
  have hline : write .compact 0 value = marker.label ++ behindLabel item := by
    rw [text_entry] at htext
    exact (replicate_append_inj (m := 0) hhead (head?_label hmarker _) htext).2
  cases marker with
  | dash =>
      rw [hvalue] at hline
      rcases hsign with rfl | rfl
      · exact hdash (List.cons_eq_cons.mp hline).1
      · have hbehind : c :: rest = behindLabel item := (List.cons_eq_cons.mp hline).2
        unfold behindLabel at hbehind
        split at hbehind
        · exact List.cons_ne_nil _ _ hbehind
        · exact hspace (List.cons_eq_cons.mp hbehind).1
  | key name =>
      have hcolon : write .compact 0 value = name.toList ++ ':' :: behindLabel item := by
        rw [hline, Marker.label, List.append_assoc, List.singleton_append]
      rcases string_or_notMem hparts with ⟨text, rfl⟩ | ⟨hnotMem, -⟩
      · exact quote_ne_append_behindLabel text.toList name.toList item hcolon
      · apply hnotMem
        rw [hcolon]
        exact List.mem_append_right _ List.mem_cons_self

theorem Legible.eq_of_text_eq {line other : OutlineLine} (hline : Legible line)
    (hother : Legible other) (htext : line.text .plain = other.text .plain) : line = other := by
  cases hline with
  | document hfree hparts =>
      rw [text_document] at htext
      cases hother with
      | document hotherFree hothers =>
          rw [text_document] at htext
          rw [write_injOn_leaves hfree hotherFree hparts hothers htext]
      | entry hmarker _ => exact absurd htext (write_ne_text_entry hmarker hparts hfree)
  | entry hmarker hfree =>
      cases hother with
      | document hotherFree hothers =>
          rw [text_document] at htext
          exact absurd htext.symm (write_ne_text_entry hmarker hothers hotherFree)
      | entry hotherMarker hotherFree =>
          rw [text_entry, text_entry] at htext
          obtain ⟨hspaces, hlabels⟩ :=
            replicate_append_inj (head?_label hmarker _) (head?_label hotherMarker _) htext
          obtain ⟨rfl, hbehind⟩ := label_append_cancel hmarker hotherMarker hlabels
          rw [Nat.eq_of_mul_eq_mul_left (by decide) hspaces]
          exact entry_eq_of_behindLabel_eq hfree hotherFree hbehind

/-! ### Documents from text -/

theorem FloatFree.of_parts (hfree : document.FloatFree) :
    ∀ part ∈ document.parts, part.2.FloatFree := by
  cases document with
  | array items => exact List.forall_mem_map.mpr hfree.of_array
  | object members => exact List.forall_mem_map.mpr hfree.of_object
  | _ => exact List.forall_mem_nil _

theorem legible_of_mem_entryLines (hfree : document.FloatFree) (hkeys : document.EachKey Ordinary)
    {line : OutlineLine} (hline : line ∈ entryLines depth document) : Legible line := by
  induction document using parts_induction generalizing depth with
  | step document ih =>
      obtain ⟨part, hpart, hline⟩ := mem_entryLines_iff.mp hline
      obtain ⟨hmarker, hinner⟩ := eachKey_iff.mp hkeys part hpart
      have hitem : part.2.FloatFree := hfree.of_parts part hpart
      rcases hline with rfl | hline
      · exact .entry hmarker hitem
      · exact ih part hpart hitem hinner hline

theorem legible_of_mem_outline (hfree : document.FloatFree) (hkeys : document.EachKey Ordinary) :
    ∀ line ∈ outline document, Legible line := by
  by_cases hparts : document.parts = []
  · rw [outline_of_leaf hparts, List.forall_mem_singleton]
    exact .document hfree hparts
  · rw [outline_of_parts hparts]
    exact fun line => legible_of_mem_entryLines hfree hkeys

theorem eq_of_texts_eq {lines others : List OutlineLine} (hlines : ∀ line ∈ lines, Legible line)
    (hothers : ∀ line ∈ others, Legible line)
    (htexts : lines.map (OutlineLine.text .plain) = others.map (OutlineLine.text .plain)) :
    lines = others := by
  induction lines generalizing others with
  | nil => exact (List.map_eq_nil_iff.mp htexts.symm).symm
  | cons line lines ih =>
      cases others with
      | nil => exact absurd htexts (List.cons_ne_nil _ _)
      | cons other others =>
          rw [List.forall_mem_cons] at hlines hothers
          rw [List.map_cons, List.map_cons, List.cons_eq_cons] at htexts
          rw [hlines.1.eq_of_text_eq hothers.1 htexts.1, ih hlines.2 hothers.2 htexts.2]

/-- **Outlines are unambiguous.** Two documents without doubles, in which no key breaks a line,
holds a colon or begins with a space or a dash, have the same outline if and only if they are the
same document. -/
theorem renderOutline_eq_iff (hfree : document.FloatFree) (hotherFree : other.FloatFree)
    (hkeys : document.EachKey Ordinary) (hotherKeys : other.EachKey Ordinary) :
    renderOutline .plain document = renderOutline .plain other ↔ document = other := by
  refine ⟨fun htext => ?_, fun heq => heq ▸ rfl⟩
  have hlines : (renderOutline .plain document).toList.splitOn '\n' =
      (renderOutline .plain other).toList.splitOn '\n' := by rw [htext]
  rw [splitOn_renderOutline (hkeys.mono fun key hkey => hkey.unbroken),
    splitOn_renderOutline (hotherKeys.mono fun key hkey => hkey.unbroken)] at hlines
  exact outline_injective (eq_of_texts_eq (legible_of_mem_outline hfree hkeys)
    (legible_of_mem_outline hotherFree hotherKeys) hlines)

theorem renderOutline_eq_iff_sample :
    let tree (first last : Json) : Json := .object [("a b", .array [first]), ("", last)]
    let document := tree (.string "null") (.array [])
    let other := tree .null (.object [])
    document.FloatFree ∧ document.EachKey Ordinary ∧ other.FloatFree ∧ other.EachKey Ordinary ∧
      renderOutline .plain document ≠ renderOutline .plain other := by
  intro tree document other
  have hfree : ∀ {first last : Json}, first.FloatFree → last.FloatFree →
      (tree first last).FloatFree := by
    intro first last hfirst hlast
    have harray : (array [first]).FloatFree := .sequence (List.forall_mem_singleton.mpr hfirst)
    exact .mapping (List.forall_mem_cons.mpr ⟨harray, List.forall_mem_singleton.mpr hlast⟩)
  have hkeys : ∀ {first last : Json}, first.parts = [] → last.parts = [] →
      (tree first last).EachKey Ordinary := by
    intro first last hfirst hlast
    have hleaf : ∀ {leaf : Json}, leaf.parts = [] → leaf.EachKey Ordinary := by
      intro leaf hparts
      rw [eachKey_iff, hparts]
      exact List.forall_mem_nil _
    have harray : (array [first]).EachKey Ordinary := by
      rw [eachKey_iff]
      exact List.forall_mem_singleton.mpr ⟨nofun, hleaf hfirst⟩
    have hletters : Ordinary "a b" := ⟨by decide, by decide, by decide, by decide⟩
    have hempty : Ordinary "" := ⟨by decide, by decide, by decide, by decide⟩
    rw [eachKey_iff]
    refine List.forall_mem_cons.mpr ⟨⟨?_, harray⟩, List.forall_mem_singleton.mpr ⟨?_, hleaf hlast⟩⟩
    · rintro _ ⟨⟩
      exact hletters
    · rintro _ ⟨⟩
      exact hempty
  have hdocument : document.FloatFree := hfree (.leaf nofun) (.sequence (List.forall_mem_nil _))
  have hother : other.FloatFree := hfree (.leaf nofun) (.mapping (List.forall_mem_nil _))
  have hdocumentKeys : document.EachKey Ordinary := hkeys rfl rfl
  have hotherKeys : other.EachKey Ordinary := hkeys rfl rfl
  refine ⟨hdocument, hdocumentKeys, hother, hotherKeys, fun htext => ?_⟩
  have heq := (renderOutline_eq_iff hdocument hother hdocumentKeys hotherKeys).mp htext
  simp [document, other, tree] at heq

end TreeProjection.Json
