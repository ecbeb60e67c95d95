import Mathlib.Data.List.Forall2
import Mathlib.Tactic.Common
import TreeProjection.Proofs.DocumentShape
import TreeProjection.Proofs.TokenText

/-!
# Documents read back

What the writer makes of a document, in either style, the reader reads as that document, as long as
it is not nested too deep, repeats no key in an object and holds no double (`parse_render`). A part
of an array or object is read from behind any blanks, up to what does not go on with it (`Spells`),
so the two styles need no proofs of their own.
-/

namespace TreeProjection.Json

variable {α : Type}

/-! ### Blanks -/

def Blank (text : List Char) : Prop := ∀ c ∈ text, isBlank c = true

variable {blanks lead tail text rest more : List Char} {c : Char}

theorem nextMark?_eq (hblanks : Blank blanks) (hmark : isBlank c = false) (rest : List Char) :
    ∃ shorter, nextMark? (blanks ++ c :: rest) = some ⟨c, rest, shorter⟩ := by
  induction blanks with
  | nil =>
      rw [List.nil_append, nextMark?, if_neg (by simp [hmark])]
      exact ⟨_, rfl⟩
  | cons blank blanks ih =>
      obtain ⟨hblank, hblanks⟩ := List.forall_mem_cons.mp hblanks
      obtain ⟨shorter, hnext⟩ := ih hblanks
      rw [List.cons_append, nextMark?, if_pos hblank, hnext]
      exact ⟨_, rfl⟩

theorem blank_lineBreak (style : Style) (depth : Nat) : Blank (style.lineBreak depth) := by
  cases style with
  | compact => exact List.forall_mem_nil _
  | pretty =>
      refine List.forall_mem_cons.mpr ⟨by decide, fun c hc => ?_⟩
      rw [List.eq_of_mem_replicate hc]
      decide

theorem colon_eq (style : Style) : ∃ blanks, style.colon = ':' :: blanks ∧ Blank blanks := by
  cases style with
  | compact => exact ⟨[], rfl, List.forall_mem_nil _⟩
  | pretty => exact ⟨[' '], rfl, List.forall_mem_singleton.mpr (by decide)⟩

theorem ends_nil : Ends [] := nofun

theorem ends_cons (rest : List Char) (hc : c.isDigit = false ∧ c ≠ '.' ∧ c ≠ 'e' ∧ c ≠ 'E') : Ends (c :: rest) := by
  rintro _ ⟨⟩
  exact hc

theorem of_isBlank (hblank : isBlank c = true) :
    c.isDigit = false ∧ c ≠ '.' ∧ c ≠ 'e' ∧ c ≠ 'E' := by
  have hcases : ((c = ' ' ∨ c = '\n') ∨ c = '\r') ∨ c = '\t' := by simpa [isBlank] using hblank
  rcases hcases with ((rfl | rfl) | rfl) | rfl <;> decide

theorem ends_of_blank (hblanks : Blank blanks) (hrest : Ends rest) : Ends (blanks ++ rest) := by
  cases blanks with
  | nil => exact hrest
  | cons blank blanks =>
      exact ends_cons (blanks ++ rest) (of_isBlank (hblanks blank (List.mem_cons_self ..)))

/-! ### Parts -/

def closings : List Char := [']', '}']

theorem of_mem_closings (hclose : c ∈ closings) : isBlank c = false ∧ c ≠ ',' ∧
    c.isDigit = false ∧ c ≠ '.' ∧ c ≠ 'e' ∧ c ≠ 'E' := by
  have hcases : c = ']' ∨ c = '}' := by simpa [closings] using hclose
  rcases hcases with rfl | rfl <;> decide

/-- The text stands for the value in front of all that does not go on with it. -/
structure Spells (reader : Reader α) (text : List Char) (value : α) : Prop where
  starts : ∃ c more, text = c :: more ∧ isBlank c = false ∧ c ∉ closings
  reads {blanks rest : List Char} (hblanks : Blank blanks) (hends : Ends rest) :
    Yields (reader (blanks ++ (text ++ rest))) value rest

section Parts

variable {part : Reader α} {enclosure : Enclosure} {value : α} {values : List α}

theorem readParts_last (hpart : Yields (part text) value (tail ++ enclosure.close :: rest))
    (htail : Blank tail) (hclose : isBlank enclosure.close = false) :
    Yields (readParts enclosure part text) [value] rest := by
  obtain ⟨shorter, hpart⟩ := hpart
  obtain ⟨shorterRest, hmark⟩ := nextMark?_eq htail hclose rest
  rw [readParts, hpart, ok_bind, hmark]
  dsimp only
  rw [if_pos rfl]
  exact ⟨_, rfl⟩

theorem readParts_more (hpart : Yields (part text) value (',' :: more))
    (hcomma : enclosure.close ≠ ',') (hnext : ∃ next, nextMark? more = some next ∧
      next.value ≠ enclosure.close)
    (hmore : Yields (readParts enclosure part more) values rest) :
    Yields (readParts enclosure part text) (value :: values) rest := by
  obtain ⟨shorter, hpart⟩ := hpart
  obtain ⟨next, hnext, hopen⟩ := hnext
  obtain ⟨shorterMore, hmore⟩ := hmore
  have hmark : nextMark? (',' :: more) = some (.before ',' more) := rfl
  rw [readParts, hpart, ok_bind, hmark]
  dsimp only [Parsed.before]
  rw [if_neg hcomma.symm, if_pos rfl, hnext]
  dsimp only
  rw [if_neg hopen, hmore]
  exact ⟨_, rfl⟩

theorem intercalate_cons (separator text : List Char) (texts : List (List Char)) :
    ∃ behind, separator.intercalate (text :: texts) = text ++ behind := by
  cases texts with
  | nil => exact ⟨[], by simp⟩
  | cons other others => exact ⟨_, by rw [List.intercalate_cons_cons, List.append_assoc]⟩

section Enclosed

variable (hclose : enclosure.close ∈ closings)
include hclose

theorem readParts_intercalate (hlead : Blank lead) (htail : Blank tail) {texts : List (List Char)}
    (hspells : List.Forall₂ (Spells part) texts values) (hparts : texts ≠ []) (rest : List Char) :
    (∃ next, nextMark? (lead ++ ((',' :: lead).intercalate texts ++
        (tail ++ enclosure.close :: rest))) = some next ∧ next.value ≠ enclosure.close) ∧
      Yields (readParts enclosure part
        (lead ++ ((',' :: lead).intercalate texts ++ (tail ++ enclosure.close :: rest)))) values
        rest := by
  obtain ⟨hmark, hcomma, hends⟩ := of_mem_closings hclose
  induction hspells with
  | nil => exact absurd rfl hparts
  | @cons text value texts values hpart hspells ih =>
      constructor
      · obtain ⟨c, behind, rfl, hstart, hopen⟩ := hpart.starts
        obtain ⟨others, hothers⟩ := intercalate_cons (',' :: lead) (c :: behind) texts
        obtain ⟨shorter, hnext⟩ := nextMark?_eq hlead hstart
          (behind ++ others ++ (tail ++ enclosure.close :: rest))
        rw [hothers]
        refine ⟨_, hnext, fun heq => hopen ?_⟩
        rw [show c = enclosure.close from heq]
        exact hclose
      · cases hspells with
        | nil =>
            rw [List.intercalate_singleton]
            have hread := hpart.reads hlead (ends_of_blank htail (ends_cons rest hends))
            exact readParts_last hread htail hmark
        | @cons other otherValue others otherValues hother hothers =>
            obtain ⟨hnext, hmore⟩ := ih (List.cons_ne_nil other others)
            have hread := hpart.reads hlead (ends_cons _ (by decide) : Ends (',' :: (lead ++
              ((',' :: lead).intercalate (other :: others) ++
                (tail ++ enclosure.close :: rest)))))
            have htext : lead ++ ((',' :: lead).intercalate (text :: other :: others) ++
                (tail ++ enclosure.close :: rest)) = lead ++ (text ++ ',' :: (lead ++
                  ((',' :: lead).intercalate (other :: others) ++
                    (tail ++ enclosure.close :: rest)))) := by
              rw [List.intercalate_cons_cons]
              simp only [List.append_assoc, List.cons_append]
            rw [htext]
            exact readParts_more hread hcomma hnext hmore

/-- What the writer puts behind an opening bracket is read up to the closing one. -/
theorem readEnclosed_enclose (style : Style) (depth : Nat) (opening : Char)
    {texts : List (List Char)} (hspells : List.Forall₂ (Spells part) texts values) :
    ∃ body, enclose style depth opening enclosure.close texts = opening :: body ∧
      ∀ rest, Yields (readEnclosed enclosure part (body ++ rest)) values rest := by
  obtain ⟨hmark, -⟩ := of_mem_closings hclose
  cases hspells with
  | nil =>
      refine ⟨[enclosure.close], rfl, fun rest => ?_⟩
      have hnext : nextMark? (enclosure.close :: rest) = some (.before enclosure.close rest) := by
        rw [nextMark?, if_neg (by simp [hmark])]
      rw [List.singleton_append, readEnclosed, hnext]
      dsimp only [Parsed.before]
      rw [if_pos rfl]
      exact yields_before [] rest
  | @cons text value texts values hpart hspells =>
      refine ⟨style.lineBreak (depth + 1) ++
        ((',' :: style.lineBreak (depth + 1)).intercalate (text :: texts) ++
          (style.lineBreak depth ++ [enclosure.close])), by simp [enclose], fun rest => ?_⟩
      obtain ⟨⟨next, hnext, hopen⟩, hread⟩ := readParts_intercalate hclose
        (blank_lineBreak style (depth + 1)) (blank_lineBreak style depth) (.cons hpart hspells)
        (List.cons_ne_nil text texts) rest
      have htext : style.lineBreak (depth + 1) ++
          ((',' :: style.lineBreak (depth + 1)).intercalate (text :: texts) ++
            (style.lineBreak depth ++ [enclosure.close])) ++ rest =
          style.lineBreak (depth + 1) ++
            ((',' :: style.lineBreak (depth + 1)).intercalate (text :: texts) ++
              (style.lineBreak depth ++ enclosure.close :: rest)) := by
        simp only [List.append_assoc, List.singleton_append]
      rw [htext, readEnclosed, hnext]
      dsimp only
      rw [if_neg hopen]
      exact hread

end Enclosed

theorem spells_member {reader : Reader Json} {item : Json} (style : Style) (key : String)
    (hitem : Spells reader text item) :
    Spells (readMember reader) (quote key.toList ++ style.colon ++ text) (key, item) := by
  obtain ⟨colonBlanks, hcolon, hcolonBlanks⟩ := colon_eq style
  have htext : quote key.toList ++ style.colon ++ text =
      '"' :: (key.toList.flatMap escape ++ '"' :: ':' :: (colonBlanks ++ text)) := by
    simp [quote, hcolon]
  rw [htext]
  refine ⟨⟨_, _, rfl, by decide, by decide⟩, fun {blanks rest} hblanks hends => ?_⟩
  obtain ⟨shorter, hnext⟩ := nextMark?_eq (c := '"') hblanks (by decide)
    (key.toList.flatMap escape ++ '"' :: ':' :: (colonBlanks ++ (text ++ rest)))
  obtain ⟨shorterKey, hkey⟩ :=
    readQuoted_escaped key.toList (':' :: (colonBlanks ++ (text ++ rest)))
  obtain ⟨shorterItem, hitem⟩ := hitem.reads hcolonBlanks hends
  have hmark : nextMark? (':' :: (colonBlanks ++ (text ++ rest))) =
      some (.before ':' (colonBlanks ++ (text ++ rest))) := rfl
  have hwhole : '"' :: (key.toList.flatMap escape ++ '"' :: ':' :: (colonBlanks ++ text)) ++ rest =
      '"' :: (key.toList.flatMap escape ++ '"' :: ':' :: (colonBlanks ++ (text ++ rest))) := by
    simp only [List.cons_append, List.append_assoc]
  rw [hwhole, readMember, hnext]
  dsimp only
  rw [if_pos rfl, hkey, ok_bind, hmark]
  dsimp only [Parsed.before]
  rw [if_pos rfl, hitem, ok_bind, String.ofList_toList]
  exact ⟨_, rfl⟩

end Parts

/-! ### Documents -/

theorem spells_readBehindBlanks {nested : Option (Reader Json)} {document : Json}
    (hmark : isBlank c = false) (hopen : c ∉ closings)
    (hread : ∀ rest, Ends rest → Yields (readFrom nested c (more ++ rest)) document rest) :
    Spells (readBehindBlanks nested) (c :: more) document := by
  refine ⟨⟨c, more, rfl, hmark, hopen⟩, fun {blanks rest} hblanks hends => ?_⟩
  obtain ⟨shorter, hnext⟩ := nextMark?_eq hblanks hmark (more ++ rest)
  obtain ⟨shorterRest, hread⟩ := hread rest hends
  rw [List.cons_append, readBehindBlanks, hnext]
  dsimp only
  rw [hread]
  exact ⟨_, rfl⟩

section Scalars

variable (nested : Option (Reader Json))

theorem spells_word {result : Json} {letters : List Char} (hmark : isBlank c = false)
    (hopen : c ∉ closings)
    (hword : ∀ rest, readFrom nested c rest = readWord result letters rest) :
    Spells (readBehindBlanks nested) (c :: letters) result := by
  apply spells_readBehindBlanks hmark hopen
  intro rest _
  rw [hword]
  exact readWord_append result letters rest

theorem spells_string (text : String) :
    Spells (readBehindBlanks nested) (quote text.toList) (.string text) := by
  have hquote : quote text.toList = '"' :: (text.toList.flatMap escape ++ ['"']) := rfl
  rw [hquote]
  apply spells_readBehindBlanks (by decide) (by decide)
  intro rest _
  have hread := (readQuoted_escaped text.toList rest).map_later fun text =>
    Json.string (String.ofList text)
  have htext : text.toList.flatMap escape ++ ['"'] ++ rest =
      text.toList.flatMap escape ++ '"' :: rest := by
    simp only [List.append_assoc, List.singleton_append]
  rw [htext]
  rwa [String.ofList_toList] at hread

theorem readFrom_digit (hdigit : c.isDigit = true) (rest : List Char) :
    readFrom nested c rest =
      (readNumber false (c :: rest) >>= fun number => .ok (number.map Json.number)) := by
  have hne : ∀ letter : Char, letter.isDigit = false → c ≠ letter := by
    rintro letter hletter rfl
    exact absurd hdigit (by simp [hletter])
  unfold readFrom
  rw [if_neg (hne _ (by decide)), if_neg (hne _ (by decide)), if_neg (hne _ (by decide)),
    if_neg (hne _ (by decide)), if_pos hdigit]
  rfl

theorem spells_integer (value : Int) (least : -0x8000000000000000 ≤ value)
    (greatest : value < 0x10000000000000000) :
    Spells (readBehindBlanks nested) (JsonNumber.text (.integer value least greatest))
      (.number (.integer value least greatest)) := by
  have hfits : value.natAbs ≤ NumberLiteral.greatestSignificand := by
    rw [NumberLiteral.greatestSignificand]
    omega
  have hinteger : JsonNumber.ofInt? value = some (.integer value least greatest) :=
    dif_pos ⟨least, greatest⟩
  by_cases hnegative : value < 0
  · have hvalue : (if true = true then -(value.natAbs : Int) else value.natAbs) = value := by
      rw [if_pos rfl]
      omega
    have htext : JsonNumber.text (.integer value least greatest) =
        '-' :: Nat.toDigits 10 value.natAbs := by
      rw [JsonNumber.text, if_pos hnegative, List.singleton_append]
    rw [htext]
    apply spells_readBehindBlanks (by decide) (by decide)
    intro rest hends
    have hread := readNumber_toDigits hfits (fun _ => by omega)
      ((congrArg JsonNumber.ofInt? hvalue).trans hinteger) hends
    exact hread.map_later Json.number
  · have hvalue : (if false = true then -(value.natAbs : Int) else value.natAbs) = value := by
      rw [if_neg (by decide)]
      omega
    obtain ⟨c, digits, hdigits, hdigit, -⟩ := exists_toDigits_cons value.natAbs
    have htext : JsonNumber.text (.integer value least greatest) = c :: digits := by
      rw [JsonNumber.text, if_neg hnegative, List.nil_append, hdigits]
    have hmark : isBlank c = false :=
      Bool.eq_false_iff.mpr fun hblank => by simp [(of_isBlank hblank).1] at hdigit
    have hopen : c ∉ closings := fun hmem => by simp [(of_mem_closings hmem).2.2.1] at hdigit
    rw [htext]
    apply spells_readBehindBlanks hmark hopen
    intro rest hends
    have hread := readNumber_toDigits hfits (by simp)
      ((congrArg JsonNumber.ofInt? hvalue).trans hinteger) hends
    rw [hdigits] at hread
    rw [readFrom_digit nested hdigit]
    exact hread.map Json.number

end Scalars

theorem writeItems_eq_map (style : Style) (depth : Nat) (items : List Json) :
    writeItems style depth items = items.map (write style depth) := by
  induction items with
  | nil => rfl
  | cons item rest ih => rw [writeItems, ih, List.map_cons]

theorem writeMembers_eq_map (style : Style) (depth : Nat) (members : List (String × Json)) :
    writeMembers style depth members = members.map fun member =>
      quote member.1.toList ++ style.colon ++ write style depth member.2 := by
  induction members with
  | nil => rfl
  | cons member rest ih => rw [writeMembers, ih, List.map_cons]

theorem spells_write {document : Json} (hfree : document.FloatFree) {levels : Nat}
    (hshaped : Shaped levels document) (style : Style) (depth : Nat) :
    Spells (readValue levels) (write style depth document) document := by
  induction document using Json.induction generalizing levels depth with
  | null =>
      rw [readValue_eq, write]
      exact spells_word _ (by decide) (by decide) fun _ => rfl
  | bool value =>
      rw [readValue_eq]
      cases value <;> exact spells_word _ (by decide) (by decide) fun _ => rfl
  | number number =>
      cases number with
      | float value finite =>
          cases hfree with
          | leaf hatom => exact absurd rfl (hatom value)
      | integer value least greatest =>
          rw [readValue_eq, write]
          exact spells_integer _ value least greatest
  | string text =>
      rw [readValue_eq, write]
      exact spells_string _ text
  | array items ih =>
      obtain ⟨inner, rfl, hitems⟩ := shaped_array_iff.mp hshaped
      have hspells : List.Forall₂ (Spells (readValue inner)) (writeItems style (depth + 1) items)
          items := by
        rw [writeItems_eq_map, List.forall₂_map_left_iff, List.forall₂_same]
        exact fun item hitem => ih item hitem (hfree.of_array item hitem) (hitems item hitem) _
      have hclose : Enclosure.array.close ∈ closings := by decide
      obtain ⟨body, htext, hread⟩ := readEnclosed_enclose hclose style depth '[' hspells
      have hwrite : write style depth (.array items) = '[' :: body := htext
      rw [readValue_eq, hwrite]
      apply spells_readBehindBlanks (by decide) (by decide)
      intro rest _
      exact (hread rest).map_later Json.array
  | object members ih =>
      obtain ⟨inner, rfl, hkeys, hmembers⟩ := shaped_object_iff.mp hshaped
      have hspells : List.Forall₂ (Spells (readMember (readValue inner)))
          (writeMembers style (depth + 1) members) members := by
        rw [writeMembers_eq_map, List.forall₂_map_left_iff, List.forall₂_same]
        exact fun member hmember => spells_member style member.1
          (ih member hmember (hfree.of_object member hmember) (hmembers member hmember) _)
      have hclose : Enclosure.object.close ∈ closings := by decide
      obtain ⟨body, htext, hread⟩ := readEnclosed_enclose hclose style depth '{' hspells
      have hwrite : write style depth (.object members) = '{' :: body := htext
      rw [readValue_eq, hwrite]
      apply spells_readBehindBlanks (by decide) (by decide)
      intro rest _
      have hobject := (hread rest).map_later fun members => Json.object (Table.ofList members)
      rw [hkeys.ofList_eq] at hobject
      exact hobject

/-- **What is written is read back.** The text of a document that is not nested too deep, repeats no
key and holds no double is read as this document, whatever the style. -/
theorem parse_render {document : Json} (hfree : document.FloatFree)
    (hshaped : Shaped greatestNesting document) (style : Style) :
    parse (document.render style) = .ok document := by
  obtain ⟨shorter, hread⟩ :=
    (spells_write hfree hshaped style 0).reads (List.forall_mem_nil _) ends_nil
  have htext : (document.render style).toList = [] ++ (write style 0 document ++ []) := by
    rw [render, String.toList_ofList, List.nil_append, List.append_nil]
  have hwhole : read greatestNesting (document.render style).toList = .ok document := by
    rw [htext, read, hread]
    rfl
  rw [parse, hwhole]

end TreeProjection.Json
