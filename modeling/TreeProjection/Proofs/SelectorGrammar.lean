import Mathlib.Data.List.Chain
import Mathlib.Logic.ExistsUnique
import Mathlib.Tactic.Common
import TreeProjection.Proofs.SelectorReading
import TreeProjection.Proofs.Tables

/-!
# The grammar of selector texts

One level of a balanced text is made of commas, labels and groups in brackets, in one way only. A
label followed by a group is an attribute with a child, a group on its own an attribute with the
empty name, any other label a bare attribute. `Denotes` reads the selector off this, level by level,
and finds the one that the reader finds (`denotes_iff_eq_parse`).
-/

namespace TreeProjection

namespace Selector

inductive Token where
  | comma
  | label (text : String)
  | group (inner : String)
deriving DecidableEq

namespace Token

def chars : Token → List Char
  | .comma => [',']
  | .label text => text.toList
  | .group inner => '[' :: inner.toList ++ [']']

def Valid : Token → Prop
  | .comma => True
  | .label text => text ≠ "" ∧ ∀ c ∈ text.toList, IsLabelChar c
  | .group inner => Balanced inner.toList

instance : DecidablePred Valid
  | .comma => inferInstanceAs (Decidable True)
  | .label _ => @instDecidableAnd _ _ inferInstance (List.decidableBAll ..)
  | .group inner => inferInstanceAs (Decidable (Balanced inner.toList))

def isLabel : Token → Bool
  | .label _ => true
  | _ => false

end Token

/-- A text is cut into tokens, each label being as long as it can be. -/
structure Splits (text : List Char) (tokens : List Token) : Prop where
  chars : tokens.flatMap Token.chars = text
  valid : ∀ token ∈ tokens, token.Valid
  maximal : tokens.IsChain fun token next => ¬(token.isLabel = true ∧ next.isLabel = true)

/-- The attributes that the tokens of one level spell, each with the text of its child. -/
def items : List Token → List (String × Option String)
  | [] => []
  | .comma :: rest => items rest
  | .group inner :: rest => ("", some inner) :: items rest
  | .label text :: .group inner :: rest => (text, some inner) :: items rest
  | .label text :: rest => (text, none) :: items rest

def firstAppearances (spelled : List (String × Option String)) : List String :=
  (spelled.map Prod.fst).eraseDups

def lastChild? (spelled : List (String × Option String)) (key : String) : Option (Option String) :=
  Table.get? spelled.reverse key

/-- The selector that a text spells: the attributes of its outermost level in the order of their
first appearances, each once and with its last child, where the groups spell the children. -/
inductive Denotes : String → Selector → Prop where
  | intro {text : String} {tokens : List Token} {entries : List (String × Option Selector)}
      (children : String → Selector) (hsplits : Splits text.toList tokens)
      (hgroups : ∀ inner, .group inner ∈ tokens → Denotes inner (children inner))
      (hkeys : Table.keys entries = firstAppearances (items tokens))
      (hchildren : ∀ key, Table.get? entries key =
        (lastChild? (items tokens) key).map (Option.map children)) :
      Denotes text ⟨entries⟩

/-! ### Cutting a text -/

namespace Splits

variable {text : List Char} {tokens : List Token}

theorem nil : Splits [] [] := ⟨rfl, by simp, .nil⟩

theorem cons {token : Token} (hsplits : Splits text tokens) (hvalid : token.Valid)
    (hmaximal : ∀ next ∈ tokens.head?, ¬(token.isLabel = true ∧ next.isLabel = true)) :
    Splits (token.chars ++ text) (token :: tokens) := by
  refine ⟨?_, ?_, List.isChain_cons.mpr ⟨hmaximal, hsplits.maximal⟩⟩
  · rw [List.flatMap_cons, hsplits.chars]
  · intro other hother
    rcases List.mem_cons.mp hother with rfl | hrest
    · exact hvalid
    · exact hsplits.valid other hrest

theorem tail {token : Token} (hsplits : Splits text (token :: tokens)) :
    Splits (tokens.flatMap Token.chars) tokens :=
  ⟨rfl, fun other hother => hsplits.valid other (List.mem_cons_of_mem _ hother),
    (List.isChain_cons.mp hsplits.maximal).2⟩

/-- A label character in front lengthens a label, or makes one. -/
theorem exists_label_cons (hsplits : Splits text tokens) {c : Char} (hlabel : IsLabelChar c) :
    ∃ longer, Splits (c :: text) longer := by
  have hsingle : (Token.label (String.singleton c)).Valid := by
    refine ⟨?_, ?_⟩
    · intro hempty
      simpa using congrArg String.toList hempty
    · simpa using hlabel
  cases tokens with
  | nil =>
      have hnew := hsplits.cons hsingle (by simp)
      rw [Token.chars, String.toList_singleton] at hnew
      exact ⟨_, hnew⟩
  | cons token rest =>
      cases token with
      | label label =>
          obtain ⟨hne, hchars⟩ := hsplits.valid _ (List.mem_cons_self ..)
          have hlonger : (Token.label (String.ofList (c :: label.toList))).Valid := by
            refine ⟨?_, ?_⟩
            · intro hempty
              simpa using congrArg String.toList hempty
            · simpa using ⟨hlabel, hchars⟩
          have hnew := hsplits.tail.cons hlonger (List.isChain_cons.mp hsplits.maximal).1
          rw [Token.chars, String.toList_ofList] at hnew
          rw [← hsplits.chars, List.flatMap_cons]
          exact ⟨_, hnew⟩
      | _ =>
          have hnew := hsplits.cons hsingle (by simp [Token.isLabel])
          rw [Token.chars, String.toList_singleton] at hnew
          exact ⟨_, hnew⟩

end Splits

theorem Balanced.exists_splits {text : List Char} (hbalanced : Balanced text) :
    ∃ tokens, Splits text tokens := by
  induction hlength : text.length using Nat.strongRecOn generalizing text with
  | ind length ih =>
      subst hlength
      cases text with
      | nil => exact ⟨[], .nil⟩
      | cons c text =>
          by_cases hopen : c = '['
          · subst hopen
            rw [Balanced, openAfter_open] at hbalanced
            obtain ⟨before, after, rfl, hbefore, hafter⟩ :=
              exists_closing 0 0 hbalanced le_rfl
            -- The group reaches up to its own closing bracket; what is left is balanced again.
            obtain ⟨tokens, hsplits⟩ := ih after.length (by simp; omega) hafter rfl
            have hvalid : (Token.group (String.ofList before)).Valid := by
              rwa [Token.Valid, String.toList_ofList]
            have hnew := hsplits.cons hvalid (by simp [Token.isLabel])
            rw [Token.chars, String.toList_ofList, List.append_assoc] at hnew
            exact ⟨_, hnew⟩
          · have hclose : c ≠ ']' := by
              rintro rfl
              rw [Balanced, openAfter_close_zero] at hbalanced
              exact absurd hbalanced (by simp)
            rw [Balanced, openAfter_other hopen hclose] at hbalanced
            obtain ⟨tokens, hsplits⟩ := ih text.length (by simp) hbalanced rfl
            by_cases hcomma : c = ','
            · subst hcomma
              have hvalid : Token.comma.Valid := trivial
              exact ⟨_, hsplits.cons hvalid (by simp [Token.isLabel])⟩
            · exact hsplits.exists_label_cons ⟨hcomma, hopen, hclose⟩

theorem label_append_inj {first second after after' : List Char}
    (hfirst : ∀ c ∈ first, IsLabelChar c) (hsecond : ∀ c ∈ second, IsLabelChar c)
    (hafter : ∀ c ∈ after.head?, ¬IsLabelChar c) (hafter' : ∀ c ∈ after'.head?, ¬IsLabelChar c)
    (heq : first ++ after = second ++ after') : first = second ∧ after = after' := by
  induction first generalizing second with
  | nil =>
      cases second with
      | nil => exact ⟨rfl, heq⟩
      | cons c second =>
          rw [List.nil_append] at heq
          subst heq
          exact absurd (hsecond c (List.mem_cons_self ..)) (hafter c rfl)
  | cons c first ih =>
      cases second with
      | nil =>
          rw [List.nil_append] at heq
          subst heq
          exact absurd (hfirst c (List.mem_cons_self ..)) (hafter' c rfl)
      | cons d second =>
          obtain ⟨rfl, htail⟩ := List.cons.inj heq
          obtain ⟨rfl, hrest⟩ := ih (fun e he => hfirst e (List.mem_cons_of_mem _ he))
            (fun e he => hsecond e (List.mem_cons_of_mem _ he)) htail
          exact ⟨rfl, hrest⟩

def Token.StartsWith : Token → Char → Prop
  | .comma, c => c = ','
  | .label _, c => IsLabelChar c
  | .group _, c => c = '['

def Token.SameKind : Token → Token → Prop
  | .comma, .comma => True
  | .label _, .label _ => True
  | .group _, .group _ => True
  | _, _ => False

theorem Token.Valid.chars_eq_cons {token : Token} (hvalid : token.Valid) :
    ∃ c rest, token.chars = c :: rest ∧ token.StartsWith c := by
  cases token with
  | comma => exact ⟨',', [], rfl, rfl⟩
  | group inner => exact ⟨'[', inner.toList ++ [']'], rfl, rfl⟩
  | label text =>
      obtain ⟨hne, hchars⟩ := hvalid
      cases hlist : text.toList with
      | nil => exact absurd (String.toList_inj.mp (hlist.trans String.toList_empty.symm)) hne
      | cons c rest => exact ⟨c, rest, hlist, hchars c (hlist ▸ List.mem_cons_self ..)⟩

/-- The first character of a token tells what kind of token it is. -/
theorem Token.StartsWith.sameKind {token token' : Token} {c : Char} (hstarts : token.StartsWith c)
    (hstarts' : token'.StartsWith c) : token.SameKind token' := by
  cases token <;> cases token' <;> simp_all [StartsWith, SameKind, IsLabelChar]

namespace Splits

theorem head_behind_label {text : List Char} {label : String} {tokens : List Token}
    (hsplits : Splits text (.label label :: tokens)) :
    ∀ c ∈ (tokens.flatMap Token.chars).head?, ¬IsLabelChar c := by
  cases tokens with
  | nil => simp
  | cons token rest =>
      cases token with
      | comma => simp [Token.chars, IsLabelChar]
      | group inner => simp [Token.chars, IsLabelChar]
      | label other =>
          have hmaximal := (List.isChain_cons_cons.mp hsplits.maximal).1
          simp [Token.isLabel] at hmaximal

theorem unique {text : List Char} {first second : List Token} (hfirst : Splits text first)
    (hsecond : Splits text second) : first = second := by
  induction first generalizing text second with
  | nil =>
      cases second with
      | nil => rfl
      | cons token rest =>
          obtain ⟨c, others, hchars, -⟩ :=
            (hsecond.valid token (List.mem_cons_self ..)).chars_eq_cons
          have heq := hfirst.chars.trans hsecond.chars.symm
          simp [hchars] at heq
  | cons token rest ih =>
      have hvalid := hfirst.valid token (List.mem_cons_self ..)
      obtain ⟨c, others, hchars, hstarts⟩ := hvalid.chars_eq_cons
      cases second with
      | nil =>
          have heq := hfirst.chars.trans hsecond.chars.symm
          simp [hchars] at heq
      | cons token' rest' =>
          have hvalid' := hsecond.valid token' (List.mem_cons_self ..)
          obtain ⟨c', others', hchars', hstarts'⟩ := hvalid'.chars_eq_cons
          have heq := hfirst.chars.trans hsecond.chars.symm
          rw [List.flatMap_cons, List.flatMap_cons] at heq
          have hhead : c = c' := by
            rw [hchars, hchars'] at heq
            exact (List.cons.inj heq).1
          have hsame := hstarts.sameKind (hhead ▸ hstarts')
          have hboth : token = token' ∧
              rest.flatMap Token.chars = rest'.flatMap Token.chars := by
            cases token with
            | comma =>
                cases token' with
                | comma => exact ⟨rfl, (List.cons.inj heq).2⟩
                | _ => exact hsame.elim
            | label text =>
                cases token' with
                | label text' =>
                    obtain ⟨htext, hrest⟩ := label_append_inj hvalid.2 hvalid'.2
                      hfirst.head_behind_label hsecond.head_behind_label heq
                    exact ⟨congrArg Token.label (String.toList_inj.mp htext), hrest⟩
                | _ => exact hsame.elim
            | group inner =>
                cases token' with
                | group inner' =>
                    simp only [Token.chars, List.cons_append, List.append_assoc,
                      List.cons.injEq, true_and, List.nil_append] at heq
                    obtain ⟨hinner, hrest⟩ := append_close_inj hvalid hvalid' heq
                    exact ⟨congrArg Token.group (String.toList_inj.mp hinner), hrest⟩
                | _ => exact hsame.elim
          obtain ⟨rfl, hrest⟩ := hboth
          rw [ih hfirst.tail (hrest ▸ hsecond.tail)]

end Splits

theorem Balanced.existsUnique_splits {text : List Char} (hbalanced : Balanced text) :
    ∃! tokens, Splits text tokens := by
  obtain ⟨tokens, hsplits⟩ := hbalanced.exists_splits
  exact ⟨tokens, hsplits, fun other hother => hother.unique hsplits⟩

/-! ### Reading token by token -/

/-- What a token does to the level that is being read. -/
def OpenLevel.take (level : OpenLevel) : Token → OpenLevel
  | .comma => level.commit
  | .label text => ⟨level.entries, level.label ++ text⟩
  | .group inner => level.nest (parse inner)

theorem readLevels_token {token : Token} (hvalid : token.Valid) (level : OpenLevel)
    (around : List OpenLevel) (rest : List Char) :
    readLevels level around (token.chars ++ rest) = readLevels (level.take token) around rest := by
  cases token with
  | comma => exact readLevels_comma ..
  | label text =>
      rw [Token.chars, readLevels_label hvalid.2, String.ofList_toList]
      rfl
  | group inner =>
      rw [Token.chars, List.cons_append, List.cons_append, readLevels_open, List.append_assoc]
      exact (Balanced.readsAs hvalid).nest_eq ..

theorem readLevels_tokens {tokens : List Token} (hvalid : ∀ token ∈ tokens, token.Valid)
    (level : OpenLevel) (around : List OpenLevel) (rest : List Char) :
    readLevels level around (tokens.flatMap Token.chars ++ rest) =
      readLevels (tokens.foldl OpenLevel.take level) around rest := by
  induction tokens generalizing level with
  | nil => rfl
  | cons token tokens ih =>
      rw [List.flatMap_cons, List.append_assoc,
        readLevels_token (hvalid token (List.mem_cons_self ..)),
        ih fun other hother => hvalid other (List.mem_cons_of_mem _ hother), List.foldl_cons]

/-- The attributes that tokens spell, as the reader finds them. -/
def spelled (tokens : List Token) : List (String × Option Selector) :=
  (items tokens).map fun item => (item.1, item.2.map parse)

/-- Between two attributes the label is empty, so what was read so far is what they spell. -/
theorem foldl_take_eq {text : List Char} {tokens : List Token} (hsplits : Splits text tokens)
    (entries : List (String × Option Selector)) :
    (tokens.foldl OpenLevel.take ⟨entries, ""⟩).commit.entries =
      (spelled tokens).foldl (fun table pair => Table.insert table pair.1 pair.2) entries := by
  fun_induction items tokens generalizing text entries with
  | case1 => rfl
  | case2 rest ih => exact ih hsplits.tail entries
  | case3 inner rest ih => exact ih hsplits.tail _
  | case4 label inner rest ih =>
      rw [List.foldl_cons, List.foldl_cons, OpenLevel.take, OpenLevel.take, OpenLevel.nest,
        String.empty_append]
      exact ih hsplits.tail.tail _
  | case5 label rest hnot ih =>
      have hne : label ≠ "" := (hsplits.valid _ (List.mem_cons_self ..)).1
      rw [List.foldl_cons, OpenLevel.take, String.empty_append]
      cases rest with
      | nil =>
          rw [List.foldl_nil, OpenLevel.commit_of_ne hne]
          rfl
      | cons token rest =>
          cases token with
          | comma =>
              have hrest := ih hsplits.tail (Table.insert entries label none)
              rw [List.foldl_cons, OpenLevel.take, OpenLevel.commit_of_ne hne]
              exact hrest
          | label other => exact absurd ⟨rfl, rfl⟩ (List.isChain_cons_cons.mp hsplits.maximal).1
          | group inner => exact (hnot inner rest rfl).elim

theorem Splits.read_eq {text : List Char} {tokens : List Token} (hsplits : Splits text tokens) :
    read text = (ofList (spelled tokens), []) := by
  have htext : tokens.flatMap Token.chars ++ [] = text := by
    rw [List.append_nil, hsplits.chars]
  rw [read, ← htext, readLevels_tokens hsplits.valid, readLevels_nil, OpenLevel.closeAll,
    List.foldl_nil, OpenLevel.close, OpenLevel.empty, foldl_take_eq hsplits]
  rfl

theorem Splits.keys_parse {text : String} {tokens : List Token}
    (hsplits : Splits text.toList tokens) :
    (parse text).keys = firstAppearances (items tokens) := by
  rw [parse, hsplits.read_eq, keys, ofList, Table.keys_ofList, spelled, firstAppearances]
  simp [Table.keys, Function.comp_def]

theorem Splits.get?_parse {text : String} {tokens : List Token}
    (hsplits : Splits text.toList tokens) (key : String) :
    (parse text).get? key = (lastChild? (items tokens) key).map (Option.map parse) := by
  rw [parse, hsplits.read_eq, get?, ofList, Table.get?_ofList, spelled, ← List.map_reverse]
  exact Table.get?_map (items tokens).reverse (fun _ child => child.map parse) key

/-! ### Level by level -/

theorem mk_entries (selector : Selector) : ⟨selector.entries⟩ = selector := by
  cases selector
  rfl

theorem mem_of_mem_items {tokens : List Token} {key inner : String}
    (hmem : (key, some inner) ∈ items tokens) : .group inner ∈ tokens := by
  fun_induction items tokens with
  | case1 => simp at hmem
  | case2 rest ih => exact List.mem_cons_of_mem _ (ih hmem)
  | case3 group rest ih =>
      rcases List.mem_cons.mp hmem with heq | hrest
      · simp_all
      · exact List.mem_cons_of_mem _ (ih hrest)
  | case4 label group rest ih =>
      rcases List.mem_cons.mp hmem with heq | hrest
      · simp_all
      · exact List.mem_cons_of_mem _ (List.mem_cons_of_mem _ (ih hrest))
  | case5 label rest hnot ih =>
      rcases List.mem_cons.mp hmem with heq | hrest
      · simp_all
      · exact List.mem_cons_of_mem _ (ih hrest)

theorem group_mem_of_lastChild? {tokens : List Token} {key inner : String}
    (hlast : lastChild? (items tokens) key = some (some inner)) : .group inner ∈ tokens :=
  mem_of_mem_items (List.mem_reverse.mp (Table.mem_of_get?_eq_some hlast))

theorem length_group_lt {tokens : List Token} {inner : String} (hmem : .group inner ∈ tokens) :
    inner.toList.length < (tokens.flatMap Token.chars).length := by
  obtain ⟨before, after, rfl⟩ := List.append_of_mem hmem
  simp [Token.chars]
  omega

theorem Denotes.eq_parse {text : String} {selector : Selector} (hdenotes : Denotes text selector) :
    selector = parse text := by
  induction hdenotes with
  | @intro text tokens entries children hsplits _ hkeys hchildren ih =>
      have hentries : (parse text).entries = entries := by
        have hdistinct : Table.Distinct (parse text).entries := by
          rw [parse, hsplits.read_eq]
          exact Table.distinct_ofList _
        refine hdistinct.ext (hsplits.keys_parse.trans hkeys.symm) fun key => ?_
        rw [hchildren, ← get?, hsplits.get?_parse]
        cases hlast : lastChild? (items tokens) key with
        | none => rfl
        | some child =>
            cases child with
            | none => rfl
            | some inner =>
                have hchild : children inner = parse inner :=
                  ih inner (group_mem_of_lastChild? hlast)
                simp [hchild]
      rw [← hentries, mk_entries]

theorem denotes_parse {text : String} (hbalanced : Balanced text.toList) :
    Denotes text (parse text) := by
  -- The text of a group is shorter than the text that it stands in.
  induction hlength : text.toList.length using Nat.strongRecOn generalizing text with
  | ind length ih =>
      obtain ⟨tokens, hsplits⟩ := hbalanced.exists_splits
      have hgroups : ∀ inner, .group inner ∈ tokens → Denotes inner (parse inner) := by
        intro inner hmem
        refine ih _ ?_ (hsplits.valid _ hmem) rfl
        rw [← hlength, ← hsplits.chars]
        exact length_group_lt hmem
      rw [← mk_entries (parse text)]
      exact .intro parse hsplits hgroups hsplits.keys_parse hsplits.get?_parse

/-- **The grammar.** A balanced text is cut into tokens in one way and read to its end; the
attributes found are those that its tokens spell, and the selector as a whole is the one that the
text denotes. -/
theorem denotes_iff_eq_parse {text : String} (hbalanced : Balanced text.toList) :
    (∃! tokens, Splits text.toList tokens) ∧ trailing text = "" ∧
      (∀ tokens, Splits text.toList tokens →
        (parse text).keys = firstAppearances (items tokens) ∧
        ∀ key, (parse text).get? key = (lastChild? (items tokens) key).map (Option.map parse)) ∧
      ∀ selector, Denotes text selector ↔ selector = parse text := by
  refine ⟨hbalanced.existsUnique_splits, ?_, ?_, ?_⟩
  · rw [trailing, hbalanced.readsAs.read_eq, String.ofList_nil]
  · exact fun tokens hsplits => ⟨hsplits.keys_parse, hsplits.get?_parse⟩
  · refine fun selector => ⟨Denotes.eq_parse, ?_⟩
    rintro rfl
    exact denotes_parse hbalanced

theorem denotes_iff_eq_parse_sample :
    Balanced "a,b[x]b,,[]".toList ∧ trailing "a,b[x]b,,[]" = "" ∧
      (parse "a,b[x]b,,[]").keys = ["a", "b", ""] ∧
      (parse "a,b[x]b,,[]").get? "b" = some none ∧
      (parse "a,b[x]b,,[]").get? "" = some (some (parse "")) ∧
      Denotes "a,b[x]b,,[]" (parse "a,b[x]b,,[]") := by
  have hbalanced : Balanced "a,b[x]b,,[]".toList := by decide
  have hsplits : Splits "a,b[x]b,,[]".toList
      [.label "a", .comma, .label "b", .group "x", .label "b", .comma, .comma, .group ""] :=
    ⟨by decide, by decide, by decide⟩
  obtain ⟨-, htrailing, hfound, hdenotes⟩ := denotes_iff_eq_parse hbalanced
  obtain ⟨hkeys, hchildren⟩ := hfound _ hsplits
  refine ⟨hbalanced, htrailing, ?_, ?_, ?_, (hdenotes _).mpr rfl⟩
  · rw [hkeys]
    decide
  · rw [hchildren]
    rfl
  · rw [hchildren]
    rfl

end Selector

end TreeProjection
