import Mathlib.Tactic.Common
import TreeProjection.Json.Reader
import TreeProjection.Json.Writer

/-!
# Strings, numbers and words read back

What the writer makes of a string, of an integer or of one of the three words, the reader takes from
the front of a text again, and leaves what stands behind it (`readQuoted_escaped`,
`readNumber_toDigits`). A number has no end of its own: what stands behind it must not go on with it
(`Ends`).
-/

namespace TreeProjection.Json

variable {α : Type} {bound : Nat}

/-- The reader gives the value and leaves the rest. -/
def Yields (result : Result α bound) (value : α) (rest : List Char) : Prop :=
  ∃ shorter, result = .ok ⟨value, rest, shorter⟩

theorem ok_bind {β : Type} {boundAfter : Nat} (parsed : Parsed α bound)
    (next : Parsed α bound → Result β boundAfter) : (.ok parsed >>= next) = next parsed := rfl

theorem yields_before (value : α) (rest : List Char) :
    Yields (.ok (.before value rest)) value rest := ⟨Nat.lt_succ_self _, rfl⟩

section Map

variable {β : Type} {result : Result α bound} {value : α} {rest : List Char}

theorem Yields.map (hread : Yields result value rest) (f : α → β) :
    Yields (result >>= fun parsed => .ok (parsed.map f)) (f value) rest := by
  obtain ⟨shorter, hread⟩ := hread
  rw [hread]
  exact ⟨shorter, rfl⟩

theorem Yields.map_later (hread : Yields result value rest) (f : α → β) :
    Yields (result >>= fun parsed => .ok (parsed.map f).later) (f value) rest := by
  obtain ⟨shorter, hread⟩ := hread
  rw [hread]
  exact ⟨Nat.lt_succ_of_lt shorter, rfl⟩

end Map

/-! ### Strings -/

section Strings

variable {c : Char} {code rest left text : List Char}

theorem readQuoted_end (rest : List Char) : Yields (readQuoted ('"' :: rest)) [] rest := by
  rw [readQuoted, if_pos rfl]
  exact yields_before [] rest

theorem readQuoted_plain (hquotation : c ≠ '"') (hbackslash : c ≠ '\\')
    (hcontrol : ¬c.toNat < 0x20) (hmore : Yields (readQuoted rest) text left) :
    Yields (readQuoted (c :: rest)) (c :: text) left := by
  obtain ⟨shorter, hmore⟩ := hmore
  rw [readQuoted, if_neg hquotation, if_neg hbackslash, if_neg hcontrol, hmore]
  exact ⟨_, rfl⟩

theorem readQuoted_escape (hescape : Yields (readEscape code) c rest)
    (hmore : Yields (readQuoted rest) text left) :
    Yields (readQuoted ('\\' :: code)) (c :: text) left := by
  obtain ⟨shorter, hescape⟩ := hescape
  obtain ⟨shorterMore, hmore⟩ := hmore
  rw [readQuoted, if_neg (by decide), if_pos rfl, hescape, ok_bind, hmore]
  exact ⟨_, rfl⟩

theorem readEscape_short {letter : Char} (hshort : shortEscape? letter = some c) :
    Yields (readEscape (letter :: rest)) c rest := by
  rw [readEscape, hshort]
  exact yields_before c rest

theorem readHexUnit_digits {a b c d : Char} {first second third fourth : Nat}
    (ha : Text.hexValue? a = some first) (hb : Text.hexValue? b = some second)
    (hc : Text.hexValue? c = some third) (hd : Text.hexValue? d = some fourth) :
    Yields (readHexUnit (a :: b :: c :: d :: rest))
      (((first * 16 + second) * 16 + third) * 16 + fourth) rest := by
  rw [readHexUnit, ha, hb, hc, hd]
  exact ⟨_, rfl⟩

theorem readEscape_code {unit : Nat} (hunit : Yields (readHexUnit code) unit rest)
    (hsmall : unit < 0xD800) : Yields (readEscape ('u' :: code)) (Char.ofNat unit) rest := by
  obtain ⟨shorter, hunit⟩ := hunit
  have htrailing : isTrailingSurrogate unit = false := by
    simp [isTrailingSurrogate]
    omega
  have hleading : isLeadingSurrogate unit = false := by
    simp [isLeadingSurrogate]
    omega
  have hshort : shortEscape? 'u' = none := by decide
  have hcode : Yields (readCodeEscape code) (Char.ofNat unit) rest := by
    rw [readCodeEscape, hunit, ok_bind, htrailing, hleading]
    exact ⟨shorter, rfl⟩
  obtain ⟨shorterCode, hcode⟩ := hcode
  rw [readEscape, hshort]
  dsimp only
  rw [if_pos rfl, hcode]
  exact ⟨_, rfl⟩

/-- The last two of the four digits tell the characters below the space apart. -/
theorem hexDigits_of_lt : ∀ n < 0x20, hexDigits 4 n =
      ['0', '0', Nat.digitChar (n / 16), Nat.digitChar (n % 16)] ∧
    Text.hexValue? (Nat.digitChar (n / 16)) = some (n / 16) ∧
    Text.hexValue? (Nat.digitChar (n % 16)) = some (n % 16) := by
  decide

theorem readEscape_control (hcontrol : c.toNat < 0x20) :
    Yields (readEscape ('u' :: hexDigits 4 c.toNat ++ rest)) c rest := by
  obtain ⟨hdigits, hhigh, hlow⟩ := hexDigits_of_lt c.toNat hcontrol
  have hzero : Text.hexValue? '0' = some 0 := by decide
  have hunit : Yields (readHexUnit (hexDigits 4 c.toNat ++ rest)) c.toNat rest := by
    have hvalue : ((0 * 16 + 0) * 16 + c.toNat / 16) * 16 + c.toNat % 16 = c.toNat := by omega
    have hread : Yields (readHexUnit ('0' :: '0' :: Nat.digitChar (c.toNat / 16) ::
        Nat.digitChar (c.toNat % 16) :: rest)) _ rest :=
      readHexUnit_digits hzero hzero hhigh hlow
    rw [hvalue] at hread
    rw [hdigits]
    exact hread
  have hread := readEscape_code hunit (by omega)
  rwa [Char.ofNat_toNat] at hread

/-- A character is escaped by its short form, by its number, or not at all. -/
theorem escape_cases (c : Char) :
    (∃ letter, escape c = ['\\', letter] ∧ shortEscape? letter = some c) ∨
      (escape c = '\\' :: 'u' :: hexDigits 4 c.toNat ∧ c.toNat < 0x20) ∨
      (escape c = [c] ∧ c ≠ '"' ∧ c ≠ '\\' ∧ ¬c.toNat < 0x20) := by
  by_cases hquotation : c = '"'
  · exact Or.inl ⟨'"', by simp [escape, hquotation], by simp [hquotation, shortEscape?]⟩
  by_cases hbackslash : c = '\\'
  · exact Or.inl ⟨'\\', by simp [escape, hbackslash], by simp [hbackslash, shortEscape?]⟩
  by_cases hback : c = '\x08'
  · exact Or.inl ⟨'b', by simp [escape, hback], by simp [hback, shortEscape?]⟩
  by_cases htab : c = '\t'
  · exact Or.inl ⟨'t', by simp [escape, htab], by simp [htab, shortEscape?]⟩
  by_cases hline : c = '\n'
  · exact Or.inl ⟨'n', by simp [escape, hline], by simp [hline, shortEscape?]⟩
  by_cases hform : c = '\x0c'
  · exact Or.inl ⟨'f', by simp [escape, hform], by simp [hform, shortEscape?]⟩
  by_cases hreturn : c = '\r'
  · exact Or.inl ⟨'r', by simp [escape, hreturn], by simp [hreturn, shortEscape?]⟩
  have hescape : escape c =
      if c.toNat < 0x20 then '\\' :: 'u' :: hexDigits 4 c.toNat else [c] := by
    simp [escape, hquotation, hbackslash, hback, htab, hline, hform, hreturn]
  by_cases hcontrol : c.toNat < 0x20
  · exact Or.inr (Or.inl ⟨hescape.trans (if_pos hcontrol), hcontrol⟩)
  · exact Or.inr (Or.inr ⟨hescape.trans (if_neg hcontrol), hquotation, hbackslash, hcontrol⟩)

theorem readQuoted_escape_append (hmore : Yields (readQuoted rest) text left) (c : Char) :
    Yields (readQuoted (escape c ++ rest)) (c :: text) left := by
  rcases escape_cases c with ⟨letter, hescape, hletter⟩ | ⟨hescape, hcontrol⟩ |
    ⟨hescape, hquotation, hbackslash, hcontrol⟩
  · rw [hescape]
    exact readQuoted_escape (readEscape_short hletter) hmore
  · rw [hescape]
    exact readQuoted_escape (readEscape_control hcontrol) hmore
  · rw [hescape]
    exact readQuoted_plain hquotation hbackslash hcontrol hmore

theorem readQuoted_escaped (text rest : List Char) :
    Yields (readQuoted (text.flatMap escape ++ '"' :: rest)) text rest := by
  induction text with
  | nil => exact readQuoted_end rest
  | cons c text ih =>
      rw [List.flatMap_cons, List.append_assoc]
      exact readQuoted_escape_append ih c

end Strings

/-! ### Integers -/

/-- A number in front of this text ends where the text begins. -/
def Ends (rest : List Char) : Prop :=
  ∀ c ∈ rest.head?, c.isDigit = false ∧ c ≠ '.' ∧ c ≠ 'e' ∧ c ≠ 'E'

theorem head_toDigits_ne_zero {n : Nat} (hpositive : 0 < n) (digits : List Char) :
    Nat.toDigits 10 n ≠ '0' :: digits := by
  induction n using Nat.strongRecOn generalizing digits with
  | _ n ih =>
      intro hzero
      rw [Nat.toDigits_eq_if (by decide)] at hzero
      split at hzero
      · rename_i hsmall
        have hone : ∀ digit < 10, Nat.digitChar digit = '0' → digit = 0 := by decide
        have hhead := hone n hsmall (List.cons.inj hzero).1
        omega
      · rename_i hlarge
        cases hfront : Nat.toDigits 10 (n / 10) with
        | nil => exact Nat.toDigits_ne_nil hfront
        | cons c front =>
            rw [hfront] at hzero
            obtain rfl : c = '0' := (List.cons.inj hzero).1
            exact ih (n / 10) (by omega) (by omega) front hfront

theorem exists_toDigits_cons (n : Nat) : ∃ c digits, Nat.toDigits 10 n = c :: digits ∧
    c.isDigit = true ∧ (∀ d ∈ digits, d.isDigit = true) ∧ (c = '0' → n = 0 ∧ digits = []) := by
  have hdigit : ∀ d ∈ Nat.toDigits 10 n, d.isDigit = true :=
    fun d hmem => Nat.isDigit_of_mem_toDigits (by decide) (by decide) hmem
  cases hdigits : Nat.toDigits 10 n with
  | nil => exact absurd hdigits Nat.toDigits_ne_nil
  | cons c digits =>
      rw [hdigits, List.forall_mem_cons] at hdigit
      refine ⟨c, digits, rfl, hdigit.1, hdigit.2, ?_⟩
      rintro rfl
      have hzero : n = 0 := by
        by_contra hne
        exact head_toDigits_ne_zero (Nat.pos_of_ne_zero hne) digits hdigits
      rw [hzero] at hdigits
      exact ⟨hzero, (List.cons.inj hdigits).2.symm⟩

namespace NumberLiteral

theorem le_ofDigitChars (digits : List Char) (begun : Nat) :
    begun ≤ Nat.ofDigitChars 10 digits begun := by
  induction digits generalizing begun with
  | nil => exact Nat.le_refl begun
  | cons c digits ih =>
      rw [Nat.ofDigitChars_cons]
      have hmore := ih (10 * begun + (c.toNat - '0'.toNat))
      omega

theorem takeDigits_eq {greatest begun : Nat} {digits : List Char}
    (hfits : Nat.ofDigitChars 10 digits begun ≤ greatest) :
    takeDigits greatest begun digits =
      ⟨Nat.ofDigitChars 10 digits begun, digits.length, []⟩ := by
  induction digits generalizing begun with
  | nil => rfl
  | cons c digits ih =>
      rw [Nat.ofDigitChars_cons, Nat.mul_comm 10 begun] at hfits ⊢
      have hlonger := le_ofDigitChars digits (begun * 10 + (c.toNat - '0'.toNat))
      rw [takeDigits]
      dsimp only
      rw [if_pos (Nat.le_trans hlonger hfits), ih hfits]
      rfl

variable {rest : List Char} (hends : Ends rest)
include hends

theorem scanWhole_toDigits (n : Nat) :
    Yields (scanWhole (Nat.toDigits 10 n ++ rest)) (Nat.toDigits 10 n) rest := by
  obtain ⟨c, digits, htext, hc, hdigits, hzero⟩ := exists_toDigits_cons n
  rw [htext]
  by_cases hstart : c = '0'
  · obtain ⟨-, rfl⟩ := hzero hstart
    rw [hstart]
    have hnone : (rest.head?.map Char.isDigit).getD false = false := by
      cases rest with
      | nil => rfl
      | cons d rest => exact (hends d rfl).1
    change Yields (if (rest.head?.map Char.isDigit).getD false then _ else _) _ _
    rw [hnone]
    exact yields_before ['0'] rest
  · have htake : (digits ++ rest).takeWhile Char.isDigit = digits := by
      rw [List.takeWhile_append_of_pos hdigits]
      cases rest with
      | nil => simp
      | cons d rest => simp [(hends d rfl).1]
    have hskip : skipDigits (digits ++ rest) = rest := by
      rw [skipDigits, List.dropWhile_append_of_pos hdigits]
      cases rest with
      | nil => simp
      | cons d rest => simp [(hends d rfl).1]
    have hscan : scanWhole (c :: (digits ++ rest)) = scanDigits (c :: (digits ++ rest)) := by
      rw [scanWhole]
      simpa using hstart
    rw [List.cons_append, hscan, scanDigits, if_pos hc]
    refine ⟨?_, ?_⟩
    · rw [List.length_cons, List.length_append]
      omega
    · congr 2
      rw [htake]

theorem scanFraction_eq : scanFraction rest = .ok (.before none rest) := by
  cases rest with
  | nil => rfl
  | cons c rest =>
      obtain ⟨-, hpoint, -⟩ := hends c rfl
      rw [scanFraction]
      simpa using hpoint

theorem scanExponent_eq : scanExponent rest = .ok (.before none rest) := by
  cases rest with
  | nil => rfl
  | cons c rest =>
      obtain ⟨-, -, hsmall, hlarge⟩ := hends c rfl
      rw [scanExponent, if_neg (by simp [hsmall, hlarge])]

theorem scan_toDigits (negative : Bool) (n : Nat) :
    Yields (scan negative (Nat.toDigits 10 n ++ rest)) ⟨negative, Nat.toDigits 10 n, none, none⟩
      rest := by
  obtain ⟨shorter, hwhole⟩ := scanWhole_toDigits hends n
  rw [scan, hwhole, ok_bind, scanFraction_eq hends, ok_bind]
  dsimp only [Parsed.before]
  rw [scanExponent_eq hends]
  exact ⟨_, rfl⟩

end NumberLiteral

theorem NumberLiteral.value_toDigits {negative : Bool} {n : Nat} {number : JsonNumber}
    (hfits : n ≤ greatestSignificand) (hzero : negative = true → n ≠ 0)
    (hnumber : JsonNumber.ofInt? (if negative then -n else n) = some number) :
    value ⟨negative, Nat.toDigits 10 n, none, none⟩ = .ok number := by
  have hdigits : Nat.ofDigitChars 10 (Nat.toDigits 10 n) 0 = n :=
    Nat.ofDigitChars_toDigits (by decide) (by decide)
  have htaken : takeDigits greatestSignificand 0 (Nat.toDigits 10 n) =
      ⟨n, (Nat.toDigits 10 n).length, []⟩ := by
    have htake := takeDigits_eq (hdigits.symm ▸ hfits)
    rwa [hdigits] at htake
  have hinteger : integer? ⟨negative, Nat.toDigits 10 n, none, none⟩
      ⟨n, (Nat.toDigits 10 n).length, []⟩ = some number := by
    cases negative with
    | false => simpa [integer?] using hnumber
    | true => simpa [integer?, hzero rfl] using hnumber
  rw [value]
  dsimp only
  rw [htaken, hinteger]

theorem readNumber_toDigits {negative : Bool} {n : Nat} {number : JsonNumber} {rest : List Char}
    (hfits : n ≤ NumberLiteral.greatestSignificand) (hzero : negative = true → n ≠ 0)
    (hnumber : JsonNumber.ofInt? (if negative then -n else n) = some number) (hends : Ends rest) :
    Yields (readNumber negative (Nat.toDigits 10 n ++ rest)) number rest := by
  obtain ⟨shorter, hscan⟩ := NumberLiteral.scan_toDigits hends negative n
  have hvalue := NumberLiteral.value_toDigits hfits hzero hnumber
  rw [readNumber, hscan, ok_bind, hvalue]
  exact ⟨shorter, rfl⟩

/-! ### Words -/

theorem readWord_append (result : Json) (letters rest : List Char) :
    Yields (readWord result letters (letters ++ rest)) result rest := by
  induction letters with
  | nil => exact yields_before result rest
  | cons letter letters ih =>
      obtain ⟨shorter, hmore⟩ := ih
      rw [List.cons_append, readWord, if_pos rfl, hmore]
      exact ⟨_, rfl⟩

end TreeProjection.Json
