import Mathlib.Algebra.Order.Field.Power
import Mathlib.Data.Rat.Cast.Order
import Mathlib.Tactic.FieldSimp
import Mathlib.Tactic.Linarith
import Mathlib.Tactic.Positivity
import Mathlib.Tactic.Ring
import TreeProjection.Proofs.ShortestDecimal
import TreeProjection.Proofs.WrittenText

/-!
# The text of a number

A numeral is a text that stands for a number: the digits in front of the point and behind it, and
the exponent, say which one (`Numeral`). A decimal that begins and ends with a digit that counts
(`Decimal.Canonical`) is written as a numeral for its number, with an exponent only where the number
is very small or very great (`numeral_write`). So the text of a double is a numeral for its shortest
decimal behind its sign, and that of an integer is its digits behind its sign
(`JsonNumber.spelled_text`).
-/

namespace TreeProjection

/-- Some digits. -/
def IsDigits (text : List Char) : Prop := text ≠ [] ∧ ∀ c ∈ text, c.isDigit = true

/-- Numbers that are written without an exponent: zero, and those from `0.00001` up to sixteen
digits in front of the point. -/
def Ordinary (number : ℚ) : Prop := number = 0 ∨ 10 ^ (-5 : Int) ≤ number ∧ number < 10 ^ (16 : Int)

/-- The text of a number that is not negative, with digits on both sides of the point, or with one
digit in front of it and a signed exponent. There are no zeros that could be left out. -/
inductive Numeral : List Char → ℚ → Prop where
  | positional {whole fraction : List Char} {number : ℚ} (hwhole : IsDigits whole)
      (hfraction : IsDigits fraction) (hfirst : whole.head? = some '0' → whole = ['0'])
      (hlast : fraction.getLast? = some '0' → fraction = ['0'])
      (hnumber : number = Nat.ofDigitChars 10 (whole ++ fraction) 0 * 10 ^ (-fraction.length : Int))
      (hordinary : Ordinary number) : Numeral (whole ++ '.' :: fraction) number
  | scientific {first : Char} {fraction : List Char} {exponent : Int} {number : ℚ}
      (hdigits : IsDigits (first :: fraction)) (hfirst : first ≠ '0')
      (hlast : fraction.getLast? ≠ some '0')
      (hnumber : number =
        Nat.ofDigitChars 10 (first :: fraction) 0 * 10 ^ (exponent - fraction.length))
      (hordinary : ¬Ordinary number) :
      Numeral (first :: (if fraction = [] then [] else '.' :: fraction) ++
        'e' :: (if exponent < 0 then '-' else '+') :: Nat.toDigits 10 exponent.natAbs) number

/-- The text of a number of a document. A double is written as its shortest decimal. -/
inductive JsonNumber.Spelled : JsonNumber → List Char → Prop where
  | integer (value : Int) {least : -0x8000000000000000 ≤ value}
      {greatest : value < 0x10000000000000000} :
      Spelled (.integer value least greatest) (toString value).toList
  | float {value : Binary64} {finite : value.isFinite = true} {body : List Char} {number : ℚ}
      (hbody : Numeral body number) (hshortest : Binary64.IsShortest number value.magnitude) :
      Spelled (.float value finite) ((if value.isNegative then ['-'] else []) ++ body)

/-! ### Digits -/

section Digits

variable {c : Char} {digits : List Char}

theorem digit_bounds (hdigit : c.isDigit = true) :
    c.toNat - '0'.toNat < 10 ∧ (c ≠ '0' → 0 < c.toNat - '0'.toNat) := by
  obtain ⟨hlower, hupper⟩ : 48 ≤ c.toNat ∧ c.toNat ≤ 57 := by
    simpa [Char.isDigit, UInt32.le_iff_toNat_le] using hdigit
  have hzero : '0'.toNat = 48 := rfl
  refine ⟨by omega, fun hne => ?_⟩
  have hdiffer : c.toNat ≠ '0'.toNat := fun heq => hne (Char.toNat_inj.mp heq)
  omega

theorem ofDigitChars_cons_zero (c : Char) (rest : List Char) :
    Nat.ofDigitChars 10 (c :: rest) 0 =
      10 ^ rest.length * (c.toNat - '0'.toNat) + Nat.ofDigitChars 10 rest 0 := by
  rw [Nat.ofDigitChars_cons, Nat.ofDigitChars_eq_ofDigitChars_zero, Nat.mul_zero, Nat.zero_add]

theorem ofDigitChars_lt (hdigits : ∀ c ∈ digits, c.isDigit = true) :
    Nat.ofDigitChars 10 digits 0 < 10 ^ digits.length := by
  induction digits with
  | nil => exact Nat.one_pos
  | cons c rest ih =>
      obtain ⟨hc, hrest⟩ := List.forall_mem_cons.mp hdigits
      calc Nat.ofDigitChars 10 (c :: rest) 0
          = 10 ^ rest.length * (c.toNat - '0'.toNat) + Nat.ofDigitChars 10 rest 0 :=
            ofDigitChars_cons_zero c rest
        _ < 10 ^ rest.length * (c.toNat - '0'.toNat) + 10 ^ rest.length :=
            Nat.add_lt_add_left (ih hrest) _
        _ ≤ 10 ^ rest.length * 10 := Nat.mul_le_mul_left _ (digit_bounds hc).1

theorem le_ofDigitChars_cons (hdigit : c.isDigit = true) (hc : c ≠ '0') (rest : List Char) :
    10 ^ rest.length ≤ Nat.ofDigitChars 10 (c :: rest) 0 := by
  rw [ofDigitChars_cons_zero]
  exact Nat.le_add_right_of_le (Nat.le_mul_of_pos_right _ ((digit_bounds hdigit).2 hc))

theorem ofDigitChars_append_zeros (digits : List Char) (zeros : Nat) :
    Nat.ofDigitChars 10 (digits ++ List.replicate zeros '0') 0 =
      Nat.ofDigitChars 10 digits 0 * 10 ^ zeros := by
  rw [Nat.ofDigitChars_append, Nat.ofDigitChars_replicate_zero, Nat.mul_comm]

theorem ofDigitChars_zeros_append (digits : List Char) (zeros : Nat) :
    Nat.ofDigitChars 10 (List.replicate zeros '0' ++ digits) 0 = Nat.ofDigitChars 10 digits 0 := by
  rw [Nat.ofDigitChars_append, Nat.ofDigitChars_replicate_zero, Nat.mul_zero]

theorem isDigit_of_mem_zeros {zeros : Nat} (hmem : c ∈ List.replicate zeros '0') :
    c.isDigit = true := by
  rw [List.eq_of_mem_replicate hmem]
  decide

end Digits

/-! ### Decimals in a layout -/

namespace Decimal

/-- The digits begin and end with one that counts. -/
structure Canonical (decimal : Decimal) : Prop where
  isDigits : IsDigits decimal.digits
  first : decimal.digits.head? ≠ some '0'
  last : decimal.digits.getLast? ≠ some '0'

variable {decimal : Decimal}

theorem number_eq (digits : List Char) (point : Int) : number ⟨digits, point⟩ =
    Nat.ofDigitChars 10 digits 0 * 10 ^ (point - digits.length) := rfl

theorem Canonical.number_bounds (hcanonical : decimal.Canonical) :
    10 ^ (decimal.point - 1) ≤ decimal.number ∧ decimal.number < 10 ^ decimal.point := by
  obtain ⟨digits, point⟩ := decimal
  obtain ⟨⟨hne, hdigits⟩, hfirst, -⟩ := hcanonical
  have hten : (10 : ℚ) ≠ 0 := by decide
  obtain ⟨c, rest, rfl⟩ := List.exists_cons_of_ne_nil hne
  have hlower : (10 : ℚ) ^ rest.length ≤ Nat.ofDigitChars 10 (c :: rest) 0 := by
    have hc : c ≠ '0' := fun heq => hfirst (congrArg some heq)
    exact_mod_cast le_ofDigitChars_cons (hdigits c List.mem_cons_self) hc rest
  have hupper : (Nat.ofDigitChars 10 (c :: rest) 0 : ℚ) < 10 ^ (c :: rest).length := by
    exact_mod_cast ofDigitChars_lt hdigits
  rw [number_eq]
  dsimp only
  constructor
  · calc (10 : ℚ) ^ (point - 1)
        = 10 ^ rest.length * 10 ^ (point - (c :: rest).length) := by
          rw [← zpow_natCast, ← zpow_add₀ hten, List.length_cons]
          congr 1
          push_cast
          ring
      _ ≤ _ := by gcongr
  · calc (Nat.ofDigitChars 10 (c :: rest) 0 : ℚ) * 10 ^ (point - (c :: rest).length)
        < 10 ^ (c :: rest).length * 10 ^ (point - (c :: rest).length) := by gcongr
      _ = 10 ^ point := by
          rw [← zpow_natCast, ← zpow_add₀ hten]
          congr 1
          ring

theorem Canonical.ordinary_iff (hcanonical : decimal.Canonical) :
    Ordinary decimal.number ↔ -4 ≤ decimal.point ∧ decimal.point ≤ 16 := by
  obtain ⟨hlower, hupper⟩ := hcanonical.number_bounds
  have hten : (1 : ℚ) < 10 := by norm_num
  constructor
  · rintro (hzero | ⟨hleast, hgreatest⟩)
    · rw [hzero] at hlower
      exact absurd hlower (not_le_of_gt (by positivity))
    · have hpoint := (zpow_lt_zpow_iff_right₀ hten).mp (hleast.trans_lt hupper)
      have hbefore := (zpow_lt_zpow_iff_right₀ hten).mp (hlower.trans_lt hgreatest)
      omega
  · rintro ⟨hleast, hgreatest⟩
    refine Or.inr ⟨le_trans ?_ hlower, lt_of_lt_of_le hupper ?_⟩
    · exact zpow_le_zpow_right₀ hten.le (by omega)
    · exact zpow_le_zpow_right₀ hten.le hgreatest

end Decimal

namespace DecimalLayout

theorem isDigits_zero : IsDigits ['0'] := ⟨by decide, List.forall_mem_singleton.mpr (by decide)⟩

section Positional

variable {digits : List Char}

/-- The point stands in front of all digits. -/
theorem numeral_positional_front {point : Int} (hcanonical : Decimal.Canonical ⟨digits, point⟩)
    (hordinary : Ordinary (Decimal.number ⟨digits, point⟩)) (hpoint : point ≤ 0) :
    Numeral (positional ⟨digits, point⟩) (Decimal.number ⟨digits, point⟩) := by
  obtain ⟨⟨hne, hdigits⟩, -, hlast⟩ := hcanonical
  have htext : positional ⟨digits, point⟩ =
      ['0'] ++ '.' :: (List.replicate point.natAbs '0' ++ digits) := if_pos hpoint
  have hvalue : Nat.ofDigitChars 10 (['0'] ++ (List.replicate point.natAbs '0' ++ digits)) 0 =
      Nat.ofDigitChars 10 digits 0 := by
    rw [← List.append_assoc, List.singleton_append, ← List.replicate_succ,
      ofDigitChars_zeros_append]
  rw [htext]
  refine .positional isDigits_zero ⟨by simp [hne], fun c hmem => ?_⟩ (fun _ => rfl) ?_ ?_ hordinary
  · rcases List.mem_append.mp hmem with hmem | hmem
    · exact isDigit_of_mem_zeros hmem
    · exact hdigits c hmem
  · rw [List.getLast?_append_of_ne_nil _ hne]
    exact fun hzero => absurd hzero hlast
  · rw [hvalue, Decimal.number_eq, List.length_append, List.length_replicate]
    congr 2
    omega

/-- The point stands between two digits. -/
theorem numeral_positional_between {places : Nat}
    (hcanonical : Decimal.Canonical ⟨digits, (places : Int)⟩)
    (hordinary : Ordinary (Decimal.number ⟨digits, (places : Int)⟩)) (hpositive : 0 < places)
    (hplaces : places < digits.length) :
    Numeral (positional ⟨digits, places⟩) (Decimal.number ⟨digits, places⟩) := by
  obtain ⟨⟨hne, hdigits⟩, hfirst, hlast⟩ := hcanonical
  have hnone : places - digits.length = 0 := by omega
  have hdrop : digits.drop places ≠ [] := by simpa using hplaces
  have htext : positional ⟨digits, places⟩ = digits.take places ++ '.' :: digits.drop places := by
    rw [positional, if_neg (Int.not_le.mpr (Int.natCast_pos.mpr hpositive))]
    dsimp only [Int.natAbs_natCast]
    rw [hnone, List.replicate_zero, List.append_nil, if_neg (by simpa using hplaces)]
  rw [htext]
  refine .positional ⟨by simp [hne, hpositive.ne'], fun c hc => hdigits c (List.mem_of_mem_take hc)⟩
    ⟨hdrop, fun c hc => hdigits c (List.mem_of_mem_drop hc)⟩ ?_ ?_ ?_ hordinary
  · rw [List.head?_take, if_neg hpositive.ne']
    exact fun hzero => absurd hzero hfirst
  · rw [List.getLast?_drop, if_neg (by omega)]
    exact fun hzero => absurd hzero hlast
  · rw [List.take_append_drop, Decimal.number_eq, List.length_drop]
    congr 2
    omega

/-- The point stands behind all digits, or behind zeros that follow them. -/
theorem numeral_positional_behind {places : Nat}
    (hcanonical : Decimal.Canonical ⟨digits, (places : Int)⟩)
    (hordinary : Ordinary (Decimal.number ⟨digits, (places : Int)⟩))
    (hplaces : digits.length ≤ places) :
    Numeral (positional ⟨digits, places⟩) (Decimal.number ⟨digits, places⟩) := by
  obtain ⟨⟨hne, hdigits⟩, hfirst, -⟩ := hcanonical
  have hpositive : 0 < places := Nat.lt_of_lt_of_le (List.length_pos_iff.mpr hne) hplaces
  have htext : positional ⟨digits, places⟩ =
      digits ++ List.replicate (places - digits.length) '0' ++ '.' :: ['0'] := by
    rw [positional, if_neg (Int.not_le.mpr (Int.natCast_pos.mpr hpositive))]
    dsimp only [Int.natAbs_natCast]
    rw [List.take_of_length_le hplaces, if_pos (by simpa using hplaces)]
  have hvalue : Nat.ofDigitChars 10
      (digits ++ List.replicate (places - digits.length) '0' ++ ['0']) 0 =
      Nat.ofDigitChars 10 digits 0 * 10 ^ (places - digits.length + 1) := by
    rw [List.append_assoc, ← List.replicate_succ', ofDigitChars_append_zeros]
  rw [htext]
  refine .positional ⟨by simp [hne], fun c hmem => ?_⟩ isDigits_zero ?_ (fun _ => rfl) ?_ hordinary
  · rcases List.mem_append.mp hmem with hmem | hmem
    · exact hdigits c hmem
    · exact isDigit_of_mem_zeros hmem
  · rw [List.head?_append_of_ne_nil _ hne]
    exact fun hzero => absurd hzero hfirst
  · rw [hvalue, Decimal.number_eq]
    push_cast
    rw [mul_assoc, ← zpow_natCast, ← zpow_add₀ (by decide)]
    congr 2
    simp only [List.length_singleton]
    omega

theorem numeral_positional {point : Int} (hcanonical : Decimal.Canonical ⟨digits, point⟩)
    (hordinary : Ordinary (Decimal.number ⟨digits, point⟩)) :
    Numeral (positional ⟨digits, point⟩) (Decimal.number ⟨digits, point⟩) := by
  rcases Int.lt_or_le 0 point with hpositive | hfront
  · obtain ⟨places, rfl⟩ := Int.eq_ofNat_of_zero_le hpositive.le
    rcases Nat.lt_or_ge places digits.length with hbetween | hbehind
    · exact numeral_positional_between hcanonical hordinary (Int.natCast_pos.mp hpositive) hbetween
    · exact numeral_positional_behind hcanonical hordinary hbehind
  · exact numeral_positional_front hcanonical hordinary hfront

theorem numeral_scientific {point : Int} (hcanonical : Decimal.Canonical ⟨digits, point⟩)
    (hordinary : ¬Ordinary (Decimal.number ⟨digits, point⟩)) :
    Numeral (JsonNumber.layout.scientific ⟨digits, point⟩) (Decimal.number ⟨digits, point⟩) := by
  obtain ⟨⟨hne, hdigits⟩, hfirst, hlast⟩ := hcanonical
  obtain ⟨first, fraction, rfl⟩ := List.exists_cons_of_ne_nil hne
  have htext : JsonNumber.layout.scientific ⟨first :: fraction, point⟩ =
      first :: (if fraction = [] then [] else '.' :: fraction) ++
        'e' :: (if point - 1 < 0 then '-' else '+') :: Nat.toDigits 10 (point - 1).natAbs := by
    cases fraction <;> by_cases hsign : point - 1 < 0 <;>
      simp [scientific, JsonNumber.layout, hsign]
  rw [htext]
  refine .scientific ⟨hne, hdigits⟩ (fun heq => hfirst (congrArg some heq)) ?_ ?_ hordinary
  · intro hzero
    have hfraction : fraction ≠ [] := by
      rintro rfl
      exact absurd hzero (by decide)
    rw [List.getLast?_cons_of_ne_nil hfraction] at hlast
    exact hlast hzero
  · rw [Decimal.number_eq, List.length_cons]
    congr 2
    push_cast
    ring

end Positional

theorem numeral_write {decimal : Decimal} (hcanonical : decimal.Canonical) :
    Numeral (JsonNumber.layout.write decimal) decimal.number := by
  rw [write]
  split
  · rename_i hpoint
    exact numeral_positional hcanonical (hcanonical.ordinary_iff.mpr hpoint)
  · rename_i hpoint
    exact numeral_scientific hcanonical fun hordinary =>
      hpoint (hcanonical.ordinary_iff.mp hordinary)

end DecimalLayout

/-! ### Numbers of documents -/

namespace Binary64

theorem canonical_significantDigits {n : Nat} (hpositive : 0 < n) (point : Int) :
    Decimal.Canonical ⟨significantDigits n, point⟩ := by
  obtain ⟨zeros, hzeros⟩ := exists_zeros n
  have hfirst (rest : List Char) : Nat.toDigits 10 n ≠ '0' :: rest :=
    Json.head_toDigits_ne_zero hpositive rest
  refine ⟨⟨fun hnil => ?_, fun c hc => isDigit_of_mem_significantDigits hc⟩, fun hhead => ?_, ?_⟩
  · rw [show significantDigits n = [] from hnil, List.nil_append] at hzeros
    cases zeros with
    | zero => exact Nat.toDigits_ne_nil hzeros
    | succ zeros => exact hfirst _ hzeros
  · obtain ⟨rest, hrest⟩ := List.head?_eq_some_iff.mp hhead
    rw [show significantDigits n = '0' :: rest from hrest] at hzeros
    exact hfirst _ hzeros
  · change (significantDigits n).getLast? ≠ some '0'
    rw [significantDigits, List.getLast?_reverse]
    intro hhead
    have hnot := List.head?_dropWhile_not (p := (· == '0')) (Nat.toDigits 10 n).reverse
    rw [hhead] at hnot
    simp at hnot

theorem not_roundsTo_zero (magnitude : Nat) : ¬RoundsTo 0 (magnitude + 1) := by
  intro hrounds
  have habsolute := absolute_pos (Nat.succ_ne_zero magnitude)
  rcases hrounds 0 (Nat.succ_ne_zero magnitude).symm with hnearer | ⟨hequal, -⟩
  · rw [absolute_zero, sub_zero, abs_zero] at hnearer
    exact absurd hnearer (not_lt_of_ge (abs_nonneg _))
  · rw [absolute_zero, sub_zero, abs_zero, zero_sub, abs_neg, abs_eq_zero] at hequal
    exact habsolute.ne' hequal

theorem numeral_shortest (tie : Tie) (magnitude : Nat) :
    Numeral (JsonNumber.layout.write (shortest tie magnitude)) (shortest tie magnitude).number := by
  cases magnitude with
  | zero =>
      have hzero :
          DecimalLayout.write JsonNumber.layout (shortest tie 0) = ['0'] ++ '.' :: ['0'] := by
        rw [shortest, if_pos rfl]
        rfl
      rw [hzero, number_shortest_zero]
      refine .positional DecimalLayout.isDigits_zero DecimalLayout.isDigits_zero (fun _ => rfl)
        (fun _ => rfl) ?_ (Or.inl rfl)
      simp [Nat.ofDigitChars_cons]
  | succ magnitude =>
      obtain ⟨count, multiple, hfound, hshortest⟩ := exists_found tie magnitude
      have hpositive : 0 < multiple := by
        rw [Nat.pos_iff_ne_zero]
        rintro rfl
        have hrounds := hfound.isShortest.rounds
        rw [multipleOf, Nat.cast_zero, zero_mul] at hrounds
        exact not_roundsTo_zero magnitude hrounds
      rw [hshortest]
      exact DecimalLayout.numeral_write (canonical_significantDigits hpositive _)

end Binary64

/-- **The text of a number.** An integer is written as its digits behind its sign; a double is
written behind its sign as the shortest decimal that rounds to it. -/
theorem JsonNumber.spelled_text (number : JsonNumber) : number.Spelled number.text := by
  cases number with
  | integer value least greatest =>
      have htext : text (.integer value least greatest) = (toString value).toList := by
        cases value with
        | ofNat n => simp [text, toString, Int.repr, Nat.repr]
        | negSucc n => simp [text, toString, Int.repr, Nat.repr]
      rw [htext]
      exact .integer value
  | float value finite =>
      exact .float (Binary64.numeral_shortest _ _) (Binary64.isShortest_shortest _ _)

/-- The double next to `10 ^ 23` lies below it. -/
example : JsonNumber.text (.float ⟨0xC4B52D02C7E14AF6⟩ (by decide)) =
    ['-', '1', 'e', '+', '2', '3'] := by
  decide +kernel

end TreeProjection
