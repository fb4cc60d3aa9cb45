import SchemaMigration.Proofs.Json.Numbers
import SchemaMigration.Proofs.Number.Range
import SchemaMigration.Sql.Literal

/-!
# Spellings without quotes

What may stand without quotes is given by a grammar: a truth value in letters of either case, or a
sign, digits with at most one point and an exponent, where the sign and the exponent may be left
out. The grammar gives each spelling its value, and the value decides about the range.

## Implementation notes

Every part of a spelling ends where the next one begins: no digit and no point stands in front of an
exponent, and no sign in front of digits. So each part is taken from the front of the text whatever
follows it, and the converse is put together from the parts that were taken.

The grammar of numbers in documents is a part of this one. So what is proved of all spellings holds
of printed numbers too, whatever notation they are printed in.
-/

namespace SchemaMigration.Sql

open Json.Scan (NoDigit)
open Json.Scan.Literal (SpellsExponent)

/-- A text spells a mantissa: the digits in front of its point and those behind it, of which one
part may be missing, or digits without a point. -/
inductive SpellsMantissa : List Char → List Char → List Char → Prop
  | whole {digits : List Char} (hne : digits ≠ []) (hdigits : ∀ c ∈ digits, c.isDigit = true) :
      SpellsMantissa digits [] digits
  | pointed {whole fraction : List Char} (hne : whole ≠ [])
      (hwhole : ∀ c ∈ whole, c.isDigit = true) (hfraction : ∀ c ∈ fraction, c.isDigit = true) :
      SpellsMantissa whole fraction (whole ++ '.' :: fraction)
  | fraction {digits : List Char} (hne : digits ≠ []) (hdigits : ∀ c ∈ digits, c.isDigit = true) :
      SpellsMantissa [] digits ('.' :: digits)

/-- A text spells a decimal: a sign that may be left out, a mantissa, and an exponent that may be
left out. -/
inductive SpellsDecimal : Decimal → List Char → Prop
  | intro {sign whole fraction mantissa ending : List Char} {exponent : Option Int}
      (hsign : sign ∈ [[], ['+'], ['-']]) (hmantissa : SpellsMantissa whole fraction mantissa)
      (hexponent : SpellsExponent exponent ending) :
      SpellsDecimal ⟨decide (sign = ['-']), Nat.ofDigitChars 10 (whole ++ fraction) 0,
        exponent.getD 0 - fraction.length⟩ (sign ++ mantissa ++ ending)

/-- A text is a word of small letters with any of them in capitals. -/
def AnyCase (word : String) (text : List Char) : Prop :=
  List.Forall₂ (fun letter c => c = letter ∨ c = letter.toUpper) word.toList text

/-- The name of a truth value. -/
def truthName (value : Bool) : String := if value then "true" else "false"

/-- A character of a spelt number. -/
def IsNumeralChar (c : Char) : Prop := c.isDigit = true ∨ c ∈ ['-', '+', '.', 'e', 'E']

instance (c : Char) : Decidable (IsNumeralChar c) := inferInstanceAs (Decidable (_ ∨ _))

/-- What a reader of binary64 numbers makes of a text. Behind a sign that may be left out it knows
the names of infinity and of what is no number, in letters of either case, and these are not finite;
a decimal is rounded to the nearest number, which beyond the range is not finite either. -/
inductive ReadsAs : List Char → Option Binary64 → Prop
  | special {sign text : List Char} {name : String} (hsign : sign ∈ [[], ['+'], ['-']])
      (hname : name ∈ ["inf", "infinity", "nan"]) (htext : AnyCase name text) :
      ReadsAs (sign ++ text) none
  | decimal {d : Decimal} {text : List Char} (hspells : SpellsDecimal d text) :
      ReadsAs text d.binary?

/-- A sign is taken from the front of a text that does not go on with another one. -/
theorem takeSign_append {sign rest : List Char} (hsign : sign ∈ [[], ['+'], ['-']])
    (hrest : ∀ c ∈ rest.head?, c ∉ ['+', '-']) :
    takeSign (sign ++ rest) = (decide (sign = ['-']), rest) := by
  simp only [List.mem_cons, List.not_mem_nil, or_false] at hsign
  rcases hsign with rfl | rfl | rfl
  · cases rest with
    | nil => rfl
    | cons c rest =>
        have hc := hrest c rfl
        simp only [List.mem_cons, List.not_mem_nil, or_false, not_or] at hc
        rw [List.nil_append, takeSign]
        · rfl
        · rintro _ ⟨⟩
          exact hc.1 rfl
        · rintro _ ⟨⟩
          exact hc.2 rfl
  · rfl
  · rfl

theorem exists_sign (cs : List Char) : ∃ sign ∈ [[], ['+'], ['-']],
    cs = sign ++ (takeSign cs).2 ∧ (takeSign cs).1 = decide (sign = ['-']) := by
  unfold takeSign
  split
  · exact ⟨['+'], by decide, rfl, rfl⟩
  · exact ⟨['-'], by decide, rfl, rfl⟩
  · exact ⟨[], by decide, rfl, rfl⟩

theorem unsigned_of_digits {digits : List Char} (h : ∀ c ∈ digits, c.isDigit = true) :
    ∀ c ∈ digits.head?, c ∉ ['+', '-'] := by
  intro c hc hsign
  have hdigit := h c (List.mem_of_mem_head? hc)
  simp only [List.mem_cons, List.not_mem_nil, or_false] at hsign
  rcases hsign with rfl | rfl
  · cases hdigit
  · cases hdigit

theorem takeWhile_digits {digits rest : List Char} (h : ∀ c ∈ digits, c.isDigit = true)
    (hrest : NoDigit rest) : (digits ++ rest).takeWhile Char.isDigit = digits ∧
      (digits ++ rest).dropWhile Char.isDigit = rest := by
  have hstop : rest.takeWhile Char.isDigit = [] ∧ rest.dropWhile Char.isDigit = rest := by
    cases rest with
    | nil => exact ⟨rfl, rfl⟩
    | cons c rest => simp [hrest c rfl]
  rw [List.takeWhile_append_of_pos h, List.dropWhile_append_of_pos h, hstop.1, hstop.2,
    List.append_nil]
  exact ⟨rfl, rfl⟩

theorem exponent?_of_spells {exponent : Option Int} {ending : List Char}
    (h : SpellsExponent exponent ending) : exponent? ending = some (exponent.getD 0) := by
  cases h with
  | none => rfl
  | @some mark sign digits hmark hsign hne hdigits =>
      have htake := takeSign_append hsign (unsigned_of_digits hdigits)
      have hletter : mark = 'e' ∨ mark = 'E' := by simpa using hmark
      have hall : digits.all Char.isDigit = true := List.all_eq_true.mpr hdigits
      simp only [exponent?, htake]
      rw [if_pos ⟨hletter, hne, hall⟩]
      simp

theorem exists_spellsExponent {ending : List Char} {place : Int}
    (h : exponent? ending = some place) :
    ∃ exponent, SpellsExponent exponent ending ∧ exponent.getD 0 = place := by
  cases ending with
  | nil => exact ⟨none, .none, Option.some.inj h⟩
  | cons mark rest =>
      obtain ⟨sign, hsign, hrest, hnegative⟩ := exists_sign rest
      unfold exponent? at h
      dsimp only at h
      split at h
      · next hspelt =>
        obtain ⟨hmark, hne, hdigits⟩ := hspelt
        have hexponent : SpellsExponent _ (mark :: (sign ++ (takeSign rest).2)) :=
          .some (by simpa using hmark) hsign hne (List.all_eq_true.mp hdigits)
        rw [← hrest] at hexponent
        refine ⟨_, hexponent, ?_⟩
        rw [hnegative] at h
        simpa using h
      · exact absurd h (by simp)

theorem facts_of_spellsExponent {exponent : Option Int} {ending : List Char}
    (h : SpellsExponent exponent ending) : NoDigit ending ∧ ending.head? ≠ some '.' := by
  cases h with
  | none => simp [NoDigit]
  | @some mark _ _ hmark _ _ _ =>
      have hall : ∀ c ∈ ['e', 'E'], c.isDigit = false ∧ c ≠ '.' := by simp
      simpa [NoDigit] using hall mark hmark

theorem takeFraction_of_head? {rest : List Char} (h : rest.head? ≠ some '.') :
    takeFraction rest = ([], rest) := by
  rw [takeFraction]
  rintro _ rfl
  exact h rfl

/-- A mantissa is taken from the front of a text up to the first character that is neither a digit
nor a point. -/
theorem take_mantissa {whole fraction mantissa rest : List Char}
    (h : SpellsMantissa whole fraction mantissa) (hdigit : NoDigit rest)
    (hpoint : rest.head? ≠ some '.') :
    (mantissa ++ rest).takeWhile Char.isDigit = whole ∧
      takeFraction ((mantissa ++ rest).dropWhile Char.isDigit) = (fraction, rest) := by
  cases h with
  | whole hne hdigits =>
      obtain ⟨htake, hdrop⟩ := takeWhile_digits hdigits hdigit
      exact ⟨htake, by rw [hdrop, takeFraction_of_head? hpoint]⟩
  | @pointed whole fraction hne hwhole hfraction =>
      have hbehind : NoDigit ('.' :: (fraction ++ rest)) := by simp [NoDigit]
      obtain ⟨htake, hdrop⟩ := takeWhile_digits hwhole hbehind
      obtain ⟨hfront, hrest⟩ := takeWhile_digits hfraction hdigit
      rw [List.append_assoc, List.cons_append]
      exact ⟨htake, by rw [hdrop, takeFraction, hfront, hrest]⟩
  | fraction hne hdigits =>
      obtain ⟨hfront, hrest⟩ := takeWhile_digits hdigits hdigit
      exact ⟨rfl, Prod.ext hfront hrest⟩

/-- What is taken as a mantissa is one, unless there is no digit. -/
theorem exists_spellsMantissa {cs : List Char}
    (h : ¬ (cs.takeWhile Char.isDigit = [] ∧ (takeFraction (cs.dropWhile Char.isDigit)).1 = [])) :
    ∃ mantissa, cs = mantissa ++ (takeFraction (cs.dropWhile Char.isDigit)).2 ∧
      SpellsMantissa (cs.takeWhile Char.isDigit) (takeFraction (cs.dropWhile Char.isDigit)).1
        mantissa := by
  have hcs : cs.takeWhile Char.isDigit ++ cs.dropWhile Char.isDigit = cs :=
    List.takeWhile_append_dropWhile
  have hwhole : ∀ c ∈ cs.takeWhile Char.isDigit, c.isDigit = true :=
    List.all_eq_true.mp List.all_takeWhile
  generalize cs.takeWhile Char.isDigit = whole at *
  generalize cs.dropWhile Char.isDigit = behind at *
  subst hcs
  unfold takeFraction at h ⊢
  split at h
  · next rest =>
    have hfraction : ∀ c ∈ rest.takeWhile Char.isDigit, c.isDigit = true :=
      List.all_eq_true.mp List.all_takeWhile
    have hrest : rest.takeWhile Char.isDigit ++ rest.dropWhile Char.isDigit = rest :=
      List.takeWhile_append_dropWhile
    by_cases hnone : whole = []
    · subst hnone
      refine ⟨'.' :: rest.takeWhile Char.isDigit, ?_, .fraction (fun hf => h ⟨rfl, hf⟩) hfraction⟩
      simp [hrest]
    · refine ⟨whole ++ '.' :: rest.takeWhile Char.isDigit, ?_, .pointed hnone hwhole hfraction⟩
      simp [hrest]
  · exact ⟨whole, rfl, .whole (fun hnone => h ⟨hnone, rfl⟩) hwhole⟩

/-- A mantissa begins with a digit or a point. -/
theorem exists_cons_of_spellsMantissa {whole fraction mantissa : List Char}
    (h : SpellsMantissa whole fraction mantissa) :
    ∃ c cs, mantissa = c :: cs ∧ c ∉ ['+', '-'] := by
  have hdigit : ∀ {digits : List Char}, digits ≠ [] → (∀ c ∈ digits, c.isDigit = true) →
      ∃ c cs, digits = c :: cs ∧ c ∉ ['+', '-'] := by
    intro digits hne hdigits
    obtain ⟨c, cs, rfl⟩ := List.exists_cons_of_ne_nil hne
    exact ⟨c, cs, rfl, unsigned_of_digits hdigits c rfl⟩
  cases h with
  | whole hne hdigits => exact hdigit hne hdigits
  | @pointed _ fraction hne hwhole _ =>
      obtain ⟨c, cs, rfl, hc⟩ := hdigit hne hwhole
      exact ⟨c, cs ++ '.' :: fraction, rfl, hc⟩
  | fraction => exact ⟨'.', _, rfl, by decide⟩

/-- The decimals that are read from a text are those that it spells. -/
theorem decimal?_eq_some_iff {text : List Char} {d : Decimal} :
    decimal? text = some d ↔ SpellsDecimal d text := by
  constructor
  · intro h
    obtain ⟨sign, hsign, htext, hnegative⟩ := exists_sign text
    unfold decimal? at h
    dsimp only at h
    split at h
    · exact absurd h (by simp)
    · next hsome =>
      obtain ⟨mantissa, hunsigned, hmantissa⟩ := exists_spellsMantissa hsome
      obtain ⟨place, hplace, rfl⟩ := Option.map_eq_some_iff.mp h
      obtain ⟨exponent, hexponent, rfl⟩ := exists_spellsExponent hplace
      have hspells := SpellsDecimal.intro hsign hmantissa hexponent
      rw [List.append_assoc, ← hunsigned, ← htext, ← hnegative] at hspells
      exact hspells
  · rintro ⟨hsign, hmantissa, hexponent⟩
    next sign whole fraction mantissa ending exponent =>
    obtain ⟨c, cs, hcons, hc⟩ := exists_cons_of_spellsMantissa hmantissa
    obtain ⟨hdigit, hpoint⟩ := facts_of_spellsExponent hexponent
    obtain ⟨hwhole, hfraction⟩ := take_mantissa hmantissa hdigit hpoint
    have htake : takeSign (sign ++ (mantissa ++ ending)) =
        (decide (sign = ['-']), mantissa ++ ending) := by
      apply takeSign_append hsign
      rw [hcons]
      rintro _ ⟨⟩
      exact hc
    have hsome : ¬ (whole = [] ∧ fraction = []) := by
      rintro ⟨rfl, rfl⟩
      cases hmantissa with
      | whole hne => exact hne rfl
      | pointed hne => exact hne rfl
      | fraction hne => exact hne rfl
    rw [List.append_assoc, decimal?, htake]
    simp only [hwhole, hfraction, exponent?_of_spells hexponent, if_neg hsome, Option.map_some]

/-- What holds of all characters from one number on, for so many numbers, holds of a character whose
number is one of these. -/
theorem of_forall_ofNat {p : Char → Prop} {low count : Nat}
    (h : ∀ n < count, p (Char.ofNat (low + n))) {c : Char} (hlow : low ≤ c.toNat)
    (hhigh : c.toNat < low + count) : p c := by
  obtain ⟨n, hn⟩ := Nat.exists_eq_add_of_le hlow
  have hc : c = Char.ofNat (low + n) :=
    calc c
      _ = Char.ofNat c.toNat := (Char.ofNat_toNat c).symm
      _ = Char.ofNat (low + n) := congrArg Char.ofNat hn
  rw [hc]
  exact h n (by omega)

theorem toUpper_toLower (c : Char) : c.toLower.toUpper = c.toUpper := by
  by_cases h : c.val ≥ 'A'.val ∧ c.val ≤ 'Z'.val
  · have hletters : ∀ n < 26,
        (Char.ofNat (65 + n)).toLower.toUpper = (Char.ofNat (65 + n)).toUpper := by
      decide
    exact of_forall_ofNat (p := fun c => c.toLower.toUpper = c.toUpper) hletters
      (UInt32.le_iff_toNat_le.mp h.1) (Nat.lt_succ_of_le (UInt32.le_iff_toNat_le.mp h.2))
  · unfold Char.toLower
    rw [dif_neg h]

/-- A letter has a small form in common with the letters of both cases. -/
theorem toLower_eq_iff {letter : Char} (hsmall : letter.toLower = letter)
    (hcapital : letter.toUpper.toLower = letter) {c : Char} :
    c.toLower = letter ↔ c = letter ∨ c = letter.toUpper := by
  constructor
  · rintro rfl
    rw [toUpper_toLower]
    by_cases hupper : c.val ≥ 'A'.val ∧ c.val ≤ 'Z'.val
    · right
      unfold Char.toUpper
      rw [dif_neg]
      rintro ⟨hlow, -⟩
      have hapart := UInt32.le_trans hlow hupper.2
      exact absurd hapart (by decide)
    · left
      unfold Char.toLower
      rw [dif_neg hupper]
  · rintro (rfl | rfl)
    · exact hsmall
    · exact hcapital

theorem map_toLower_eq_iff {word : String} (text : List Char)
    (h : ∀ letter ∈ word.toList, letter.toLower = letter ∧ letter.toUpper.toLower = letter) :
    text.map Char.toLower = word.toList ↔ AnyCase word text := by
  unfold AnyCase
  generalize word.toList = letters at h
  induction letters generalizing text with
  | nil => simp
  | cons letter letters ih =>
      have hletter := h letter (.head _)
      cases text with
      | nil => simp
      | cons c text =>
          have hrest := ih text fun next hnext => h next (.tail _ hnext)
          simp [hrest, toLower_eq_iff hletter.1 hletter.2]

/-- A text is a truth value exactly if it is the name of one, in letters of either case. -/
theorem isTruthValue_iff {text : List Char} :
    isTruthValue text = true ↔ ∃ value, AnyCase (truthName value) text := by
  have hletters : ∀ value, ∀ letter ∈ (truthName value).toList,
      letter.toLower = letter ∧ letter.toUpper.toLower = letter := by
    simp [truthName]
  have htrue := map_toLower_eq_iff text (hletters true)
  have hfalse := map_toLower_eq_iff text (hletters false)
  rw [Bool.exists_bool, ← htrue, ← hfalse, isTruthValue, Bool.or_eq_true, decide_eq_true_eq,
    decide_eq_true_eq]
  exact or_comm

theorem isNumeralChar_iff {c : Char} : isNumeralChar c = true ↔ IsNumeralChar c := by
  simp [isNumeralChar, IsNumeralChar]

/-- Signs, digits, points and the letters of exponents are the characters of a spelt number. -/
theorem isNumeralChar_of_spells {d : Decimal} {text : List Char} (h : SpellsDecimal d text) :
    ∀ c ∈ text, IsNumeralChar c := by
  have hsigns : ∀ sign ∈ [[], ['+'], ['-']], ∀ c ∈ sign, IsNumeralChar c := by
    simp [IsNumeralChar]
  have hmarks : ∀ mark ∈ ['e', 'E'], IsNumeralChar mark := by simp [IsNumeralChar]
  obtain ⟨hsign, hmantissa, hexponent⟩ := h
  rw [List.forall_mem_append, List.forall_mem_append]
  refine ⟨⟨hsigns _ hsign, ?_⟩, ?_⟩
  · cases hmantissa with
    | whole hne hdigits => exact fun c hc => .inl (hdigits c hc)
    | pointed hne hwhole hfraction =>
        rw [List.forall_mem_append, List.forall_mem_cons]
        exact ⟨fun c hc => .inl (hwhole c hc), .inr (by decide),
          fun c hc => .inl (hfraction c hc)⟩
    | fraction hne hdigits =>
        rw [List.forall_mem_cons]
        exact ⟨.inr (by decide), fun c hc => .inl (hdigits c hc)⟩
  · cases hexponent with
    | none => simp
    | some hmark hexponentSign hne hdigits =>
        rw [List.forall_mem_cons, List.forall_mem_append]
        exact ⟨hmarks _ hmark, hsigns _ hexponentSign, fun c hc => .inl (hdigits c hc)⟩

theorem small_of_special {name : String} (h : name ∈ ["inf", "infinity", "nan"]) :
    ∀ letter ∈ name.toList, letter.toLower = letter ∧ letter.toUpper.toLower = letter := by
  revert name
  simp

theorem isSpecialName_iff {text : List Char} :
    isSpecialName text = true ↔ ∃ sign ∈ [[], ['+'], ['-']],
      ∃ name ∈ ["inf", "infinity", "nan"], ∃ body, text = sign ++ body ∧ AnyCase name body := by
  have hspecial : isSpecialName text = true ↔
      ∃ name ∈ ["inf", "infinity", "nan"], (takeSign text).2.map Char.toLower = name.toList := by
    simp [isSpecialName]
  rw [hspecial]
  constructor
  · rintro ⟨name, hname, hbody⟩
    obtain ⟨sign, hsign, htext, -⟩ := exists_sign text
    refine ⟨sign, hsign, name, hname, _, htext, ?_⟩
    exact (map_toLower_eq_iff _ (small_of_special hname)).mp hbody
  · rintro ⟨sign, hsign, name, hname, body, rfl, hbody⟩
    have hlower := (map_toLower_eq_iff body (small_of_special hname)).mpr hbody
    have hunsigned : ∀ c ∈ body.head?, c ∉ ['+', '-'] := by
      have hheads : ∀ name ∈ ["inf", "infinity", "nan"], ∀ c ∈ ['+', '-'],
          name.toList.head? ≠ some c.toLower := by
        simp
      intro c hc hmark
      refine hheads name hname c hmark ?_
      rw [← hlower, List.head?_map, Option.mem_def.mp hc, Option.map_some]
    rw [takeSign_append hsign hunsigned]
    exact ⟨name, hname, hlower⟩

theorem not_spells_of_isSpecialName {text : List Char} (h : isSpecialName text = true)
    (d : Decimal) : ¬ SpellsDecimal d text := by
  intro hspells
  obtain ⟨sign, -, name, hname, body, rfl, hbody⟩ := isSpecialName_iff.mp h
  have hn : ∀ name ∈ ["inf", "infinity", "nan"], 'n' ∈ name.toList := by simp
  have hlower := (map_toLower_eq_iff body (small_of_special hname)).mpr hbody
  obtain ⟨c, hc, hletter⟩ := List.mem_map.mp (hlower ▸ hn name hname)
  have hnumeral := isNumeralChar_of_spells hspells c (List.mem_append_right sign hc)
  rcases (toLower_eq_iff (by decide) (by decide)).mp hletter with rfl | rfl
  · exact absurd hnumeral (by decide)
  · exact absurd hnumeral (by decide)

/-- The reader of binary64 numbers finds what the grammar gives a text. -/
theorem readBinary64?_eq_some_iff {text : List Char} {reading : Option Binary64} :
    readBinary64? text = some reading ↔ ReadsAs text reading := by
  unfold readBinary64?
  constructor
  · intro h
    split at h
    · next d hd =>
      obtain rfl := Option.some.inj h
      exact .decimal (decimal?_eq_some_iff.mp hd)
    · split at h
      · next hspecial =>
        obtain rfl := Option.some.inj h
        obtain ⟨sign, hsign, name, hname, body, rfl, hbody⟩ := isSpecialName_iff.mp hspecial
        exact .special hsign hname hbody
      · cases h
  · intro h
    cases h with
    | @special sign body name hsign hname hbody =>
        have hspecial : isSpecialName (sign ++ body) = true :=
          isSpecialName_iff.mpr ⟨sign, hsign, name, hname, body, rfl, hbody⟩
        have hnone : decimal? (sign ++ body) = none := by
          rw [Option.eq_none_iff_forall_ne_some]
          exact fun d hd => not_spells_of_isSpecialName hspecial d (decimal?_eq_some_iff.mp hd)
        rw [hnone, hspecial]
        rfl
    | decimal hspells => rw [decimal?_eq_some_iff.mpr hspells]

theorem toUpper_of_isDigit {c : Char} (h : c.isDigit = true) : c.toUpper = c := by
  unfold Char.toUpper
  rw [dif_neg]
  rintro ⟨hlow, -⟩
  obtain ⟨-, hhigh⟩ := Char.isDigit_iff_toNat.mp h
  have hletter : 97 ≤ c.toNat := UInt32.le_iff_toNat_le.mp hlow
  change c.toNat ≤ 57 at hhigh
  omega

/-- Of a spelt number, only the letter of the exponent has a capital. -/
theorem SpellsDecimal.map_toUpper {d : Decimal} {text : List Char} (h : SpellsDecimal d text) :
    SpellsDecimal d (text.map Char.toUpper) := by
  have hsigns : ∀ sign ∈ [[], ['+'], ['-']], sign.map Char.toUpper = sign := by decide
  have hmarks : ∀ mark ∈ ['e', 'E'], mark.toUpper ∈ ['e', 'E'] := by simp
  have hdigits : ∀ {digits : List Char}, (∀ c ∈ digits, c.isDigit = true) →
      digits.map Char.toUpper = digits :=
    fun h => (List.map_congr_left fun c hc => toUpper_of_isDigit (h c hc)).trans (List.map_id _)
  obtain ⟨hsign, hmantissa, hexponent⟩ := h
  next sign whole fraction mantissa ending exponent =>
  have hsame : mantissa.map Char.toUpper = mantissa := by
    have hpoint : '.'.toUpper = '.' := by decide
    cases hmantissa with
    | whole hne hwhole => exact hdigits hwhole
    | pointed hne hwhole hfraction =>
        rw [List.map_append, List.map_cons, hdigits hwhole, hdigits hfraction, hpoint]
    | fraction hne hfraction => rw [List.map_cons, hdigits hfraction, hpoint]
  have hcapital : SpellsExponent exponent (ending.map Char.toUpper) := by
    cases hexponent with
    | none => exact .none
    | some hmark hexponentSign hne hall =>
        rw [List.map_cons, List.map_append, hsigns _ hexponentSign, hdigits hall]
        exact .some (hmarks _ hmark) hexponentSign hne hall
  rw [List.map_append, List.map_append, hsigns _ hsign, hsame]
  exact .intro hsign hmantissa hcapital

/-- A word in letters of either case has the capitals of the word. -/
theorem AnyCase.map_toUpper {word : String} {text : List Char} (h : AnyCase word text)
    (hword : ∀ letter ∈ word.toList, letter.toUpper.toUpper = letter.toUpper) :
    text.map Char.toUpper = word.toList.map Char.toUpper := by
  unfold AnyCase at h
  generalize word.toList = letters at h hword
  induction h with
  | nil => rfl
  | @cons letter c letters text hletter _ ih =>
      have hc : c.toUpper = letter.toUpper := by
        rcases hletter with rfl | rfl
        · rfl
        · exact hword letter (.head _)
      rw [List.map_cons, List.map_cons, hc, ih fun next hnext => hword next (.tail _ hnext)]

theorem ne_nil_of_spells {d : Decimal} {text : List Char} (h : SpellsDecimal d text) :
    text ≠ [] := by
  obtain ⟨hsign, hmantissa, hexponent⟩ := h
  obtain ⟨c, cs, rfl, -⟩ := exists_cons_of_spellsMantissa hmantissa
  simp

/-- A text spells a decimal in the range exactly if a reader of binary64 numbers finds a finite one
in it and none but the characters of spelt numbers occur. -/
theorem exists_spells_iff_readsAs {text : List Char} :
    (∃ d, SpellsDecimal d text ∧ |d.exact| < 2 ^ 1024 - 2 ^ 970) ↔
      text ≠ [] ∧ (∃ x, ReadsAs text (some x)) ∧ ∀ c ∈ text, IsNumeralChar c := by
  constructor
  · rintro ⟨d, hspells, hrange⟩
    obtain ⟨x, hx⟩ := Option.isSome_iff_exists.mp (Decimal.isSome_binary?_iff.mpr hrange)
    exact ⟨ne_nil_of_spells hspells, ⟨x, hx ▸ .decimal hspells⟩, isNumeralChar_of_spells hspells⟩
  · rintro ⟨-, ⟨x, hreads⟩, -⟩
    generalize hx : some x = reading at hreads
    cases hreads with
    | special => cases hx
    | @decimal d _ hspells =>
        exact ⟨d, hspells, Decimal.isSome_binary?_iff.mp (hx ▸ rfl)⟩

/-- The tests of a text that may stand without quotes, one by one. -/
theorem isBareLiteral_iff_readsAs {s : String} :
    isBareLiteral s = true ↔ (∃ value, AnyCase (truthName value) (Text.trim s.toList)) ∨
      Text.trim s.toList ≠ [] ∧ (∃ x, ReadsAs (Text.trim s.toList) (some x)) ∧
        ∀ c ∈ Text.trim s.toList, IsNumeralChar c := by
  have hfinite : ∀ text, (readBinary64? text).any Option.isSome = true ↔
      ∃ x, ReadsAs text (some x) := by
    simp [Option.any_eq_true, Option.isSome_iff_exists, ← readBinary64?_eq_some_iff]
  simp only [isBareLiteral, ← isTruthValue_iff, ← hfinite, ← isNumeralChar_iff]
  cases isTruthValue (Text.trim s.toList) <;> simp [and_assoc]

/-- A text may stand without quotes exactly if its inside is a truth value or a decimal in the
range. -/
theorem isBareLiteral_eq_true_iff {s : String} :
    isBareLiteral s = true ↔ (∃ value, AnyCase (truthName value) (Text.trim s.toList)) ∨
      ∃ d, SpellsDecimal d (Text.trim s.toList) ∧ |d.exact| < 2 ^ 1024 - 2 ^ 970 :=
  isBareLiteral_iff_readsAs.trans (or_congr_right exists_spells_iff_readsAs.symm)

/-- A text may stand without quotes exactly if, without the blanks around it, it is a truth value in
letters of either case, or spells a decimal below `2 ^ 1024 - 2 ^ 970` in size. The second is what a
reader of binary64 numbers that also knows infinity finds to be finite, and such a text has no other
characters than digits, signs, points and the letters of exponents. -/
theorem isBareLiteral_iff_grammar (s : String) :
    (isBareLiteral s = true ↔ (∃ value, AnyCase (truthName value) (Text.trim s.toList)) ∨
      ∃ d, SpellsDecimal d (Text.trim s.toList) ∧ |d.exact| < 2 ^ 1024 - 2 ^ 970) ∧
    (isBareLiteral s = true ↔ (∃ value, AnyCase (truthName value) (Text.trim s.toList)) ∨
      Text.trim s.toList ≠ [] ∧ (∃ x, ReadsAs (Text.trim s.toList) (some x)) ∧
        ∀ c ∈ Text.trim s.toList, IsNumeralChar c) :=
  ⟨isBareLiteral_eq_true_iff, isBareLiteral_iff_readsAs⟩

/-- The values that may stand without quotes: truth values, numbers, and strings that spell them. -/
def Bare : Json.Value → Prop
  | .bool _ | .number _ => True
  | .string s => isBareLiteral s = true
  | _ => False

/-- The capitals of a truth value. -/
def truthWord (value : Bool) : String := if value then "TRUE" else "FALSE"

/-- A text without quotes denotes a value: it names the truth value, it spells the number, or it
spells what a string spells without the blanks around it. -/
inductive Denotes : Json.Value → String → Prop
  | bool (value : Bool) : Denotes (.bool value) (truthWord value)
  | integer {i : Int} {hi : Json.InWord i} {d : Decimal} {text : String}
      (hspells : SpellsDecimal d text.toList) (hvalue : d.exact = i) :
      Denotes (.number (.integer i hi)) text
  | real {x : Binary64} {d : Decimal} {text : String}
      (hspells : SpellsDecimal d text.toList) (hvalue : d.binary? = some x) :
      Denotes (.number (.real x)) text
  | truth {s : String} (value : Bool) (hs : AnyCase (truthName value) (Text.trim s.toList)) :
      Denotes (.string s) (truthWord value)
  | numeral {s text : String} {d : Decimal} (hs : SpellsDecimal d (Text.trim s.toList))
      (htext : SpellsDecimal d text.toList) : Denotes (.string s) text

/-- A literal of a document spells its value. -/
theorem spellsDecimal_of_wellSpelt {l : Json.Scan.Literal} (h : l.WellSpelt) :
    SpellsDecimal l.decimal l.text := by
  have hsign : (if l.negative then ['-'] else []) ∈ [[], ['+'], ['-']] ∧
      decide ((if l.negative then ['-'] else []) = ['-']) = l.negative := by
    cases l.negative <;> decide
  have hmantissa : SpellsMantissa l.whole l.fraction (l.whole ++ l.fractionText) := by
    unfold Json.Scan.Literal.fractionText
    split
    · next hnone =>
      rw [hnone, List.append_nil]
      exact .whole h.whole_ne_nil h.whole_digits
    · exact .pointed h.whole_ne_nil h.whole_digits h.fraction_digits
  have hspells := SpellsDecimal.intro hsign.1 hmantissa
    (Json.Scan.Literal.spellsExponent_exponentText l)
  rw [hsign.2, ← List.append_assoc] at hspells
  exact hspells

theorem exact_of_integer? {l : Json.Scan.Literal} {i : Int} (h : l.integer? = some i) :
    l.decimal.exact = i := by
  simp only [Json.Scan.Literal.integer?, Option.ite_none_right_eq_some, Option.some.injEq] at h
  obtain ⟨⟨hfraction, hexponent, -⟩, rfl⟩ := h
  simp only [Json.Scan.Literal.decimal, Decimal.exact, hfraction, hexponent]
  cases l.negative <;> simp

/-- A number of a document is written as a spelling of it: of its value if it is held as an integer,
and otherwise of a decimal whose nearest number it is. -/
theorem denotes_number (value : Json.Number) : Denotes (.number value) value.text := by
  cases value with
  | integer i hi =>
      obtain ⟨l, hspelt, htext, hinteger⟩ := Json.Scan.Literal.spells_integer i
      exact .integer (htext ▸ spellsDecimal_of_wellSpelt hspelt) (exact_of_integer? hinteger)
  | real x =>
      obtain ⟨d, htext, hbinary, hzero⟩ := x.exists_decimal
      obtain ⟨l, hspells⟩ := Json.Scan.Literal.exists_spells hzero
      have hnumber : (Json.Number.real x).text.toList = l.text := by
        rw [hspells.text_eq, ← htext, Json.Number.text, String.toList_ofList]
      exact .real (hnumber ▸ spellsDecimal_of_wellSpelt hspells.wellSpelt)
        (hspells.binary?_eq.trans hbinary)

/-- A string that may stand without quotes denotes what it spells in capitals. -/
theorem denotes_bareLiteral {s : String} (h : isBareLiteral s = true) :
    Denotes (.string s) (bareLiteral s) := by
  rcases isBareLiteral_eq_true_iff.mp h with ⟨value, hvalue⟩ | ⟨d, hspells, -⟩
  · have hletters : ∀ value, ∀ letter ∈ (truthName value).toList,
        letter.toUpper.toUpper = letter.toUpper := by
      simp [truthName]
    have hword : String.ofList ((truthName value).toList.map Char.toUpper) = truthWord value := by
      cases value <;> rfl
    rw [bareLiteral, hvalue.map_toUpper (hletters value), hword]
    exact .truth value hvalue
  · have hcapital := hspells.map_toUpper
    refine .numeral hspells ?_
    rwa [bareLiteral, String.toList_ofList]

theorem Denotes.chars {value : Json.Value} {text : String} (h : Denotes value text) :
    text ∈ ["TRUE", "FALSE"] ∨ ∀ c ∈ text.toList, IsNumeralChar c := by
  have htruth : ∀ value, truthWord value ∈ ["TRUE", "FALSE"] := by decide
  cases h with
  | bool value => exact .inl (htruth value)
  | truth value => exact .inl (htruth value)
  | integer hspells => exact .inr (isNumeralChar_of_spells hspells)
  | real hspells => exact .inr (isNumeralChar_of_spells hspells)
  | numeral _ htext => exact .inr (isNumeralChar_of_spells htext)

end SchemaMigration.Sql
