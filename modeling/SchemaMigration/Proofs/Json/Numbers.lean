import SchemaMigration.Proofs.Json.Scanning
import SchemaMigration.Proofs.Number.Stepwise

/-!
# Scans of numbers

A literal is its sign, the digits in front of the point, those behind it, and the exponent. Spelt
out, with any spelling of the exponent, it is scanned as itself. Printing a number spells a literal
whose value has that number as its nearest, so the number is read back whenever this literal is read
as the number nearest to it.
-/

namespace SchemaMigration

namespace Json

open Scan

namespace Scan.Literal

/-- The value that a literal spells. -/
def decimal (l : Literal) : Decimal :=
  ⟨l.negative, Nat.ofDigitChars 10 (l.whole ++ l.fraction) 0,
    l.exponent.getD 0 - l.fraction.length⟩

/-- The literal is read as the binary64 number nearest to the value that it spells. -/
def IsNearest (l : Literal) : Prop := l.real? = l.decimal.binary?.map .real

/-- The digits behind the point, with the point. -/
def fractionText (l : Literal) : List Char := if l.fraction = [] then [] else '.' :: l.fraction

/-- The exponent with its letter and its sign. -/
def exponentText (l : Literal) : List Char :=
  match l.exponent with
  | none => []
  | some place => 'e' :: (if place < 0 then '-' else '+') :: Nat.toDigits 10 place.natAbs

/-- The literal spelt out up to its exponent. -/
def mantissa (l : Literal) : List Char :=
  (if l.negative then ['-'] else []) ++ l.whole ++ l.fractionText

/-- The literal spelt out. -/
def text (l : Literal) : List Char :=
  (if l.negative then ['-'] else []) ++ l.whole ++ l.fractionText ++ l.exponentText

/-- The parts of a literal are digits; there is one in front of the point, and a zero there stands
alone. -/
structure WellSpelt (l : Literal) : Prop where
  whole_ne_nil : l.whole ≠ []
  whole_digits : ∀ c ∈ l.whole, c.isDigit = true
  zero_alone : ∀ digits, l.whole = '0' :: digits → digits = []
  fraction_digits : ∀ c ∈ l.fraction, c.isDigit = true

/-- A text spells an exponent: a letter of either case, a sign that may be left out, and digits. -/
inductive SpellsExponent : Option Int → List Char → Prop
  | none : SpellsExponent none []
  | some {mark : Char} {sign digits : List Char} (hmark : mark ∈ ['e', 'E'])
      (hsign : sign ∈ [[], ['+'], ['-']]) (hne : digits ≠ [])
      (hdigits : ∀ c ∈ digits, c.isDigit = true) :
      SpellsExponent (some (if sign = ['-'] then -(Nat.ofDigitChars 10 digits 0 : Int)
        else Nat.ofDigitChars 10 digits 0)) (mark :: (sign ++ digits))

end Scan.Literal

namespace Scan

theorem isDigit_of_mem_toDigits {n : Nat} : ∀ c ∈ Nat.toDigits 10 n, c.isDigit = true :=
  fun _ hc => Nat.isDigit_of_mem_toDigits (by decide) (by decide) hc

theorem isDigit_of_mem_zeros {n : Nat} : ∀ c ∈ List.replicate n '0', c.isDigit = true := by
  intro c hc
  rw [List.eq_of_mem_replicate hc]
  rfl

/-- Digits of a natural that begin with a zero are those of zero. -/
theorem eq_of_toDigits_eq_cons {n : Nat} {cs : List Char} (h : Nat.toDigits 10 n = '0' :: cs) :
    n = 0 ∧ cs = [] := by
  induction n using Nat.strongRecOn generalizing cs with
  | ind n ih =>
      rw [Nat.toDigits_eq_if (by decide)] at h
      split at h
      · next hsmall =>
        have hdigit : ∀ n < 10, n.digitChar = '0' → n = 0 := by decide
        obtain ⟨hhead, rfl⟩ := List.cons.inj h
        exact ⟨hdigit n hsmall hhead, rfl⟩
      · next hlarge =>
        obtain ⟨c, front, hfront⟩ := List.exists_cons_of_ne_nil
          (Nat.toDigits_ne_nil (b := 10) (n := n / 10))
        rw [hfront, List.cons_append] at h
        obtain ⟨rfl, -⟩ := List.cons.inj h
        have hzero := (ih (n / 10) (by omega) hfront).1
        omega

theorem eq_nil_of_take_toDigits {n count : Nat} {cs : List Char}
    (h : (Nat.toDigits 10 n).take count = '0' :: cs) : cs = [] := by
  have hfront := List.take_append_drop count (Nat.toDigits 10 n)
  rw [h, List.cons_append] at hfront
  exact (List.append_eq_nil_iff.mp (eq_of_toDigits_eq_cons hfront.symm).2).1

/-- A run of digits ends here. -/
def NoDigit (rest : List Char) : Prop := ∀ c ∈ rest.head?, c.isDigit = false

theorem run_digits {ending : Fault} {run rest : List Char} (hne : run ≠ [])
    (hrun : ∀ c ∈ run, c.isDigit = true) (hrest : NoDigit rest) :
    (digits ending).run (run ++ rest) = .ok (run, rest) := by
  obtain ⟨c, cs, rfl⟩ := List.exists_cons_of_ne_nil hne
  have hstop : rest.takeWhile Char.isDigit = [] ∧ rest.dropWhile Char.isDigit = rest := by
    cases rest with
    | nil => exact ⟨rfl, rfl⟩
    | cons d rest => simp [hrest d rfl]
  simp only [digits, StateT.run, List.cons_append, hrun c List.mem_cons_self, if_true]
  rw [← List.cons_append, List.takeWhile_append_of_pos hrun, List.dropWhile_append_of_pos hrun,
    hstop.1, hstop.2, List.append_nil]

theorem run_takeOne {choice : List Char} {c : Char} (h : c ∈ choice) (rest : List Char) :
    (takeOne choice).run (c :: rest) = .ok (some c, rest) := by
  simp [takeOne, StateT.run, h]

theorem run_takeOne_none {choice rest : List Char} (h : ∀ c ∈ rest.head?, c ∉ choice) :
    (takeOne choice).run rest = .ok (none, rest) := by
  cases rest with
  | nil => rfl
  | cons c rest => simp [takeOne, StateT.run, h c rfl]

namespace Literal

variable {l : Literal} {ending : Fault} {rest : List Char}

theorem run_wholePart (h : l.WellSpelt) (hrest : NoDigit rest) :
    (wholePart ending).run (l.whole ++ rest) = .ok (l.whole, rest) := by
  rw [wholePart, run_bind_of_run (run_digits h.whole_ne_nil h.whole_digits hrest)]
  split
  · next c cs hzero => cases h.zero_alone _ hzero
  · rfl

theorem run_fractionPart (h : l.WellSpelt) (hdigit : NoDigit rest)
    (hpoint : rest.head? ≠ some '.') :
    (fractionPart ending).run (l.fractionText ++ rest) = .ok (l.fraction, rest) := by
  unfold fractionText
  split
  · next hnone =>
    have htake : ∀ c ∈ rest.head?, c ∉ ['.'] := by
      rintro c hc hpoint'
      rw [List.mem_singleton.mp hpoint'] at hc
      exact hpoint hc
    rw [fractionPart, List.nil_append, run_bind_of_run (run_takeOne_none htake), hnone]
    rfl
  · next hsome =>
    rw [fractionPart, List.cons_append, run_bind_of_run (run_takeOne List.mem_cons_self _)]
    exact run_digits hsome h.fraction_digits hdigit

/-- Neither a digit nor a point nor an exponent stands behind a value. -/
theorem facts_of_ends (h : Ends rest) :
    NoDigit rest ∧ rest.head? ≠ some '.' ∧ ∀ c ∈ rest.head?, c ∉ ['e', 'E'] := by
  cases rest with
  | nil => simp [NoDigit]
  | cons c rest =>
      have hall : ∀ c ∈ [',', ']', '}', ' ', '\t', '\n', '\r'],
          c.isDigit = false ∧ c ≠ '.' ∧ c ∉ ['e', 'E'] := by simp
      simpa [NoDigit] using hall c (ends_cons.mp h)

theorem run_exponentPart {exponent : Option Int} {spelling : List Char}
    (h : SpellsExponent exponent spelling) (hrest : Ends rest) :
    (exponentPart ending).run (spelling ++ rest) = .ok (exponent, rest) := by
  obtain ⟨hdigit, -, hexponent⟩ := facts_of_ends hrest
  cases h with
  | none =>
      rw [exponentPart, List.nil_append, run_bind_of_run (run_takeOne_none hexponent)]
      rfl
  | @some mark sign digits hmark hsign hne hdigits =>
      have hrun : (Scan.digits ending).run (digits ++ rest) = .ok (digits, rest) :=
        run_digits hne hdigits hdigit
      rw [exponentPart, List.cons_append, run_bind_of_run (run_takeOne hmark _), List.append_assoc]
      simp only [List.mem_cons, List.not_mem_nil, or_false] at hsign
      rcases hsign with rfl | rfl | rfl
      · have hunsigned : ∀ c ∈ (digits ++ rest).head?, c ∉ ['+', '-'] := by
          obtain ⟨d, ds, rfl⟩ := List.exists_cons_of_ne_nil hne
          have hd : d.isDigit = true := hdigits d List.mem_cons_self
          rintro c ⟨⟩ hc
          simp only [List.mem_cons, List.not_mem_nil, or_false] at hc
          rcases hc with rfl | rfl <;> cases hd
        rw [List.nil_append, run_bind_of_run (run_takeOne_none hunsigned), run_bind_of_run hrun]
        rfl
      · rw [List.singleton_append, run_bind_of_run (run_takeOne (by decide) _),
          run_bind_of_run hrun]
        rfl
      · rw [List.singleton_append, run_bind_of_run (run_takeOne (by decide) _),
          run_bind_of_run hrun]
        rfl

/-- The printed exponent is a spelling of the exponent. -/
theorem spellsExponent_exponentText (l : Literal) : SpellsExponent l.exponent l.exponentText := by
  unfold exponentText
  cases l.exponent with
  | none => exact .none
  | some place =>
      have hspelt : SpellsExponent _ ('e' :: ([if place < 0 then '-' else '+'] ++
          Nat.toDigits 10 place.natAbs)) :=
        .some List.mem_cons_self (by split <;> simp) Nat.toDigits_ne_nil isDigit_of_mem_toDigits
      rw [Nat.ofDigitChars_ten_toDigits] at hspelt
      have hplace : (if [if place < 0 then '-' else '+'] = ['-'] then -(place.natAbs : Int)
          else place.natAbs) = place := by
        by_cases hnegative : place < 0
        · rw [if_pos hnegative, if_pos rfl]
          omega
        · rw [if_neg hnegative, if_neg (by decide)]
          omega
      rw [hplace] at hspelt
      exact hspelt

/-- A literal that is spelt out is scanned as itself, however its exponent is spelt. -/
theorem takes_mantissa {spelling : List Char} (h : l.WellSpelt)
    (he : SpellsExponent l.exponent spelling) :
    Takes (literal ending) (l.mantissa ++ spelling) l := by
  intro rest hrest
  obtain ⟨hdigit, hpoint, -⟩ := facts_of_ends hrest
  have hexponent : NoDigit (spelling ++ rest) ∧ (spelling ++ rest).head? ≠ some '.' := by
    generalize l.exponent = exponent at he
    cases he with
    | none => exact ⟨hdigit, hpoint⟩
    | @some mark _ _ hmark _ _ _ =>
        have hall : ∀ c ∈ ['e', 'E'], c.isDigit = false ∧ c ≠ '.' := by simp
        simpa [NoDigit] using hall mark hmark
  have hfraction : NoDigit (l.fractionText ++ (spelling ++ rest)) := by
    unfold fractionText
    split
    · exact hexponent.1
    · simp [NoDigit]
  have hsign : (takeOne ['-']).run (l.mantissa ++ spelling ++ rest) =
      .ok (if l.negative then some '-' else none,
        l.whole ++ (l.fractionText ++ (spelling ++ rest))) := by
    simp only [mantissa, List.append_assoc]
    split
    · exact run_takeOne List.mem_cons_self _
    · obtain ⟨c, cs, hwhole⟩ := List.exists_cons_of_ne_nil h.whole_ne_nil
      have hc : c.isDigit = true := h.whole_digits c (hwhole ▸ List.mem_cons_self)
      have hminus : c ≠ '-' := by
        rintro rfl
        cases hc
      apply run_takeOne_none
      simp [hwhole, hminus]
  rw [literal, run_bind_of_run hsign, run_bind_of_run (run_wholePart h hfraction),
    run_bind_of_run (run_fractionPart h hexponent.1 hexponent.2),
    run_bind_of_run (run_exponentPart he hrest)]
  have hnegative : (if l.negative then some '-' else none).isSome = l.negative := by
    cases l.negative <;> rfl
  rw [hnegative]
  rfl

/-- A literal that is spelt out is scanned as itself. -/
theorem takes_literal (h : l.WellSpelt) : Takes (literal ending) l.text l :=
  takes_mantissa h (spellsExponent_exponentText l)

/-- A literal begins with a minus or a digit, however its exponent is spelt. -/
theorem WellSpelt.exists_cons_mantissa (h : l.WellSpelt) (spelling : List Char) :
    ∃ c cs, l.mantissa ++ spelling = c :: cs ∧ (c = '-' || c.isDigit) = true := by
  obtain ⟨c, cs, hwhole⟩ := List.exists_cons_of_ne_nil h.whole_ne_nil
  have hc : c.isDigit = true := h.whole_digits c (hwhole ▸ List.mem_cons_self)
  cases hnegative : l.negative with
  | false => exact ⟨c, _, by simp [mantissa, hnegative, hwhole]; rfl, by simp [hc]⟩
  | true => exact ⟨'-', _, by simp [mantissa, hnegative]; rfl, rfl⟩

theorem WellSpelt.exists_cons (h : l.WellSpelt) :
    ∃ c cs, l.text = c :: cs ∧ (c = '-' || c.isDigit) = true :=
  h.exists_cons_mantissa l.exponentText

/-- The literal is how a decimal is printed, and not how an integer is. -/
structure Spells (l : Literal) (d : Decimal) : Prop where
  wellSpelt : l.WellSpelt
  text_eq : l.text = d.text
  binary?_eq : l.decimal.binary? = d.binary?
  integer?_eq : l.integer? = none

section Positional

variable {d : Decimal} {whole : Int}

/-- A decimal whose first digit stands behind the point. -/
theorem spells_behind (hwhole : whole = d.exponent + (Nat.toDigits 10 d.digits).length)
    (hplace : Decimal.isPositional (whole - 1) = true) (hbehind : whole ≤ 0) :
    Spells ⟨d.negative, ['0'],
      List.replicate (-whole).toNat '0' ++ Nat.toDigits 10 d.digits, none⟩ d where
  wellSpelt :=
    { whole_ne_nil := List.cons_ne_nil _ _
      whole_digits := by simp
      zero_alone := fun _ h => (List.cons.inj h).2.symm
      fraction_digits := List.forall_mem_append.mpr
        ⟨isDigit_of_mem_zeros, isDigit_of_mem_toDigits⟩ }
  text_eq := by
    subst hwhole
    simp [text, fractionText, exponentText, Decimal.text, hplace, Decimal.positional, hbehind,
      Nat.toDigits_ne_nil]
  binary?_eq := by
    have hdigits : Nat.ofDigitChars 10
        (['0'] ++ (List.replicate (-whole).toNat '0' ++ Nat.toDigits 10 d.digits)) 0 =
          d.digits := by
      simp [Nat.ofDigitChars_append, Nat.ofDigitChars_cons, Nat.ofDigitChars_replicate_zero,
        Nat.ofDigitChars_ten_toDigits]
    have hexponent : (0 : Int) -
        (List.replicate (-whole).toNat '0' ++ Nat.toDigits 10 d.digits).length = d.exponent := by
      rw [List.length_append, List.length_replicate]
      omega
    simp only [decimal, hdigits, Option.getD_none, hexponent]
  integer?_eq := by simp [integer?, Nat.toDigits_ne_nil]

/-- A decimal that is a whole number. -/
theorem spells_whole (hwhole : whole = d.exponent + (Nat.toDigits 10 d.digits).length)
    (hplace : Decimal.isPositional (whole - 1) = true) (hexponent : 0 ≤ d.exponent)
    (hzero : d.digits = 0 → d.exponent = 0) :
    Spells ⟨d.negative, Nat.toDigits 10 d.digits ++ List.replicate d.exponent.toNat '0', ['0'],
      none⟩ d where
  wellSpelt :=
    { whole_ne_nil := by simp [Nat.toDigits_ne_nil]
      whole_digits := List.forall_mem_append.mpr ⟨isDigit_of_mem_toDigits, isDigit_of_mem_zeros⟩
      zero_alone := by
        intro cs h
        obtain ⟨c, front, hfront⟩ := List.exists_cons_of_ne_nil
          (Nat.toDigits_ne_nil (b := 10) (n := d.digits))
        rw [hfront, List.cons_append] at h
        obtain ⟨rfl, rfl⟩ := List.cons.inj h
        obtain ⟨hnone, rfl⟩ := eq_of_toDigits_eq_cons hfront
        simp [hzero hnone]
      fraction_digits := by simp }
  text_eq := by
    have hlength : 0 < (Nat.toDigits 10 d.digits).length := Nat.length_toDigits_pos
    have hbefore : ¬ d.exponent + (Nat.toDigits 10 d.digits).length ≤ 0 := by omega
    have hlong : ((Nat.toDigits 10 d.digits).length : Int) ≤
        d.exponent + (Nat.toDigits 10 d.digits).length := by omega
    subst hwhole
    simp [text, fractionText, exponentText, Decimal.text, hplace, Decimal.positional, hbefore,
      hlong]
  binary?_eq := by
    have hdigits : Nat.ofDigitChars 10
        (Nat.toDigits 10 d.digits ++ List.replicate d.exponent.toNat '0' ++ ['0']) 0 =
          d.digits * Nat.pow 10 (d.exponent.toNat + 1) := by
      simp [Nat.ofDigitChars_append, Nat.ofDigitChars_cons, Nat.ofDigitChars_replicate_zero,
        Nat.ofDigitChars_ten_toDigits, Nat.pow_succ]
      ring
    have hscale := Decimal.binary?_scale d.negative d.digits (d.exponent.toNat + 1) d.exponent
    have hone : d.exponent - (d.exponent.toNat + 1 : Nat) = 0 - (['0'].length : Int) := by
      rw [List.length_singleton]
      omega
    rw [hone] at hscale
    simp only [decimal, hdigits, Option.getD_none, hscale]
  integer?_eq := by simp [integer?]

/-- A decimal with digits on both sides of the point. -/
theorem spells_across (hwhole : whole = d.exponent + (Nat.toDigits 10 d.digits).length)
    (hplace : Decimal.isPositional (whole - 1) = true) (hbefore : 0 < whole)
    (hexponent : d.exponent < 0) :
    Spells ⟨d.negative, (Nat.toDigits 10 d.digits).take whole.toNat,
      (Nat.toDigits 10 d.digits).drop whole.toNat, none⟩ d where
  wellSpelt :=
    { whole_ne_nil := by simp [Nat.toDigits_ne_nil, hbefore]
      whole_digits := fun c hc => isDigit_of_mem_toDigits c (List.mem_of_mem_take hc)
      zero_alone := fun _ h => eq_nil_of_take_toDigits h
      fraction_digits := fun c hc => isDigit_of_mem_toDigits c (List.mem_of_mem_drop hc) }
  text_eq := by
    have hshort : ¬ ((Nat.toDigits 10 d.digits).length : Int) ≤ whole := by omega
    have hlong : ¬ whole ≤ 0 := by omega
    have hfraction : whole.toNat < (Nat.toDigits 10 d.digits).length := by omega
    subst hwhole
    simp [text, fractionText, exponentText, Decimal.text, hplace, Decimal.positional, hlong,
      hshort, hfraction]
  binary?_eq := by
    have hlength : (0 : Int) - ((Nat.toDigits 10 d.digits).drop whole.toNat).length =
        d.exponent := by
      rw [List.length_drop]
      omega
    simp only [decimal, List.take_append_drop, Nat.ofDigitChars_ten_toDigits, Option.getD_none,
      hlength]
  integer?_eq := by
    have hfraction : whole.toNat < (Nat.toDigits 10 d.digits).length := by omega
    simp [integer?, hfraction]

end Positional

/-- Scientific notation: one digit stands in front of the point. -/
theorem spells_scientific {d : Decimal} {place : Int}
    (hplace : place = d.exponent + (Nat.toDigits 10 d.digits).length - 1)
    (hfar : Decimal.isPositional place = false) :
    Spells ⟨d.negative, (Nat.toDigits 10 d.digits).take 1, (Nat.toDigits 10 d.digits).drop 1,
      some place⟩ d where
  wellSpelt :=
    { whole_ne_nil := by simp [Nat.toDigits_ne_nil]
      whole_digits := fun c hc => isDigit_of_mem_toDigits c (List.mem_of_mem_take hc)
      zero_alone := fun _ h => eq_nil_of_take_toDigits h
      fraction_digits := fun c hc => isDigit_of_mem_toDigits c (List.mem_of_mem_drop hc) }
  text_eq := by
    have hone : (Nat.toDigits 10 d.digits).tail = [] ↔ (Nat.toDigits 10 d.digits).length ≤ 1 := by
      rw [← List.drop_one, List.drop_eq_nil_iff]
    subst hplace
    simp [text, fractionText, exponentText, Decimal.text, hfar, Decimal.scientific, hone]
  binary?_eq := by
    have hlength : place - ((Nat.toDigits 10 d.digits).drop 1).length = d.exponent := by
      have hpos : 0 < (Nat.toDigits 10 d.digits).length := Nat.length_toDigits_pos
      rw [List.length_drop]
      omega
    simp only [decimal, List.take_append_drop, Nat.ofDigitChars_ten_toDigits, Option.getD_some,
      hlength]
  integer?_eq := by simp [integer?]

/-- Every decimal is printed as a literal, if a zero is not moved in front of the point. -/
theorem exists_spells {d : Decimal} (hzero : d.digits = 0 → d.exponent ≤ 0) :
    ∃ l, Spells l d := by
  have hlength : 0 < (Nat.toDigits 10 d.digits).length := Nat.length_toDigits_pos
  generalize hwhole : d.exponent + ((Nat.toDigits 10 d.digits).length : Int) = whole
  cases hplace : Decimal.isPositional (whole - 1) with
  | false => exact ⟨_, spells_scientific (by omega) hplace⟩
  | true =>
      rcases Int.lt_or_le 0 whole with hbefore | hbehind
      · rcases Int.lt_or_le d.exponent 0 with hexponent | hexponent
        · exact ⟨_, spells_across hwhole.symm hplace hbefore hexponent⟩
        · exact ⟨_, spells_whole hwhole.symm hplace hexponent fun hnone =>
            Int.le_antisymm (hzero hnone) hexponent⟩
      · exact ⟨_, spells_behind hwhole.symm hplace hbehind⟩

/-- An integer is printed as a literal without point and exponent. -/
theorem spells_integer (i : Int) :
    ∃ l : Literal, l.WellSpelt ∧ l.text = (toString i).toList ∧ l.integer? = some i := by
  refine ⟨⟨decide (i < 0), Nat.toDigits 10 i.natAbs, [], none⟩, ?_, ?_, ?_⟩
  · exact
      { whole_ne_nil := Nat.toDigits_ne_nil
        whole_digits := isDigit_of_mem_toDigits
        zero_alone := fun _ h => (eq_of_toDigits_eq_cons h).2
        fraction_digits := by simp }
  · rw [Int.toString_eq_repr, Int.repr_eq_if]
    by_cases hnegative : i < 0
    · have hsize : (-i).toNat = i.natAbs := by omega
      simp [text, fractionText, exponentText, hnegative, Int.not_le.mpr hnegative, hsize,
        Nat.toList_repr]
    · have hsize : i.toNat = i.natAbs := by omega
      simp [text, fractionText, exponentText, hnegative, Int.not_lt.mp hnegative, hsize,
        Nat.toList_repr]
  · have hzero : ¬ (i < 0 ∧ (i.natAbs : Int) = 0) := by omega
    have hsign : (if i < 0 then -(i.natAbs : Int) else i.natAbs) = i := by split <;> omega
    simp only [integer?, Nat.ofDigitChars_ten_toDigits, decide_eq_true_eq, hzero, hsign]
    rfl

theorem kept_eq_decimal {l : Literal} (h : l.decimal.digits < UInt64.size) :
    Decimal.kept l.negative l.whole l.fraction (l.exponent.getD 0) = l.decimal := by
  simp only [decimal, Nat.ofDigitChars_append] at h ⊢
  have hwhole : Nat.ofDigitChars 10 l.whole 0 < UInt64.size :=
    Nat.lt_of_le_of_lt (Decimal.le_ofDigitChars _ l.fraction) h
  simp only [Decimal.kept, Decimal.keep_of_lt hwhole, Decimal.keep_of_lt h]
  simp

/-- A literal of at most 53 bits and a small power of ten is read as the number nearest to it. -/
theorem isNearest_of_small {l : Literal} (hdigits : l.decimal.digits < Nat.pow 2 53)
    (hlow : -22 ≤ l.decimal.exponent) (hhigh : l.decimal.exponent ≤ 22) : l.IsNearest := by
  have hfits : l.decimal.digits < UInt64.size := Nat.lt_trans hdigits (by decide)
  rw [IsNearest, real?, kept_eq_decimal hfits, Decimal.stepwise?_eq_binary? hdigits hlow hhigh]

end Literal

theorem run_number {l : Literal} (h : l.WellSpelt) {rest : List Char} (hrest : Ends rest) :
    number.run (l.text ++ rest) = match l.number? with
      | some n => .ok (n, rest)
      | none => .error .numberOutOfRange := by
  rw [number, run_bind_of_run (Literal.takes_literal h rest hrest)]
  cases l.number? <;> rfl

theorem takes_number {l : Literal} {n : Number} (h : l.WellSpelt) (hn : l.number? = some n) :
    Takes number l.text n := by
  intro rest hrest
  rw [run_number h hrest, hn]

end Scan

/-- The binary64 numbers of a number: itself, unless it is an integer. -/
def Number.reals : Number → List Binary64
  | .integer _ _ => []
  | .real x => [x]

end Json

namespace Binary64

/-- The literal that a number is printed as is read as the number nearest to the value that it
spells. -/
def PrintsNearest (x : Binary64) : Prop :=
  ∀ l, (Json.Scan.literal .endInValue).run x.text = .ok (l, []) → l.IsNearest

/-- The literal that a number is printed as has at most 53 bits and a small power of ten. -/
def PrintsShort (x : Binary64) : Prop :=
  ∀ l, (Json.Scan.literal .endInValue).run x.text = .ok (l, []) →
    l.decimal.digits < Nat.pow 2 53 ∧ -22 ≤ l.decimal.exponent ∧ l.decimal.exponent ≤ 22

theorem PrintsShort.printsNearest {x : Binary64} (h : x.PrintsShort) : x.PrintsNearest := by
  intro l hl
  obtain ⟨hdigits, hlow, hhigh⟩ := h l hl
  exact Json.Scan.Literal.isNearest_of_small hdigits hlow hhigh

theorem eq_zero_of_isZero {x : Binary64} (h : x.isZero = true) : x = zero x.negative := by
  obtain ⟨negative, significand, exponent, hcanonical⟩ := x
  have hnone : significand = 0 := by simpa [isZero] using h
  obtain ⟨-, -, -, hfull | hleast⟩ := hcanonical
  · exact absurd (hnone ▸ hfull) (by decide)
  · subst hnone hleast
    rfl

/-- A number is printed as a decimal whose nearest number it is. -/
theorem exists_decimal (x : Binary64) :
    ∃ d : Decimal, x.text = d.text ∧ d.binary? = some x ∧ (d.digits = 0 → d.exponent ≤ 0) := by
  by_cases hzero : x.isZero = true
  · refine ⟨⟨x.negative, 0, 0⟩, if_pos hzero, ?_, fun _ => Int.le_refl 0⟩
    exact congrArg some (eq_zero_of_isZero hzero).symm
  · have hnonzero : x.significand ≠ 0 := by simpa [isZero] using hzero
    have hbinary := binary?_shortest hnonzero
    refine ⟨x.shortest, if_neg hzero, hbinary, fun hnone => absurd ?_ hnonzero⟩
    rw [Decimal.binary?, if_pos (.inl hnone)] at hbinary
    exact (congrArg significand (Option.some.inj hbinary)).symm

/-- A number is printed as a literal that stands for it just when the literal is read as the number
nearest to it. -/
theorem exists_literal (x : Binary64) :
    ∃ l : Json.Scan.Literal, l.WellSpelt ∧ l.text = x.text ∧
      (x.PrintsNearest ↔ l.number? = some (.real x)) := by
  obtain ⟨d, htext, hbinary, hzero⟩ := x.exists_decimal
  obtain ⟨l, hspells⟩ := Json.Scan.Literal.exists_spells hzero
  have hvalue : l.decimal.binary?.map Json.Number.real = some (.real x) := by
    rw [hspells.binary?_eq, hbinary, Option.map_some]
  have hscan : (Json.Scan.literal .endInValue).run x.text = .ok (l, []) := by
    rw [htext, ← hspells.text_eq, ← List.append_nil l.text]
    exact Json.Scan.Literal.takes_literal hspells.wellSpelt [] Json.Scan.ends_nil
  have hnumber : l.number? = l.real? := by
    simp [Json.Scan.Literal.number?, hspells.integer?_eq]
  refine ⟨l, hspells.wellSpelt, hspells.text_eq.trans htext.symm, ?_⟩
  rw [hnumber]
  constructor
  · exact fun h => (h l hscan).trans hvalue
  · rintro h other hother
    cases hscan.symm.trans hother
    exact h.trans hvalue.symm

end Binary64

namespace Json.Scan

/-- A number is printed as a literal that is spelt out. -/
theorem exists_wellSpelt (n : Number) : ∃ l : Literal, l.WellSpelt ∧ l.text = n.text.toList := by
  cases n with
  | integer i hi =>
      obtain ⟨l, hspelt, htext, -⟩ := Literal.spells_integer i
      exact ⟨l, hspelt, htext⟩
  | real x =>
      obtain ⟨l, hspelt, htext, -⟩ := x.exists_literal
      exact ⟨l, hspelt, htext.trans (by rw [Number.text, String.toList_ofList])⟩

theorem exists_cons_of_number (n : Number) :
    ∃ c cs, n.text.toList = c :: cs ∧ (c = '-' || c.isDigit) = true := by
  obtain ⟨l, hspelt, htext⟩ := exists_wellSpelt n
  exact htext ▸ hspelt.exists_cons

/-- A printed number is read back, if each literal in it is read as the number nearest to it. -/
theorem takes_number_text {n : Number} (h : ∀ x ∈ n.reals, x.PrintsNearest) :
    Takes number n.text.toList n := by
  cases n with
  | integer i hi =>
      obtain ⟨l, hspelt, htext, hinteger⟩ := Literal.spells_integer i
      have hn : l.number? = some (.integer i hi) := by simp [Literal.number?, hinteger, hi]
      exact htext ▸ takes_number hspelt hn
  | real x =>
      obtain ⟨l, hspelt, htext, hnearest⟩ := x.exists_literal
      rw [Number.text, String.toList_ofList, ← htext]
      exact takes_number hspelt (hnearest.mp (h x List.mem_cons_self))

end Json.Scan

/-- The condition is exact: a number is read back if and only if its literal is read as the number
nearest to it. -/
theorem Binary64.printsNearest_iff {x : Binary64} :
    x.PrintsNearest ↔ Json.Scan.number.run x.text = .ok (.real x, []) := by
  obtain ⟨l, hspelt, htext, hnearest⟩ := x.exists_literal
  have hread := Json.Scan.run_number hspelt Json.Scan.ends_nil
  rw [List.append_nil, htext] at hread
  rw [hnearest, hread]
  cases l.number? with
  | none => simp
  | some n =>
      constructor
      · rintro ⟨⟩
        rfl
      · rintro ⟨⟩
        rfl

instance (x : Binary64) : Decidable x.PrintsNearest :=
  decidable_of_iff _ Binary64.printsNearest_iff.symm

end SchemaMigration
