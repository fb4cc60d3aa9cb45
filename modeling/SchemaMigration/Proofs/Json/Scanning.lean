import SchemaMigration.Json.Printer
import SchemaMigration.Json.Record
import SchemaMigration.Proofs.Outcome

/-!
# Scans of texts

A scan takes a text for a value when it reads the text to its end, whatever the place the text
stands at: behind a value there is nothing, or a blank, or a comma or a closing bracket. A string
may be spelt in many ways, one of which is the printed one, and every spelling of it is taken for
it.
-/

namespace SchemaMigration.Json

namespace Scan

variable {α β : Type}

/-- What can stand behind a value: nothing, a blank, or what goes on with or closes a list or an
object. -/
def Ends (rest : List Char) : Prop :=
  ∀ c ∈ rest.head?, c ∈ [',', ']', '}', ' ', '\t', '\n', '\r']

/-- The scan reads exactly this text, and reads it as this value. -/
def Takes (scan : Scan α) (text : List Char) (value : α) : Prop :=
  ∀ rest, Ends rest → scan.run (text ++ rest) = .ok (value, rest)

@[simp] theorem ends_nil : Ends [] := by simp [Ends]

@[simp] theorem ends_cons {c : Char} {rest : List Char} :
    Ends (c :: rest) ↔ c ∈ [',', ']', '}', ' ', '\t', '\n', '\r'] := by simp [Ends]

/-- A scan goes on where its first part has stopped. -/
theorem run_bind_of_run {scan : Scan α} {next : α → Scan β} {text rest : List Char} {value : α}
    (h : scan.run text = .ok (value, rest)) : (scan >>= next).run text = (next value).run rest := by
  rw [StateT.run_bind, h]
  rfl

theorem run_map_of_run {scan : Scan α} {f : α → β} {text rest : List Char} {value : α}
    (h : scan.run text = .ok (value, rest)) : (f <$> scan).run text = .ok (f value, rest) := by
  rw [StateT.run_map, h]
  rfl

theorem Takes.map {scan : Scan α} {text : List Char} {value : α} (h : Takes scan text value)
    (f : α → β) : Takes (f <$> scan) text (f value) :=
  fun rest hrest => run_map_of_run (h rest hrest)

/-- A character that is no blank is shown and left. -/
theorem run_look {c : Char} (h : isBlank c = false) (rest : List Char) :
    look.run (c :: rest) = .ok (some c, c :: rest) := by
  simp [look, StateT.run, h]

theorem run_skipChar (c : Char) (rest : List Char) :
    skipChar.run (c :: rest) = .ok ((), rest) := rfl

/-- Control characters are escaped by the four digits of their code points. -/
theorem unitEscape_eq {c : Char} (h : c.toNat < 0x20) :
    ∃ a b d e, unitEscape c = ['\\', 'u', a, b, d, e] ∧ unit? a b d e = some c.toNat := by
  have hall : ∀ n < 0x20, ∃ x y, unitEscape (Char.ofNat n) = ['\\', 'u', '0', '0', x, y] ∧
      unit? '0' '0' x y = some n := by
    intro n hn
    refine ⟨(n / 16).digitChar, (n % 16).digitChar, ?_⟩
    revert n
    decide
  obtain ⟨x, y, hescape, hunit⟩ := hall c.toNat h
  rw [Char.ofNat_toNat] at hescape
  exact ⟨_, _, x, y, hescape, hunit⟩

/-- A text spells characters inside a string: as themselves, by a letter behind a backslash, by a
16-bit unit, or by a pair of them. -/
inductive SpellsChars : List Char → List Char → Prop
  | nil : SpellsChars [] []
  | plain {c : Char} {cs text : List Char} (hcontrol : 0x20 ≤ c.toNat) (hquote : c ≠ '"')
      (hbackslash : c ≠ '\\') (h : SpellsChars cs text) : SpellsChars (c :: cs) (c :: text)
  | letter {letter c : Char} {cs text : List Char} (hletter : letter? letter = some c)
      (h : SpellsChars cs text) : SpellsChars (c :: cs) ('\\' :: letter :: text)
  | unit {a b d e : Char} {value : Nat} {cs text : List Char} (hunit : unit? a b d e = some value)
      (hlow : isLowSurrogate value = false) (hhigh : isHighSurrogate value = false)
      (h : SpellsChars cs text) :
      SpellsChars (Char.ofNat value :: cs) ('\\' :: 'u' :: a :: b :: d :: e :: text)
  | pair {a b d e a' b' d' e' : Char} {high low : Nat} {cs text : List Char}
      (hunit : unit? a b d e = some high) (hhigh : isHighSurrogate high = true)
      (hunit' : unit? a' b' d' e' = some low) (hlow : isLowSurrogate low = true)
      (h : SpellsChars cs text) :
      SpellsChars (ofSurrogates high low :: cs)
        ('\\' :: 'u' :: a :: b :: d :: e :: '\\' :: 'u' :: a' :: b' :: d' :: e' :: text)

/-- A text spells a string between its quotes. -/
def Spells (s : String) (text : List Char) : Prop :=
  ∃ inside, SpellsChars s.toList inside ∧ text = '"' :: (inside ++ ['"'])

section Characters

variable {reading : EscapeReading} {rest after : List Char} {cs : List Char}

/-- An escape is read as its character, and the string goes on behind it. -/
theorem stringChars_backslash (taken : List Char) {c : Char}
    (hescape : reading (taken ++ rest) = .ok (c, taken.length))
    (hrest : stringChars reading 0 rest = .ok (cs, after)) :
    stringChars reading 0 ('\\' :: (taken ++ rest)) = .ok (c :: cs, after) := by
  have hskip : ∀ taken : List Char,
      stringChars reading taken.length (taken ++ rest) = .ok (cs, after) := by
    intro taken
    induction taken with
    | nil => exact hrest
    | cons d taken ih => simpa only [stringChars, List.length_cons, List.cons_append] using ih
  simp only [stringChars, hescape, Outcome.ok_bind, hskip]

/-- A character that needs no escape is read as itself. -/
theorem stringChars_plain {c : Char} (hcontrol : 0x20 ≤ c.toNat) (hquote : c ≠ '"')
    (hbackslash : c ≠ '\\') (hrest : stringChars reading 0 rest = .ok (cs, after)) :
    stringChars reading 0 (c :: rest) = .ok (c :: cs, after) := by
  have hvisible : ¬ c.toNat < 0x20 := Nat.not_lt.mpr hcontrol
  unfold stringChars
  split <;> simp_all

theorem ne_unit_of_letter {letter c : Char} (h : letter? letter = some c) : letter ≠ 'u' := by
  rintro rfl
  cases h

end Characters

/-- A string is read as what it spells. -/
theorem stringChars_of_spells {cs inside : List Char} (h : SpellsChars cs inside)
    (rest : List Char) :
    stringChars strictEscape 0 (inside ++ '"' :: rest) = .ok (cs, rest) := by
  induction h with
  | nil => rfl
  | plain hcontrol hquote hbackslash _ ih =>
      exact stringChars_plain hcontrol hquote hbackslash ih
  | @letter letter c _ _ hletter _ ih =>
      apply stringChars_backslash [letter] _ ih
      have hother := ne_unit_of_letter hletter
      simp only [List.singleton_append, List.length_singleton]
      unfold strictEscape
      split <;> simp_all [letterEscape]
  | @unit a b d e value _ _ hunit hlow hhigh _ ih =>
      apply stringChars_backslash ['u', a, b, d, e] _ ih
      simp [strictEscape, unit, hunit, hlow, hhigh]
  | @pair a b d e a' b' d' e' high low _ _ hunit hhigh hunit' hlow _ ih =>
      have hfirst : isLowSurrogate high = false := by
        simp only [isHighSurrogate, isLowSurrogate, Bool.and_eq_true, decide_eq_true_eq,
          Bool.and_eq_false_iff, decide_eq_false_iff_not] at hhigh ⊢
        omega
      apply stringChars_backslash ['u', a, b, d, e, '\\', 'u', a', b', d', e'] _ ih
      simp [strictEscape, unit, hunit, hfirst, hhigh, lowSurrogate, hunit', hlow]

/-- Every spelling of a string is read as the string. -/
theorem run_quoted_of_spells {s : String} {text : List Char} (h : Spells s text)
    (rest : List Char) : (quoted strictEscape).run (text ++ rest) = .ok (s, rest) := by
  obtain ⟨inside, hinside, rfl⟩ := h
  have hchars := stringChars_of_spells hinside rest
  simp [quoted, StateT.run, hchars]

/-- A character is spelt by the way it stands inside a printed string. -/
theorem spellsChars_escape (c : Char) {cs text : List Char} (h : SpellsChars cs text) :
    SpellsChars (c :: cs) (escape c ++ text) := by
  unfold escape
  split
  case h_8 _ hquote hbackslash _ _ _ _ _ =>
    split
    · next hcontrol =>
      obtain ⟨a, b, d, e, hescape, hunit⟩ := unitEscape_eq hcontrol
      have hlow : isLowSurrogate c.toNat = false := by simp [isLowSurrogate]; omega
      have hhigh : isHighSurrogate c.toNat = false := by simp [isHighSurrogate]; omega
      have hspelt := SpellsChars.unit hunit hlow hhigh h
      rw [Char.ofNat_toNat] at hspelt
      rw [hescape]
      exact hspelt
    · next hcontrol => exact .plain (Nat.not_lt.mp hcontrol) hquote hbackslash h
  all_goals exact .letter rfl h

/-- A printed string is a spelling of the string. -/
theorem spells_quote (s : String) : Spells s (quote s).toList := by
  have hchars : ∀ cs : List Char, SpellsChars cs (cs.flatMap escape) := by
    intro cs
    induction cs with
    | nil => exact .nil
    | cons c cs ih => exact spellsChars_escape c ih
  exact ⟨s.toList.flatMap escape, hchars s.toList, by simp [quote]⟩

theorem run_quoted (s : String) (rest : List Char) :
    (quoted strictEscape).run ((quote s).toList ++ rest) = .ok (s, rest) :=
  run_quoted_of_spells (spells_quote s) rest

end Scan

end SchemaMigration.Json
