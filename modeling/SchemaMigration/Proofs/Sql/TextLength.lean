import SchemaMigration.Sql.Script
import SchemaMigration.Proofs.Number.Exact

/-!
# The length of a text column

A dialect may limit the columns of a type, as the registered ones do with strings. The upper bound
of the attribute is then the length of its column, and only the value of the bound counts, not how a
document holds it: a positive integer that 64 bits hold is the length, and with any other bound or
without one the column has the length that is set for such columns.
-/

namespace SchemaMigration.Sql

open Dialect Json

theorem textLength_of_counts {attr : Attribute} {n : Number} {k : Nat} (hmax : attr.max = some n)
    (h : n.Counts k) : textLength attr = k := by
  rw [textLength, hmax, Option.bind_some, Number.positive?_eq_some_iff.mpr h, Option.getD_some]

theorem textLength_of_not_counts {attr : Attribute} (h : ∀ n ∈ attr.max, ∀ k, ¬ n.Counts k) :
    textLength attr = defaultLength := by
  have hnone : attr.max.bind (·.positive?) = none := by
    rw [Option.eq_none_iff_forall_ne_some]
    intro k hk
    obtain ⟨n, hn, hpositive⟩ := Option.bind_eq_some_iff.mp hk
    exact h n hn k (Number.positive?_eq_some_iff.mp hpositive)
  rw [textLength, hnone, Option.getD_none]

theorem textLength_congr {x y : Attribute}
    (h : x.max.map (·.exact) = y.max.map (·.exact)) : textLength x = textLength y := by
  unfold textLength
  cases hx : x.max with
  | none =>
      cases hy : y.max with
      | none => rfl
      | some b => simp [hx, hy] at h
  | some a =>
      cases hy : y.max with
      | none => simp [hx, hy] at h
      | some b =>
          have hexact : a.exact = b.exact := by simpa [hx, hy] using h
          simp only [Option.bind_some, Number.positive?_congr hexact]

/-- A dialect limits the length of the columns of a type. -/
def LimitsText (d : Dialect) (type : AttributeType) : Prop :=
  (d.mapping? type).map (·.column) = some .boundedText

/-- In the registered dialects, exactly strings become text of limited length. -/
theorem limitsText_iff {d : Dialect} (hd : d ∈ dialects) {type : AttributeType} :
    LimitsText d type ↔ type.name = "string" := by
  constructor
  · have hall : ∀ d ∈ dialects, ∀ entry ∈ d.mappings,
        entry.2.column = .boundedText → entry.1 = "string" := by
      decide
    intro h
    obtain ⟨mapping, hmapping, hcolumn⟩ := Option.map_eq_some_iff.mp h
    obtain ⟨entry, hfound, rfl⟩ := Option.map_eq_some_iff.mp hmapping
    have hname : entry.1 = type.name := by simpa using List.find?_some hfound
    rw [← hname]
    exact hall d hd entry (List.mem_of_find?_eq_some hfound) hcolumn
  · have hall : ∀ d ∈ dialects,
        ((d.mappings.find? (·.1 = "string")).map (·.2)).map (·.column) = some .boundedText := by
      decide
    intro h
    rw [LimitsText, mapping?, h]
    exact hall d hd

theorem columnType_of_limitsText {d : Dialect} (model : String) {attr : Attribute}
    (h : LimitsText d attr.type) :
    d.columnType model attr = .ok ("VARCHAR(" ++ toString (textLength attr) ++ ")") := by
  obtain ⟨mapping, hmapping, hcolumn⟩ := Option.map_eq_some_iff.mp h
  have hfound : d.mapping model attr = .ok mapping := by rw [Dialect.mapping, hmapping]
  rw [columnType, hfound]
  exact congrArg (fun column => Except.ok (columnTypeOf attr column)) hcolumn

/-- The type of a column depends on the type and the name of the attribute, which a refusal tells,
and on the value of its upper bound. -/
theorem columnType_congr {d : Dialect} {model : String} {x y : Attribute} (htype : x.type = y.type)
    (hname : x.name = y.name) (hmax : x.max.map (·.exact) = y.max.map (·.exact)) :
    d.columnType model x = d.columnType model y := by
  have hmapping : d.mapping model x = d.mapping model y := by simp only [mapping, htype, hname]
  have hcolumn : columnTypeOf x = columnTypeOf y := by
    funext column
    cases column with
    | fixed sql => rfl
    | boundedText => simp only [columnTypeOf, textLength_congr hmax]
  rw [columnType, columnType, hmapping, hcolumn]

/-- A number stands for the positive whole number that is its value, if 64 bits hold it, and for
none otherwise. So a limited column, as strings have in the registered dialects, has the length of
such an upper bound, and length 255 with any other bound or without one. Upper bounds of the same
value make the same type of column in every dialect. -/
theorem columnType_exact :
    (∀ (n : Number) (k : Nat), n.positive? = some k ↔ n.Counts k) ∧
    (∀ d ∈ dialects, ∀ type : AttributeType, LimitsText d type ↔ type.name = "string") ∧
    (∀ (d : Dialect) (model : String) (attr : Attribute), LimitsText d attr.type →
      (∀ n k, attr.max = some n → n.Counts k →
        d.columnType model attr = .ok ("VARCHAR(" ++ toString k ++ ")")) ∧
      ((∀ n, attr.max = some n → ∀ k, ¬ n.Counts k) →
        d.columnType model attr = .ok "VARCHAR(255)")) ∧
    (∀ (d : Dialect) (model : String) (attr : Attribute) (m n : Number), m.exact = n.exact →
      d.columnType model { attr with max := some m } =
        d.columnType model { attr with max := some n }) := by
  refine ⟨fun n k => Number.positive?_eq_some_iff, fun d hd type => limitsText_iff hd, ?_, ?_⟩
  · intro d model attr hlimits
    rw [columnType_of_limitsText model hlimits]
    constructor
    · intro n k hmax hcounts
      rw [textLength_of_counts hmax hcounts]
    · intro hnone
      rw [textLength_of_not_counts hnone]
      rfl
  · intro d model attr m n hexact
    exact columnType_congr rfl rfl (congrArg some hexact)

/-- The greatest binary64 number below `2 ^ 64`. -/
def widestReal : Binary64 := ⟨false, 9007199254740991, 11, by decide⟩

/-- The least binary64 number that is not below `2 ^ 64`. -/
def tooWideReal : Binary64 := ⟨false, 4503599627370496, 12, by decide⟩

/-- The integer that is the value of `widestReal`. -/
def widestInteger : Number := .integer 18446744073709549568 (by decide)

/-- A title of limited length. -/
def titleAttribute (limit : Number) : Attribute where
  id := .text "title"
  name := "title"
  type := .string
  max := some limit

/-- The last real below the range of 64 bits is a length, held as a real or as an integer; the next
one is none. -/
theorem columnType_exact_titles :
    redshift ∈ dialects ∧ LimitsText redshift .string ∧
      (Number.real widestReal).Counts 18446744073709549568 ∧
      redshift.columnType "books" (titleAttribute (.real widestReal)) =
        .ok "VARCHAR(18446744073709549568)" ∧
      (∀ k, ¬ (Number.real tooWideReal).Counts k) ∧
      redshift.columnType "books" (titleAttribute (.real tooWideReal)) = .ok "VARCHAR(255)" ∧
      (Number.real widestReal).exact = widestInteger.exact ∧
      redshift.columnType "books" (titleAttribute (.real widestReal)) =
        redshift.columnType "books" (titleAttribute widestInteger) := by
  obtain ⟨-, hlimits, hcolumns, hsame⟩ := columnType_exact
  have hd : redshift ∈ dialects := List.mem_cons_of_mem _ (List.mem_singleton_self _)
  have hstring : LimitsText redshift .string := (hlimits redshift hd .string).mpr rfl
  have hcounts : (Number.real widestReal).Counts 18446744073709549568 := by decide +kernel
  have htext : "VARCHAR(" ++ toString 18446744073709549568 ++ ")" =
      "VARCHAR(18446744073709549568)" := by decide +kernel
  have hvalue : (Number.real tooWideReal).exact = UInt64.size := by decide +kernel
  have hnone : ∀ k, ¬ (Number.real tooWideReal).Counts k := by
    intro k hk
    have hsize : k = UInt64.size := by exact_mod_cast hk.value.symm.trans hvalue
    exact absurd hk.fits (by omega)
  have hexact : (Number.real widestReal).exact = widestInteger.exact := by decide +kernel
  refine ⟨hd, hstring, hcounts, ?_, hnone, ?_, hexact, ?_⟩
  · rw [← htext]
    exact (hcolumns redshift "books" _ hstring).1 _ _ rfl hcounts
  · refine (hcolumns redshift "books" _ hstring).2 ?_
    rintro n ⟨rfl⟩
    exact hnone
  · exact hsame redshift "books" (titleAttribute widestInteger) _ _ hexact

end SchemaMigration.Sql
