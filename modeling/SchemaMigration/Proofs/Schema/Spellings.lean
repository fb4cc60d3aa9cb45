import SchemaMigration.Proofs.Schema.Documents

/-!
# Schema documents, however they are written

A schema can be written in many documents: its objects may have their members in any order and among
others that mean nothing, what they do not have may be null or left out, and there may be blanks
between all lexemes. All of them are read as the schema, as far as the numbers in it are read as the
numbers nearest to their literals.
-/

namespace SchemaMigration

open Json Json.Scan

/-- A schema that has been read from a document is read from every text that is written as the
schema, if the numbers in it are read as the numbers nearest to their literals. -/
theorem Schema.ofText_of_writtenAs {document : String} {s : Schema}
    (h : Schema.ofText document = .ok s) (hreals : ∀ x ∈ s.toJson.reals, x.PrintsNearest)
    {lexemes : List Lexeme} (hwritten : s.WrittenAs lexemes) {text : String}
    (htext : IsText lexemes text.toList) : Schema.ofText text = .ok s := by
  obtain ⟨rest, hread⟩ := exists_run_of_readText h
  have hformed : ∀ m ∈ s.models, ∀ a ∈ m.attributes, a.Formed 122 :=
    (Schema.yields_read rfl).of_run hread
  have hreads : Reads (Schema.record.read .fresh) lexemes s :=
    @Schema.reads_of_writtenAs .fresh ⟨122, false⟩ s lexemes rfl hformed hreals hwritten
  exact readText_of_reads hreads htext

/-- An attribute with a bound and a default. -/
def ratedAttribute : Attribute where
  id := .number 7
  name := "r"
  type := .other "spline"
  min := some (.real (.zero true))
  defaultValue := some (.array [.object []])

def ratedModel : Model := ⟨.text "g", "u", [ratedAttribute]⟩

def ratedSchema : Schema := ⟨[ratedModel]⟩

/-- The members of the attribute but for its flags, which are false. -/
def ratedAttributeMembers : List Member :=
  printedMembers [("id", ratedAttribute.id.toJson), ("name", .string ratedAttribute.name),
    ("type", ratedAttribute.type.toJson), ("min", .number (.real (.zero true))), ("max", .null),
    ("defaultValue", .array [.object []])]

/-- A member that no attribute has, with a string that holds half a character. -/
def noteMember : Member := .printed "note" (brackets [["\"\\ud800\"".toList], Value.null.lexemes])

/-- The lexemes of the attribute, its members in reverse. -/
def ratedAttributeLexemes : List Lexeme := braces (ratedAttributeMembers ++ [noteMember]).reverse

/-- The lexemes of the model, its members in reverse. -/
def ratedModelLexemes : List Lexeme :=
  braces [.printed "attributes" (brackets [ratedAttributeLexemes]),
    .printed "name" (Value.string "u").lexemes, .printed "id" (Value.string "g").lexemes]

/-- The lexemes of the schema. -/
def ratedLexemes : List Lexeme := braces [.printed "models" (brackets [ratedModelLexemes])]

/-- The same as a text. -/
def ratedText : String :=
  " \x7b\"models\" :[\x7b\"attributes\":[\x7b\"note\":[\"\\ud800\", null],\t" ++
    "\"defaultValue\":[\x7b \x7d],\r\n\"max\":null,\"min\":-0.0,\"type\":\"spline\"," ++
    "\"name\":\"r\",\"id\":7\x7d],\"name\":\"u\",\"id\":\"g\"\x7d]\x7d\n"

theorem noteMember_isForeign : IsForeign (ratedAttribute.slots.map Prod.fst) noteMember where
  key_notMem := by simp [Attribute.slots, noteMember, Member.printed]
  spelling := spells_quote "note"
  value := by
    have hlone : IsString "\"\\ud800\"".toList := ⟨"\\ud800".toList, .unit (by rfl) .nil, rfl⟩
    apply IsValue.list
    simp only [List.forall_mem_cons]
    exact ⟨.string hlone, isValue_lexemes .null, by simp⟩

theorem ratedAttribute_writtenAs : ratedAttribute.WrittenAs ratedAttributeLexemes := by
  refine ⟨_, ⟨ratedAttributeMembers, [noteMember], ?_, ?_, List.reverse_perm _⟩, rfl⟩
  · exact .member .written (.member .written (.member .written (.leftOut .leftOut
      (.leftOut .leftOut (.member (.written _) (.member .null (.member (.written _) .nil)))))))
  · exact List.forall_mem_singleton.mpr noteMember_isForeign

theorem ratedSchema_writtenAs : ratedSchema.WrittenAs ratedLexemes := by
  have hattributes : WritesList Attribute.WrittenAs ratedModel.attributes
      (some (brackets [ratedAttributeLexemes])) := .written (.cons ratedAttribute_writtenAs .nil)
  have hmodel : ratedModel.WrittenAs ratedModelLexemes := by
    refine ⟨_, ⟨_, [], .member .written (.member .written (.member hattributes .nil)), ?_,
      List.reverse_perm _⟩, rfl⟩
    simp
  exact ⟨_, Written.arranged (.member (.written (.cons hmodel .nil)) .nil), rfl⟩

theorem Schema.ofText_ratedText :
    Schema.ofText "[[[\"g\",\"u\",[[7,\"r\",\"spline\",false,false,-0,null,[\x7b\x7d]]]]]]" =
      .ok ratedSchema ∧
    (∀ x ∈ ratedSchema.toJson.reals, x.PrintsNearest) ∧ ratedSchema.WrittenAs ratedLexemes ∧
    IsText ratedLexemes ratedText.toList ∧ Schema.ofText ratedText = .ok ratedSchema := by
  have hread : Schema.ofText
      "[[[\"g\",\"u\",[[7,\"r\",\"spline\",false,false,-0,null,[\x7b\x7d]]]]]]" =
      .ok ratedSchema := by decide +kernel
  have hreals : ∀ x ∈ ratedSchema.toJson.reals, x.PrintsNearest := by decide +kernel
  have hafter : afterLexemes ratedLexemes ratedText.toList = some ['\n'] := by decide +kernel
  have htext : IsText ratedLexemes ratedText.toList :=
    isText_of_afterLexemes hafter (by simp [Blanks, isBlank])
  exact ⟨hread, hreals, ratedSchema_writtenAs, htext,
    Schema.ofText_of_writtenAs hread hreals ratedSchema_writtenAs htext⟩

/-- What is printed of a schema with one bound, with blanks around it. -/
def spacedBoundText : String :=
  " \x7b\"models\":[\x7b\"id\":1,\"name\":\"m\",\"attributes\":[\x7b\"id\":1,\"name\":\"a\"," ++
    "\"type\":\"number\",\"isRequired\":false,\"isUnique\":false," ++
    "\"max\":5.0000000000000004e+32\x7d]\x7d]\x7d "

/-- The condition on numbers cannot be left out, as the bound is read as a neighbour of the number
that is printed. Nor can the key of a foreign member hold half a character: it is a string that is
kept. -/
theorem Schema.ofText_spacedBoundText :
    (∃ s again lexemes,
      Schema.ofText "[[[1,\"m\",[[1,\"a\",\"number\",false,false,null,5e+32]]]]]" = .ok s ∧
      s.WrittenAs lexemes ∧ IsText lexemes spacedBoundText.toList ∧
      Schema.ofText spacedBoundText = .ok again ∧ again ≠ s) ∧
    Schema.ofText "[[]]" = .ok ⟨[]⟩ ∧
    Schema.ofText "\x7b\"models\":[],\"\\ud800\":0\x7d" = .error .unpairedSurrogate := by
  refine ⟨?_, ?_, ?_⟩
  · have hafter : afterLexemes
        (boundedSchema ⟨false, 6938893903907229, 56, by decide⟩).toJson.lexemes
        spacedBoundText.toList = some [' '] := by decide +kernel
    refine ⟨boundedSchema ⟨false, 6938893903907229, 56, by decide⟩,
      boundedSchema ⟨false, 6938893903907228, 56, by decide⟩, _, ?_, Schema.writtenAs_lexemes _,
      isText_of_afterLexemes hafter (by simp [Blanks, isBlank]), ?_, ?_⟩
    · decide +kernel
    · decide +kernel
    · decide +kernel
  · decide +kernel
  · decide +kernel

end SchemaMigration
