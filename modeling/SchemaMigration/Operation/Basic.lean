import SchemaMigration.Schema.Basic

/-!
# Operations on a schema

An operation is one structural change. It names the table that it touches as the table is called
once the operation has been carried out.
-/

namespace SchemaMigration

/-- One change of a schema. -/
inductive Operation where
  | dropModel (name : String)
  | addModel (model : Model)
  | renameModel (previous current : String)
  | addAttribute (model : Handle) (attr : Attribute)
  | dropAttribute (model attr : Handle)
  | renameAttribute (model : Handle) (previous current : String)
  | changeRequired (model : Handle) (attr : Attribute)
  | modifyAttribute (model : Handle) (attr : Attribute)
  | changeUnique (model : Model)
deriving DecidableEq

namespace Operation

/-- The kinds of operation. -/
inductive Kind where
  | dropModel
  | addModel
  | renameModel
  | addAttribute
  | dropAttribute
  | renameAttribute
  | changeRequired
  | modifyAttribute
  | changeUnique
deriving DecidableEq

namespace Kind

/-- All kinds, in the order in which messages list them. -/
def all : List Kind :=
  [dropModel, addModel, renameModel, addAttribute, dropAttribute, renameAttribute, changeRequired,
   modifyAttribute, changeUnique]

/-- The name of a kind in documents. -/
def name : Kind → String
  | dropModel => "model-dropped"
  | addModel => "model-added"
  | renameModel => "model-name-changed"
  | addAttribute => "attribute-added"
  | dropAttribute => "attribute-dropped"
  | renameAttribute => "attribute-name-changed"
  | changeRequired => "attribute-is-null-changed"
  | modifyAttribute => "attribute-modified"
  | changeUnique => "unique-constraints-changed"

/-- The kind of a name. -/
def ofName? (name : String) : Option Kind := all.find? (·.name = name)

/-- Every kind is found under its name. -/
theorem ofName?_name (kind : Kind) : ofName? kind.name = some kind := by
  cases kind <;> decide

end Kind

/-- The kind of an operation. -/
def kind : Operation → Kind
  | dropModel .. => .dropModel
  | addModel .. => .addModel
  | renameModel .. => .renameModel
  | addAttribute .. => .addAttribute
  | dropAttribute .. => .dropAttribute
  | renameAttribute .. => .renameAttribute
  | changeRequired .. => .changeRequired
  | modifyAttribute .. => .modifyAttribute
  | changeUnique .. => .changeUnique

/-- The table an operation touches, as it is called afterwards. -/
def table : Operation → String
  | dropModel name => name
  | addModel model | changeUnique model => model.name
  | renameModel _ current => current
  | addAttribute model _ | dropAttribute model _ | renameAttribute model _ _
  | changeRequired model _ | modifyAttribute model _ => model.name

/-- Carrying out the operation can lose data. -/
def isDestructive : Operation → Bool
  | dropModel .. | dropAttribute .. | modifyAttribute .. => true
  | _ => false

end Operation

end SchemaMigration
