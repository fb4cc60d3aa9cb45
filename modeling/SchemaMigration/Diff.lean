import SchemaMigration.Log
import SchemaMigration.Operation.Basic

/-!
# The difference of two schemas

`diff previous current` lists the operations that lead from one schema to the other. Models and
attributes are matched by their identifiers, so that a new name is a renaming.

First come the models that are gone, in their previous order. Then each current model, in its
order: as a whole if it is new; otherwise its renaming, the attributes that are gone, its current
attributes one by one, and last a change of its unique constraint. Of an attribute that was there
before, the renaming comes first, so that what follows can use the current name.

`diffEvents` tells the same story to the log, with one event for all changes of an attribute.
-/

namespace SchemaMigration

namespace Diff

/-- The column of the attribute keeps its type: neither the type nor a bound changed. -/
def sameColumn (previous current : Attribute) : Bool :=
  previous.type = current.type && Json.sameBound previous.min current.min &&
    Json.sameBound previous.max current.max

/-- The changes of an attribute that was there before. Each is found independently of the others. -/
def attributeChanges (model : Handle) (previous current : Attribute) : List Operation :=
  (if previous.name = current.name then []
    else [.renameAttribute model previous.name current.name]) ++
  (if previous.required = current.required then [] else [.changeRequired model current]) ++
  (if sameColumn previous current then [] else [.modifyAttribute model current])

/-- The attributes that the current model does not have any more. -/
def goneAttributes (previous current : Model) : List Attribute :=
  previous.attributes.filter fun attr => (current.byId? attr.id).isNone

/-- The operations for one attribute of the current model. -/
def attributeStep (previous current : Model) (attr : Attribute) : List Operation :=
  match previous.byId? attr.id with
  | none => [.addAttribute current.handle attr]
  | some before => attributeChanges current.handle before attr

/-- The renaming of a model, if its name changed. -/
def renameStep (previous current : Model) : List Operation :=
  if previous.name = current.name then [] else [.renameModel previous.name current.name]

/-- The change of the unique constraint, if other names are under it. -/
def uniqueStep (previous current : Model) : List Operation :=
  if previous.sameUnique current then [] else [.changeUnique current]

/-- The changes of a model that was there before. -/
def modelChanges (previous current : Model) : List Operation :=
  renameStep previous current ++
  (goneAttributes previous current).map (fun attr => .dropAttribute current.handle attr.handle) ++
  current.attributes.flatMap (attributeStep previous current) ++
  uniqueStep previous current

/-- The models that the current schema does not have any more. -/
def goneModels (previous current : Schema) : List Model :=
  previous.models.filter fun model => (current.byId? model.id).isNone

/-- The operations for one model of the current schema. -/
def modelStep (previous : Schema) (model : Model) : List Operation :=
  match previous.byId? model.id with
  | none => [.addModel model]
  | some before => modelChanges before model

end Diff

open Diff in
/-- The operations that lead from one schema to another. -/
def diff (previous current : Schema) : List Operation :=
  (goneModels previous current).map (fun model => .dropModel model.name) ++
  current.models.flatMap (modelStep previous)

namespace Diff

/-- What the log says of one attribute of the current model. -/
def attributeEvents (previous current : Model) (attr : Attribute) : List Event :=
  match previous.byId? attr.id with
  | none => [.attributeAdded current.name attr.name]
  | some before =>
    match attributeChanges current.handle before attr with
    | [] => []
    | changes => [.attributeChanged current.name attr.name changes.length]

/-- What the log says of a model that was there before. -/
def changeEvents (previous current : Model) : List Event :=
  (if previous.name = current.name then [] else [.modelRenamed previous.name current.name]) ++
  (goneAttributes previous current).map (fun attr => .attributeDropped current.name attr.name) ++
  current.attributes.flatMap (attributeEvents previous current) ++
  (if previous.sameUnique current then [] else [.uniqueChanged current.name])

/-- What the log says of one model of the current schema. -/
def modelEvents (previous : Schema) (model : Model) : List Event :=
  match previous.byId? model.id with
  | none => [.modelAdded model.name]
  | some before => changeEvents before model

end Diff

open Diff in
/-- What the log says of the difference of two schemas. -/
def diffEvents (previous current : Schema) : List Event :=
  (goneModels previous current).map (fun model => .modelDropped model.name) ++
  current.models.flatMap (modelEvents previous) ++
  [.diffComplete previous.models.length current.models.length (diff previous current).length]

end SchemaMigration
