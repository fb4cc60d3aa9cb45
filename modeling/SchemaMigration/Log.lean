import SchemaMigration.Failure

/-!
# Logged computations

Generating SQL leaves a trail of events. A logged computation has an outcome, success or failure,
and the events up to it, in order. Continuing a computation that failed adds nothing to either.
-/

namespace SchemaMigration

/-- The weight of an event. -/
inductive Level where
  | debug
  | info
  | warn
deriving DecidableEq

/-- The name of a level. -/
def Level.name : Level → String
  | debug => "DEBUG"
  | info => "INFO"
  | warn => "WARN"

/-- Something that is worth a line in the log. -/
inductive Event where
  | modelDropped (model : String)
  | modelAdded (model : String)
  | modelRenamed (previous current : String)
  | attributeDropped (model attr : String)
  | attributeAdded (model attr : String)
  | attributeChanged (model attr : String) (changes : Nat)
  | uniqueChanged (model : String)
  | diffComplete (previous current operations : Nat)
  | noPrimaryKey (model dialect : String)
  | schemaGenerated (dialect : String) (tables : Nat)
  | operationRendered (dialect kind sql : String)
  | targetsResolved (supported : List String) (requested : Nat)
  | generated (targets models : Nat) (isDiff : Bool)
deriving DecidableEq

namespace Event

/-- The weight of each event. -/
def level : Event → Level
  | noPrimaryKey .. => .warn
  | diffComplete .. | generated .. => .info
  | _ => .debug

/-- What each event says. -/
def message : Event → String
  | modelDropped .. => "Model dropped"
  | modelAdded .. => "Model added"
  | modelRenamed .. => "Model renamed"
  | attributeDropped .. => "Attribute dropped"
  | attributeAdded .. => "Attribute added"
  | attributeChanged .. => "Attribute changed"
  | uniqueChanged .. => "Unique constraints changed"
  | diffComplete .. => "Schema diff complete"
  | noPrimaryKey .. => "Model has no primary key attribute"
  | schemaGenerated .. => "Generated schema DDL"
  | operationRendered .. => "Rendered operation"
  | targetsResolved .. => "Resolved dialects"
  | generated .. => "Generated DDL"

/-- A list of names as a log shows it. -/
def listed (names : List String) : String :=
  "[" ++ ", ".intercalate (names.map Text.cite) ++ "]"

/-- The named details of each event. -/
def fields : Event → List (String × String)
  | modelDropped model | modelAdded model | uniqueChanged model => [("model", model)]
  | modelRenamed previous current => [("from", previous), ("to", current)]
  | attributeDropped model attr | attributeAdded model attr =>
    [("model", model), ("attribute", attr)]
  | attributeChanged model attr changes =>
    [("model", model), ("attribute", attr), ("changes", toString changes)]
  | diffComplete previous current operations =>
    [("previous_models", toString previous), ("current_models", toString current),
     ("operations", toString operations)]
  | noPrimaryKey model dialect => [("model", model), ("dialect", dialect)]
  | schemaGenerated dialect tables => [("dialect", dialect), ("tables", toString tables)]
  | operationRendered dialect kind sql => [("dialect", dialect), ("kind", kind), ("sql", sql)]
  | targetsResolved supported requested =>
    [("targets", listed supported), ("requested", toString requested)]
  | generated targets models isDiff =>
    [("targets", toString targets), ("models", toString models),
     ("diff", if isDiff then "true" else "false")]

end Event

/-- A computation that logs events on its way to an outcome. -/
structure Logged (α : Type) where
  events : List Event
  outcome : Except Failure α

namespace Logged

variable {α β : Type}

/-- Goes on with the value of a computation, if it has one. -/
def andThen (x : Logged α) (next : α → Logged β) : Logged β :=
  match x.outcome with
  | .error failure => ⟨x.events, .error failure⟩
  | .ok value => ⟨x.events ++ (next value).events, (next value).outcome⟩

instance : Monad Logged where
  pure value := ⟨[], .ok value⟩
  bind := andThen

/-- Logs events. -/
def note (events : List Event) : Logged Unit := ⟨events, .ok ()⟩

/-- A computation that logs nothing. -/
def silent (outcome : Except Failure α) : Logged α := ⟨[], outcome⟩

@[simp] theorem outcome_pure (value : α) : (pure value : Logged α).outcome = .ok value := rfl

@[simp] theorem events_pure (value : α) : (pure value : Logged α).events = [] := rfl

@[simp] theorem outcome_note (events : List Event) : (note events).outcome = .ok () := rfl

@[simp] theorem events_note (events : List Event) : (note events).events = events := rfl

@[simp] theorem outcome_silent (outcome : Except Failure α) :
    (silent outcome).outcome = outcome := rfl

@[simp] theorem events_silent (outcome : Except Failure α) : (silent outcome).events = [] := rfl

/-- The outcomes of a chain of computations chain by themselves: no outcome depends on an event. -/
@[simp] theorem outcome_bind (x : Logged α) (next : α → Logged β) :
    (x >>= next).outcome = x.outcome >>= fun value => (next value).outcome := by
  change (x.andThen next).outcome = _
  unfold andThen
  cases h : x.outcome <;> rfl

/-- What a computation logs after the first part succeeded. -/
theorem events_bind_of_ok {x : Logged α} {value : α} (h : x.outcome = .ok value)
    (next : α → Logged β) : (x >>= next).events = x.events ++ (next value).events := by
  change (x.andThen next).events = _
  simp [andThen, h]

/-- What a computation logs when its first part failed. -/
theorem events_bind_of_error {x : Logged α} {failure : Failure} (h : x.outcome = .error failure)
    (next : α → Logged β) : (x >>= next).events = x.events := by
  change (x.andThen next).events = _
  simp [andThen, h]

/-- A computation is its events and its outcome. -/
@[ext] theorem ext {x y : Logged α} (events : x.events = y.events)
    (outcome : x.outcome = y.outcome) : x = y := by
  cases x
  cases y
  simp_all

/-- Going on after a success. -/
theorem bind_of_ok {x : Logged α} {value : α} (h : x.outcome = .ok value)
    (next : α → Logged β) :
    x >>= next = ⟨x.events ++ (next value).events, (next value).outcome⟩ :=
  ext (events_bind_of_ok h next) (by rw [outcome_bind, h]; rfl)

/-- Going on after a failure changes nothing but the type. -/
theorem bind_of_error {x : Logged α} {failure : Failure} (h : x.outcome = .error failure)
    (next : α → Logged β) : x >>= next = ⟨x.events, .error failure⟩ :=
  ext (events_bind_of_error h next) (by rw [outcome_bind, h]; rfl)

instance : LawfulMonad Logged :=
  LawfulMonad.mk' _
    (fun x => by
      change x.andThen (fun value => pure (id value)) = x
      cases h : x.outcome <;> ext1 <;> simp [andThen, h])
    (fun value next => bind_of_ok (outcome_pure value) next)
    (fun x f g => by
      cases h : x.outcome with
      | error failure => rw [bind_of_error h, bind_of_error h, bind_of_error rfl]
      | ok value =>
        rw [bind_of_ok h, bind_of_ok h]
        cases h' : (f value).outcome with
        | error failure => rw [bind_of_error rfl, bind_of_error h']
        | ok _ => rw [bind_of_ok rfl, bind_of_ok h', List.append_assoc])

/-- The outcome of a computation whose value is mapped. -/
@[simp] theorem outcome_map (f : α → β) (x : Logged α) :
    (f <$> x).outcome = f <$> x.outcome := by
  rw [map_eq_pure_bind, outcome_bind]
  cases x.outcome <;> rfl

/-- The outcome of a run over a list is the run of the outcomes. -/
theorem outcome_mapM (f : α → Logged β) (xs : List α) :
    (xs.mapM f).outcome = xs.mapM fun x => (f x).outcome := by
  induction xs with
  | nil => rfl
  | cons x xs ih => simp [ih]

end Logged

end SchemaMigration
