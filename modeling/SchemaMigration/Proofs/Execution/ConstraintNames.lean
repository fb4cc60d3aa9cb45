import SchemaMigration.Proofs.Execution.Migration

/-!
# Names of unique constraints along a run in Redshift

A migration drops a constraint under the name that follows from what the model is called now, while
the database keeps the name that the constraint was made with. In Redshift, `DROP CONSTRAINT` fails
when the table has no constraint of this name.

A ledger says of every model what it was called when its constraint was last made, or that it has
none. It is kept up from one schema to the next, and a run is as it should be when every constraint
that is replaced stands in the ledger under the current name of its model.
-/

namespace SchemaMigration.Execution

open Catalog Diff Named Outcome Sql

/-- An engine that creates every table anew, or fails, and that drops columns without the
constraints that cover them. It may insist that a constraint to be dropped is there. -/
def Engine.plain (insists : Bool) : Engine := ⟨false, false, insists⟩

/-- Every constraint that is dropped is one that its table has at that moment. -/
def DropsFound (statements : List Statement) (database : Database) : Prop :=
  ∀ done table constraint ifThere rest,
    statements = done ++ .dropConstraint table constraint ifThere :: rest →
    ∃ reached found, (Engine.plain false).performAll done database = .ok reached ∧
      reached table = some found ∧ found.has constraint = true

/-- No statement drops a constraint only if it is there. -/
def Bare (statements : List Statement) : Prop :=
  ∀ table constraint ifThere, .dropConstraint table constraint ifThere ∈ statements →
    ifThere = false

/-- The constraint that a statement drops is there. -/
def Found (statement : Statement) (database : Database) : Prop :=
  ∀ table constraint ifThere, statement = .dropConstraint table constraint ifThere →
    ∃ found, database table = some found ∧ found.has constraint = true

/-- Insisting makes a statement fail exactly if the constraint that it drops is not there. -/
theorem perform_insisting_eq_ok_iff {statement : Statement} (h : Bare [statement])
    {database next : Database} :
    (Engine.plain true).perform statement database = .ok next ↔
      (Engine.plain false).perform statement database = .ok next ∧ Found statement database := by
  cases statement with
  | dropConstraint table constraint ifThere =>
      obtain rfl := h table constraint ifThere List.mem_cons_self
      change alter table ((Engine.plain true).dropConstraint constraint false) database = _ ↔
        alter table ((Engine.plain false).dropConstraint constraint false) database = _ ∧ _
      simp only [alter_eq_ok_iff, dropConstraint_eq_ok_iff, ← Table.has_eq_true_iff]
      constructor
      · rintro ⟨thing, changed, hthing, ⟨hhas, hchanged⟩, hnext⟩
        refine ⟨⟨thing, changed, hthing, ⟨(nomatch ·), hchanged⟩, hnext⟩, ?_⟩
        rintro _ _ _ ⟨⟩
        exact ⟨thing, hthing, hhas rfl trivial⟩
      · rintro ⟨⟨thing, changed, hthing, ⟨-, hchanged⟩, hnext⟩, hfound⟩
        refine ⟨thing, changed, hthing, ⟨fun _ _ => ?_, hchanged⟩, hnext⟩
        obtain ⟨found, hthere, hhas⟩ := hfound table constraint false rfl
        obtain rfl := Option.some.inj (hthing.symm.trans hthere)
        exact hhas
  | createTable | dropTable | renameTable | addColumn | dropColumn | renameColumn | setRequired
  | setType | addConstraint => exact ⟨fun hdone => ⟨hdone, fun _ _ _ he => nomatch he⟩, And.left⟩

/-- Constraints that are dropped are found at the first statement and at the later ones. -/
theorem dropsFound_cons_iff {statement : Statement} {rest : List Statement}
    {database next : Database}
    (hnext : (Engine.plain false).perform statement database = .ok next) :
    DropsFound (statement :: rest) database ↔
      Found statement database ∧ DropsFound rest next := by
  constructor
  · intro h
    constructor
    · rintro table constraint ifThere rfl
      obtain ⟨reached, found, hreached, hfound⟩ := h [] table constraint ifThere rest rfl
      obtain rfl := Except.ok.inj hreached
      exact ⟨found, hfound⟩
    · rintro done table constraint ifThere back rfl
      obtain ⟨reached, found, hreached, hfound⟩ :=
        h (statement :: done) table constraint ifThere back rfl
      rw [Engine.performAll_cons, hnext] at hreached
      exact ⟨reached, found, hreached, hfound⟩
  · rintro ⟨hfirst, hrest⟩ done table constraint ifThere back he
    cases done with
    | nil =>
        obtain ⟨rfl, rfl⟩ := List.cons.inj he
        obtain ⟨found, hfound⟩ := hfirst table constraint ifThere rfl
        exact ⟨database, found, rfl, hfound⟩
    | cons first done =>
        obtain ⟨rfl, rfl⟩ := List.cons.inj he
        obtain ⟨reached, found, hreached, hfound⟩ := hrest done table constraint ifThere back rfl
        exact ⟨reached, found, by rw [Engine.performAll_cons, hnext]; exact hreached, hfound⟩

/-- An engine that insists on the constraints to be dropped succeeds exactly if one that does not
insist succeeds and each of them is found at its moment. -/
theorem performAll_insisting_eq_ok_iff {statements : List Statement} (h : Bare statements)
    {database result : Database} :
    (Engine.plain true).performAll statements database = .ok result ↔
      (Engine.plain false).performAll statements database = .ok result ∧
        DropsFound statements database := by
  induction statements generalizing database with
  | nil =>
      refine ⟨fun hdone => ⟨hdone, ?_⟩, And.left⟩
      intro done _ _ _ _ he
      cases done <;> cases he
  | cons statement rest ih =>
      have hfirst : Bare [statement] := by
        intro table constraint ifThere hmem
        obtain rfl := List.mem_singleton.mp hmem
        exact h table constraint ifThere List.mem_cons_self
      have hrest : Bare rest := fun table constraint ifThere hmem =>
        h table constraint ifThere (List.mem_cons_of_mem _ hmem)
      rw [Engine.performAll_cons, Engine.performAll_cons, bind_eq_ok, bind_eq_ok]
      constructor
      · rintro ⟨next, hstep, hdone⟩
        obtain ⟨hnext, hfound⟩ := (perform_insisting_eq_ok_iff hfirst).mp hstep
        obtain ⟨hresult, hlater⟩ := (ih hrest).mp hdone
        exact ⟨⟨next, hnext, hresult⟩, (dropsFound_cons_iff hnext).mpr ⟨hfound, hlater⟩⟩
      · rintro ⟨⟨next, hnext, hresult⟩, hdrops⟩
        obtain ⟨hfound, hlater⟩ := (dropsFound_cons_iff hnext).mp hdrops
        exact ⟨next, (perform_insisting_eq_ok_iff hfirst).mpr ⟨hnext, hfound⟩,
          (ih hrest).mpr ⟨hresult, hlater⟩⟩

/-- Statements of operations drop constraints as the dialect does. -/
theorem ifThere_of_mem_migration {d : Dialect} {operations : List Operation}
    {statements : List Statement} (h : migration d operations = .ok statements)
    {table constraint : String} {ifThere : Bool}
    (hmem : .dropConstraint table constraint ifThere ∈ statements) : ifThere = d.dropsIfThere := by
  induction operations generalizing statements with
  | nil =>
      obtain rfl := Except.ok.inj h
      cases hmem
  | cons op operations ih =>
      rw [migration_cons] at h
      obtain ⟨front, hfront, h⟩ := bind_eq_ok.mp h
      obtain ⟨back, hback, h⟩ := bind_eq_ok.mp h
      obtain rfl := Except.ok.inj h
      rcases List.mem_append.mp hmem with hmem | hmem
      · cases op with
        | changeUnique model =>
            obtain rfl := Except.ok.inj hfront
            rcases List.mem_cons.mp hmem with hdrop | hadd
            · exact (Statement.dropConstraint.inj hdrop).2.2
            · obtain ⟨_, _, hadd⟩ := List.mem_map.mp hadd
              cases hadd
        | addModel model =>
            obtain ⟨statement, hcreation, hlist⟩ := bind_eq_ok.mp hfront
            obtain rfl := Except.ok.inj hlist
            obtain ⟨columns, -, rfl⟩ := creation_eq_ok.mp hcreation
            cases List.mem_singleton.mp hmem
        | addAttribute | modifyAttribute =>
            obtain ⟨_, _, hlist⟩ := bind_eq_ok.mp hfront
            obtain rfl := Except.ok.inj hlist
            cases List.mem_singleton.mp hmem
        | dropModel | renameModel | dropAttribute | renameAttribute | changeRequired =>
            obtain rfl := Except.ok.inj hfront
            cases List.mem_singleton.mp hmem
      · exact ih hback hmem

/-- The statements of a run drop constraints as the dialect does. -/
theorem ifThere_of_mem_history {d : Dialect} {first : Schema} {later : List Schema}
    {statements : List Statement} (h : history d first later = .ok statements)
    {table constraint : String} {ifThere : Bool}
    (hmem : .dropConstraint table constraint ifThere ∈ statements) : ifThere = d.dropsIfThere := by
  obtain ⟨front, hfront, h⟩ := bind_eq_ok.mp h
  obtain ⟨back, hback, h⟩ := bind_eq_ok.mp h
  obtain rfl := Except.ok.inj h
  rw [creations_eq_migration] at hfront
  rcases List.mem_append.mp hmem with hmem | hmem
  · exact ifThere_of_mem_migration hfront hmem
  · exact ifThere_of_mem_migration hback hmem

/-- What a model is called when its constraint is made, if it has unique attributes. -/
def noted (model : Model) : Option String :=
  if model.uniqueNames = [] then none else some model.name

/-- The entries of the current models after a difference. -/
def nextHeld (previous : Schema) (held : Model → Option String) (model : Model) : Option String :=
  match previous.byId? model.id with
  | none => noted model
  | some old => if old.sameUnique model then held old else noted model

/-- Along a run, every model whose unique attributes change is entered under its current name. -/
def NamesKept : (Model → Option String) → Schema → List Schema → Prop
  | _, _, [] => True
  | held, previous, current :: later =>
    (∀ model ∈ current.models, ∀ old ∈ previous.byId? model.id, old.sameUnique model = false →
      held old = some model.name) ∧
    NamesKept (nextHeld previous held) current later

instance decidableNamesKept : ∀ (held : Model → Option String) (first : Schema)
    (later : List Schema), Decidable (NamesKept held first later)
  | _, _, [] => isTrue trivial
  | held, previous, current :: later =>
    have := decidableNamesKept (nextHeld previous held) current later
    inferInstanceAs (Decidable (_ ∧ _))

/-- The names of the constraints of a table are those that follow from its entry. -/
def Holds (held : Option String) (uniques : List Unique) : Prop :=
  uniques.map (·.name) = held.toList.map fun name => some (Dialect.uniqueName name)

theorem uniqueName_injective : Function.Injective Dialect.uniqueName := by
  intro name other h
  exact (String.append_right_inj _).mp h

/-- Where the entry is right, a constraint is found under the name of a model exactly if it is
entered under this name. -/
theorem Holds.finds_iff {held : Option String} {uniques : List Unique} (h : Holds held uniques)
    (model : Model) :
    Finds redshift (Engine.plain true) model uniques ↔ held = some model.name := by
  have hmem : (∃ u ∈ uniques, u.name = some (Dialect.uniqueName model.name)) ↔
      some (Dialect.uniqueName model.name) ∈ uniques.map (·.name) := by
    simp only [List.mem_map]
  have hfinds : Finds redshift (Engine.plain true) model uniques ↔
      ∃ u ∈ uniques, u.name = some (Dialect.uniqueName model.name) :=
    ⟨fun hf => hf rfl rfl, fun hu _ _ => hu⟩
  rw [hfinds, hmem, h, List.mem_map]
  constructor
  · rintro ⟨name, hname, he⟩
    obtain rfl := uniqueName_injective (Option.some.inj he)
    exact Option.mem_toList.mp hname
  · rintro rfl
    exact ⟨model.name, List.mem_cons_self, rfl⟩

theorem holds_namedUnique (model : Model) :
    Holds (noted model) (Dialect.namedUnique? model).toList := by
  simp only [Holds, noted, Dialect.namedUnique?, Dialect.unique?]
  split <;> rfl

/-- Operations for attributes keep the names of constraints, since columns are dropped without
them. -/
theorem Holds.followAll {held : Option String} {uniques : List Unique} (h : Holds held uniques)
    (insists : Bool) (operations : List Operation) :
    Holds held (followAll (Engine.plain insists) operations uniques) := by
  induction operations generalizing uniques with
  | nil => exact h
  | cons op rest ih =>
      refine ih ?_
      cases op with
      | renameAttribute model previous current =>
          have hnames : (follow (Engine.plain insists) (.renameAttribute model previous current)
              uniques).map (·.name) = uniques.map (·.name) := List.map_map
          exact hnames.trans h
      | dropModel | addModel | renameModel | addAttribute | dropAttribute | changeRequired
      | modifyAttribute | changeUnique => exact h

/-- The entry of a model is right after its constraint has been replaced, if it was before under
its current name. -/
theorem Holds.replaced {model : Model} {uniques : List Unique}
    (h : Holds (some model.name) uniques) : Holds (noted model) (replaced model uniques) := by
  have hgone : uniques.filter (·.name ≠ some (Dialect.uniqueName model.name)) = [] := by
    refine List.filter_eq_nil_iff.mpr fun u hu => ?_
    have hname : u.name ∈ uniques.map (·.name) := List.mem_map_of_mem hu
    rw [h] at hname
    simpa using hname
  rw [Execution.replaced, hgone, List.nil_append]
  exact holds_namedUnique model

section

variable {first previous current : Schema} {later : List Schema} {keys : Model → Attribute → Bool}
  {uniques : Model → List Unique} {held : Model → Option String} {result : Database}

/-- The ledger is right after a difference, if it was before and no constraint was missed. -/
theorem holds_next (hheld : ∀ model ∈ previous.models, Holds (held model) (uniques model))
    (hkept : ∀ model ∈ current.models, ∀ old ∈ previous.byId? model.id,
      old.sameUnique model = false → held old = some model.name) (insists : Bool) :
    ∀ model ∈ current.models, Holds (nextHeld previous held model)
      (nextUniques redshift (Engine.plain insists) previous uniques model) := by
  intro model hm
  simp only [nextHeld, nextUniques]
  cases hfound : previous.byId? model.id with
  | none => exact holds_namedUnique model
  | some old =>
      have hold := (hheld old (List.mem_of_find?_eq_some hfound)).followAll insists
        (attributeOps old model)
      simp only [settledUniques]
      cases hsame : old.sameUnique model with
      | true => exact hold
      | false =>
          rw [hkept model hm old hfound hsame] at hold
          exact hold.replaced

/-- Where the ledger is right, the constraints that a difference replaces are found exactly if they
are entered under the current names of their models. -/
theorem finds_all_iff (hheld : ∀ model ∈ previous.models, Holds (held model) (uniques model)) :
    (∀ model ∈ current.models, ∀ old ∈ previous.byId? model.id, old.sameUnique model = false →
      Finds redshift (Engine.plain true) model
        (followAll (Engine.plain true) (attributeOps old model) (uniques old))) ↔
    ∀ model ∈ current.models, ∀ old ∈ previous.byId? model.id, old.sameUnique model = false →
      held old = some model.name := by
  refine forall₂_congr fun model _ => forall₂_congr fun old hold => imp_congr_right fun _ => ?_
  exact ((hheld old (List.mem_of_find?_eq_some hold)).followAll true _).finds_iff model

/-- Where the ledger is right, an engine that insists carries out a run exactly if one that does not
insist does so and the constraints that are replaced are entered under current names. -/
theorem carryOut_migrations_eq_ok_iff (hd : ∀ schema ∈ first :: later, schema.Distinct)
    (hheld : ∀ model ∈ first.models, Holds (held model) (uniques model)) :
    carryOut (view redshift (Engine.plain true)).execute (migrations first later)
        (ofEntries (first.models.map fun m => (m.name, tableWith keys uniques m))) = .ok result ↔
      carryOut (view redshift (Engine.plain false)).execute (migrations first later)
          (ofEntries (first.models.map fun m => (m.name, tableWith keys uniques m))) = .ok result ∧
        NamesKept held first later := by
  induction later generalizing first keys uniques held with
  | nil => exact ⟨fun h => ⟨h, trivial⟩, And.left⟩
  | cons current later ih =>
      obtain ⟨hfirst, hlater⟩ := List.forall_mem_cons.mp hd
      have hcurrent := (List.forall_mem_cons.mp hlater).1
      have hlenient : ∀ model ∈ current.models, ∀ old ∈ first.byId? model.id,
          old.sameUnique model = false → Finds redshift (Engine.plain false) model
            (followAll (Engine.plain false) (attributeOps old model) (uniques old)) :=
        fun _ _ _ _ _ hinsists => absurd hinsists (by decide)
      rw [migrations, carryOut_append, carryOut_append, bind_eq_ok, bind_eq_ok]
      simp only [carryOut_diff_eq_ok_iff hfirst hcurrent, NamesKept, finds_all_iff hheld]
      constructor
      · rintro ⟨middle, ⟨ho, hkept, rfl⟩, hrest⟩
        obtain ⟨hrun, hnames⟩ := (ih hlater (holds_next hheld hkept true)).mp hrest
        exact ⟨⟨_, ⟨ho, hlenient, rfl⟩, hrun⟩, hkept, hnames⟩
      · rintro ⟨⟨middle, ⟨ho, -, rfl⟩, hrun⟩, hkept, hnames⟩
        exact ⟨_, ⟨ho, hkept, rfl⟩, (ih hlater (holds_next hheld hkept true)).mpr ⟨hrun, hnames⟩⟩

/-- Steps that are in order can be carried out by an engine that does not insist. -/
theorem exists_carryOut_migrations (hd : ∀ schema ∈ first :: later, schema.Distinct)
    (hs : List.IsChain InOrder (first :: later)) :
    ∃ result, carryOut (view redshift (Engine.plain false)).execute (migrations first later)
      (ofEntries (first.models.map fun m => (m.name, tableWith keys uniques m))) = .ok result := by
  induction later generalizing first keys uniques with
  | nil => exact ⟨_, rfl⟩
  | cons current later ih =>
      obtain ⟨hfirst, hlater⟩ := List.forall_mem_cons.mp hd
      obtain ⟨hstep, hrest⟩ := List.isChain_cons_cons.mp hs
      obtain ⟨result, hresult⟩ := ih hlater hrest
      refine ⟨result, ?_⟩
      have hcurrent := (List.forall_mem_cons.mp hlater).1
      rw [migrations, carryOut_append, (carryOut_diff_eq_ok_iff hfirst hcurrent).mpr
        ⟨hstep, fun _ _ _ _ _ hinsists => absurd hinsists (by decide), rfl⟩, ok_bind]
      exact hresult

end

theorem execute_plain (d : Dialect) (insists : Bool) :
    execute d (Engine.plain insists) = (view d (Engine.plain insists)).execute := by
  funext op
  cases op <;> rfl

/-- The statements of a run create the first schema and carry out its differences. -/
theorem build_history_plain {first : Schema} {later : List Schema} {statements : List Statement}
    (hfirst : first.Distinct) (h : history redshift first later = .ok statements) (insists : Bool) :
    (Engine.plain insists).build statements =
      carryOut (view redshift (Engine.plain insists)).execute (migrations first later)
        (ofEntries (first.models.map fun m =>
          (m.name, tableWith declaredKeys (declaredUniques redshift) m))) := by
  rw [build_history h, migrations, carryOut_append, carryOut_diff_empty hfirst, ok_bind,
    execute_plain]

/-- Along a run whose statements can be carried out, the constraints that are dropped are found
exactly if each of them is entered under the current name of its model. -/
theorem dropsFound_of_history_iff {first : Schema} {later : List Schema}
    {statements : List Statement} (hd : ∀ schema ∈ first :: later, schema.Distinct)
    (h : history redshift first later = .ok statements) {result : Database}
    (hresult : (Engine.plain false).build statements = .ok result) :
    DropsFound statements (ofEntries []) ↔ NamesKept noted first later := by
  have hfirst := (List.forall_mem_cons.mp hd).1
  have hbare : Bare statements := fun _ _ _ => ifThere_of_mem_history h
  have hinsists : (Engine.plain true).build statements = .ok result ↔
      (Engine.plain false).build statements = .ok result ∧ DropsFound statements (ofEntries []) :=
    performAll_insisting_eq_ok_iff hbare
  have hledger : (Engine.plain true).build statements = .ok result ↔
      (Engine.plain false).build statements = .ok result ∧ NamesKept noted first later := by
    rw [build_history_plain hfirst h, build_history_plain hfirst h]
    exact carryOut_migrations_eq_ok_iff hd fun model _ => holds_namedUnique model
  simpa only [hresult, true_and] using hinsists.symm.trans hledger

/-- The statements of a run whose steps are in order can be carried out. -/
theorem exists_build_run {first : Schema} {later : List Schema} {statements : List Statement}
    (hd : ∀ schema ∈ first :: later, schema.Distinct) (hs : List.IsChain InOrder (first :: later))
    (h : history redshift first later = .ok statements) :
    ∃ result, (Engine.plain false).build statements = .ok result := by
  rw [build_history_plain (List.forall_mem_cons.mp hd).1 h]
  exact exists_carryOut_migrations hd hs

/-- When the first schema of a run is created in Redshift and then migrated from each schema to the
next, and the table and column statements of the scripts can be carried out, every constraint that
is dropped is one that its table has at that moment exactly if each model, whenever its unique
attributes change, had some before and is called as it was called when its constraint was last
made. -/
theorem dropsFound_iff {first : Schema} {later : List Schema}
    (hd : ∀ schema ∈ first :: later, schema.Distinct)
    (hr : ∀ schema ∈ first :: later, ∃ text, (redshift.schemaScript schema).outcome = .ok text) :
    ∃ statements, history redshift first later = .ok statements ∧
      Emitted redshift first later statements ∧
      ∀ result, (Engine.plain false).build statements = .ok result →
        (DropsFound statements (ofEntries []) ↔ NamesKept noted first later) := by
  obtain ⟨statements, hstatements⟩ := exists_history hr
  exact ⟨statements, hstatements, emitted_of_history hstatements,
    fun result hresult => dropsFound_of_history_iff hd hstatements hresult⟩

/-- Guests with unique addresses, and rooms with unique numbers. -/
def guests : Schema := ⟨[
  ⟨.number 1, "guests", [
    { id := .number 1, name := "id", type := .integer },
    { id := .number 2, name := "address", type := .string, unique := true },
    { id := .number 3, name := "phone", type := .string }]⟩,
  ⟨.number 2, "rooms", [{ id := .number 1, name := "number", type := .integer, unique := true }]⟩]⟩

/-- The guests are called visitors and have a note; the rooms have a floor, and only both together
are unique. -/
def visitors : Schema := ⟨[
  ⟨.number 2, "rooms", [
    { id := .number 2, name := "floor", type := .integer, unique := true },
    { id := .number 1, name := "number", type := .integer, unique := true }]⟩,
  ⟨.number 1, "visitors", [
    { id := .number 1, name := "id", type := .integer },
    { id := .number 2, name := "address", type := .string, unique := true },
    { id := .number 3, name := "phone", type := .string },
    { id := .number 4, name := "note", type := .text }]⟩]⟩

/-- The visitors are called guests again and have unique phones, and nothing about rooms is unique
any more. -/
def guestsAgain : Schema := ⟨[
  ⟨.number 1, "guests", [
    { id := .number 1, name := "id", type := .integer },
    { id := .number 2, name := "address", type := .string, unique := true },
    { id := .number 3, name := "phone", type := .string, unique := true }]⟩,
  ⟨.number 2, "rooms", [
    { id := .number 2, name := "floor", type := .integer },
    { id := .number 1, name := "number", type := .integer }]⟩]⟩

theorem dropsFound_guestsAgain :
    ∃ statements result, history redshift guests [visitors, guestsAgain] = .ok statements ∧
      (Engine.plain false).build statements = .ok result ∧
      DropsFound statements (ofEntries []) := by
  have hd : ∀ schema ∈ [guests, visitors, guestsAgain], schema.Distinct := by decide
  have hr : ∀ schema ∈ [guests, visitors, guestsAgain],
      ∃ text, (redshift.schemaScript schema).outcome = .ok text := by
    have hnone : ∀ schema ∈ [guests, visitors, guestsAgain],
        schema.models.findSome? redshift.modelRefusal? = none := by decide
    exact fun schema hm => exists_schemaScript (hnone schema hm)
  obtain ⟨statements, hstatements, -, hiff⟩ := dropsFound_iff hd hr
  obtain ⟨result, hresult⟩ := exists_build_run hd (by decide) hstatements
  exact ⟨statements, result, hstatements, hresult, (hiff result hresult).mpr (by decide)⟩

/-- When a first attribute becomes unique, a constraint is dropped that the table never had. -/
theorem not_dropsFound_restricted :
    ¬ ∀ (first : Schema) (later : List Schema),
      (∀ schema ∈ first :: later, schema.Distinct) →
      (∀ schema ∈ first :: later, ∃ text, (redshift.schemaScript schema).outcome = .ok text) →
      ∀ statements result, history redshift first later = .ok statements →
        (Engine.plain false).build statements = .ok result →
        DropsFound statements (ofEntries []) := by
  intro h
  have hd : ∀ schema ∈ [released, restricted], schema.Distinct := by decide
  have hr : ∀ schema ∈ [released, restricted],
      ∃ text, (redshift.schemaScript schema).outcome = .ok text := by
    have hnone : ∀ schema ∈ [released, restricted],
        schema.models.findSome? redshift.modelRefusal? = none := by decide
    exact fun schema hm => exists_schemaScript (hnone schema hm)
  obtain ⟨statements, hstatements⟩ := exists_history hr
  obtain ⟨result, hresult⟩ := exists_build_run hd (by decide) hstatements
  have hfound := h released [restricted] hd hr statements result hstatements hresult
  exact absurd ((dropsFound_of_history_iff hd hstatements hresult).mp hfound) (by decide)

end SchemaMigration.Execution
