import SchemaMigration.Proofs.Keyed
import SchemaMigration.Proofs.Sql.Refusals

/-!
# Targets are taken all or not at all

A list of targets is refused when it is empty or holds a name that no dialect has. Otherwise every
target has its script, or none has, with one failure for all of them. So the result is that of the
set of names: it is put together from the results for single targets.

The two ways to scripts agree. Creating a schema and migrating to it from nothing come to the same
scripts and the same failures. Migrating from any schema that can be rendered fails exactly when
creating fails, for the same attribute.

## Implementation notes

Which of the registered dialects is asked for the failure does not matter, since all refuse the same
attributes. The statements quantify over them, and no proof names one.
-/

namespace SchemaMigration

open Sql

/-- The script of a dialect: the creation of the current schema, or the migration to it. -/
def scriptFor (current : Schema) (previous : Option Schema) (d : Dialect) : Logged String :=
  match previous with
  | none => d.schemaScript current
  | some previous => d.migrationScript (diff previous current)

/-- Generation without its log: an empty list is refused, then the targets are looked up, and then
each dialect renders its script. -/
theorem outcome_generate (targets : List String) (current : Schema) (previous : Option Schema) :
    (generate targets current previous).outcome =
      if targets = [] then .error .noTargets
      else targets.mapM dialectFor >>= fun ds =>
        (scriptsOf (scriptFor current previous) ds).outcome := by
  cases targets with
  | nil => rfl
  | cons target targets =>
      cases previous with
      | none =>
          have hscript : scriptFor current none = fun d => d.schemaScript current := rfl
          simp [generate, hscript]
      | some previous =>
          have hscript : scriptFor current (some previous) =
            fun d => d.migrationScript (diff previous current) := rfl
          simp [generate, hscript]

theorem fault?_dialectFor (target : String) :
    Outcome.fault? (dialectFor target) =
      if target ∈ supportedTargets then none else some (.unsupportedTarget target) := by
  have hfound : (dialects.find? (·.name = target)).isSome ↔ target ∈ supportedTargets := by
    simp only [List.find?_isSome, supportedTargets, List.mem_map, decide_eq_true_eq]
  simp only [dialectFor]
  cases h : dialects.find? (·.name = target) with
  | none =>
      rw [h] at hfound
      rw [if_neg (fun hmem => Bool.noConfusion (hfound.mpr hmem))]
      rfl
  | some d =>
      rw [h] at hfound
      rw [if_pos (hfound.mp rfl)]
      rfl

theorem mem_dialects_of_dialectFor {target : String} {d : Dialect}
    (h : dialectFor target = .ok d) : d ∈ dialects ∧ d.name = target := by
  unfold dialectFor at h
  split at h
  · next found =>
    cases h
    exact ⟨List.mem_of_find?_eq_some found, by simpa using List.find?_some found⟩
  · cases h

theorem fault?_mapM_dialectFor (targets : List String) :
    Outcome.fault? (targets.mapM dialectFor) =
      (targets.find? (· ∉ supportedTargets)).map Failure.unsupportedTarget := by
  rw [Outcome.fault?_mapM, List.find?_eq_findSome?_guard, List.map_findSome?]
  apply findSome?_congr
  intro target _
  rw [fault?_dialectFor]
  by_cases h : target ∈ supportedTargets <;> simp [h, Option.guard]

/-- Supported targets are the names of registered dialects, in order. -/
theorem exists_dialects {targets : List String} (h : ∀ t ∈ targets, t ∈ supportedTargets) :
    ∃ ds : List Dialect, targets.mapM dialectFor = .ok ds ∧
      (∀ d ∈ ds, dialectFor d.name = .ok d) ∧ ds.map (·.name) = targets := by
  have hnone : Outcome.fault? (targets.mapM dialectFor) = none := by
    rw [fault?_mapM_dialectFor, Option.map_eq_none_iff, List.find?_eq_none]
    simpa using h
  obtain ⟨ds, hds⟩ := Outcome.fault?_eq_none_iff.mp hnone
  refine ⟨ds, hds, fun d hd => ?_, ?_⟩
  · obtain ⟨target, -, htarget⟩ := Outcome.exists_of_mem_mapM hds hd
    rw [(mem_dialects_of_dialectFor htarget).2, htarget]
  · have hnames := (Outcome.mapM_eq_ok_iff.mp hds).imp
      fun target d hd => (mem_dialects_of_dialectFor hd).2
    clear hds hnone h
    induction hnames with
    | nil => rfl
    | cons hname _ ih => rw [List.map_cons, hname, ih]

/-- The first name that no dialect has is refused. -/
theorem generate_of_unsupported {targets : List String} {target : String}
    (h : targets.find? (· ∉ supportedTargets) = some target) (current : Schema)
    (previous : Option Schema) :
    (generate targets current previous).outcome = .error (.unsupportedTarget target) := by
  have hne : targets ≠ [] := by
    rintro rfl
    cases h
  have hfault : targets.mapM dialectFor = .error (.unsupportedTarget target) := by
    apply Outcome.fault?_eq_some_iff.mp
    rw [fault?_mapM_dialectFor, h]
    rfl
  rw [outcome_generate, if_neg hne, hfault]
  rfl

theorem outcome_scriptsOf_of_ok {script : Dialect → Logged String} {text : String → String}
    {ds : List Dialect} (h : ∀ d ∈ ds, (script d).outcome = .ok (text d.name)) :
    (scriptsOf script ds).outcome = .ok (Keyed.ofKeys text (ds.map (·.name))) := by
  simp only [scriptsOf, Keyed.ofKeys]
  generalize ([] : Scripts) = scripts
  induction ds generalizing scripts with
  | nil => rfl
  | cons d ds ih =>
      obtain ⟨hd, hds⟩ := List.forall_mem_cons.mp h
      rw [List.foldlM_cons, Logged.outcome_bind, Logged.outcome_bind, hd]
      exact ih hds _

theorem outcome_scriptsOf_of_error {script : Dialect → Logged String} {failure : Failure}
    {ds : List Dialect} (hne : ds ≠ []) (h : ∀ d ∈ ds, (script d).outcome = .error failure) :
    (scriptsOf script ds).outcome = .error failure := by
  cases ds with
  | nil => exact absurd rfl hne
  | cons d ds =>
      rw [scriptsOf, List.foldlM_cons, Logged.outcome_bind, Logged.outcome_bind,
        h d List.mem_cons_self]
      rfl

theorem outcome_scriptsOf_congr {script other : Dialect → Logged String}
    (h : ∀ d, (script d).outcome = (other d).outcome) (ds : List Dialect) :
    (scriptsOf script ds).outcome = (scriptsOf other ds).outcome := by
  simp only [scriptsOf]
  generalize ([] : Scripts) = scripts
  induction ds generalizing scripts with
  | nil => rfl
  | cons d ds ih =>
      rw [List.foldlM_cons, List.foldlM_cons, Logged.outcome_bind, Logged.outcome_bind,
        Logged.outcome_bind, Logged.outcome_bind, h d]
      cases (other d).outcome with
      | error failure => rfl
      | ok text => exact ih _

/-- The registered dialects fail alike, if they fail. -/
theorem fault?_scriptFor_eq {d e : Dialect} (hd : d ∈ dialects) (he : e ∈ dialects)
    (current : Schema) (previous : Option Schema) :
    Outcome.fault? (scriptFor current previous d).outcome =
      Outcome.fault? (scriptFor current previous e).outcome := by
  cases previous with
  | none =>
      simp only [scriptFor, fault?_schemaScript]
      rw [modelRefusal?_eq_of_registered hd he]
  | some previous =>
      simp only [scriptFor, fault?_migrationScript]
      rw [operationRefusal?_eq_of_registered hd he]

theorem exists_unsupportedType {d : Dialect} {current : Schema} {previous : Option Schema}
    {failure : Failure} (h : (scriptFor current previous d).outcome = .error failure) :
    ∃ type attr model, failure = .unsupportedType type attr model := by
  have hmodel : ∀ model : Model, d.modelRefusal? model = some failure →
      ∃ type attr model, failure = .unsupportedType type attr model := by
    intro model hrefusal
    obtain ⟨attr, -, hattr⟩ := List.exists_of_findSome?_eq_some hrefusal
    exact ⟨_, _, _, eq_of_refusal? hattr⟩
  have hfault := Outcome.fault?_eq_some_iff.mpr h
  cases previous with
  | none =>
      rw [scriptFor, fault?_schemaScript] at hfault
      obtain ⟨model, -, hrefusal⟩ := List.exists_of_findSome?_eq_some hfault
      exact hmodel model hrefusal
  | some previous =>
      rw [scriptFor, fault?_migrationScript] at hfault
      obtain ⟨op, -, hrefusal⟩ := List.exists_of_findSome?_eq_some hfault
      cases op with
      | addModel model => exact hmodel model hrefusal
      | addAttribute | modifyAttribute => exact ⟨_, _, _, eq_of_refusal? hrefusal⟩
      | dropModel | renameModel | dropAttribute | renameAttribute | changeRequired
      | changeUnique => cases hrefusal

section

variable {current : Schema} {previous : Option Schema} {d : Dialect}

/-- If one registered dialect fails, every list of supported targets fails in the same way. -/
theorem generate_of_error (hd : d ∈ dialects) {failure : Failure}
    (h : (scriptFor current previous d).outcome = .error failure) {targets : List String}
    (hne : targets ≠ []) (hs : ∀ t ∈ targets, t ∈ supportedTargets) :
    (generate targets current previous).outcome = .error failure := by
  obtain ⟨ds, hds, hregistered, hnames⟩ := exists_dialects hs
  have hnonempty : ds ≠ [] := by
    rintro rfl
    exact hne hnames.symm
  rw [outcome_generate, if_neg hne, hds]
  apply outcome_scriptsOf_of_error hnonempty
  intro e he
  have hsame := fault?_scriptFor_eq (mem_dialects_of_dialectFor (hregistered e he)).1 hd current
    previous
  rw [h] at hsame
  exact Outcome.fault?_eq_some_iff.mp hsame

/-- If one registered dialect succeeds, every list of supported targets has the scripts of its
names. -/
theorem exists_generate_of_ok (hd : d ∈ dialects) {script : String}
    (h : (scriptFor current previous d).outcome = .ok script) :
    ∃ text : String → String, ∀ targets : List String, targets ≠ [] →
      (∀ t ∈ targets, t ∈ supportedTargets) →
      (generate targets current previous).outcome = .ok (Keyed.ofKeys text targets) := by
  have hok : ∀ e ∈ dialects, ∃ text, (scriptFor current previous e).outcome = .ok text := by
    intro e he
    apply Outcome.fault?_eq_none_iff.mp
    rw [fault?_scriptFor_eq he hd, h]
    rfl
  refine ⟨fun t => (dialectFor t >>= fun e =>
    (scriptFor current previous e).outcome).toOption.getD "", ?_⟩
  intro targets hne hs
  obtain ⟨ds, hds, hregistered, hnames⟩ := exists_dialects hs
  rw [outcome_generate, if_neg hne, hds, ← hnames]
  apply outcome_scriptsOf_of_ok
  intro e he
  obtain ⟨text, htext⟩ := hok e (mem_dialects_of_dialectFor (hregistered e he)).1
  rw [hregistered e he, htext, Outcome.ok_bind, htext]
  rfl

end

theorem exists_registered {targets : List String} (hne : targets ≠ [])
    (hs : ∀ t ∈ targets, t ∈ supportedTargets) : ∃ d, d ∈ dialects := by
  obtain ⟨target, htarget⟩ := List.exists_mem_of_ne_nil targets hne
  obtain ⟨d, hd, -⟩ := List.mem_map.mp (hs target htarget)
  exact ⟨d, hd⟩

theorem supported_singleton {targets : List String} (hs : ∀ t ∈ targets, t ∈ supportedTargets)
    {t : String} (ht : t ∈ targets) : ∀ u ∈ [t], u ∈ supportedTargets := by
  intro u hu
  exact List.mem_singleton.mp hu ▸ hs t ht

/-- The scripts of a list of targets are those that its targets have one by one. -/
structure Assembled (targets : List String) (current : Schema) (previous : Option Schema)
    (scripts : Scripts) : Prop where
  ascending : Keyed.Ascending scripts
  keys : ∀ t, t ∈ scripts.map (·.1) ↔ t ∈ targets
  values : ∀ entry ∈ scripts, (generate [entry.1] current previous).outcome = .ok [entry]

/-- The result for supported targets is put together from the results for single targets. -/
theorem generate_of_supported {targets : List String} (hne : targets ≠ [])
    (hs : ∀ t ∈ targets, t ∈ supportedTargets) (current : Schema) (previous : Option Schema) :
    (∃ scripts, (generate targets current previous).outcome = .ok scripts ∧
      Assembled targets current previous scripts) ∨
    (∃ type attr model,
      (generate targets current previous).outcome = .error (.unsupportedType type attr model) ∧
      ∀ t ∈ targets, (generate [t] current previous).outcome =
        .error (.unsupportedType type attr model)) := by
  obtain ⟨d, hd⟩ := exists_registered hne hs
  cases hscript : (scriptFor current previous d).outcome with
  | error failure =>
      obtain ⟨type, attr, model, rfl⟩ := exists_unsupportedType hscript
      right
      refine ⟨type, attr, model, generate_of_error hd hscript hne hs, fun t ht => ?_⟩
      exact generate_of_error hd hscript (List.cons_ne_nil _ _) (supported_singleton hs ht)
  | ok script =>
      obtain ⟨text, htext⟩ := exists_generate_of_ok hd hscript
      left
      refine ⟨_, htext targets hne hs, Keyed.ascending_ofKeys text targets,
        fun t => Keyed.mem_map_ofKeys, fun entry hentry => ?_⟩
      obtain ⟨hkey, hvalue⟩ := Keyed.mem_ofKeys.mp hentry
      rw [htext _ (List.cons_ne_nil _ _) (supported_singleton hs hkey)]
      simp [Keyed.ofKeys, Keyed.insert, hvalue]

/-- Scripts are generated for supported targets only, one for each of them. -/
theorem assembled_of_generate {targets : List String} {current : Schema}
    {previous : Option Schema} {scripts : Scripts}
    (h : (generate targets current previous).outcome = .ok scripts) :
    targets ≠ [] ∧ (∀ t ∈ targets, t ∈ supportedTargets) ∧
      Assembled targets current previous scripts := by
  have hne : targets ≠ [] := by
    rintro rfl
    rw [outcome_generate, if_pos rfl] at h
    cases h
  have hs : ∀ t ∈ targets, t ∈ supportedTargets := by
    cases hfound : targets.find? (· ∉ supportedTargets) with
    | none => simpa using hfound
    | some target =>
        rw [generate_of_unsupported hfound] at h
        cases h
  rcases generate_of_supported hne hs current previous with ⟨found, hfound, hassembled⟩ | hfails
  · obtain rfl : found = scripts := Except.ok.inj (hfound.symm.trans h)
    exact ⟨hne, hs, hassembled⟩
  · obtain ⟨type, attr, model, herror, -⟩ := hfails
    rw [herror] at h
    cases h

/-- Lists of the same supported names have the same result. -/
theorem generate_congr {targets others : List String} (hne : targets ≠ [])
    (hs : ∀ t ∈ targets, t ∈ supportedTargets) (hsame : ∀ t, t ∈ others ↔ t ∈ targets)
    (current : Schema) (previous : Option Schema) :
    (generate others current previous).outcome = (generate targets current previous).outcome := by
  have hs' : ∀ t ∈ others, t ∈ supportedTargets := fun t ht => hs t ((hsame t).mp ht)
  have hne' : others ≠ [] := by
    rintro rfl
    obtain ⟨t, ht⟩ := List.exists_mem_of_ne_nil targets hne
    exact List.not_mem_nil ((hsame t).mpr ht)
  obtain ⟨d, hd⟩ := exists_registered hne hs
  cases hscript : (scriptFor current previous d).outcome with
  | error failure =>
      rw [generate_of_error hd hscript hne hs, generate_of_error hd hscript hne' hs']
  | ok script =>
      obtain ⟨text, htext⟩ := exists_generate_of_ok hd hscript
      rw [htext targets hne hs, htext others hne' hs', Keyed.ofKeys_congr text hsame]

/-- An empty list of targets is refused, and so is the first name that no dialect has. Otherwise
either every target has its script, or each fails with the same type that is not mapped, and so does
the whole; and the result is that of any list of the same names. -/
theorem generate_allOrNothing (targets : List String) (current : Schema)
    (previous : Option Schema) :
    (targets = [] → (generate targets current previous).outcome = .error .noTargets) ∧
    (∀ target, targets.find? (· ∉ supportedTargets) = some target →
      (generate targets current previous).outcome = .error (.unsupportedTarget target)) ∧
    (targets ≠ [] → (∀ t ∈ targets, t ∈ supportedTargets) →
      ((∃ scripts, (generate targets current previous).outcome = .ok scripts ∧
          Assembled targets current previous scripts) ∨
        (∃ type attr model,
          (generate targets current previous).outcome =
            .error (.unsupportedType type attr model) ∧
          ∀ t ∈ targets, (generate [t] current previous).outcome =
            .error (.unsupportedType type attr model))) ∧
      ∀ others : List String, (∀ t, t ∈ others ↔ t ∈ targets) →
        (generate others current previous).outcome =
          (generate targets current previous).outcome) := by
  refine ⟨?_, ?_, ?_⟩
  · rintro rfl
    rfl
  · intro target h
    exact generate_of_unsupported h current previous
  · intro hne hs
    refine ⟨generate_of_supported hne hs current previous, ?_⟩
    intro others hsame
    exact generate_congr hne hs hsame current previous

/-- A schema that no dialect refuses, asked for twice for one target. -/
def boardSchema : Schema := ⟨[⟨.number 1, "boards", [
  { id := .number 1, name := "id", type := .autoGenerated },
  { id := .number 2, name := "colour", type := .string, unique := true }]⟩]⟩

theorem generate_repeatedTargets :
    ∃ scripts, (generate ["redshift", "pg", "redshift"] boardSchema none).outcome = .ok scripts ∧
      Assembled ["redshift", "pg", "redshift"] boardSchema none scripts ∧
      (generate ["pg", "redshift"] boardSchema none).outcome = .ok scripts ∧
      (generate ["pg", "mysql", "oracle"] boardSchema none).outcome =
        .error (.unsupportedTarget "mysql") := by
  have hne : ["redshift", "pg", "redshift"] ≠ [] := by simp
  have hs : ∀ t ∈ ["redshift", "pg", "redshift"], t ∈ supportedTargets := by decide
  have hsame : ∀ t, t ∈ ["pg", "redshift"] ↔ t ∈ ["redshift", "pg", "redshift"] := by
    intro t
    simp only [List.mem_cons, List.not_mem_nil, or_false]
    grind
  obtain ⟨-, -, hsupported⟩ := generate_allOrNothing ["redshift", "pg", "redshift"] boardSchema none
  obtain ⟨hcases, hothers⟩ := hsupported hne hs
  obtain ⟨scripts, hscripts, hassembled⟩ | ⟨type, attr, model, hfailure, -⟩ := hcases
  · refine ⟨scripts, hscripts, hassembled, (hothers _ hsame).trans hscripts, ?_⟩
    obtain ⟨-, hunsupported, -⟩ := generate_allOrNothing ["pg", "mysql", "oracle"] boardSchema none
    exact hunsupported "mysql" (by decide)
  · cases hfailure

/-- Creating a schema and migrating to it from nothing come to the same scripts or the same
failure. -/
theorem generate_none_eq_generate_empty (targets : List String) (current : Schema) :
    (generate targets current none).outcome = (generate targets current (some {})).outcome := by
  have hscripts : ∀ d, (scriptFor current none d).outcome =
      (scriptFor current (some {}) d).outcome :=
    fun d => (outcome_migrationScript_diff_empty d current).symm
  rw [outcome_generate, outcome_generate]
  simp only [outcome_scriptsOf_congr hscripts]

/-- What one registered dialect fails with, every list of supported targets fails with. -/
theorem generate_eq_error_iff {d : Dialect} (hd : d ∈ dialects) {targets : List String}
    (hne : targets ≠ []) (hs : ∀ t ∈ targets, t ∈ supportedTargets) {current : Schema}
    {previous : Option Schema} {failure : Failure} :
    (generate targets current previous).outcome = .error failure ↔
      (scriptFor current previous d).outcome = .error failure := by
  cases hscript : (scriptFor current previous d).outcome with
  | error other =>
      rw [generate_of_error hd hscript hne hs, Except.error.injEq, Except.error.injEq]
  | ok script =>
      obtain ⟨text, htext⟩ := exists_generate_of_ok hd hscript
      rw [htext targets hne hs]
      constructor <;> intro hcontra <;> cases hcontra

/-- From a schema that a dialect can render, its migration fails as its creation does. -/
theorem fault?_scriptFor_of_rendered {d : Dialect} {previous : Schema} {script : String}
    (h : (d.schemaScript previous).outcome = .ok script) (current : Schema) :
    Outcome.fault? (scriptFor current (some previous) d).outcome =
      Outcome.fault? (scriptFor current none d).outcome := by
  rw [scriptFor, scriptFor, fault?_migrationScript, fault?_schemaScript]
  exact findSome?_operationRefusal?_diff current (isSome_mapping?_of_schemaScript h)

theorem exists_schemaScript {d e : Dialect} (hd : d ∈ dialects) (he : e ∈ dialects) {s : Schema}
    {script : String} (h : (d.schemaScript s).outcome = .ok script) :
    ∃ other, (e.schemaScript s).outcome = .ok other := by
  have hsame := fault?_scriptFor_eq he hd s none
  simp only [scriptFor, h, Outcome.fault?_ok] at hsame
  exact Outcome.fault?_eq_none_iff.mp hsame

/-- From a schema that can be rendered, a migration fails exactly when the creation of the current
schema does, and with the same failure. For supported targets that is the first attribute of the
current schema, in the order of the document, whose type is not in the table of the dialect. -/
theorem generate_error_iff_of_rendered {d : Dialect} (hd : d ∈ dialects) {previous : Schema}
    {script : String} (h : (d.schemaScript previous).outcome = .ok script) (current : Schema)
    (targets : List String) :
    (∀ failure, (generate targets current (some previous)).outcome = .error failure ↔
      (generate targets current none).outcome = .error failure) ∧
    (targets ≠ [] → (∀ t ∈ targets, t ∈ supportedTargets) → ∀ e ∈ dialects, ∀ failure,
      ((generate targets current (some previous)).outcome = .error failure ↔
        ∃ entry, e.firstUnmapped? current = some entry ∧
          failure = .unsupportedType entry.2.type.name entry.2.name entry.1.name)) := by
  have hsame : ∀ e ∈ dialects, ∀ failure,
      (scriptFor current (some previous) e).outcome = .error failure ↔
        (scriptFor current none e).outcome = .error failure := by
    intro e he failure
    obtain ⟨other, hother⟩ := exists_schemaScript hd he h
    rw [← Outcome.fault?_eq_some_iff, ← Outcome.fault?_eq_some_iff,
      fault?_scriptFor_of_rendered hother]
  constructor
  · intro failure
    by_cases hne : targets = []
    · rw [hne]
      exact Iff.rfl
    · cases hfind : targets.find? (· ∉ supportedTargets) with
      | some target =>
          rw [generate_of_unsupported hfind, generate_of_unsupported hfind]
      | none =>
          have hs : ∀ t ∈ targets, t ∈ supportedTargets := by simpa using hfind
          rw [generate_eq_error_iff hd hne hs, generate_eq_error_iff hd hne hs]
          exact hsame d hd failure
  · intro hne hs e he failure
    rw [generate_eq_error_iff he hne hs, hsame e he, ← Outcome.fault?_eq_some_iff, scriptFor,
      fault?_schemaScript_eq_firstUnmapped?, Option.map_eq_some_iff]
    simp only [eq_comm]

/-- The board gets a second table; two of its attributes have types that no dialect knows. -/
def shapesSchema : Schema := ⟨[
  ⟨.number 2, "shapes", [{ id := .number 1, name := "id", type := .autoGenerated }]⟩,
  ⟨.number 1, "boards", [
    { id := .number 1, name := "id", type := .autoGenerated },
    { id := .number 2, name := "outline", type := .other "polygon" },
    { id := .number 3, name := "path", type := .other "spline" }]⟩]⟩

theorem generate_shapesSchema :
    Sql.postgres ∈ dialects ∧
      ∃ script, (Sql.postgres.schemaScript boardSchema).outcome = .ok script ∧
        (generate ["redshift"] shapesSchema (some boardSchema)).outcome =
          .error (.unsupportedType "polygon" "outline" "boards") ∧
        (generate ["redshift"] shapesSchema none).outcome =
          .error (.unsupportedType "polygon" "outline" "boards") := by
  have hd : Sql.postgres ∈ dialects := by simp [dialects]
  obtain ⟨script, h⟩ : ∃ script, (Sql.postgres.schemaScript boardSchema).outcome = .ok script :=
    ⟨_, rfl⟩
  obtain ⟨hsame, hfirst⟩ := generate_error_iff_of_rendered hd h shapesSchema ["redshift"]
  have hmigration := (hfirst (by simp) (by decide) Sql.postgres hd
    (.unsupportedType "polygon" "outline" "boards")).mpr ⟨_, rfl, rfl⟩
  exact ⟨hd, script, h, hmigration, (hsame _).mp hmigration⟩

end SchemaMigration
