import SchemaMigration.Sql.Script
import SchemaMigration.Proofs.Sql.Paragraphs

/-!
# Scripts and the texts they are made of

What a script comes to does not depend on its log: it is put together from the texts of its models
or operations, and there is none as soon as one of these cannot be rendered.

A migration puts the texts of its operations one blank line apart. A schema script joins the texts
of its models by line ends, and the migration from a schema without models adds the same models one
by one. Both give the same text, since the text of a model always ends its last line.
-/

namespace SchemaMigration.Sql

open Dialect

theorem outcome_operation (d : Dialect) (op : Operation) :
    (d.operation op).outcome = d.operationText op := by
  simp only [Dialect.operation]
  cases op <;> simp

/-- The outcome of a migration script is that of its texts. -/
theorem outcome_migrationScript (d : Dialect) (ops : List Operation) :
    (d.migrationScript ops).outcome = inSequence <$> ops.mapM d.operationText := by
  simp [migrationScript, Logged.outcome_mapM, outcome_operation]

theorem outcome_schemaScript (d : Dialect) (schema : Schema) :
    (d.schemaScript schema).outcome =
      "\n".intercalate <$> schema.models.mapM d.creationText := by
  have htable : ∀ model, (d.table model).outcome = d.creationText model := by
    intro model
    simp [table]
  simp only [schemaScript, Logged.outcome_bind, Logged.outcome_mapM, htable]
  cases schema.models.mapM d.creationText <;> rfl

/-- A migration that is rendered is the paragraphs of the texts of its operations. -/
theorem outcome_migrationScript_eq_ok {d : Dialect} {ops : List Operation} {script : String} :
    (d.migrationScript ops).outcome = .ok script ↔
      ∃ texts, List.Forall₂ (fun op text => d.operationText op = .ok text) ops texts ∧
        script = paragraphs texts := by
  rw [outcome_migrationScript, Outcome.map_eq_ok]
  have hsequence : ∀ texts, ops.mapM d.operationText = .ok texts →
      inSequence texts = paragraphs texts := by
    intro texts htexts
    refine inSequence_eq_paragraphs fun text hmem => ?_
    obtain ⟨op, -, hop⟩ := Outcome.exists_of_mem_mapM htexts hmem
    exact endsStatement_operationText hop
  constructor
  · rintro ⟨texts, htexts, rfl⟩
    exact ⟨texts, Outcome.mapM_eq_ok_iff.mp htexts, hsequence texts htexts⟩
  · rintro ⟨texts, hpairs, rfl⟩
    have htexts := Outcome.mapM_eq_ok_iff.mpr hpairs
    exact ⟨texts, htexts, hsequence texts htexts⟩

/-- The texts of operations start and end as statements do. -/
theorem forall_statement_of_forall₂ {d : Dialect} {ops : List Operation} {texts : List String}
    (h : List.Forall₂ (fun op text => d.operationText op = .ok text) ops texts) :
    (∀ text ∈ texts, StartsStatement text) ∧ ∀ text ∈ texts, EndsStatement text := by
  have hop : ∀ text ∈ texts, ∃ op ∈ ops, d.operationText op = .ok text := fun text hmem =>
    Outcome.exists_of_mem_mapM (Outcome.mapM_eq_ok_iff.mpr h) hmem
  constructor
  · intro text hmem
    obtain ⟨op, -, htext⟩ := hop text hmem
    exact startsStatement_operationText htext
  · intro text hmem
    obtain ⟨op, -, htext⟩ := hop text hmem
    exact endsStatement_operationText htext

/-- The migration of two lists of operations in a row, from the migrations of each. -/
theorem outcome_migrationScript_append {d : Dialect} {ops more : List Operation}
    {script rest : String} (hscript : (d.migrationScript ops).outcome = .ok script)
    (hrest : (d.migrationScript more).outcome = .ok rest) :
    (d.migrationScript (ops ++ more)).outcome = .ok (together script rest) := by
  obtain ⟨texts, htexts, rfl⟩ := outcome_migrationScript_eq_ok.mp hscript
  obtain ⟨others, hothers, rfl⟩ := outcome_migrationScript_eq_ok.mp hrest
  obtain ⟨-, hends⟩ := forall_statement_of_forall₂ htexts
  obtain ⟨-, hotherEnds⟩ := forall_statement_of_forall₂ hothers
  rw [← paragraphs_append hends hotherEnds]
  exact outcome_migrationScript_eq_ok.mpr ⟨_, List.rel_append htexts hothers, rfl⟩

theorem statement_of_outcome_migrationScript {d : Dialect} {ops : List Operation} (hne : ops ≠ [])
    {script : String} (h : (d.migrationScript ops).outcome = .ok script) :
    StartsStatement script ∧ EndsStatement script := by
  obtain ⟨texts, htexts, rfl⟩ := outcome_migrationScript_eq_ok.mp h
  obtain ⟨hstarts, hends⟩ := forall_statement_of_forall₂ htexts
  have htextsNe : texts ≠ [] := by
    rintro rfl
    exact hne (List.forall₂_nil_right_iff.mp htexts)
  exact ⟨startsStatement_paragraphs htextsNe hstarts hends,
    endsStatement_paragraphs htextsNe hends⟩

/-- A migration fails exactly when one of its operations has no text, and then with the failure of
the first of these. Otherwise it is the paragraphs of the texts of its operations, each but the last
closed by a semicolon and a blank line. The migration of two lists in a row is put together from the
migrations of each, and where there are operations in both, the second begins behind a semicolon and
exactly one blank line. -/
theorem migrationScript_paragraphs (d : Dialect) :
    (∀ ops, (∃ failure, (d.migrationScript ops).outcome = .error failure) ↔
      ∃ op ∈ ops, ∃ failure, d.operationText op = .error failure) ∧
    (∀ ops failure, (d.migrationScript ops).outcome = .error failure ↔
      ∃ front op back, ops = front ++ op :: back ∧
        (∀ earlier ∈ front, ∃ text, d.operationText earlier = .ok text) ∧
        d.operationText op = .error failure) ∧
    (∀ ops script, (d.migrationScript ops).outcome = .ok script ↔
      ∃ texts, List.Forall₂ (fun op text => d.operationText op = .ok text) ops texts ∧
        script = paragraphs texts) ∧
    (∀ op text, d.operationText op = .ok text →
      ∃ body, text = body ++ ending op.kind ∧ spaced text = body ++ ";\n\n") ∧
    (d.migrationScript []).outcome = .ok "" ∧
    ∀ ops more script rest, (d.migrationScript ops).outcome = .ok script →
      (d.migrationScript more).outcome = .ok rest →
      (d.migrationScript (ops ++ more)).outcome = .ok (together script rest) ∧
      (ops ≠ [] → more ≠ [] → ∃ body, (script = body ++ ";" ∨ script = body ++ ";\n") ∧
        StartsStatement rest ∧ together script rest = body ++ ";\n\n" ++ rest) := by
  refine ⟨fun ops => ?_, fun ops failure => ?_, fun ops script => outcome_migrationScript_eq_ok,
    fun op text htext => ?_, rfl, fun ops more script rest hscript hrest =>
      ⟨outcome_migrationScript_append hscript hrest, fun hops hmore => ?_⟩⟩
  · simp only [outcome_migrationScript, Outcome.map_eq_error, Outcome.exists_mapM_eq_error_iff]
  · rw [outcome_migrationScript, Outcome.map_eq_error, Outcome.mapM_eq_error_iff]
  · obtain ⟨body, rfl⟩ := exists_body_operationText htext
    exact ⟨body, rfl, spaced_ending body op.kind⟩
  · obtain ⟨-, hends⟩ := statement_of_outcome_migrationScript hops hscript
    obtain ⟨hstarts, hrestEnds⟩ := statement_of_outcome_migrationScript hmore hrest
    obtain ⟨body, hbody, htogether⟩ := hends.exists_body_together hrestEnds.ne_empty
    exact ⟨body, hbody, hstarts, htogether⟩

/-- A table whose names look like the end of a script. -/
def crew : Model :=
  ⟨.number 1, "crew\";\n", [{ id := .number 1, name := "\n", type := .integer, unique := true }]⟩

theorem migrationScript_paragraphs_crew :
    ∃ drop change, (postgres.migrationScript [.dropModel ";\n"]).outcome = .ok drop ∧
      (postgres.migrationScript [.changeUnique crew]).outcome = .ok change ∧
      (postgres.migrationScript [.dropModel ";\n", .changeUnique crew]).outcome =
        .ok (drop ++ "\n\n" ++ change) ∧
      (∃ body, change = body ++ ";\n" ∧ spaced change = body ++ ";\n\n") ∧
      (postgres.migrationScript [.dropModel ";\n",
        .addAttribute crew.handle { id := .number 2, name := "face", type := .other "image" },
        .changeUnique crew]).outcome = .error (.unsupportedType "image" "face" crew.name) := by
  obtain ⟨-, hfails, hrenders, hending, -, hinRow⟩ := migrationScript_paragraphs postgres
  obtain ⟨change, hchange⟩ : ∃ change, postgres.operationText (.changeUnique crew) = .ok change :=
    ⟨_, rfl⟩
  have hdrop : postgres.operationText (.dropModel ";\n") =
      .ok "DROP TABLE IF EXISTS \";\n\";" := rfl
  have hfirst := (hrenders _ _).mpr ⟨_, .cons hdrop .nil, rfl⟩
  have hsecond := (hrenders _ _).mpr ⟨_, .cons hchange .nil, rfl⟩
  obtain ⟨hboth, -⟩ := hinRow _ _ _ _ hfirst hsecond
  obtain ⟨body, hbody, hspaced⟩ := hending _ _ hchange
  have hline : change = body ++ ";\n" := hbody
  refine ⟨_, change, hfirst, hsecond, hboth.trans ?_, ⟨body, hline, hspaced⟩, ?_⟩
  · have hne : change ≠ "" := by
      rw [hline]
      simp
    rw [paragraphs, paragraphs, together, if_neg (by decide), if_neg hne]
    exact congrArg (fun front => Except.ok (front ++ change)) (by decide)
  · refine (hfails _ _).mpr ⟨[.dropModel ";\n"], _, [.changeUnique crew], rfl, ?_, rfl⟩
    intro earlier hearlier
    obtain rfl := List.mem_singleton.mp hearlier
    exact ⟨_, hdrop⟩

theorem operationText_addModel (d : Dialect) (model : Model) :
    d.operationText (.addModel model) = d.creationText model := by
  simp only [operationText, creationText, statements]
  cases d.creation model <;> rfl

theorem diff_empty (s : Schema) : diff {} s = s.models.map .addModel := by
  have hstep : Diff.modelStep {} = pure ∘ Operation.addModel := rfl
  rw [diff, hstep, List.flatMap_pure_eq_map]
  rfl

/-- The migration from a schema without models comes to the schema script, text for text and failure
for failure. -/
theorem outcome_migrationScript_diff_empty (d : Dialect) (s : Schema) :
    (d.migrationScript (diff {} s)).outcome = (d.schemaScript s).outcome := by
  have htexts : ((s.models.map Operation.addModel).mapM d.operationText) =
      s.models.mapM d.creationText := by
    rw [List.mapM_map]
    exact congrArg (s.models.mapM ·) (funext (operationText_addModel d))
  rw [outcome_migrationScript, outcome_schemaScript, diff_empty, htexts]
  cases hmodels : s.models.mapM d.creationText with
  | error failure => rfl
  | ok texts =>
      have hop : ∀ text ∈ texts, ∃ model, d.operationText (.addModel model) = .ok text := by
        intro text hmem
        obtain ⟨model, -, hmodel⟩ := Outcome.exists_of_mem_mapM hmodels hmem
        exact ⟨model, (operationText_addModel d model).trans hmodel⟩
      have hends : ∀ text ∈ texts, EndsStatement text := by
        intro text hmem
        obtain ⟨model, htext⟩ := hop text hmem
        exact endsStatement_operationText htext
      have hlines : ∀ text ∈ texts, ∃ body, text = body ++ ";\n" := by
        intro text hmem
        obtain ⟨model, htext⟩ := hop text hmem
        exact exists_body_operationText htext
      rw [Outcome.map_ok, Outcome.map_ok, inSequence_eq_paragraphs hends,
        paragraphs_eq_intercalate hlines]

end SchemaMigration.Sql
