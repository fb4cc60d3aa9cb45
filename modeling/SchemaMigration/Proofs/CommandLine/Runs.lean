import Mathlib.Data.List.Nodup
import SchemaMigration.CommandLine.Run
import SchemaMigration.Proofs.CommandLine.Arguments
import SchemaMigration.Proofs.FileTree
import SchemaMigration.Proofs.Operation.Documents
import SchemaMigration.Proofs.Targets

/-!
# Runs put out all or nothing

A run of an accepted command line reads its documents and decides what to put out before it prints
or writes anything. If a document fails, or generation does, it prints nothing and leaves the file
tree as it was. Otherwise it prints the operations, or prints the scripts, or writes them as files
and prints nothing. The files are then exactly the scripts of the targets, and besides them only
directories on the way to them are new.
-/

namespace SchemaMigration.CommandLine

open FileTree

/-- The documents that options name, the current one first. -/
def Options.documents (locate : String → Option Json.Position) (options : Options)
    (read : String → Except FileFault String) : Except Failure (Schema × Option Schema) := do
  let current ← Schema.ofFile locate (read options.current)
  let previous ← options.previous.mapM fun path => Schema.ofFile locate (read path)
  return (current, previous)

/-- How scripts are put out. -/
def Options.delivery (options : Options) (scripts : Scripts) : Product :=
  match options.outputDirectory with
  | some directory => .write directory (scriptFiles scripts)
  | none => .print (printed scripts)

section

variable {locate : String → Option Json.Position} {options : Options}
  {read : String → Except FileFault String} {current : Schema}

theorem product_of_failure {failure : Failure}
    (h : options.documents locate read = .error failure) :
    options.product locate read = .error failure := by
  unfold Options.documents at h
  unfold Options.product
  cases hcurrent : Schema.ofFile locate (read options.current) with
  | error fault =>
      rw [hcurrent] at h
      obtain rfl : fault = failure := Except.error.inj h
      rfl
  | ok current =>
      rw [hcurrent] at h
      rw [Outcome.ok_bind] at h ⊢
      cases hprevious : options.previous.mapM fun path => Schema.ofFile locate (read path) with
      | error fault =>
          rw [hprevious] at h
          obtain rfl : fault = failure := Except.error.inj h
          rfl
      | ok previous =>
          rw [hprevious] at h
          cases h

/-- Documents that are read are those that the product is made from. -/
theorem ofFile_of_documents {previous : Option Schema}
    (h : options.documents locate read = .ok (current, previous)) :
    Schema.ofFile locate (read options.current) = .ok current ∧
      (options.previous.mapM fun path => Schema.ofFile locate (read path)) = .ok previous := by
  obtain ⟨first, hfirst, hrest⟩ := Outcome.bind_eq_ok.mp h
  obtain ⟨second, hsecond, hboth⟩ := Outcome.bind_eq_ok.mp hrest
  obtain ⟨rfl, rfl⟩ := Prod.mk.inj (Except.ok.inj hboth)
  exact ⟨hfirst, hsecond⟩

theorem product_of_operations {previous : Schema} (ho : options.operations = true)
    (h : options.documents locate read = .ok (current, some previous)) :
    options.product locate read =
      .ok (.print (operationsText (diff previous current) ++ "\n")) := by
  obtain ⟨hcurrent, hprevious⟩ := ofFile_of_documents h
  rw [Options.product, hcurrent, Outcome.ok_bind, hprevious, Outcome.ok_bind, ho]
  rfl

/-- Without the operations, scripts are put out if they can be generated. -/
theorem product_of_scripts {previous : Option Schema} (ho : options.operations = false)
    (h : options.documents locate read = .ok (current, previous)) :
    options.product locate read =
      options.delivery <$> (generate options.targets current previous).outcome := by
  obtain ⟨hcurrent, hprevious⟩ := ofFile_of_documents h
  rw [Options.product, hcurrent, Outcome.ok_bind, hprevious, Outcome.ok_bind, ho]
  unfold Options.delivery
  cases options.outputDirectory <;>
    cases (generate options.targets current previous).outcome <;> rfl

/-- A schema that is read from a file is that of the document in it. -/
theorem exists_document_of_ofFile {content : Except FileFault String}
    (h : Schema.ofFile locate content = .ok current) :
    ∃ document, content = .ok document ∧ Schema.ofText document = .ok current := by
  cases content with
  | error fault => cases h
  | ok document =>
      refine ⟨document, rfl, ?_⟩
      change (Schema.ofText document).mapError _ = .ok current at h
      cases hread : Schema.ofText document with
      | error fault =>
          rw [hread] at h
          cases h
      | ok schema =>
          rw [hread] at h
          exact congrArg _ (Except.ok.inj h)

/-- The operations of documents are printed as a list that is read back. -/
theorem isListText_operationsText {previous : Schema} {previous? : Option Schema}
    (h : options.documents locate read = .ok (current, previous?)) :
    Operation.IsListText (diff previous current)
      (operationsText (diff previous current) ++ "\n") := by
  obtain ⟨hcurrent, -⟩ := ofFile_of_documents h
  obtain ⟨document, -, hdocument⟩ := exists_document_of_ofFile hcurrent
  have hgap : Json.Blanks ['\n'] := Json.blanks_cons rfl Json.blanks_nil
  exact Operation.isListText_indented hdocument hgap String.toList_append

theorem isSome_of_documents {previous : Option Schema}
    (h : options.documents locate read = .ok (current, previous)) (hs : options.previous.isSome) :
    ∃ schema, previous = some schema := by
  obtain ⟨path, hpath⟩ := Option.isSome_iff_exists.mp hs
  have hread := (ofFile_of_documents h).2
  rw [hpath] at hread
  obtain ⟨schema, -, hschema⟩ := Outcome.bind_eq_ok.mp hread
  exact ⟨schema, (Except.ok.inj hschema).symm⟩

end

/-- Files stand in a directory, and everything else is as it was. -/
structure Written (place : Place) (files : List (String × String)) (before after : FileTree) :
    Prop where
  contents : ∀ file ∈ files, after.entry? (place ++ [file.1]) = some (.file file.2.toUTF8)
  others : ∀ other, (∀ file ∈ files, other ≠ place ++ [file.1]) →
    after.entry? other = before.entry? other

/-- A first file is written before the others. -/
theorem exists_write_of_writeFiles {directory : String} {file : String × String}
    {rest : List (String × String)} {before after : FileTree}
    (h : writeFiles directory (file :: rest) before = (after, .ok ())) :
    ∃ next, before.write directory file.1 file.2 = .ok next ∧
      writeFiles directory rest next = (after, .ok ()) := by
  simp only [writeFiles] at h
  cases hwrite : before.write directory file.1 file.2 with
  | error fault => simp [hwrite] at h
  | ok next =>
      rw [hwrite] at h
      exact ⟨next, rfl, h⟩

/-- Files that have been written stand in their directory, with names that are not too long. The
induction is on the files: a later one leaves an earlier one alone, since its name is another, and
the directory stays where it is. -/
theorem written_of_writeFiles {directory : String} {place : Place} {files : List (String × String)}
    {before after : FileTree}
    (hplace : before.enter (start directory) (names directory) = .ok place)
    (hnames : (files.map (·.1)).Nodup) (h : writeFiles directory files before = (after, .ok ())) :
    Written place files before after ∧
      after.enter (start directory) (names directory) = .ok place ∧
      ∀ file ∈ files, (pathIn directory file.1).utf8ByteSize ≤ pathLimit ∧
        file.1.utf8ByteSize ≤ nameLimit := by
  induction files generalizing before with
  | nil =>
      obtain rfl : before = after := (Prod.mk.inj h).1
      exact ⟨⟨by simp, fun _ _ => rfl⟩, hplace, by simp⟩
  | cons file rest ih =>
      obtain ⟨hfresh, hrest⟩ := List.nodup_cons.mp hnames
      obtain ⟨next, hwrite, hwrites⟩ := exists_write_of_writeFiles h
      obtain ⟨hpath, hlength, found, hfound, hfree, rfl⟩ := write_eq_ok_iff.mp hwrite
      obtain rfl : place = found := Except.ok.inj (hplace.symm.trans hfound)
      have hkept := (keeps_set_file hfree file.2.toUTF8).enter hplace
      obtain ⟨hwritten, hafter, hlengths⟩ := ih hkept hrest hwrites
      have hothers : ∀ other ∈ rest, place ++ [file.1] ≠ place ++ [other.1] := by
        intro other hother hsame
        have hname : file.1 = other.1 := by simpa using hsame
        exact hfresh (List.mem_map.mpr ⟨other, hother, hname.symm⟩)
      refine ⟨⟨?_, ?_⟩, hafter, List.forall_mem_cons.mpr ⟨⟨hpath, hlength⟩, hlengths⟩⟩
      · refine List.forall_mem_cons.mpr ⟨?_, hwritten.contents⟩
        rw [hwritten.others _ hothers, entryAt_set_self]
      · intro other hother
        obtain ⟨hfirst, hlater⟩ := List.forall_mem_cons.mp hother
        rw [hwritten.others other hlater, entryAt_set_of_ne _ _ hfirst]

/-- Files can only be written in a directory that is there. -/
theorem exists_place_of_writeFiles {directory : String} {files : List (String × String)}
    {before after : FileTree} (hne : files ≠ [])
    (h : writeFiles directory files before = (after, .ok ())) :
    ∃ place, before.enter (start directory) (names directory) = .ok place := by
  cases files with
  | nil => exact absurd rfl hne
  | cons file rest =>
      obtain ⟨next, hwrite, -⟩ := exists_write_of_writeFiles h
      obtain ⟨-, -, place, hplace, -⟩ := write_eq_ok_iff.mp hwrite
      exact ⟨place, hplace⟩

theorem isFileName_of_supported {target : String} (h : target ∈ supportedTargets) :
    IsFileName (target ++ ".sql") := by
  have hall : ∀ t ∈ supportedTargets, '/' ∉ (t ++ ".sql").toList ∧ t ++ ".sql" ≠ "" ∧
      t ++ ".sql" ≠ "." ∧ t ++ ".sql" ≠ ".." := by
    decide
  obtain ⟨hslash, hempty, hdot, hdots⟩ := hall target h
  exact ⟨hslash, fun place => by simp [move?, hempty, hdot, hdots]⟩

theorem nodup_scriptFiles {scripts : Scripts} (h : Keyed.Ascending scripts) :
    ((scriptFiles scripts).map (·.1)).Nodup := by
  have hkeys : (scripts.map (·.1)).Nodup := by
    refine List.pairwise_map.mpr (List.Pairwise.imp ?_ h)
    intro a b hless hsame
    exact String.lt_irrefl b.1 (hsame ▸ hless)
  have hfiles : (scriptFiles scripts).map (·.1) = (scripts.map (·.1)).map (· ++ ".sql") := by
    simp [scriptFiles]
  rw [hfiles]
  have hinjective : Function.Injective fun target : String => target ++ ".sql" :=
    fun _ _ => (String.append_left_inj ".sql").mp
  exact List.Nodup.map hinjective hkeys

/-- A directory holds exactly the scripts as new files, each under the name of its target and byte
for byte. Besides them, nothing has changed but for directories where nothing was. -/
structure Delivered (directory : String) (scripts : Scripts) (before after : FileTree) :
    Prop where
  read : ∀ script ∈ scripts, after.read (pathIn directory (script.1 ++ ".sql")) = .ok script.2
  entries : ∃ place, after.enter (start directory) (names directory) = .ok place ∧
    ∀ other, after.entry? other = before.entry? other ∨
      (before.entry? other = none ∧ after.entry? other = some .directory) ∨
      ∃ script ∈ scripts, other = place ++ [script.1 ++ ".sql"] ∧
        after.entry? other = some (.file script.2.toUTF8)

/-- Scripts whose files have been written are delivered. -/
theorem delivered_of_writeFiles {directory : String} {scripts : Scripts}
    {before made after : FileTree} (hdirectory : directory ≠ "") (hne : scripts ≠ [])
    (hs : Keyed.Ascending scripts) (hsupported : ∀ script ∈ scripts, script.1 ∈ supportedTargets)
    (hmade : before.makeDirectories directory = .ok made)
    (h : writeFiles directory (scriptFiles scripts) made = (after, .ok ())) :
    Delivered directory scripts before after := by
  have hfiles : scriptFiles scripts ≠ [] := by simpa [scriptFiles] using hne
  obtain ⟨place, hplace⟩ := exists_place_of_writeFiles hfiles h
  obtain ⟨hwritten, hafter, hlengths⟩ := written_of_writeFiles hplace (nodup_scriptFiles hs) h
  have hmem : ∀ script ∈ scripts, (script.1 ++ ".sql", script.2) ∈ scriptFiles scripts := by
    intro script hscript
    exact List.mem_map_of_mem (f := fun script : String × String =>
      (script.1 ++ ".sql", script.2)) hscript
  refine ⟨fun script hscript => ?_, place, hafter, fun other => ?_⟩
  · have hfile := hmem script hscript
    exact read_pathIn hdirectory (isFileName_of_supported (hsupported script hscript))
      (hlengths _ hfile).1 (hlengths _ hfile).2 hafter (hwritten.contents _ hfile)
  · by_cases hother : ∃ script ∈ scripts, other = place ++ [script.1 ++ ".sql"]
    · obtain ⟨script, hscript, rfl⟩ := hother
      exact .inr (.inr ⟨script, hscript, rfl, hwritten.contents _ (hmem script hscript)⟩)
    · have hsame : after.entry? other = made.entry? other := by
        apply hwritten.others
        intro file hfile
        obtain ⟨script, hscript, rfl⟩ := List.mem_map.mp hfile
        exact fun he => hother ⟨script, hscript, he⟩
      rcases extends_of_makeDirectories hmade other with hkept | ⟨hnone, hnew⟩
      · exact .inl (hsame.trans hkept)
      · exact .inr (.inl ⟨hnone, hsame.trans hnew⟩)

/-- What a run of an accepted command line puts out, whatever is in the tree and wherever faults of
documents show. If a document cannot be read, or without the switch for operations generation fails,
the run fails, prints nothing and changes nothing. With the switch it prints the list of operations
as JSON, which is read back as that list, and changes nothing, whatever targets or directory are
given. Otherwise the scripts come in ascending order of their targets; without a directory they are
printed and nothing changes, and with one nothing is printed and, unless the system refuses to
write, exactly their files are delivered there. -/
theorem runIn_allOrNothing {environment : Option String} {arguments : List String}
    {options : Options} (ha : Request.ofArguments environment arguments = .ok (.run options))
    (locate : String → Option Json.Position) (tree : FileTree) :
    (∀ failure, options.documents locate tree.read = .error failure →
      runIn locate tree environment arguments =
        { code := 1, error := some failure.message, tree }) ∧
    ∀ current previous, options.documents locate tree.read = .ok (current, previous) →
      (options.operations = true → ∃ before text, previous = some before ∧
        runIn locate tree environment arguments = { code := 0, output := text, tree } ∧
        Operation.IsListText (diff before current) text) ∧
      (options.operations = false →
        (∀ failure, (generate options.targets current previous).outcome = .error failure →
          runIn locate tree environment arguments =
            { code := 1, error := some failure.message, tree }) ∧
        ∀ scripts, (generate options.targets current previous).outcome = .ok scripts →
          Keyed.Ascending scripts ∧
          (options.outputDirectory = none → runIn locate tree environment arguments =
            { code := 0, tree, output := String.join (scripts.map fun script =>
                "-- " ++ script.1 ++ "\n" ++ script.2 ++ "\n") }) ∧
          ∀ directory ∈ options.outputDirectory, ∀ made after,
            tree.makeDirectories directory = .ok made →
            writeFiles directory (scriptFiles scripts) made = (after, .ok ()) →
            runIn locate tree environment arguments = { code := 0, tree := after } ∧
              Delivered directory scripts tree after) := by
  have hgiven := wellGiven_of_ofArguments ha
  have hfails : ∀ failure, options.product locate tree.read = .error failure →
      runIn locate tree environment arguments =
        { code := 1, error := some failure.message, tree } := by
    intro failure hproduct
    simp only [runIn, ha, hproduct]
  have hputs : ∀ product, options.product locate tree.read = .ok product →
      runIn locate tree environment arguments = product.putOut tree := by
    intro product hproduct
    simp only [runIn, ha, hproduct]
  refine ⟨fun failure h => hfails _ (product_of_failure h), fun current previous h => ⟨?_, ?_⟩⟩
  · intro ho
    obtain ⟨before, rfl⟩ := isSome_of_documents h (hgiven.previous_isSome ho)
    exact ⟨before, _, rfl, hputs _ (product_of_operations ho h), isListText_operationsText h⟩
  · intro ho
    have hproduct := product_of_scripts ho h
    refine ⟨fun failure hg => ?_, fun scripts hg => ?_⟩
    · rw [hg] at hproduct
      exact hfails _ hproduct
    · rw [hg, Outcome.map_ok] at hproduct
      obtain ⟨hne, hsupported, hassembled⟩ := assembled_of_generate hg
      refine ⟨hassembled.ascending, fun hd => ?_, fun directory hd made after hmade hwrite => ?_⟩
      · have hdelivery : options.delivery scripts = .print (printed scripts) := by
          rw [Options.delivery, hd]
        exact hputs _ (hdelivery ▸ hproduct)
      · have hdelivery :
            options.delivery scripts = .write directory (scriptFiles scripts) := by
          rw [Options.delivery, Option.mem_def.mp hd]
        rw [hdelivery] at hproduct
        refine ⟨?_, ?_⟩
        · rw [hputs _ hproduct]
          simp only [Product.putOut, hmade, hwrite]
        · apply delivered_of_writeFiles _ _ hassembled.ascending _ hmade hwrite
          · rintro rfl
            exact hgiven.outputDirectory hd
          · rintro rfl
            obtain ⟨target, htarget⟩ := List.exists_mem_of_ne_nil _ hne
            simpa using (hassembled.keys target).mpr htarget
          · intro script hscript
            exact hsupported _ ((hassembled.keys script.1).mp (List.mem_map_of_mem hscript))

/-- A directory with two documents in it, and a file that is no text. -/
def documentTree : FileTree :=
  (FileTree.ofFiles [("p.json", "[]"),
    ("c.json", "\x7b\"models\":[\x7b\"id\":1,\"name\":\"m\"\x7d]\x7d")]).set
    ["bytes"] (.file ⟨#[0xFF]⟩)

/-- A command line that names two targets, one of them twice, and a directory. -/
def outArguments : List String := ["-c", "c.json", "-t", "redshift,pg", "-tpg", "-o", "out"]

/-- The options of the command line. -/
def outOptions : Options where
  targets := ["redshift", "pg", "pg"]
  current := "c.json"
  previous := none
  outputDirectory := some "out"
  operations := false
  verbose := false

/-- The schema of the document. -/
def documentSchema : Schema := ⟨[⟨.number 1, "m", []⟩]⟩

/-- The script that creates it. -/
def documentScript : String := "CREATE TABLE IF NOT EXISTS \"m\" (\n);\n"

/-- The tree after the run. -/
def deliveredTree : FileTree :=
  ((documentTree.set ["out"] .directory).set ["out", "pg.sql"]
    (.file documentScript.toUTF8)).set ["out", "redshift.sql"] (.file documentScript.toUTF8)

/-- The same with the switch for operations, a previous document and a target that is none. -/
def operationsArguments : List String :=
  ["-c", "c.json", "-p", "p.json", "--operations", "-t", "none", "-o", "out"]

/-- The options of this command line. -/
def operationsOptions : Options :=
  { outOptions with targets := ["none"], previous := some "p.json", operations := true }

/-- The options of a command line that names the file that is no text. -/
def bytesOptions : Options :=
  { outOptions with targets := ["pg"], current := "bytes", outputDirectory := none }

theorem runIn_outArguments :
    (Request.ofArguments none outArguments = .ok (.run outOptions) ∧
      runIn (fun _ => none) documentTree none outArguments = { code := 0, tree := deliveredTree } ∧
      Delivered "out" [("pg", documentScript), ("redshift", documentScript)] documentTree
        deliveredTree) ∧
    (Request.ofArguments none operationsArguments = .ok (.run operationsOptions) ∧
      ∃ text, runIn (fun _ => none) documentTree none operationsArguments =
          { code := 0, output := text, tree := documentTree } ∧
        Json.readText (Json.Scan.listOf Operation.read) text =
          .ok [.addModel ⟨.number 1, "m", []⟩]) ∧
    Request.ofArguments none ["-c", "bytes"] = .ok (.run bytesOptions) ∧
      runIn (fun _ => none) documentTree none ["-c", "bytes"] =
        { code := 1, error := some "IO error: stream did not contain valid UTF-8",
          tree := documentTree } := by
  refine ⟨?_, ?_, ?_⟩
  · have ha : Request.ofArguments none outArguments = .ok (.run outOptions) := by decide +kernel
    have hdocuments : outOptions.documents (fun _ => none) documentTree.read =
        .ok (documentSchema, none) := by
      decide +kernel
    have hscripts : (generate outOptions.targets documentSchema none).outcome =
        .ok [("pg", documentScript), ("redshift", documentScript)] := by decide +kernel
    have hmade : documentTree.makeDirectories "out" =
        .ok (documentTree.set ["out"] .directory) := rfl
    have hwritten : writeFiles "out"
        (scriptFiles [("pg", documentScript), ("redshift", documentScript)])
        (documentTree.set ["out"] .directory) = (deliveredTree, .ok ()) := rfl
    obtain ⟨-, hrun⟩ := runIn_allOrNothing ha (fun _ => none) documentTree
    obtain ⟨-, hscriptsRun⟩ := hrun documentSchema none hdocuments
    obtain ⟨-, -, hdelivered⟩ := (hscriptsRun rfl).2 _ hscripts
    exact ⟨ha, hdelivered "out" rfl _ _ hmade hwritten⟩
  · have ha : Request.ofArguments none operationsArguments = .ok (.run operationsOptions) := by
      decide +kernel
    have hdocuments : operationsOptions.documents (fun _ => none) documentTree.read =
        .ok (documentSchema, some ⟨[]⟩) := by
      decide +kernel
    have hdiff : diff ⟨[]⟩ documentSchema = [.addModel ⟨.number 1, "m", []⟩] := by decide +kernel
    obtain ⟨-, hrun⟩ := runIn_allOrNothing ha (fun _ => none) documentTree
    obtain ⟨before, text, hbefore, htext, hlist⟩ := (hrun documentSchema _ hdocuments).1 rfl
    obtain rfl := Option.some.inj hbefore
    rw [hdiff] at hlist
    exact ⟨ha, text, htext, hlist.fresh (by decide +kernel)
      (by simp [Operation.Formed, Operation.attributes])⟩
  · have ha : Request.ofArguments none ["-c", "bytes"] = .ok (.run bytesOptions) := by
      decide +kernel
    have hdocuments : bytesOptions.documents (fun _ => none) documentTree.read =
        .error (.file .notText) := by
      decide +kernel
    obtain ⟨hfails, -⟩ := runIn_allOrNothing ha (fun _ => none) documentTree
    exact ⟨ha, hfails _ hdocuments⟩

end SchemaMigration.CommandLine
