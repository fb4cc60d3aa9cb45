import SchemaMigration.Proofs.Targets

/-!
# The trail of a migration

The log of a migration shows what was rendered. For each target, in the order of the list, it has
one event per operation, with the text of the operation; and the script of the target is put
together from these texts. A migration that fails on an operation leaves the events of all
operations in front of it, and no event that says that the generation ended.

## Implementation notes

The scripts of several dialects are collected in a fold, but what is logged on the way does not
depend on the scripts collected so far. So the fold is a run over the list whose result is collected
at the end, and one pair of lemmas about runs serves for operations and for targets.
-/

namespace SchemaMigration

open Sql

namespace Logged

variable {α β : Type} {f : α → Logged β}

@[simp] theorem events_map (g : α → β) (x : Logged α) : (g <$> x).events = x.events := by
  rw [map_eq_pure_bind]
  cases h : x.outcome with
  | error failure => exact events_bind_of_error h _
  | ok value => rw [events_bind_of_ok h, events_pure, List.append_nil]

theorem exists_outcome_mapM {xs : List α}
    (h : ∀ x ∈ xs, ∃ value, (f x).outcome = .ok value) :
    ∃ values, (xs.mapM f).outcome = .ok values := by
  rw [outcome_mapM, ← Outcome.fault?_eq_none_iff, Outcome.fault?_mapM, List.findSome?_eq_none_iff]
  exact fun x hx => Outcome.fault?_eq_none_iff.mpr (h x hx)

/-- A run over items that succeed logs what they log. -/
theorem events_mapM_of_ok {xs : List α} (h : ∀ x ∈ xs, ∃ value, (f x).outcome = .ok value) :
    (xs.mapM f).events = xs.flatMap fun x => (f x).events := by
  induction xs with
  | nil => rfl
  | cons x xs ih =>
      obtain ⟨⟨value, hx⟩, hxs⟩ := List.forall_mem_cons.mp h
      obtain ⟨values, hvalues⟩ := exists_outcome_mapM hxs
      rw [List.mapM_cons, events_bind_of_ok hx, events_bind_of_ok hvalues, events_pure,
        List.append_nil, ih hxs, List.flatMap_cons]

/-- A run that fails on an item logs what the items up to that one log. -/
theorem events_mapM_of_error {front back : List α} {x : α} {failure : Failure}
    (hfront : ∀ earlier ∈ front, ∃ value, (f earlier).outcome = .ok value)
    (hx : (f x).outcome = .error failure) :
    ((front ++ x :: back).mapM f).events =
      (front.flatMap fun earlier => (f earlier).events) ++ (f x).events := by
  obtain ⟨values, hvalues⟩ := exists_outcome_mapM hfront
  have hrest : ((x :: back).mapM f) = ⟨(f x).events, .error failure⟩ := by
    rw [List.mapM_cons, bind_of_error hx]
  rw [List.mapM_append, events_bind_of_ok hvalues, hrest, events_mapM_of_ok hfront,
    events_bind_of_error rfl]

/-- What a run over a list logs comes from its items. -/
theorem exists_of_mem_events_mapM {xs : List α} {event : Event}
    (h : event ∈ (xs.mapM f).events) : ∃ x ∈ xs, event ∈ (f x).events := by
  induction xs with
  | nil => cases h
  | cons x xs ih =>
      rw [List.mapM_cons] at h
      cases hx : (f x).outcome with
      | error failure =>
          rw [events_bind_of_error hx] at h
          exact ⟨x, List.mem_cons_self, h⟩
      | ok value =>
          rw [events_bind_of_ok hx, bind_pure_comp, events_map, List.mem_append] at h
          rcases h with h | h
          · exact ⟨x, List.mem_cons_self, h⟩
          · obtain ⟨y, hy, hevent⟩ := ih h
            exact ⟨y, List.mem_cons_of_mem _ hy, hevent⟩

end Logged

namespace Event

/-- An event for the rendering of an operation. -/
def IsRendering (event : Event) : Prop :=
  event.level = .debug ∧ event.message = "Rendered operation"

instance : DecidablePred IsRendering := fun _ => inferInstanceAs (Decidable (_ ∧ _))

/-- The text of SQL that an event shows, if it shows one. -/
def sql? (event : Event) : Option String := event.fields.lookup "sql"

end Event

/-- The events about rendered operations, in order. -/
def renderings (events : List Event) : List Event := events.filter (·.IsRendering)

/-- The event of an operation that a dialect renders has the name of the dialect, the kind of the
operation and the text that it is rendered as. -/
def Rendered (d : Dialect) (op : Operation) (event : Event) : Prop :=
  ∃ text, d.operationText op = .ok text ∧ event = .operationRendered d.name op.kind.name text

@[simp] theorem renderings_append (events more : List Event) :
    renderings (events ++ more) = renderings events ++ renderings more :=
  List.filter_append ..

theorem renderings_flatMap {α : Type} (f : α → List Event) (xs : List α) :
    renderings (xs.flatMap f) = xs.flatMap fun x => renderings (f x) :=
  List.filter_flatMap ..

namespace Sql

open Dialect

variable {d : Dialect} {op : Operation} {ops : List Operation}

/-- What an operation logs before it is rendered: a warning, if a table has no primary key. -/
def warnings (d : Dialect) : Operation → List Event
  | .addModel model => d.creationEvents model
  | _ => []

theorem operation_eq (d : Dialect) (op : Operation) :
    d.operation op = do
      Logged.note (warnings d op)
      let text ← Logged.silent (d.operationText op)
      Logged.note [.operationRendered d.name op.kind.name text]
      return text := by
  cases op <;> rfl

/-- An operation logs its text, if it has one, behind the warnings. -/
theorem events_operation (d : Dialect) (op : Operation) :
    (d.operation op).events = warnings d op ++
      match d.operationText op with
      | .ok text => [.operationRendered d.name op.kind.name text]
      | .error _ => [] := by
  rw [operation_eq, Logged.events_bind_of_ok (Logged.outcome_note _), Logged.events_note]
  cases h : d.operationText op with
  | error failure => rfl
  | ok text => rfl

theorem level_of_mem_warnings : ∀ event ∈ warnings d op, event.level = .warn := by
  cases op with
  | addModel model =>
      simp only [warnings, Dialect.creationEvents]
      split
      · simp [Event.level]
      · simp
  | _ => simp [warnings]

theorem renderings_warnings (d : Dialect) (op : Operation) : renderings (warnings d op) = [] := by
  rw [renderings, List.filter_eq_nil_iff]
  intro event hevent
  simp [Event.IsRendering, level_of_mem_warnings event hevent]

theorem renderings_operation_of_ok {text : String} (h : d.operationText op = .ok text) :
    renderings (d.operation op).events = [.operationRendered d.name op.kind.name text] := by
  rw [events_operation, h, renderings_append, renderings_warnings]
  rfl

theorem renderings_operation_of_error {failure : Failure}
    (h : d.operationText op = .error failure) : renderings (d.operation op).events = [] := by
  rw [events_operation, h, renderings_append, renderings_warnings]
  rfl

theorem rendered_flatMap (h : ∀ op ∈ ops, ∃ text, d.operationText op = .ok text) :
    List.Forall₂ (Rendered d) ops (ops.flatMap fun op => renderings (d.operation op).events) := by
  induction ops with
  | nil => exact .nil
  | cons op ops ih =>
      obtain ⟨⟨text, htext⟩, hops⟩ := List.forall_mem_cons.mp h
      rw [List.flatMap_cons, renderings_operation_of_ok htext, List.singleton_append]
      exact .cons ⟨text, htext, rfl⟩ (ih hops)

theorem mapM_operationText {block : List Event} (h : List.Forall₂ (Rendered d) ops block) :
    ops.mapM d.operationText = .ok (block.filterMap Event.sql?) := by
  rw [Outcome.mapM_eq_ok_iff]
  induction h with
  | nil => exact .nil
  | @cons op event ops block hrendered _ ih =>
      obtain ⟨text, htext, rfl⟩ := hrendered
      exact .cons htext ih

theorem events_migrationScript (d : Dialect) (ops : List Operation) :
    (d.migrationScript ops).events = (ops.mapM d.operation).events := by
  rw [Dialect.migrationScript, bind_pure_comp, Logged.events_map]

/-- The trail of a script that is rendered: one event for each operation, in order, and the texts
that they show are the paragraphs of the script. -/
theorem rendered_migrationScript {script : String}
    (h : (d.migrationScript ops).outcome = .ok script) :
    List.Forall₂ (Rendered d) ops (renderings (d.migrationScript ops).events) ∧
      script = paragraphs ((renderings (d.migrationScript ops).events).filterMap Event.sql?) := by
  obtain ⟨texts, hpairs, rfl⟩ := outcome_migrationScript_eq_ok.mp h
  have htexts := Outcome.mapM_eq_ok_iff.mpr hpairs
  have hops : ∀ op ∈ ops, ∃ text, d.operationText op = .ok text := by
    have hfound : ∀ op ∈ ops, Outcome.fault? (d.operationText op) = none := by
      rw [← List.findSome?_eq_none_iff, ← Outcome.fault?_mapM, htexts]
      rfl
    exact fun op hop => Outcome.fault?_eq_none_iff.mp (hfound op hop)
  have hblock : List.Forall₂ (Rendered d) ops (renderings (d.migrationScript ops).events) := by
    rw [events_migrationScript, Logged.events_mapM_of_ok, renderings_flatMap]
    · exact rendered_flatMap hops
    · intro op hop
      rw [outcome_operation]
      exact hops op hop
  refine ⟨hblock, ?_⟩
  rw [mapM_operationText hblock] at htexts
  rw [Except.ok.inj htexts]

/-- The trail of a script that fails: one event for each operation in front of the first that has no
text. -/
theorem rendered_migrationScript_of_error {failure : Failure}
    (h : (d.migrationScript ops).outcome = .error failure) :
    ∃ front op back, ops = front ++ op :: back ∧ d.operationText op = .error failure ∧
      List.Forall₂ (Rendered d) front (renderings (d.migrationScript ops).events) := by
  rw [outcome_migrationScript, Outcome.map_eq_error, Outcome.mapM_eq_error_iff] at h
  obtain ⟨front, op, back, rfl, hfront, hop⟩ := h
  refine ⟨front, op, back, rfl, hop, ?_⟩
  rw [events_migrationScript, Logged.events_mapM_of_error, renderings_append, renderings_flatMap,
    renderings_operation_of_error hop, List.append_nil]
  · exact rendered_flatMap hfront
  · intro earlier hearlier
    rw [outcome_operation]
    exact hfront earlier hearlier
  · rw [outcome_operation]
    exact hop

end Sql

/-- The scripts of several dialects are collected at the end of a run over them. -/
theorem scriptsOf_eq_map (script : Dialect → Logged String) (ds : List Dialect) :
    scriptsOf script ds =
      (List.foldl (fun scripts entry => Keyed.insert entry.1 entry.2 scripts) [] <$>
        ds.mapM fun d => (d.name, ·) <$> script d) := by
  unfold scriptsOf
  generalize ([] : Scripts) = scripts
  induction ds generalizing scripts with
  | nil => rfl
  | cons d ds ih =>
      simp only [List.foldlM_cons, bind_assoc, pure_bind, ih]
      simp [Functor.map_map]

section

variable {script : Dialect → Logged String} {ds : List Dialect}

theorem events_scriptsOf_of_ok (h : ∀ d ∈ ds, ∃ text, (script d).outcome = .ok text) :
    (scriptsOf script ds).events = ds.flatMap fun d => (script d).events := by
  rw [scriptsOf_eq_map, Logged.events_map, Logged.events_mapM_of_ok]
  · simp only [Logged.events_map]
  · intro d hd
    obtain ⟨text, htext⟩ := h d hd
    exact ⟨(d.name, text), by rw [Logged.outcome_map, htext, Outcome.map_ok]⟩

/-- If the first dialect fails, no other one is rendered. -/
theorem events_scriptsOf_of_error {d : Dialect} {failure : Failure}
    (h : (script d).outcome = .error failure) :
    (scriptsOf script (d :: ds)).events = (script d).events := by
  have hfirst : ((d.name, ·) <$> script d).outcome = .error failure := by
    rw [Logged.outcome_map, h, Outcome.map_error]
  rw [scriptsOf_eq_map, Logged.events_map, List.mapM_cons, Logged.events_bind_of_error hfirst,
    Logged.events_map]

end

/-- The log of a migration to supported targets. -/
theorem events_generate {targets : List String} {ds : List Dialect} (hne : targets ≠ [])
    (hds : targets.mapM dialectFor = .ok ds) (current previous : Schema) :
    (generate targets current (some previous)).events =
      [.targetsResolved supportedTargets ds.length] ++ diffEvents previous current ++
        (scriptsOf (·.migrationScript (diff previous current)) ds).events ++
        match (scriptsOf (·.migrationScript (diff previous current)) ds).outcome with
        | .ok scripts => [.generated scripts.length current.models.length true]
        | .error _ => [] := by
  have hempty : targets.isEmpty = false := by simpa using hne
  have hsilent : (Logged.silent (targets.mapM dialectFor)).outcome = .ok ds := hds
  simp only [generate, hempty]
  rw [if_neg Bool.false_ne_true, Logged.events_bind_of_ok hsilent,
    Logged.events_bind_of_ok (Logged.outcome_note _),
    Logged.events_bind_of_ok (Logged.outcome_note _)]
  cases hscripts : (scriptsOf (·.migrationScript (diff previous current)) ds).outcome with
  | error failure =>
      rw [Logged.events_bind_of_error hscripts]
      simp
  | ok scripts =>
      rw [Logged.events_bind_of_ok hscripts, Logged.events_bind_of_ok (Logged.outcome_note _)]
      simp

/-- What the log says of a difference is neither about rendering nor about the end. -/
theorem message_of_mem_diffEvents (previous current : Schema) :
    ∀ event ∈ diffEvents previous current,
      event.message ∉ ["Rendered operation", "Generated DDL"] := by
  have hattribute : ∀ (before model : Model) (attr : Attribute),
      ∀ event ∈ Diff.attributeEvents before model attr,
        event.message ∉ ["Rendered operation", "Generated DDL"] := by
    intro before model attr
    unfold Diff.attributeEvents
    split
    · simp [Event.message]
    · split
      · simp
      · simp [Event.message]
  have hchange : ∀ before model : Model, ∀ event ∈ Diff.changeEvents before model,
      event.message ∉ ["Rendered operation", "Generated DDL"] := by
    intro before model
    simp only [Diff.changeEvents, List.forall_mem_append, List.forall_mem_map,
      List.forall_mem_flatMap]
    refine ⟨⟨⟨?_, ?_⟩, fun attr _ => hattribute before model attr⟩, ?_⟩
    · split <;> simp [Event.message]
    · simp [Event.message]
    · split <;> simp [Event.message]
  have hmodel : ∀ model : Model, ∀ event ∈ Diff.modelEvents previous model,
      event.message ∉ ["Rendered operation", "Generated DDL"] := by
    intro model
    unfold Diff.modelEvents
    split
    · simp [Event.message]
    · exact hchange _ _
  simp only [diffEvents, List.forall_mem_append, List.forall_mem_map, List.forall_mem_flatMap]
  exact ⟨⟨by simp [Event.message], fun model _ => hmodel model⟩, by simp [Event.message]⟩

theorem renderings_diffEvents (previous current : Schema) :
    renderings (diffEvents previous current) = [] := by
  rw [renderings, List.filter_eq_nil_iff]
  intro event hevent hrendering
  have hmessage := message_of_mem_diffEvents previous current event hevent
  exact hmessage (by simp [(of_decide_eq_true hrendering).2])

/-- Nothing that a script logs is about the end of the generation. -/
theorem message_of_mem_migrationScript {d : Dialect} {ops : List Operation} {event : Event}
    (h : event ∈ (d.migrationScript ops).events) : event.message ≠ "Generated DDL" := by
  rw [events_migrationScript] at h
  obtain ⟨op, -, hevent⟩ := Logged.exists_of_mem_events_mapM h
  rw [events_operation, List.mem_append] at hevent
  rcases hevent with hwarning | hrendered
  · have hlevel := level_of_mem_warnings event hwarning
    rintro hmessage
    cases event <;> simp [Event.level, Event.message] at hlevel hmessage
  · split at hrendered
    · rw [List.mem_singleton.mp hrendered]
      simp [Event.message]
    · cases hrendered

section

variable {targets : List String} {current previous : Schema}

/-- The events about rendering for one target. -/
def trailOf (ops : List Operation) (target : String) : List Event :=
  match dialectFor target with
  | .ok d => renderings (d.migrationScript ops).events
  | .error _ => []

theorem trailOf_name {d : Dialect} (h : dialectFor d.name = .ok d) (ops : List Operation) :
    trailOf ops d.name = renderings (d.migrationScript ops).events := by
  rw [trailOf, h]

/-- If the generation succeeds, every dialect renders its script. -/
theorem exists_migrationScript {scripts : Scripts} (hne : targets ≠ [])
    (hs : ∀ t ∈ targets, t ∈ supportedTargets)
    (h : (generate targets current (some previous)).outcome = .ok scripts) {d : Dialect}
    (hd : d ∈ dialects) :
    ∃ script, (d.migrationScript (diff previous current)).outcome = .ok script := by
  cases hscript : (d.migrationScript (diff previous current)).outcome with
  | ok script => exact ⟨script, rfl⟩
  | error failure =>
      have hfor : (scriptFor current (some previous) d).outcome = .error failure := hscript
      rw [← generate_eq_error_iff hd hne hs, h] at hfor
      cases hfor

/-- A migration that succeeds logs the trail of each target, in the order of the list. -/
theorem renderings_generate_of_ok {scripts : Scripts} (hne : targets ≠ [])
    (hs : ∀ t ∈ targets, t ∈ supportedTargets)
    (h : (generate targets current (some previous)).outcome = .ok scripts) :
    renderings (generate targets current (some previous)).events =
        targets.flatMap (trailOf (diff previous current)) ∧
      ∀ t ∈ targets, ∃ d ∈ dialects, d.name = t ∧
        List.Forall₂ (Rendered d) (diff previous current) (trailOf (diff previous current) t) ∧
        Keyed.find? t scripts =
          some (paragraphs ((trailOf (diff previous current) t).filterMap Event.sql?)) := by
  obtain ⟨ds, hds, hregistered, hnames⟩ := exists_dialects hs
  have hscript : ∀ d ∈ ds, ∃ script,
      (d.migrationScript (diff previous current)).outcome = .ok script := fun d hd =>
    exists_migrationScript hne hs h (mem_dialects_of_dialectFor (hregistered d hd)).1
  have hscripts : (scriptsOf (·.migrationScript (diff previous current)) ds).outcome =
      .ok (Keyed.ofKeys
        (fun t => paragraphs ((trailOf (diff previous current) t).filterMap Event.sql?))
        targets) := by
    rw [← hnames]
    apply outcome_scriptsOf_of_ok
    intro d hd
    obtain ⟨script, hrendered⟩ := hscript d hd
    rw [trailOf_name (hregistered d hd), hrendered]
    exact congrArg Except.ok (rendered_migrationScript hrendered).2
  have hall : Keyed.ofKeys
      (fun t => paragraphs ((trailOf (diff previous current) t).filterMap Event.sql?))
      targets = scripts := by
    rw [outcome_generate, if_neg hne, hds] at h
    exact Except.ok.inj (hscripts.symm.trans h)
  constructor
  · have htrail : ∀ d ∈ ds, renderings (d.migrationScript (diff previous current)).events =
        trailOf (diff previous current) d.name :=
      fun d hd => (trailOf_name (hregistered d hd) _).symm
    rw [events_generate hne hds, hscripts, events_scriptsOf_of_ok hscript]
    simp only [renderings_append, renderings_flatMap, renderings_diffEvents]
    rw [List.flatMap_congr htrail, ← hnames, List.flatMap_map]
    simp [renderings, Event.IsRendering, Event.level, Event.message]
  · intro t ht
    rw [← hnames] at ht
    obtain ⟨d, hd, rfl⟩ := List.mem_map.mp ht
    obtain ⟨script, hrendered⟩ := hscript d hd
    refine ⟨d, (mem_dialects_of_dialectFor (hregistered d hd)).1, rfl, ?_, ?_⟩
    · rw [trailOf_name (hregistered d hd)]
      exact (rendered_migrationScript hrendered).1
    · rw [← hall, Keyed.find?_ofKeys, ← hnames, if_pos ht]

/-- The last event of a migration that succeeds is its end. -/
theorem getLast?_events_generate {scripts : Scripts} (hne : targets ≠ [])
    (hs : ∀ t ∈ targets, t ∈ supportedTargets)
    (h : (generate targets current (some previous)).outcome = .ok scripts) :
    (generate targets current (some previous)).events.getLast? =
      some (.generated scripts.length current.models.length true) := by
  obtain ⟨ds, hds, -, -⟩ := exists_dialects hs
  have hscripts : (scriptsOf (·.migrationScript (diff previous current)) ds).outcome =
      .ok scripts := by
    rw [outcome_generate, if_neg hne, hds] at h
    exact h
  rw [events_generate hne hds, hscripts, List.getLast?_concat]

/-- A migration that fails logs the operations in front of the first that has no text, for the first
target, and not that it ended. -/
theorem renderings_generate_of_error {failure : Failure} (hne : targets ≠ [])
    (hs : ∀ t ∈ targets, t ∈ supportedTargets)
    (h : (generate targets current (some previous)).outcome = .error failure) :
    (∀ event ∈ (generate targets current (some previous)).events,
      event.message ≠ "Generated DDL") ∧
    ∃ t rest, targets = t :: rest ∧ ∃ d ∈ dialects, d.name = t ∧
      ∃ front op back, diff previous current = front ++ op :: back ∧
        d.operationText op = .error failure ∧
        List.Forall₂ (Rendered d) front
          (renderings (generate targets current (some previous)).events) := by
  obtain ⟨ds, hds, hregistered, hnames⟩ := exists_dialects hs
  cases ds with
  | nil => exact absurd hnames.symm hne
  | cons d ds =>
      have hd := (mem_dialects_of_dialectFor (hregistered d List.mem_cons_self)).1
      have hscript : (d.migrationScript (diff previous current)).outcome = .error failure :=
        (generate_eq_error_iff hd hne hs).mp h
      have hscripts : (scriptsOf (·.migrationScript (diff previous current)) (d :: ds)).outcome =
          .error failure := by
        rw [outcome_generate, if_neg hne, hds] at h
        exact h
      have hevents : (generate targets current (some previous)).events =
          [.targetsResolved supportedTargets (d :: ds).length] ++ diffEvents previous current ++
            (d.migrationScript (diff previous current)).events := by
        rw [events_generate hne hds, hscripts, events_scriptsOf_of_error hscript, List.append_nil]
      obtain ⟨front, op, back, hops, hop, hblock⟩ := rendered_migrationScript_of_error hscript
      rw [hevents]
      constructor
      · simp only [List.forall_mem_append]
        refine ⟨⟨by simp [Event.message], fun event hevent hmessage => ?_⟩,
          fun event hevent => message_of_mem_migrationScript hevent⟩
        exact message_of_mem_diffEvents previous current event hevent (by simp [hmessage])
      · refine ⟨d.name, ds.map (·.name), by rw [← hnames, List.map_cons], d, hd, rfl,
          front, op, back, hops, hop, ?_⟩
        have hresolved : renderings [.targetsResolved supportedTargets (d :: ds).length] = [] := rfl
        rw [renderings_append, renderings_append, hresolved, renderings_diffEvents]
        exact hblock

/-- The log of a migration to supported targets is its trail. If the migration succeeds, it has a
block of events for each target, in the order of the list and with all repetitions, with one event
for each operation of the difference, in order. The event has the name of the dialect, the kind of
the operation and the text that it is rendered as; and the texts of a block, one blank line apart,
are the script of the target. The end of the generation is logged last. If the migration fails on an
operation, the events are those of the operations in front of it, for the first target, and the end
of the generation is not logged. -/
theorem generate_trail (hs : ∀ t ∈ targets, t ∈ supportedTargets) (current previous : Schema) :
    (∀ scripts, (generate targets current (some previous)).outcome = .ok scripts →
      (generate targets current (some previous)).events.getLast? =
        some (.generated scripts.length current.models.length true) ∧
      ∃ block : String → List Event,
        renderings (generate targets current (some previous)).events = targets.flatMap block ∧
        ∀ t ∈ targets, ∃ d ∈ dialects, d.name = t ∧
          List.Forall₂ (Rendered d) (diff previous current) (block t) ∧
          Keyed.find? t scripts =
            some (paragraphs ((block t).filterMap Event.sql?))) ∧
    (∀ failure, (generate targets current (some previous)).outcome = .error failure →
      (∀ event ∈ (generate targets current (some previous)).events,
        event.message ≠ "Generated DDL") ∧
      (targets = [] ∧ failure = .noTargets ∧
        renderings (generate targets current (some previous)).events = [] ∨
      ∃ t rest, targets = t :: rest ∧ ∃ d ∈ dialects, d.name = t ∧
        ∃ front op back, diff previous current = front ++ op :: back ∧
          d.operationText op = .error failure ∧
          List.Forall₂ (Rendered d) front
            (renderings (generate targets current (some previous)).events))) := by
  refine ⟨fun scripts h => ?_, fun failure h => ?_⟩
  · obtain ⟨hne, -, -⟩ := assembled_of_generate h
    exact ⟨getLast?_events_generate hne hs h, _, renderings_generate_of_ok hne hs h⟩
  · by_cases hne : targets = []
    · subst hne
      have hnone : (generate [] current (some previous)).events = [] := rfl
      cases h
      exact ⟨by simp [hnone], .inl ⟨rfl, rfl, rfl⟩⟩
    · obtain ⟨hend, hblock⟩ := renderings_generate_of_error hne hs h
      exact ⟨hend, .inr hblock⟩

/-- Two tables are dropped, twice for one of the targets; an attribute is renamed before the change
of its type is refused. -/
theorem generate_trail_shapes :
    (∀ t ∈ ["redshift", "pg", "redshift"], t ∈ supportedTargets) ∧
    (∃ block : String → List Event,
      renderings (generate ["redshift", "pg", "redshift"] {} (some shapesSchema)).events =
        ["redshift", "pg", "redshift"].flatMap block ∧
      ∀ t ∈ ["redshift", "pg", "redshift"], (block t).length = 2) ∧
    (generate ["redshift", "pg", "redshift"] shapesSchema (some boardSchema)).outcome =
      .error (.unsupportedType "polygon" "outline" "boards") ∧
    (∀ event ∈ (generate ["redshift", "pg", "redshift"] shapesSchema (some boardSchema)).events,
      event.message ≠ "Generated DDL") ∧
    (renderings (generate ["redshift", "pg", "redshift"] shapesSchema
        (some boardSchema)).events).filterMap Event.sql? =
      ["CREATE TABLE IF NOT EXISTS \"shapes\" (\n  \"id\" VARCHAR(255) PRIMARY KEY  \n);\n",
        "ALTER TABLE \"boards\"\nRENAME COLUMN \"colour\" TO \"outline\";\n"] := by
  have hs : ∀ t ∈ ["redshift", "pg", "redshift"], t ∈ supportedTargets := by decide
  obtain ⟨hsuccess, -⟩ := generate_trail hs {} shapesSchema
  obtain ⟨-, hfailure⟩ := generate_trail hs shapesSchema boardSchema
  obtain ⟨-, block, htrail, hblock⟩ := hsuccess _ rfl
  obtain ⟨hend, -⟩ := hfailure _ rfl
  refine ⟨hs, ⟨block, htrail, fun t ht => ?_⟩, rfl, hend, rfl⟩
  obtain ⟨d, -, -, hrendered, -⟩ := hblock t ht
  exact hrendered.length_eq.symm

end

end SchemaMigration
