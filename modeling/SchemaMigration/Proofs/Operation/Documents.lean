import SchemaMigration.Operation.Document
import SchemaMigration.Proofs.Difference.Parts
import SchemaMigration.Proofs.Json.Layout
import SchemaMigration.Proofs.Json.Unambiguous
import SchemaMigration.Proofs.Schema.Documents

/-!
# Operation documents read back

The operations of a difference carry attributes of the current schema alone. If this has been read
from a document, its attributes are in normal form, and each operation is read back from its compact
form as long as the numbers in it are read as the numbers nearest to their literals. An operation
nests an attribute no deeper than a schema does, so the levels suffice.
-/

namespace SchemaMigration

open Json Json.Scan

/-- The attributes that an operation carries whole. -/
def Operation.attributes : Operation → List Attribute
  | addModel model | changeUnique model => model.attributes
  | addAttribute _ attr | changeRequired _ attr | modifyAttribute _ attr => [attr]
  | dropModel _ | renameModel _ _ | dropAttribute _ _ | renameAttribute _ _ _ => []

/-- The attributes that an operation carries are in normal form. -/
def Operation.Formed (levels : Nat) (op : Operation) : Prop :=
  ∀ a ∈ op.attributes, a.Formed levels

theorem Attribute.Formed.mono {levels more : Nat} {a : Attribute} (h : a.Formed levels)
    (hle : levels ≤ more) : a.Formed more where
  type_eq := h.type_eq
  defaultValue v hv := ⟨(h.defaultValue v hv).1, (h.defaultValue v hv).2.mono hle⟩

theorem mem_attributes_of_attributeChanges {model : Handle} {previous current a : Attribute}
    {op : Operation} (hop : op ∈ Diff.attributeChanges model previous current)
    (ha : a ∈ op.attributes) : a = current := by
  rcases Diff.mem_attributeChanges_iff.mp hop with ⟨-, rfl⟩ | ⟨-, rfl⟩ | ⟨-, rfl⟩
  · cases ha
  · exact List.mem_singleton.mp ha
  · exact List.mem_singleton.mp ha

/-- The changes of a model carry attributes of the current model alone. -/
theorem mem_attributes_of_modelChanges {previous current : Model} {op : Operation} {a : Attribute}
    (hop : op ∈ Diff.modelChanges previous current) (ha : a ∈ op.attributes) :
    a ∈ current.attributes := by
  rcases Diff.mem_modelChanges_iff.mp hop with
    ⟨-, rfl⟩ | ⟨attr, -, rfl⟩ | ⟨attr, hattr, hstep⟩ | ⟨-, rfl⟩
  · cases ha
  · cases ha
  · rcases Diff.mem_attributeStep_iff.mp hstep with ⟨-, rfl⟩ | ⟨before, -, hchange⟩
    · obtain rfl := List.mem_singleton.mp ha
      exact hattr
    · obtain rfl := mem_attributes_of_attributeChanges hchange ha
      exact hattr
  · exact ha

/-- The operations of a difference carry attributes of the current schema alone. -/
theorem exists_model_of_mem_diff {previous current : Schema} {op : Operation} {a : Attribute}
    (hop : op ∈ diff previous current) (ha : a ∈ op.attributes) :
    ∃ m ∈ current.models, a ∈ m.attributes := by
  rcases Diff.mem_diff_iff.mp hop with ⟨model, -, rfl⟩ | ⟨model, hmodel, hstep⟩
  · cases ha
  · refine ⟨model, hmodel, ?_⟩
    rcases Diff.mem_modelStep_iff.mp hstep with ⟨-, rfl⟩ | ⟨before, -, hchange⟩
    · exact ha
    · exact mem_attributes_of_modelChanges hchange ha

/-- What the operations of a difference carry is in normal form, if the current schema has been read
from a document. -/
theorem formed_of_mem_diff {previous current : Schema} {document : String}
    (h : Schema.ofText document = .ok current) {op : Operation} (hop : op ∈ diff previous current) :
    op.Formed 122 := by
  obtain ⟨rest, hread⟩ := exists_run_of_readText h
  have hformed : ∀ m ∈ current.models, ∀ a ∈ m.attributes, a.Formed 122 :=
    (Schema.yields_read rfl).of_run hread
  intro a ha
  obtain ⟨m, hm, ham⟩ := exists_model_of_mem_diff hop ha
  exact hformed m hm a ham

variable {levels : Nat} {held : Bool}

theorem Handle.reads_read (title : String) (h : Handle) :
    Reads ((Handle.record title).read ⟨levels + 1, held⟩) h.toJson.lexemes h := by
  have hsteps : Steps ((Handle.record title).readMember ⟨levels, held⟩)
      (printedMembers [("id", h.id.toJson), ("name", .string h.name)])
      (Handle.record title).start ⟨some h.id, some h.name⟩ := by
    refine Record.steps_cons rfl rfl ((ObjectId.reads_read _ h.id).bind_pure _) ?_
    refine Record.steps_cons rfl rfl ((reads_readName h.name).bind_pure _) ?_
    exact .nil _
  rw [toJson, Value.lexemes]
  exact Record.reads_read rfl hsteps rfl

namespace Operation

theorem run_readKind (setting : Setting) (kind : Kind) (rest : List Char) :
    (Kind.read setting).run ((quote kind.name).toList ++ rest) = .ok (kind, rest) := by
  have hquote : ∀ rest, (Kind.read setting).run ('"' :: rest) =
      (quoted strictEscape >>= Kind.named).run ('"' :: rest) := fun _ => rfl
  have hname : (quoted strictEscape >>= Kind.named).run ((quote kind.name).toList ++ rest) =
      .ok (kind, rest) := by
    rw [run_bind_of_run (run_quoted kind.name rest), Kind.named, Kind.ofName?_name]
    rfl
  simp only [quote, String.toList_append] at hname ⊢
  exact (hquote _).trans hname

theorem skipsBlanks_readKind (setting : Setting) : SkipsBlanks (Kind.read setting) :=
  skipsBlanks_look.bind _

theorem reads_readKind (setting : Setting) (kind : Kind) :
    Reads (Kind.read setting) (Value.string kind.name).lexemes kind :=
  (skipsBlanks_readKind setting).reads_lexeme fun rest _ => run_readKind setting kind rest

/-- A model and an attribute are read back as parameters. -/
theorem reads_attributeParams {title : String} {make : Handle → Attribute → Operation}
    {model : Handle} {attr : Attribute} (ha : attr.Formed levels)
    (hreals : ∀ x ∈ attr.toJson.reals, x.PrintsNearest) :
    Reads ((attributeParams title make).readOnlyObject ⟨levels + 2, held⟩)
      (Value.object [("model", model.toJson), ("attribute", attr.toJson)]).lexemes
      (make model attr) := by
  have hmodel : Reads ((Handle.record "struct ModelRef").read ⟨levels + 1, held⟩)
      model.toJson.lexemes model := Handle.reads_read _ model
  have hattribute : Reads (Attribute.record.read ⟨levels + 1, held⟩) attr.toJson.lexemes attr :=
    @Attribute.reads_of_writtenAs _ ⟨levels, held⟩ _ _ rfl ha hreals attr.writtenAs_lexemes
  have hsteps : Steps ((attributeParams title make).readMember ⟨levels + 1, held⟩)
      (printedMembers [("model", model.toJson), ("attribute", attr.toJson)])
      {} { model := some model, wholeAttribute := some attr } := by
    refine Record.steps_cons rfl rfl (hmodel.bind_pure _) ?_
    refine Record.steps_cons rfl rfl (hattribute.bind_pure _) ?_
    exact .nil _
  exact Record.reads_readOnlyObject rfl hsteps rfl

/-- A model is read back as a parameter. -/
theorem reads_modelParams {title : String} {make : Model → Operation} {model : Model}
    (hm : ∀ a ∈ model.attributes, a.Formed levels)
    (hreals : ∀ x ∈ model.toJson.reals, x.PrintsNearest) :
    Reads ((modelParams title make).readOnlyObject ⟨levels + 4, held⟩)
      (Value.object [("model", model.toJson)]).lexemes (make model) := by
  have hmodel : Reads (Model.record.read ⟨levels + 3, held⟩) model.toJson.lexemes model :=
    @Model.reads_of_writtenAs _ ⟨levels, held⟩ _ _ rfl hm hreals model.writtenAs_lexemes
  have hsteps : Steps ((modelParams title make).readMember ⟨levels + 3, held⟩)
      (printedMembers [("model", model.toJson)]) {} { wholeModel := some model } := by
    refine Record.steps_cons rfl rfl (hmodel.bind_pure _) ?_
    exact .nil _
  exact Record.reads_readOnlyObject rfl hsteps rfl

theorem mem_reals_params {op : Operation} {key : String} {v : Value} {x : Binary64}
    (h : (key, v) ∈ op.params) (hx : x ∈ v.reals) : x ∈ op.toJson.reals :=
  mem_reals_object (List.mem_cons_of_mem _ List.mem_cons_self) (mem_reals_object h hx)

variable {op : Operation}

/-- The parameters of an operation are read back once its kind is known. -/
theorem reads_params (hop : op.Formed levels) (hreals : ∀ x ∈ op.toJson.reals, x.PrintsNearest) :
    Reads (op.kind.params.readOnlyObject ⟨levels + 4, held⟩)
      (Value.object op.params).lexemes op := by
  -- an attribute lies two levels above the attributes of a model
  have hattr : ∀ {attr : Attribute}, attr ∈ op.attributes → attr.Formed (levels + 2) :=
    fun hmem => (hop _ hmem).mono (by omega)
  have hhandle : ∀ (title : String) (h : Handle), Reads
      ((Handle.record title).read ⟨levels + 3, held⟩) h.toJson.lexemes h :=
    fun title h => Handle.reads_read title h
  cases op with
  | dropModel name =>
      have hsteps : Steps (Kind.dropModel.params.readMember ⟨levels + 3, held⟩)
          (printedMembers [("name", .string name)]) {} { name := some name } := by
        refine Record.steps_cons rfl rfl ((reads_readName name).bind_pure _) ?_
        exact .nil _
      exact Record.reads_readOnlyObject rfl hsteps rfl
  | addModel model | changeUnique model =>
      exact reads_modelParams hop fun x hx =>
        hreals x (@mem_reals_params _ "model" _ _ (by simp [params]) hx)
  | renameModel previous current =>
      have hsteps : Steps (Kind.renameModel.params.readMember ⟨levels + 3, held⟩)
          (printedMembers [("previousName", .string previous), ("currentName", .string current)])
          {} { previous := some previous, current := some current } := by
        refine Record.steps_cons rfl rfl ((reads_readName previous).bind_pure _) ?_
        refine Record.steps_cons rfl rfl ((reads_readName current).bind_pure _) ?_
        exact .nil _
      exact Record.reads_readOnlyObject rfl hsteps rfl
  | addAttribute model attr | changeRequired model attr | modifyAttribute model attr =>
      exact reads_attributeParams (hattr (List.mem_singleton_self attr)) fun x hx =>
        hreals x (@mem_reals_params _ "attribute" _ _ (by simp [params]) hx)
  | dropAttribute model attr =>
      have hsteps : Steps (Kind.dropAttribute.params.readMember ⟨levels + 3, held⟩)
          (printedMembers [("model", model.toJson), ("attribute", attr.toJson)])
          {} { model := some model, attr := some attr } := by
        refine Record.steps_cons rfl rfl ((hhandle _ model).bind_pure _) ?_
        refine Record.steps_cons rfl rfl ((hhandle _ attr).bind_pure _) ?_
        exact .nil _
      exact Record.reads_readOnlyObject rfl hsteps rfl
  | renameAttribute model previous current =>
      have hsteps : Steps (Kind.renameAttribute.params.readMember ⟨levels + 3, held⟩)
          (printedMembers [("model", model.toJson), ("previousName", .string previous),
            ("currentName", .string current)])
          {} { model := some model, previous := some previous, current := some current } := by
        refine Record.steps_cons rfl rfl ((hhandle _ model).bind_pure _) ?_
        refine Record.steps_cons rfl rfl ((reads_readName previous).bind_pure _) ?_
        refine Record.steps_cons rfl rfl ((reads_readName current).bind_pure _) ?_
        exact .nil _
      exact Record.reads_readOnlyObject rfl hsteps rfl

theorem reads_type (setting : Setting) (kind : Kind) :
    Reads (readMember setting "type" {}) ([':'] :: (Value.string kind.name).lexemes)
      { kind := some kind } := by
  simp only [readMember, if_true, Option.isSome_none, Bool.false_eq_true, if_false]
  exact reads_colon ((reads_readKind setting kind).bind_pure _)

theorem reads_paramsMember (hop : op.Formed levels)
    (hreals : ∀ x ∈ op.toJson.reals, x.PrintsNearest) :
    Reads (readMember ⟨levels + 4, held⟩ "params" { kind := some op.kind })
      ([':'] :: (Value.object op.params).lexemes)
      { kind := some op.kind, operation := some op } := by
  have hkey : "params" ≠ "type" := by decide
  simp only [readMember, hkey, if_false, if_true, Option.isSome_none, Bool.or_self,
    Bool.false_eq_true]
  exact reads_colon ((reads_params hop hreals).bind_pure _)

/-- An operation is read back from its lexemes. -/
theorem reads_read (hop : op.Formed levels) (hreals : ∀ x ∈ op.toJson.reals, x.PrintsNearest) :
    Reads (Operation.read ⟨levels + 5, held⟩) op.toJson.lexemes op := by
  have hsteps : Steps (readMember ⟨levels + 4, held⟩)
      (printedMembers [("type", .string op.kind.name), ("params", .object op.params)])
      {} { kind := some op.kind, operation := some op } := by
    simp only [printedMembers]
    refine .cons (spells_quote "type") (reads_type _ op.kind) ?_
    refine .cons (spells_quote "params") (reads_paramsMember hop hreals) ?_
    exact .nil _
  rw [toJson, Value.lexemes]
  apply skipsBlanks_byShape.reads
  intro text htext
  exact takes_inObject _ hsteps (fun _ => rfl) htext

/-- A list of operations is read back one by one. It nests one level deeper than each alone. -/
theorem reads_listOf_read {ops : List Operation} (hops : ∀ op ∈ ops, op.Formed levels)
    (hreals : ∀ op ∈ ops, ∀ x ∈ op.toJson.reals, x.PrintsNearest) :
    Reads (listOf Operation.read ⟨levels + 6, held⟩)
      (Value.array (ops.map toJson)).lexemes ops := by
  have hrows : List.Forall₂ (Reads (Operation.read ⟨levels + 5, held⟩))
      (ops.map fun op => op.toJson.lexemes) ops := by
    rw [List.forall₂_map_left_iff, List.forall₂_same]
    exact fun op hop => reads_read (hops op hop) (hreals op hop)
  have hstarts : ∀ row ∈ ops.map fun op => op.toJson.lexemes, Starts row := by
    intro row hrow
    obtain ⟨op, -, rfl⟩ := List.mem_map.mp hrow
    exact starts_lexemes op.toJson
  rw [Value.lexemes, itemLexemes_eq, List.map_map]
  exact reads_listOf rfl hrows hstarts

/-- A text is the list of some operations as JSON: its lexemes are those of the list, with nothing
but blanks around them. So it is read back as these operations, if the numbers in them are read as
the numbers nearest to their literals, by a reader that allows one level more than a document has,
and by the reader of documents itself unless values nest up to the last of its levels. -/
structure IsListText (ops : List Operation) (text : String) : Prop where
  spelt : IsText (Value.array (ops.map toJson)).lexemes text.toList
  deeper (hreals : ∀ op ∈ ops, ∀ x ∈ op.toJson.reals, x.PrintsNearest) :
    readText (fun _ => listOf Operation.read ⟨128, false⟩) text = .ok ops
  fresh (hreals : ∀ op ∈ ops, ∀ x ∈ op.toJson.reals, x.PrintsNearest)
    (hops : ∀ op ∈ ops, op.Formed 121) : readText (listOf Operation.read) text = .ok ops

/-- The operations of a difference, whose current schema has been read from a document, make such a
text in the indented form of their list, whatever blanks stand behind it. -/
theorem isListText_indented {document text : String} {previous current : Schema} {depth : Nat}
    {gap : List Char} (h : Schema.ofText document = .ok current) (hgap : Blanks gap)
    (htext : text.toList =
      ((Value.array ((diff previous current).map toJson)).indented depth).toList ++ gap) :
    IsListText (diff previous current) text := by
  have hspelt : IsText (Value.array ((diff previous current).map toJson)).lexemes text.toList :=
    htext ▸ isText_indented depth _ hgap
  have hformed : ∀ op ∈ diff previous current, op.Formed 122 := fun op => formed_of_mem_diff h
  refine ⟨hspelt, fun hreals => ?_, fun hreals hops => ?_⟩
  · exact readText_of_reads (@reads_listOf_read 122 false _ hformed hreals) hspelt
  · exact readText_of_reads (@reads_listOf_read 121 false _ hops hreals) hspelt

end Operation

theorem ObjectId.toJson_injective : Function.Injective ObjectId.toJson := by
  intro id other h
  cases id with
  | number i =>
      cases other with
      | number j =>
          rw [Int64.toInt_inj.mp (Number.integer.inj (Value.number.inj h))]
      | text t => simp [toJson] at h
  | text s =>
      cases other with
      | number j => simp [toJson] at h
      | text t => rw [Value.string.inj h]

theorem Handle.toJson_injective : Function.Injective Handle.toJson := by
  intro h other he
  simp only [toJson, Value.object.injEq, List.cons.injEq, Prod.mk.injEq, Value.string.injEq,
    true_and, and_true] at he
  obtain ⟨hid, hname⟩ := he
  cases h
  cases other
  rw [Handle.mk.injEq]
  exact ⟨ObjectId.toJson_injective hid, hname⟩

/-- A member that may be absent, and what follows it under other keys. -/
theorem memberOf_append_inj {key : String} {v? w? : Option Value}
    {rest after : List (String × Value)} (hrest : ∀ entry ∈ rest, entry.1 ≠ key)
    (hafter : ∀ entry ∈ after, entry.1 ≠ key)
    (h : memberOf key v? ++ rest = memberOf key w? ++ after) : v? = w? ∧ rest = after := by
  cases v? with
  | none =>
      cases w? with
      | none => exact ⟨rfl, h⟩
      | some w =>
          have hmem : (key, w) ∈ memberOf key none ++ rest := by rw [h]; exact List.mem_cons_self
          exact absurd rfl (hrest _ hmem)
  | some v =>
      cases w? with
      | none =>
          have hmem : (key, v) ∈ memberOf key none ++ after := by rw [← h]; exact List.mem_cons_self
          exact absurd rfl (hafter _ hmem)
      | some w =>
          obtain ⟨hv, hrest⟩ := List.cons.inj h
          exact ⟨congrArg some (Prod.ext_iff.mp hv).2, hrest⟩

theorem key_of_mem_memberOf {key : String} {v? : Option Value} {entry : String × Value}
    (h : entry ∈ memberOf key v?) : entry.1 = key := by
  obtain ⟨v, -, rfl⟩ := List.mem_map.mp h
  rfl

/-- Attributes in normal form that are written alike are equal. -/
theorem Attribute.eq_of_toJson {a b : Attribute} (ha : a.Formed levels) (hb : b.Formed levels)
    (h : a.toJson = b.toJson) : a = b := by
  simp only [toJson, Value.object.injEq, List.append_assoc, List.cons_append, List.nil_append,
    List.cons.injEq, Prod.mk.injEq, AttributeType.toJson, Value.string.injEq, Value.bool.injEq,
    true_and] at h
  obtain ⟨hid, hname, htype, hrequired, hunique, hoptional⟩ := h
  obtain ⟨hmin, hoptional⟩ := memberOf_append_inj
    (fun entry hentry => by
      rcases List.mem_append.mp hentry with he | he <;> simp [key_of_mem_memberOf he])
    (fun entry hentry => by
      rcases List.mem_append.mp hentry with he | he <;> simp [key_of_mem_memberOf he]) hoptional
  obtain ⟨hmax, hdefault⟩ := memberOf_append_inj
    (fun entry hentry => by simp [key_of_mem_memberOf hentry])
    (fun entry hentry => by simp [key_of_mem_memberOf hentry]) hoptional
  rw [← List.append_nil (memberOf _ a.defaultValue), ← List.append_nil (memberOf _ b.defaultValue)]
    at hdefault
  have hnumber : Function.Injective Value.number := fun _ _ => Value.number.inj
  have htype : a.type = b.type := by rw [← ha.type_eq, htype, hb.type_eq]
  have hmin := Option.map_injective hnumber hmin
  have hmax := Option.map_injective hnumber hmax
  have hdefault := (memberOf_append_inj (by simp) (by simp) hdefault).1
  cases a
  cases b
  rw [Attribute.mk.injEq]
  exact ⟨ObjectId.toJson_injective hid, hname, htype, hrequired, hunique, hmin, hmax, hdefault⟩

theorem Attribute.eq_of_map_toJson {as bs : List Attribute} (has : ∀ a ∈ as, a.Formed levels)
    (hbs : ∀ b ∈ bs, b.Formed levels) (h : as.map Attribute.toJson = bs.map Attribute.toJson) :
    as = bs := by
  induction as generalizing bs with
  | nil => exact (List.map_eq_nil_iff.mp h.symm).symm
  | cons a as ih =>
      cases bs with
      | nil => cases h
      | cons b bs =>
          obtain ⟨ha, has⟩ := List.forall_mem_cons.mp has
          obtain ⟨hb, hbs⟩ := List.forall_mem_cons.mp hbs
          obtain ⟨hfirst, hlater⟩ := List.cons.inj h
          rw [Attribute.eq_of_toJson ha hb hfirst, ih has hbs hlater]

/-- Models whose attributes are in normal form and that are written alike are equal. -/
theorem Model.eq_of_toJson {m n : Model} (hm : ∀ a ∈ m.attributes, a.Formed levels)
    (hn : ∀ a ∈ n.attributes, a.Formed levels) (h : m.toJson = n.toJson) : m = n := by
  simp only [toJson, Value.object.injEq, List.cons.injEq, Prod.mk.injEq, Value.string.injEq,
    Value.array.injEq, true_and, and_true] at h
  obtain ⟨hid, hname, hattributes⟩ := h
  have hattributes := Attribute.eq_of_map_toJson hm hn hattributes
  cases m
  cases n
  rw [Model.mk.injEq]
  exact ⟨ObjectId.toJson_injective hid, hname, hattributes⟩

namespace Operation

variable {other : Operation}

/-- Operations of one kind with the same parameters are equal. -/
theorem eq_of_params (hop : op.Formed levels) (hother : other.Formed levels)
    (hkind : op.kind = other.kind) (h : op.params = other.params) : op = other := by
  have hattribute : ∀ {attr attr' : Attribute}, attr ∈ op.attributes → attr' ∈ other.attributes →
      attr.toJson = attr'.toJson → attr = attr' :=
    fun hmem hmem' => Attribute.eq_of_toJson (hop _ hmem) (hother _ hmem')
  cases op <;> cases other <;> first | (cases hkind; done) | skip
  all_goals
    simp only [params, List.cons.injEq, Prod.mk.injEq, Value.string.injEq, true_and, and_true] at h
  case dropModel.dropModel => rw [h]
  case addModel.addModel | changeUnique.changeUnique => rw [Model.eq_of_toJson hop hother h]
  case renameModel.renameModel => rw [h.1, h.2]
  case addAttribute.addAttribute | changeRequired.changeRequired
    | modifyAttribute.modifyAttribute =>
    rw [Handle.toJson_injective h.1, hattribute (by simp [attributes]) (by simp [attributes]) h.2]
  case dropAttribute.dropAttribute => rw [Handle.toJson_injective h.1, Handle.toJson_injective h.2]
  case renameAttribute.renameAttribute => rw [Handle.toJson_injective h.1, h.2.1, h.2.2]

/-- Operations whose attributes are in normal form and that are printed alike are equal. -/
theorem eq_of_compact_eq (hop : op.Formed levels) (hother : other.Formed levels)
    (h : op.toJson.compact = other.toJson.compact) : op = other := by
  have hjson := compact_injective h
  simp only [toJson, Value.object.injEq, List.cons.injEq, Prod.mk.injEq, Value.string.injEq,
    true_and, and_true] at hjson
  obtain ⟨hname, hparams⟩ := hjson
  have hkind : some op.kind = some other.kind := by
    rw [← Kind.ofName?_name, hname, Kind.ofName?_name]
  exact eq_of_params hop hother (Option.some.inj hkind) hparams

theorem Kind.quote_name (kind : Kind) : quote kind.name = "\"" ++ kind.name ++ "\"" := by
  cases kind <;> decide

/-- An operation is printed as an object with two members: its kind and its parameters. -/
theorem compact_toJson (op : Operation) : op.toJson.compact =
    "\x7b\"type\":\"" ++ op.kind.name ++ "\",\"params\":" ++ (Value.object op.params).compact ++
      "\x7d" := by
  have htype : quote "type" ++ ":" = "\"type\":" := by decide
  have hparams : quote "params" ++ ":" = "\"params\":" := by decide
  have hopening : "\x7b" ++ "\"type\":" ++ "\"" = "\x7b\"type\":\"" := by decide
  have hbetween : "\"" ++ "," ++ "\"params\":" = "\",\"params\":" := by decide
  rw [toJson, Value.compact, compactMembers, compactMembers, compactMembers, htype, hparams,
    Value.compact, Kind.quote_name, String.intercalate_cons_cons, String.intercalate_singleton,
    ← hopening, ← hbetween]
  simp only [String.append_assoc]

/-- An operation of a difference, whose current schema has been read from a document, is read back
from its compact form if the numbers in it are read as the numbers nearest to their literals. Its
compact form is an object with its kind and its parameters, and no other such operation has the
same. -/
theorem readText_compact {document : String} {previous current : Schema}
    (h : Schema.ofText document = .ok current) (hop : op ∈ diff previous current) :
    ((∀ x ∈ op.toJson.reals, x.PrintsNearest) →
      readText Operation.read op.toJson.compact = .ok op) ∧
    op.toJson.compact = "\x7b\"type\":\"" ++ op.kind.name ++ "\",\"params\":" ++
      (Value.object op.params).compact ++ "\x7d" ∧
    ∀ {document' : String} {previous' current' : Schema} {other : Operation},
      Schema.ofText document' = .ok current' → other ∈ diff previous' current' →
        op.toJson.compact = other.toJson.compact → op = other := by
  have hformed := formed_of_mem_diff h hop
  refine ⟨?_, compact_toJson op, ?_⟩
  · intro hreals
    exact readText_of_takes (reads_read hformed hreals).takes_compact
  · intro document' previous' current' other h' hother hcompact
    exact eq_of_compact_eq hformed (formed_of_mem_diff h' hother) hcompact

/-- An operation with an attribute whose default nests values. -/
def gaugeAddition : Operation :=
  .addAttribute ⟨.text "g", "u"⟩ ((gaugeSchema.models.flatMap (·.attributes)).head (by decide))

theorem readText_gaugeAddition : Schema.ofText gaugeDocument = .ok gaugeSchema ∧
    gaugeAddition ∈ diff ⟨[⟨.text "g", "u", []⟩]⟩ gaugeSchema ∧
    (∀ x ∈ gaugeAddition.toJson.reals, x.PrintsNearest) ∧
    readText Operation.read gaugeAddition.toJson.compact = .ok gaugeAddition ∧
    ∀ other ∈ diff ⟨[]⟩ gaugeSchema, gaugeAddition.toJson.compact = other.toJson.compact →
      gaugeAddition = other := by
  have hread : Schema.ofText gaugeDocument = .ok gaugeSchema := by decide +kernel
  have hop : gaugeAddition ∈ diff ⟨[⟨.text "g", "u", []⟩]⟩ gaugeSchema := by decide +kernel
  have hreals : ∀ x ∈ gaugeAddition.toJson.reals, x.PrintsNearest := by decide +kernel
  obtain ⟨hagain, -, htold⟩ := readText_compact hread hop
  exact ⟨hread, hop, hreals, hagain hreals, fun _ hother => htold hread hother⟩

/-- The condition cannot be left out: the bound of a new model is read as a neighbour of the number
whose literal is printed. -/
theorem readText_boundedSchema : ∃ previous current op again,
    Schema.ofText "[[]]" = .ok previous ∧
    Schema.ofText "[[[1,\"m\",[[1,\"a\",\"number\",false,false,null,5e+32]]]]]" = .ok current ∧
    op ∈ diff previous current ∧
    readText Operation.read op.toJson.compact = .ok again ∧ again ≠ op := by
  refine ⟨⟨[]⟩, boundedSchema ⟨false, 6938893903907229, 56, by decide⟩,
    .addModel ((boundedSchema ⟨false, 6938893903907229, 56, by decide⟩).models.head (by decide)),
    .addModel ((boundedSchema ⟨false, 6938893903907228, 56, by decide⟩).models.head (by decide)),
    ?_, ?_, ?_, ?_, ?_⟩
  · decide +kernel
  · decide +kernel
  · decide +kernel
  · decide +kernel
  · decide +kernel

end Operation

end SchemaMigration
