import BusinessModel.Document.Pointer
import BusinessModel.Proofs.Schema.Reference
import BusinessModel.Proofs.Schema.Walk
import BusinessModel.Schema.Bundled

/-!
The bundled schemas as forms: what each form has inside it, and where the references in it lead.

A form stands at home in the schema of a document type or in the shared definitions, from where the
references in it start. On the way to a form the turns are told apart that a walk through the
schemas and a check of a value make.
-/

namespace BusinessModel.Schema.Bundled

/-- A bundled schema with definitions: that of a document type, or the one that all share. -/
inductive Home where
  | shared
  | document (d : DocumentSchema)

namespace Home

/-- The definitions of a schema. -/
def definitions : Home → List (String × Form)
  | shared => sharedDefinitions
  | document d => d.definitions

/-- The schema itself. -/
def schema : Home → Value
  | shared => definitionsSchema
  | document d => d.form.value

/-- Where the schema lives below the base address. -/
def path : Home → String
  | shared => "common/defs.schema.yaml"
  | document d => "documents/" ++ d.type ++ ".document.yaml"

/-- The address of the schema. -/
def address (h : Home) : String := baseAddress ++ h.path

end Home

/-- The bundled schemas with definitions, in their order. -/
def homes : List Home := .shared :: documents.map .document

/-- The bundled schemas by their addresses. -/
def addressedSchemas : List (String × Value) :=
  (baseAddress ++ "ubml.schema.yaml", indexSchema) :: homes.map fun h => (h.address, h.schema)

/-- A turn on the way from a form to one inside it. References make no turn. -/
inductive Turn where
  /-- To a declared property. -/
  | field (name : String)
  /-- To the items of a list. -/
  | item
  /-- To the values of a mapping with free keys. -/
  | entry
  /-- To one of several ways. -/
  | way
deriving DecidableEq

namespace Form

/-- The keywords of the schema of a form. -/
def keywords : Form → List (String × Value)
  | leaf keywords => keywords
  | fields front properties back =>
    front ++ ("properties", .object (namedValues properties)) :: back
  | listOf item => [("type", "array"), ("items", item.value)]
  | tableOf key element =>
    [("type", "object"), ("propertyNames", referring (sharedReference key)),
     ("additionalProperties", referring (ownReference element))]
  | mapping front element => front ++ [("additionalProperties", element.value)]
  | shared name => [("$ref", .str (sharedReference name))]
  | own name => [("$ref", .str (ownReference name))]
  | oneOf ways => [("oneOf", .list (listedValues ways))]

theorem value_eq (f : Form) : f.value = .object f.keywords := by
  cases f <;> simp [value, keywords, referring]

theorem namedValues_eq (fs : List (String × Form)) :
    namedValues fs = fs.map fun e => (e.1, e.2.value) := by
  induction fs with
  | nil => rfl
  | cons e rest ih =>
    rw [namedValues, ih, List.map_cons]

theorem listedValues_eq (fs : List Form) : listedValues fs = fs.map value := by
  induction fs with
  | nil => rfl
  | cons f rest ih =>
    rw [listedValues, ih, List.map_cons]

/-- The forms one turn inside a form, or at the end of its reference, with their homes. -/
def inner (h : Home) : Form → List (Option Turn × Home × Form)
  | leaf _ => []
  | fields _ properties _ => properties.map fun e => (some (.field e.1), h, e.2)
  | listOf f => [(some .item, h, f)]
  | tableOf _ element => [(some .entry, h, own element)]
  | mapping _ f => [(some .entry, h, f)]
  | shared name => ((sharedDefinitions.lookup name).map fun f => (none, .shared, f)).toList
  | own name => ((h.definitions.lookup name).map fun f => (none, h, f)).toList
  | oneOf ways => ways.map fun f => (some .way, h, f)

/-- Whether a condition holds of a form and all forms inside it, at most so many turns and references
deep, given the turns on the way to each of them. -/
def all (p : List Turn → Home → Form → Bool) : Nat → List Turn → Home → Form → Bool
  | 0, _, _, _ => false
  | depth + 1, turns, h, f =>
    p turns h f && (f.inner h).all fun e => all p depth (turns ++ e.1.toList) e.2.1 e.2.2

theorem all_mono {p q : List Turn → Home → Form → Bool}
    (hpq : ∀ turns h f, p turns h f = true → q turns h f = true) {depth : Nat} {turns : List Turn}
    {h : Home} {f : Form} (hall : f.all p depth turns h = true) : f.all q depth turns h = true := by
  induction depth generalizing turns h f with
  | zero => cases hall
  | succ depth ih =>
    obtain ⟨hp, hinner⟩ := Bool.and_eq_true_iff.mp hall
    rw [all, Bool.and_eq_true, List.all_eq_true]
    exact ⟨hpq _ _ _ hp, fun e he => ih (List.all_eq_true.mp hinner e he)⟩

end Form

/-- The schema of a document type leads to the form, by the turns. -/
inductive Reaches (d : DocumentSchema) : List Turn → Home → Form → Prop where
  | root : Reaches d [] (.document d) d.form
  | inner {turns h f turn h' g} : Reaches d turns h f → (turn, h', g) ∈ f.inner h →
      Reaches d (turns ++ turn.toList) h' g

/-- What holds of all forms inside the schema of a document type holds of each that it leads to. -/
theorem Reaches.exists_all {d : DocumentSchema} {p : List Turn → Home → Form → Bool} {depth : Nat}
    (hall : d.form.all p depth [] (.document d) = true) {turns : List Turn} {h : Home} {f : Form}
    (hf : Reaches d turns h f) : ∃ n, f.all p (n + 1) turns h = true := by
  have hpos {f : Form} {n : Nat} {turns : List Turn} {h : Home} (hn : f.all p n turns h = true) :
      ∃ m, n = m + 1 := by
    cases n with
    | zero => cases hn
    | succ m => exact ⟨m, rfl⟩
  induction hf with
  | root =>
    obtain ⟨n, rfl⟩ := hpos hall
    exact ⟨n, hall⟩
  | inner _ hmem ih =>
    obtain ⟨n, hn⟩ := ih
    have hinner := List.all_eq_true.mp (Bool.and_eq_true_iff.mp hn).2 _ hmem
    obtain ⟨m, rfl⟩ := hpos hinner
    exact ⟨m, hinner⟩

theorem Reaches.of_all {d : DocumentSchema} {p : List Turn → Home → Form → Bool} {depth : Nat}
    (hall : d.form.all p depth [] (.document d) = true) {turns : List Turn} {h : Home} {f : Form}
    (hf : Reaches d turns h f) : p turns h f = true := by
  obtain ⟨n, hn⟩ := hf.exists_all hall
  exact (Bool.and_eq_true_iff.mp hn).1

/-! ### Keywords -/

/-- Keywords that apply no schema to a value or its parts. -/
def inertKeywords : List String :=
  ["$schema", "$id", "title", "type", "required", "pattern", "examples", "enum", "minimum", "maximum",
   "propertyNames", "x-ubml", "x-ubml-document", "$defs"]

/-- The types of values without parts. -/
def scalarTypes : List String := ["string", "integer", "number", "boolean"]

/-- Whether keywords ask for values of one of some types. -/
def asksFor (types : List String) (keywords : List (String × Value)) : Bool :=
  match keywords.lookup "type" with
  | some (.str name) => types.contains name
  | _ => false

/-- Whether a keyword is inert, or allows no further properties. -/
def isClosing (e : String × Value) : Bool :=
  inertKeywords.contains e.1 ||
    match e.2 with
    | .bool false => e.1 == "additionalProperties"
    | _ => false

/-- Whether a definition can be referred to. -/
def isDefinition (definitions : List (String × Form)) (name : String) : Bool :=
  name != "" && name.toList.all Char.isAlphanum &&
    (definitions.lookup name).any fun f => (f.value.get? "$id").isNone

namespace Form

/-- Whether a form has schemas only where it has forms inside, and asks for values that have parts
only where it has. -/
def isPlain (h : Home) : Form → Bool
  | leaf keywords =>
    keywords.all (fun e => inertKeywords.contains e.1) && asksFor scalarTypes keywords
  | fields front _ back =>
    (front ++ back).all isClosing && asksFor ["object"] (front ++ back) &&
      ((front ++ back).lookup "additionalProperties").isSome
  | mapping front _ =>
    front.all (fun e => inertKeywords.contains e.1) && asksFor ["object"] front
  | shared name => isDefinition sharedDefinitions name
  | own name => isDefinition h.definitions name
  | _ => true

/-- Whether a form is plain, and those inside it have no addresses of their own. -/
def isTidy (h : Home) (f : Form) : Bool :=
  f.isPlain h && (f.inner h).all fun e => (e.2.2.value.get? "$id").isNone

/-- A keyword of a plain form, with what it holds. -/
inductive Holds (f : Form) (keyword : String) (v : Value) : Prop where
  | inert : keyword ∈ inertKeywords → Holds f keyword v
  | properties {front ps back} : f = fields front ps back → keyword = "properties" →
      v = .object (namedValues ps) → Holds f keyword v
  | closed {front ps back} : f = fields front ps back → keyword = "additionalProperties" →
      v = .bool false → Holds f keyword v
  | items {g} : f = listOf g → keyword = "items" → v = g.value → Holds f keyword v
  | elements {key element} : f = tableOf key element → keyword = "additionalProperties" →
      v = (own element).value → Holds f keyword v
  | values {front g} : f = mapping front g → keyword = "additionalProperties" → v = g.value →
      Holds f keyword v
  | ways {gs} : f = oneOf gs → keyword = "oneOf" → v = .list (listedValues gs) → Holds f keyword v
  | shared {name} : f = shared name → keyword = "$ref" → v = .str (sharedReference name) →
      Holds f keyword v
  | own {name} : f = own name → keyword = "$ref" → v = .str (ownReference name) →
      Holds f keyword v

theorem isClosing_iff {e : String × Value} :
    isClosing e = true ↔
      e.1 ∈ inertKeywords ∨ (e.1 = "additionalProperties" ∧ e.2 = .bool false) := by
  unfold isClosing
  rw [Bool.or_eq_true, List.contains_iff_mem]
  refine or_congr_right ?_
  split
  · next hfalse => simp [hfalse]
  · next hother =>
    refine iff_of_false (by simp) ?_
    rintro ⟨_, hfalse⟩
    exact hother hfalse

theorem holds_of_mem {h : Home} {f : Form} (hplain : f.isPlain h = true) {keyword : String} {v : Value}
    (hmem : (keyword, v) ∈ f.keywords) : f.Holds keyword v := by
  cases f with
  | leaf keywords =>
    have hinert := (Bool.and_eq_true_iff.mp hplain).1
    exact .inert (List.contains_iff_mem.mp (List.all_eq_true.mp hinert _ hmem))
  | fields front ps back =>
    have hclosing := (Bool.and_eq_true_iff.mp (Bool.and_eq_true_iff.mp hplain).1).1
    have hother (he : (keyword, v) ∈ front ++ back) : (fields front ps back).Holds keyword v := by
      rcases isClosing_iff.mp (List.all_eq_true.mp hclosing _ he) with hinert | ⟨rfl, rfl⟩
      · exact .inert hinert
      · exact .closed rfl rfl rfl
    rcases List.mem_append.mp hmem with hfront | hback
    · exact hother (List.mem_append_left _ hfront)
    · rcases List.mem_cons.mp hback with heq | hback
      · cases heq
        exact .properties rfl rfl rfl
      · exact hother (List.mem_append_right _ hback)
  | listOf f =>
    simp only [keywords, List.mem_cons, List.not_mem_nil, or_false, Prod.mk.injEq] at hmem
    rcases hmem with ⟨rfl, rfl⟩ | ⟨rfl, rfl⟩
    · exact .inert (by decide)
    · exact .items rfl rfl rfl
  | tableOf key element =>
    simp only [keywords, List.mem_cons, List.not_mem_nil, or_false, Prod.mk.injEq] at hmem
    rcases hmem with ⟨rfl, rfl⟩ | ⟨rfl, rfl⟩ | ⟨rfl, rfl⟩
    · exact .inert (by decide)
    · exact .inert (by decide)
    · exact .elements rfl rfl rfl
  | mapping front f =>
    have hinert := (Bool.and_eq_true_iff.mp hplain).1
    rcases List.mem_append.mp hmem with hfront | hback
    · exact .inert (List.contains_iff_mem.mp (List.all_eq_true.mp hinert _ hfront))
    · cases List.mem_singleton.mp hback
      exact .values rfl rfl rfl
  | shared name =>
    cases List.mem_singleton.mp hmem
    exact .shared rfl rfl rfl
  | own name =>
    cases List.mem_singleton.mp hmem
    exact .own rfl rfl rfl
  | oneOf ways =>
    cases List.mem_singleton.mp hmem
    exact .ways rfl rfl rfl

end Form

/-! ### Where references lead -/

/-- The schema stands for the form, and the references in it start from the home of the form. -/
structure Stands (s : Located) (scope : Scope) (h : Home) (f : Form) : Prop where
  value_eq : s.value = f.value
  base_eq : scope.base = h.address
  root_eq : ∃ i, homes[i]? = some h ∧ s.place.root = i + 1

namespace Stands

variable {s : Located} {scope : Scope} {h : Home} {f : Form}

/-- What stands one step inside a schema, for a form with the same home. -/
theorem inside (hs : Stands s scope h f) {inner : Located} {g : Form} (hvalue : inner.value = g.value)
    (hroot : inner.place.root = s.place.root) : Stands inner scope h g := by
  obtain ⟨i, hi, hplace⟩ := hs.root_eq
  exact ⟨hvalue, hs.base_eq, i, hi, hroot.trans hplace⟩

theorem mem_entries_iff (hs : Stands s scope h f) {k : Value} {inner : Located} :
    (k, inner) ∈ s.entries ↔ ∃ i keyword, f.keywords[i]? = some (keyword, inner.value) ∧
      k = .str keyword ∧ inner = s.part i inner.value := by
  rw [Located.mem_entries_iff, hs.value_eq, f.value_eq]
  constructor
  · rintro ⟨i, v, hentry, rfl⟩
    simp only [Value.object, Value.entries, List.getElem?_map, Option.map_eq_some_iff,
      Prod.mk.injEq] at hentry
    obtain ⟨⟨keyword, v'⟩, he, rfl, rfl⟩ := hentry
    exact ⟨i, keyword, he, rfl, rfl⟩
  · rintro ⟨i, keyword, he, rfl, hinner⟩
    refine ⟨i, inner.value, ?_, hinner⟩
    simp [Value.object, Value.entries, he]

end Stands

/-- The registry finds each of the bundled schemas. -/
def Knows (r : Registry) : Prop :=
  ∀ i h, homes[i]? = some h → r.find? h.address = some ⟨h.schema, ⟨i + 1, []⟩⟩

/-- The address of the shared definitions, seen from a bundled schema. -/
theorem resolve_shared : homes.all (fun h =>
    Address.join h.address "../common/defs.schema.yaml" == Home.shared.address &&
      (Address.ofChars h.address.toList).scheme == "https".toList) = true := by
  decide

theorem get?_definitions (h : Home) (hsome : h.definitions ≠ []) :
    h.schema.get? "$defs" = some (.object (Form.namedValues h.definitions)) := by
  cases h with
  | shared =>
    rw [Home.schema, definitionsSchema, Value.get?_object]
    rfl
  | document d =>
    rw [Home.definitions] at hsome
    rw [Home.schema, Form.value_eq, Value.get?_object]
    simp [DocumentSchema.form, Form.keywords, heading, List.lookup_cons, hsome,
      Home.definitions]

section Follow

variable {r : Registry} (hr : Knows r) {s : Located} {scope : Scope} {h : Home} {f : Form}
  {name : String}

theorem lookup_of_isDefinition {definitions : List (String × Form)}
    (h : isDefinition definitions name = true) :
    IsPlainName name ∧ ∃ f, definitions.lookup name = some f ∧ idOf? f.value = .ok none := by
  rw [isDefinition, Bool.and_eq_true, Bool.and_eq_true] at h
  obtain ⟨⟨hne, hall⟩, hlookup⟩ := h
  obtain ⟨f, hf, hid⟩ := (Option.any_eq_true _ _).mp hlookup
  refine ⟨⟨by simpa using hne, hall⟩, f, hf, ?_⟩
  rw [f.value_eq, Option.isNone_iff_eq_none] at hid
  rw [f.value_eq, Value.object, idOf?]
  rw [Value.object, Value.get?] at hid
  rw [hid]

theorem lookup_namedValues (fs : List (String × Form)) :
    (Form.namedValues fs).lookup name = (fs.lookup name).map Form.value := by
  rw [Form.namedValues_eq]
  induction fs with
  | nil => rfl
  | cons e rest ih =>
    rw [List.map_cons, List.lookup_cons, List.lookup_cons, ih]
    cases name == e.1 <;> rfl

include hr

/-- The reference to a definition of the same schema leads to it. -/
theorem Stands.follow_own (hs : Stands s scope h f) (hname : isDefinition h.definitions name = true) :
    ∃ g target inner, h.definitions.lookup name = some g ∧
      follow r scope (ownReference name) = .ok (target, inner) ∧ Stands target inner h g := by
  obtain ⟨hplain, g, hg, hid⟩ := lookup_of_isDefinition hname
  obtain ⟨i, hi, _⟩ := hs.root_eq
  have hroot := hr i h hi
  rw [← hs.base_eq] at hroot
  have hdefinitions := get?_definitions h (by
    intro hnil
    rw [hnil] at hg
    cases hg)
  obtain ⟨target, hfollow, hvalue, hplace⟩ := Schema.follow_own hplain
    hdefinitions (by rw [lookup_namedValues, hg, Option.map_some]) hid hroot
  exact ⟨g, target, _, hg, hfollow, hvalue, hs.base_eq, i, hi, hplace⟩

/-- The reference to a shared definition leads to it. -/
theorem Stands.follow_shared (hs : Stands s scope h f)
    (hname : isDefinition sharedDefinitions name = true) :
    ∃ g target inner, sharedDefinitions.lookup name = some g ∧
      follow r scope (sharedReference name) = .ok (target, inner) ∧
      Stands target inner .shared g := by
  obtain ⟨hplain, g, hg, hid⟩ := lookup_of_isDefinition hname
  obtain ⟨i, hi, _⟩ := hs.root_eq
  have hhome := List.all_eq_true.mp resolve_shared h (List.mem_of_getElem? hi)
  rw [Bool.and_eq_true, beq_iff_eq, beq_iff_eq, ← hs.base_eq] at hhome
  obtain ⟨hjoin, hscheme⟩ := hhome
  have hne : scope.base ≠ "" := by
    intro hempty
    rw [hempty] at hscheme
    cases hscheme
  have hroot := hr 0 .shared rfl
  have hdefinitions := get?_definitions .shared (by decide)
  have hv : (Form.namedValues Home.shared.definitions).lookup name = some g.value := by
    rw [lookup_namedValues, show Home.shared.definitions = sharedDefinitions from rfl, hg,
      Option.map_some]
  have hreference : sharedReference name =
      "../common/defs.schema.yaml" ++ "#" ++ ("/$defs/" ++ name) := by
    have hfront : "../common/defs.schema.yaml#/$defs/" =
        "../common/defs.schema.yaml" ++ "#" ++ "/$defs/" := by decide
    exact (congrArg (· ++ name) hfront).trans (String.append_assoc ..)
  obtain ⟨target, hfollow, hvalue, hplace⟩ := Schema.follow_shared hplain
    hdefinitions hv hid (by decide)
    ⟨hne, by decide, by rw [hscheme]; decide, by decide, by decide, by decide⟩ hjoin
    (by decide) (by decide) hroot
  exact ⟨g, target, _, hg, hreference ▸ hfollow, hvalue, rfl, 0, rfl, hplace⟩

end Follow

end BusinessModel.Schema.Bundled
