import BusinessModel.Proofs.Schema.Bundled.Letters
import BusinessModel.Proofs.Schema.Bundled.Walk

/-!
Where references stand in documents: below the properties with certain names, and nowhere else but in
the activity mappings of process mining documents, whose keys are free.
-/

namespace BusinessModel.Schema.Bundled

open Pointer Walk

/-- The properties that refer to elements. -/
def referenceNames : List String :=
  ["accountable", "actor", "actors", "capabilities", "children", "consulted", "entity", "from",
   "includes", "informed", "inputs", "kpis", "linkedHypotheses", "location", "members", "outputs",
   "owner", "parent", "process", "processes", "products", "relatedTo", "responsible", "services",
   "skills", "source", "steps", "subprocess", "system", "systems", "to", "valueStream"]

/-- The turn to the value of an entry, if that is where turns end, or one more leads to its items. -/
def holder? (turns : List Turn) : Option Turn :=
  match (turns.filter (· != .way)).reverse with
  | .field name :: _ | .item :: .field name :: _ => some (.field name)
  | .entry :: _ | .item :: .entry :: _ => some .entry
  | _ => none

/-- The turns to the steps in the activity mapping of a process mining document. -/
def mappingTurns : List Turn := [.field "miningSources", .entry, .field "activityMapping", .entry]

/-- Whether a form has letters where references are expected, and only there. -/
def isPlaced (d : DocumentSchema) (turns : List Turn) (f : Form) : Bool :=
  match lettersOf f.value with
  | some letters =>
    (anyKind :: kindLetters).contains letters &&
      (f.value.get? "pattern").bind Value.str? == some (patternFor letters) &&
      match holder? turns with
      | some (.field name) =>
        referenceNames.contains name && nameAfter turns == some name && !turns.contains .way
      | _ => d.type == "mining" && turns == mappingTurns
  | none =>
    match f, holder? turns with
    | .leaf _, some (.field name) => !referenceNames.contains name
    | .leaf _, some _ => false
    | _, _ => true

theorem all_isPlaced : documents.all (fun d =>
    d.form.all (fun turns h f => f.isTidy h && isPlaced d turns f) 12 [] (.document d)) = true := by
  decide

theorem areTidy : AreTidy := fun d hd =>
  ⟨12, Form.all_mono (fun _ _ _ h => (Bool.and_eq_true_iff.mp h).1)
    (List.all_eq_true.mp all_isPlaced d hd)⟩

section Reaches

variable {d : DocumentSchema} (hd : d ∈ documents) {turns : List Turn} {h : Home} {f : Form}
  (hf : Reaches d turns h f)

include hd hf

theorem Reaches.isPlaced : isPlaced d turns f = true :=
  (Bool.and_eq_true_iff.mp (hf.of_all (List.all_eq_true.mp all_isPlaced d hd))).2

/-- Letters come with their pattern. They stand below a property that refers to elements, or in an
activity mapping. -/
theorem Reaches.of_letters {letters : String} (hletters : lettersOf f.value = some letters) :
    letters ∈ anyKind :: kindLetters ∧
      f.value.get? "pattern" = some (.str (patternFor letters)) ∧
      ((∃ name ∈ referenceNames, holder? turns = some (.field name) ∧
          nameAfter turns = some name ∧ .way ∉ turns) ∨
        d.type = "mining" ∧ turns = mappingTurns) := by
  have hplaced := hf.isPlaced hd
  simp only [Bundled.isPlaced, hletters, Bool.and_eq_true, List.contains_iff_mem, beq_iff_eq]
    at hplaced
  obtain ⟨⟨hin, hpattern⟩, hholder⟩ := hplaced
  obtain ⟨v, hv, htext⟩ := Option.bind_eq_some_iff.mp hpattern
  refine ⟨hin, by rw [hv, Value.eq_of_str? htext], ?_⟩
  split at hholder
  · next name hname =>
    simp only [Bool.and_eq_true, List.contains_iff_mem, beq_iff_eq, Bool.not_eq_true',
      Bool.eq_false_iff, ne_eq] at hholder
    exact .inl ⟨name, hholder.1.1, hname, hholder.1.2, hholder.2⟩
  · simp only [Bool.and_eq_true, beq_iff_eq] at hholder
    exact .inr hholder

/-- Texts without letters stand below properties that do not refer to elements. -/
theorem Reaches.of_leaf {keywords : List (String × Value)} (hleaf : f = .leaf keywords)
    (hnone : lettersOf f.value = none) {turn : Turn} (hturn : holder? turns = some turn) :
    ∃ name, turn = .field name ∧ name ∉ referenceNames := by
  have hplaced := hf.isPlaced hd
  subst hleaf
  simp only [Bundled.isPlaced, hnone, hturn] at hplaced
  cases turn with
  | field name => exact ⟨name, rfl, by simpa using hplaced⟩
  | _ => cases hplaced

end Reaches

/-- A property name leads to letters only if it refers to elements. -/
theorem Refers.mem_referenceNames {name letters : String} (h : Refers name letters) :
    name ∈ referenceNames := by
  obtain ⟨d, hd, turns, home, f, hf, hname, _, hletters⟩ := h
  obtain ⟨_, _, ⟨name', hmem, _, hname', _⟩ | ⟨_, rfl⟩⟩ := hf.of_letters hd hletters
  · cases hname.symm.trans hname'
    exact hmem
  · cases hname

/-- Whether a form for texts in an activity mapping has letters. -/
def isMapped (turns : List Turn) (f : Form) : Bool :=
  match f, turns.filter (· != .way) with
  | .leaf _, [_, _, turn, _] =>
    !(turn == .field "activityMapping" || turn == .entry) || (lettersOf f.value).isSome
  | _, _ => true

theorem all_isMapped : documents.all (fun d => d.type != "mining" ||
    d.form.all (fun turns _ f => isMapped turns f) 12 [] (.document d)) = true := by
  decide

theorem all_owner : documents.all (fun d => d.form.all (fun turns _ f =>
    nameAfter turns != some "owner" || (lettersOf f.value).all (· == "AC")) 12 [] (.document d)) =
      true := by
  decide

/-- An owner is an actor. -/
theorem refers_owner_iff {letters : String} : Refers "owner" letters ↔ letters = "AC" := by
  constructor
  · rintro ⟨d, hd, turns, h, f, hf, hname, _, hletters⟩
    have howner := hf.of_all (List.all_eq_true.mp all_owner d hd)
    simpa [hname, hletters] using howner
  · rintro rfl
    have hroot : Reaches entitiesDocument [] (.document entitiesDocument) entitiesDocument.form := .root
    have htable := hroot.inner (List.mem_of_getElem? (i := 4) rfl)
    have hown := htable.inner (List.mem_of_getElem? (i := 0) rfl)
    have hentity := hown.inner (List.mem_of_getElem? (i := 0) rfl)
    have howner := hentity.inner (List.mem_of_getElem? (i := 2) rfl)
    have hactor := howner.inner (List.mem_of_getElem? (i := 0) rfl)
    exact ⟨_, by simp [documents], _, _, _, hactor, rfl, by decide, by decide⟩

/-! ### Segments -/

/-- A turn leads to a value along a segment. -/
inductive Turn.Takes : Turn → Segment → Prop where
  | field (name : String) : Takes (.field name) (.key name)
  | item (i : Nat) : Takes .item (.index i)
  | entry (name : String) : Takes .entry (.key name)

theorem Follows.forall₂ {turns : List Turn} {segments : List Segment} (h : Follows turns segments) :
    List.Forall₂ Turn.Takes (turns.filter (· != .way)) segments := by
  induction h with
  | nil => exact .nil
  | field _ ih => exact .cons (.field _) ih
  | item _ ih => exact .cons (.item _) ih
  | entry _ ih => exact .cons (.entry _) ih
  | way _ ih => exact ih

/-- The turns tell what holds the part of a value at the end of the segments. -/
theorem Follows.holder_iff {turns : List Turn} {segments : List Segment}
    (h : Follows turns segments) (name : String) :
    (holder? turns = some (.field name) → lastKey? segments = some name) ∧
      (lastKey? segments = some name →
        holder? turns = some (.field name) ∨ holder? turns = some .entry) := by
  have hback := List.rel_reverse h.forall₂
  unfold holder? lastKey?
  generalize (turns.filter (· != .way)).reverse = back at hback
  generalize segments.reverse = ends at hback
  cases hback with
  | nil => simp
  | cons hhead htail =>
    cases hhead with
    | field name' => simp
    | entry name' => simp
    | item i =>
      cases htail with
      | nil => simp
      | cons hhead' _ => cases hhead' <;> simp

/-- A text at a key of an activity mapping has letters. -/
theorem Reaches.of_mapped {d : DocumentSchema} (hd : d ∈ documents) (htype : d.type = "mining")
    {turns : List Turn} {h : Home} {keywords : List (String × Value)}
    (hf : Reaches d turns h (.leaf keywords)) {source name : String} (hfollows : Follows turns
      [.key "miningSources", .key source, .key "activityMapping", .key name]) :
    (lettersOf (Form.leaf keywords).value).isSome = true := by
  have hall := List.all_eq_true.mp all_isMapped d hd
  simp only [htype, bne_self_eq_false, Bool.false_or] at hall
  have hmapped := hf.of_all hall
  have htakes := hfollows.forall₂
  unfold isMapped at hmapped
  generalize turns.filter (· != .way) = passed at hmapped htakes
  obtain _ | ⟨_, _ | ⟨_, _ | ⟨hturn, _ | ⟨_, _ | _⟩⟩⟩⟩ := htakes
  cases hturn with
  | field _ => simpa using hmapped
  | entry _ => simpa using hmapped

end BusinessModel.Schema.Bundled
