import BusinessModel.Proofs.Outcome
import BusinessModel.Service.Session

/-!
Sessions in which schemas are loaded anew. At any time, all parts of the service come from one set of
schemas: that of the last directory that could be loaded. A request is therefore answered as by a new
service on these schemas that has read the same documents, whatever else was asked for before.
-/

namespace BusinessModel

/-- The schemas that a request puts in place. -/
def Request.loaded? : Request → Option SchemaSet
  | .reload d => d.load.toOption
  | _ => none

/-- Whether a request reads a document. -/
def Request.reads : Request → Bool
  | .parse .. | .parseFile .. => true
  | _ => false

/-- The schemas of the last request that puts some in place, or else the given ones. -/
def lastLoaded (schemas : SchemaSet) (requests : List Request) : SchemaSet :=
  (requests.filterMap Request.loaded?).getLast?.getD schemas

theorem lastLoaded_cons (schemas : SchemaSet) (request : Request) (rest : List Request) :
    lastLoaded schemas (request :: rest) = lastLoaded (request.loaded?.getD schemas) rest := by
  unfold lastLoaded
  cases hloaded : request.loaded? with
  | none => rw [List.filterMap_cons_none hloaded, Option.getD_none]
  | some set => rw [List.filterMap_cons_some hloaded, List.getLast?_cons, Option.getD_some,
      Option.getD_some]

/-- Reading documents puts no schemas in place. -/
theorem lastLoaded_filter_reads (schemas : SchemaSet) (requests : List Request) :
    lastLoaded schemas (requests.filter Request.reads) = schemas := by
  have hnone : (requests.filter Request.reads).filterMap Request.loaded? = [] := by
    rw [List.filterMap_eq_nil_iff]
    intro request hrequest
    have hreads := (List.mem_filter.mp hrequest).2
    cases request with
    | reload d => cases hreads
    | _ => rfl
  rw [lastLoaded, hnone]
  rfl

/-! ### The parts of a service -/

namespace Service

/-- All parts of the service come from the set of schemas. -/
structure IsOf (s : Service) (schemas : SchemaSet) : Prop where
  schemas_eq : s.schemas = schemas
  adviser_eq : s.adviser = schemas.metadata
  guide_eq : s.guide = schemas.metadata

/-- A service whose parts come from one set of schemas is a new service on that set. -/
theorem IsOf.eq_new {s : Service} {schemas : SchemaSet} (h : s.IsOf schemas) :
    s = { schemas, strict := s.strict, suppressUnused := s.suppressUnused } := by
  obtain ⟨schemas', adviser, guide, strict, suppressUnused⟩ := s
  obtain ⟨hschemas, hadviser, hguide⟩ := h
  dsimp only at hschemas hadviser hguide
  rw [hschemas, hadviser, hguide]

end Service

namespace Session

/-- A session with a new service on a set of schemas. -/
def start (schemas : SchemaSet) (strict suppressUnused : Bool) : Session :=
  { service := { schemas, strict, suppressUnused } }

/-- The session behind requests. -/
def after (s : Session) (requests : List Request) : Session :=
  requests.foldl (fun s request => (s.step request).2) s

/-! ### One request -/

/-- New schemas take the place of all parts of the service, and of nothing else. -/
theorem step_reload_of_ok {s : Session} {d : SchemaDirectory} {schemas : SchemaSet}
    (h : d.load = .ok schemas) :
    s.step (.reload d) = (.ok (.reloaded schemas.source schemas.documentTypes),
      { s with service :=
        { s.service with schemas, adviser := schemas.metadata, guide := schemas.metadata } }) := by
  simp only [step, serve, Service.reload, h]
  rfl

/-- Schemas that cannot be loaded leave everything as it is. -/
theorem step_reload_of_error {s : Session} {d : SchemaDirectory} {e : SchemaSetError}
    (h : d.load = .error e) : s.step (.reload d) = (.error (.schemas e), s) := by
  simp only [step, serve, Service.reload, h]
  rfl

/-- A request for documents that were read leaves the session as it is. -/
theorem step_of_check {s : Session} {request : Request} {r : Except Failure Answer}
    (h : s.serve request = s.check r) : (s.step request).2 = s := by
  rw [step, h]
  cases r <;> rfl

theorem service_keep (s : Session) (name : String) (r : ParseResult) :
    (s.keep name r).service = s.service := by
  unfold keep
  cases r.document <;> rfl

/-- Two sessions have read the same documents. -/
structure KnowsSame (s t : Session) : Prop where
  documents_eq : s.documents = t.documents
  count_eq : s.count = t.count

theorem KnowsSame.refl (s : Session) : s.KnowsSame s := ⟨rfl, rfl⟩

theorem KnowsSame.keep {s t : Session} (h : s.KnowsSame t) (name : String) (r : ParseResult) :
    (s.keep name r).KnowsSame (t.keep name r) := by
  unfold Session.keep
  cases r.document with
  | none => exact h
  | some d => exact ⟨by rw [h.documents_eq, h.count_eq], by rw [h.count_eq]⟩

/-- Reading a document does not depend on the schemas, and leaves them in place. -/
theorem KnowsSame.step_of_reads {s t : Session} (h : s.KnowsSame t) {request : Request}
    (hreads : request.reads = true) :
    (s.step request).2.service = s.service ∧ (s.step request).2.KnowsSame (t.step request).2 := by
  cases request with
  | parse name text filename =>
    simp only [step, serve]
    cases Document.parse {} text filename with
    | error e => exact ⟨rfl, h⟩
    | ok r => exact ⟨service_keep s name r, h.keep name r⟩
  | parseFile name path file =>
    simp only [step, serve]
    cases Document.parseFile {} path file with
    | error e => exact ⟨rfl, h⟩
    | ok r => exact ⟨service_keep s name r, h.keep name r⟩
  | _ => cases hreads

/-- A request that neither reads a document nor puts schemas in place leaves the session as it is. -/
theorem step_of_neither {s : Session} {request : Request} (hreads : request.reads = false)
    (hloaded : request.loaded? = none) : (s.step request).2 = s := by
  cases request with
  | parse => cases hreads
  | parseFile => cases hreads
  | reload d =>
    cases hload : d.load with
    | error e => rw [step_reload_of_error hload]
    | ok schemas => simp [Request.loaded?, hload, Except.toOption] at hloaded
  | documentTypes => rfl
  | _ => exact step_of_check rfl

/-- The parts of the service come from one set of schemas behind each request too, and how results
are graded stays as it is. -/
theorem isOf_step {s : Session} {schemas : SchemaSet} (h : s.service.IsOf schemas)
    (request : Request) :
    (s.step request).2.service.IsOf (request.loaded?.getD schemas) ∧
      (s.step request).2.service.strict = s.service.strict ∧
      (s.step request).2.service.suppressUnused = s.service.suppressUnused := by
  by_cases hreads : request.reads = true
  · have hloaded : request.loaded? = none := by
      cases request with
      | reload d => cases hreads
      | _ => rfl
    rw [((KnowsSame.refl s).step_of_reads hreads).1, hloaded]
    exact ⟨h, rfl, rfl⟩
  · cases hloaded : request.loaded? with
    | none =>
      rw [step_of_neither (by simpa using hreads) hloaded]
      exact ⟨h, rfl, rfl⟩
    | some set =>
      cases request with
      | reload d =>
        rw [step_reload_of_ok (toOption_eq_some_iff.mp hloaded)]
        exact ⟨⟨rfl, rfl, rfl⟩, rfl, rfl⟩
      | _ => cases hloaded

/-- Requests that read no document add nothing to what a session knows. -/
theorem knowsSame_step {s t : Session} (h : s.KnowsSame t) {request : Request}
    (hreads : request.reads = false) : (s.step request).2.KnowsSame t := by
  cases hloaded : request.loaded? with
  | none =>
    rw [step_of_neither hreads hloaded]
    exact h
  | some set =>
    cases request with
    | reload d =>
      rw [step_reload_of_ok (toOption_eq_some_iff.mp hloaded)]
      exact ⟨h.documents_eq, h.count_eq⟩
    | _ => cases hloaded

/-! ### Many requests -/

/-- All parts of the service come from the schemas that were loaded last. -/
theorem isOf_after {s : Session} {schemas : SchemaSet} (h : s.service.IsOf schemas)
    (requests : List Request) :
    (s.after requests).service.IsOf (lastLoaded schemas requests) ∧
      (s.after requests).service.strict = s.service.strict ∧
      (s.after requests).service.suppressUnused = s.service.suppressUnused := by
  induction requests generalizing s schemas with
  | nil => exact ⟨h, rfl, rfl⟩
  | cons request rest ih =>
    obtain ⟨hstep, hstrict, hsuppress⟩ := isOf_step h request
    rw [lastLoaded_cons, ← hstrict, ← hsuppress]
    exact ih hstep

/-- What a session knows depends on the requests that read documents alone. -/
theorem knowsSame_after {s t : Session} (h : s.KnowsSame t) (requests : List Request) :
    (s.after requests).KnowsSame (t.after (requests.filter Request.reads)) := by
  induction requests generalizing s t with
  | nil => exact h
  | cons request rest ih =>
    cases hreads : request.reads with
    | true =>
      rw [List.filter_cons_of_pos hreads]
      exact ih (h.step_of_reads hreads).2
    | false =>
      rw [List.filter_cons_of_neg (by simp [hreads])]
      exact ih (knowsSame_step h hreads)

theorem service_after_start (schemas : SchemaSet) (strict suppressUnused : Bool)
    (requests : List Request) :
    ((start schemas strict suppressUnused).after requests).service =
      { schemas := lastLoaded schemas requests, strict, suppressUnused } := by
  have hnew : (start schemas strict suppressUnused).service.IsOf schemas := ⟨rfl, rfl, rfl⟩
  obtain ⟨hparts, hstrict, hsuppress⟩ := isOf_after hnew requests
  rw [hparts.eq_new, hstrict, hsuppress]
  rfl

/-- Behind any requests, a session is the one that has only read the documents, with the schemas that
were loaded last. -/
theorem after_start (schemas : SchemaSet) (strict suppressUnused : Bool)
    (requests : List Request) :
    (start schemas strict suppressUnused).after requests =
      (start (lastLoaded schemas requests) strict suppressUnused).after
        (requests.filter Request.reads) := by
  have hknows : (start schemas strict suppressUnused).KnowsSame
      (start (lastLoaded schemas requests) strict suppressUnused) := ⟨rfl, rfl⟩
  obtain ⟨hdocuments, hcount⟩ := knowsSame_after hknows requests
  have hservice := service_after_start schemas strict suppressUnused requests
  have hservice' := service_after_start (lastLoaded schemas requests) strict suppressUnused
    (requests.filter Request.reads)
  rw [lastLoaded_filter_reads] at hservice'
  exact Session.mk.injEq .. |>.mpr ⟨hservice.trans hservice'.symm, hdocuments, hcount⟩

/-- The answer to a request is that of the session behind those before it. -/
theorem getElem?_run (s : Session) (before : List Request) (request : Request)
    (rest : List Request) :
    (s.run (before ++ request :: rest))[before.length]? =
      some ((s.after before).step request).1 := by
  induction before generalizing s with
  | nil => rfl
  | cons first before ih => exact ih (s.step first).2

/-- Every request of a session is answered as by a new service, graded alike, on the schemas of the
last directory that could be loaded, and the parts of the service all come from these schemas. A
directory that can be loaded replaces all of them, and one that cannot changes nothing. -/
theorem run_answers_as_new (schemas : SchemaSet) (strict suppressUnused : Bool)
    (before : List Request) (request : Request) (rest : List Request) :
    let s := (start schemas strict suppressUnused).after before
    let last := lastLoaded schemas before
    let known := before.filter Request.reads
    ((start schemas strict suppressUnused).run (before ++ request :: rest))[before.length]? =
        ((start last strict suppressUnused).run (known ++ [request]))[known.length]? ∧
      s.service.IsOf last ∧ s.service = { schemas := last, strict, suppressUnused } ∧
      ∀ d : SchemaDirectory, match d.load with
        | .ok loaded => (s.step (.reload d)).2 = { s with service :=
            { s.service with schemas := loaded, adviser := loaded.metadata, guide := loaded.metadata } }
        | .error e => s.step (.reload d) = (.error (.schemas e), s) := by
  intro s last known
  have hservice : s.service = { schemas := last, strict, suppressUnused } :=
    service_after_start schemas strict suppressUnused before
  refine ⟨?_, ?_, hservice, fun d => ?_⟩
  · rw [getElem?_run, getElem?_run, after_start]
  · rw [hservice]
    exact ⟨rfl, rfl, rfl⟩
  · cases hload : d.load with
    | ok loaded => exact congrArg Prod.snd (step_reload_of_ok hload)
    | error e => exact step_reload_of_error hload

end Session

end BusinessModel
