import BusinessModel.Service
import BusinessModel.Workspace.Structure

/-!
Sessions: a service that answers one request after the other, and the documents that it has read, by
their names.

A request that fails changes nothing. In particular the schemas stay in place if new ones cannot be
loaded.
-/

namespace BusinessModel

/-- What a service is asked for. Documents are named as they were when they were read. -/
inductive Request where
  | parse (name text : String) (filename : Option String)
  | parseFile (name path : String) (file : FileState)
  | validateDocument (name : String) (strict : Option Bool)
  | validate (names : List String) (strict : Option Bool)
  | parseAndValidate (text : String) (filename : Option String) (strict : Option Bool)
  | structure (names : List String)
  | render (names : List String) (strict : Option Bool)
  | reload (directory : SchemaDirectory)
  | documentTypes

/-- What a service answers. -/
inductive Answer where
  | parsed (r : ParseResult)
  | checked (r : ValidationResult)
  | structure (s : Workspace.Structure)
  | rendered (texts : List String)
  | reloaded (source : String) (types : List String)
  | documentTypes (types : List String)
deriving Inhabited

/-- Why a service does not answer. -/
inductive Failure where
  | unknownName (name : String)
  | service (cause : ServiceError)
  | schemas (cause : SchemaSetError)
deriving Inhabited

/-- A service, the documents that it has read by their names, and how many they were. -/
structure Session where
  service : Service
  documents : List (String × Document) := []
  count : Nat := 0
deriving Inhabited

namespace Session

/-- The document of a name. -/
def document (s : Session) (name : String) : Except Failure Document :=
  match s.documents.lookup name with
  | some d => .ok d
  | none => .error (.unknownName name)

/-- The session with one more document, if one was read. It takes the place of an earlier one of its
name. -/
def keep (s : Session) (name : String) (r : ParseResult) : Session :=
  match r.document with
  | some d =>
    { s with
      documents := (name, { d with serial := s.count }) :: s.documents
      count := s.count + 1 }
  | none => s

/-- The answer to a request for documents that were read. -/
def check (s : Session) (r : Except Failure Answer) : Except Failure (Answer × Session) :=
  return (← r, s)

/-- The answer to a request, and the session behind it. -/
def serve (s : Session) (request : Request) : Except Failure (Answer × Session) :=
  match request with
  | .parse name text filename => do
    let r ← (Document.parse {} text filename).mapError fun e => .service (.text e)
    return (.parsed r, s.keep name r)
  | .parseFile name path file => do
    let r ← (Document.parseFile {} path file).mapError fun e => .service (.text e)
    return (.parsed r, s.keep name r)
  | .validateDocument name strict => s.check do
    let d ← s.document name
    Answer.checked <$> (s.service.validateDocument d strict).mapError .service
  | .validate names strict => s.check do
    let ds ← names.mapM s.document
    Answer.checked <$> (s.service.validate ds strict).mapError .service
  | .parseAndValidate text filename strict => s.check do
    Answer.checked <$> (s.service.parseAndValidate text filename strict).mapError .service
  | .structure names => s.check do
    let ds ← names.mapM s.document
    return .structure (Workspace.structureOf ds)
  | .render names strict => s.check do
    let ds ← names.mapM s.document
    let r ← (s.service.validate ds strict).mapError .service
    return .rendered ((r.errors ++ r.warnings).map Diagnostic.render)
  | .reload directory => do
    let service ← (s.service.reload directory).mapError .schemas
    let schemas := service.schemas
    return (.reloaded schemas.source schemas.documentTypes, { s with service })
  | .documentTypes => .ok (.documentTypes s.service.schemas.documentTypes, s)

/-- The answer to a request, if there is one, and the session behind it. -/
def step (s : Session) (request : Request) : Except Failure Answer × Session :=
  match s.serve request with
  | .ok (answer, s') => (.ok answer, s')
  | .error e => (.error e, s)

/-- The answers to requests, one after the other. -/
def run (s : Session) : List Request → List (Except Failure Answer)
  | [] => []
  | request :: rest =>
    let (answer, s) := s.step request
    answer :: run s rest

end Session

end BusinessModel
