import BusinessModel.Document
import BusinessModel.Document.Kind
import BusinessModel.Text.Blank
import BusinessModel.Text.Utf8
import BusinessModel.Text.Word
import BusinessModel.Yaml

/-!
Reading documents: from a text or a file to a document with the positions of its parts.

A text is refused if it is too long, holds anchors or aliases, or has too many or too deeply nested
values. Whatever is wrong with it is reported as an issue; only a scalar that has the form of a
number or date without being one interrupts reading altogether.
-/

namespace BusinessModel

/-- The bounds on the length of a text, the number of its values and their depth. -/
structure Limits where
  maxSize : Int := 5000000
  maxNodes : Int := 50000
  maxDepth : Int := 64
deriving DecidableEq, Repr, Inhabited

/-- Why a text is refused. -/
inductive Refusal where
  | size (length : Nat) (limit : Int)
  | anchors
  | nodeCount (limit : Int)
  | depth (limit : Int)
  | nesting
deriving DecidableEq, Repr

/-- The words for why a text is refused. -/
def Refusal.message : Refusal → String
  | size length limit =>
    "YAML document exceeds maximum size (" ++ Text.groupedText length ++ " chars > " ++
      Text.groupedText limit ++ " limit)"
  | anchors => "YAML anchors/aliases are not supported in UBML"
  | nodeCount limit =>
    "YAML document exceeds maximum node count (" ++ Text.groupedText limit ++ ")"
  | depth limit => "YAML document exceeds maximum nesting depth (" ++ Text.intText limit ++ ")"
  | nesting => "YAML document is nested too deeply"

/-- The issue of a refused text. -/
def Refusal.issue (r : Refusal) : Issue := { code := .yamlSafety, message := r.message }

/-! ### Anchors -/

/-- Whether an ampersand with a name behind it stands at the start of the characters or behind a
blank, a hyphen or a colon; `open?` says whether one may stand at the first of the characters. -/
def anchorLike (opens : Bool) : List Char → Bool
  | '&' :: c :: rest => (opens && Text.isWord c) || anchorLike false (c :: rest)
  | c :: rest => anchorLike (Text.isBlank c || c == '-' || c == ':') rest
  | [] => false

/-! ### Positions -/

/-- What building the tree of a document needs to know: the name of the file in positions, the
number of lines, the limits, and the collections that aliases stand for. -/
structure Layout where
  file : String
  lines : Nat
  maxNodes : Int
  maxDepth : Int
  anchored : List (Nat × Yaml.Loaded)

/-- The state of building: the number of values so far and the positions recorded. -/
structure Building where
  count : Nat := 0
  sourceMap : SourceMap := {}

/-- A step of building the tree of a document. -/
abbrev Build := StateT Building (Except Refusal)

namespace Layout

/-- A mark as a position in the file. -/
def span (l : Layout) (m : Yaml.Mark) : Span := ⟨l.file, m.line + 1, m.column + 1⟩

/-- Records a position. One behind the last line gives way to the other mark, if there is one. -/
def record (l : Layout) (path : String) (place fallback : Option Yaml.Mark) : Build Unit := do
  let place? := match place with
    | some m => if m.line + 1 > l.lines then fallback else some m
    | none => none
  match place? with
  | some m => modify fun s => { s with sourceMap := s.sourceMap.add path (l.span m) }
  | none => pure ()

/-- The place of an entry's value. An empty value on another line than its key is placed behind
the key and its colon. -/
def valuePlace (key : Yaml.Key) (places : Yaml.Mark × Yaml.Mark) (v : Yaml.Loaded) : Yaml.Mark :=
  let (keyPlace, place) := places
  match v with
  | .scalar { value := .null, .. } =>
    if place.line != keyPlace.line then
      ⟨keyPlace.line, keyPlace.column + key.label.length + 1⟩
    else place
  | _ => place

/-- The entries of a mapping at `path`; `convert` builds a value at its own path. -/
def buildEntries (l : Layout) (convert : String → Yaml.Loaded → Build Content) (path : String) :
    List (String × Content) → List (Yaml.Key × Option (Yaml.Mark × Yaml.Mark) × Yaml.Loaded) →
    Build (List (String × Content))
  | seen, [] => return seen.reverse
  | seen, (key, places, v) :: rest => do
    let path' := Pointer.join path (.key key.label)
    l.record path' (places.map fun p => valuePlace key p v) (places.map (·.1))
    let c ← convert path' v
    buildEntries l convert path ((key.label, c) :: seen) rest

/-- The items of a sequence at `path`, the first of them with the given index. -/
def buildItems (l : Layout) (convert : String → Yaml.Loaded → Build Content) (path : String) :
    Nat → List Content → List (Option Yaml.Mark × Yaml.Loaded) → Build (List Content)
  | _, seen, [] => return seen.reverse
  | n, seen, (place, v) :: rest => do
    let path' := Pointer.join path (.index n)
    l.record path' place none
    let c ← convert path' v
    buildItems l convert path (n + 1) (c :: seen) rest

/-- The tree of a value at `path`. `room` is one more than the number of levels still allowed. -/
def build (l : Layout) : Nat → String → Yaml.Loaded → Build Content
  | room, path, v => do
    modify fun s => { s with count := s.count + 1 }
    if (← get).count > l.maxNodes then throw (.nodeCount l.maxNodes)
    match room with
    | 0 => throw (.depth l.maxDepth)
    | room + 1 =>
      let v := match v with
        | .aliasOf n => (l.anchored.lookup n).getD (.aliasOf n)
        | v => v
      match v with
      | .scalar d => return .scalar d.value
      | .mapping _ _ entries =>
        return .mapping (← l.buildEntries (build l room) path [] entries)
      | .sequence _ _ items =>
        return .sequence (← l.buildItems (build l room) path 0 [] items)
      | .aliasOf _ => return .scalar .null

/-- The place of the root of a document. -/
def rootPlace (v : Yaml.Loaded) : Yaml.Mark :=
  match v with
  | .mapping _ place _ | .sequence _ place _ => place.getD ⟨0, 0⟩
  | _ => ⟨0, 0⟩

/-- The tree of a document. A document without a value is an empty mapping. -/
def buildRoot (l : Layout) (v : Yaml.Loaded) : Build Content := do
  l.record "" (some (rootPlace v)) (some (rootPlace v))
  match v with
  | .scalar { value := .null, .. } => return .mapping []
  | v => l.build (l.maxDepth + 1).toNat "" v

end Layout

/-! ### Reading texts -/

/-- The version that a document declares of itself; `1.0` if it declares none. -/
def declaredVersion (c : Content) : String :=
  match c.get? "ubml" with
  | some (.scalar .null) => "1.0"
  | some (.scalar s) => s.text
  | _ => "1.0"

/-- The issue that an error of reading leads to; none for errors that interrupt it. -/
def issueOf? : Yaml.Error → Option Issue
  | .marked e => some {
      code := .yamlSyntax, message := "YAML syntax error: " ++ e.summary
      line := some (e.mark.line + 1), column := some (e.mark.column + 1) }
  | .character c index => some {
      code := .yamlSyntax
      message := "YAML parse error: " ++ Yaml.characterReport "<unicode string>" c index }
  | .nesting => some Refusal.nesting.issue
  | _ => none

/-- A result without a document. -/
def ParseResult.failed (i : Issue) : ParseResult := { errors := [i] }

/-- The warning about a document of no recognisable type. -/
def unknownTypeIssue : Issue :=
  { code := .unknownDocumentType
    message := "Could not detect document type. Expected filename pattern: *.\x7btype\x7d.ubml.yaml"
    line := some 1, column := some 1 }

/-- The label of a file in positions. -/
def fileLabel (filename : Option String) : String :=
  match filename with
  | some name => if name.isEmpty then "<string>" else name
  | none => "<string>"

/-- The document of a loaded value. -/
def Document.ofLoaded (limits : Limits) (text : String) (filename : Option String)
    (v : Yaml.Loaded) : ParseResult :=
  let layout : Layout := {
    file := fileLabel filename
    lines := max 1 (Text.lines text).length
    maxNodes := limits.maxNodes
    maxDepth := limits.maxDepth
    anchored := v.anchored }
  match (layout.buildRoot v).run {} with
  | .error r => .failed r.issue
  | .ok (content, s) =>
    let type := (typeOfFileName (filename.filter (!·.isEmpty))).orElse fun _ =>
      typeOfContent contentSignatures content
    { document := some {
        content, version := declaredVersion content, type, filename, sourceMap := s.sourceMap }
      warnings := if type.isNone then [unknownTypeIssue] else [] }

/-- Reads a text as a document. The name of the file decides on the type before the keys do. -/
def Document.parse (limits : Limits) (text : String) (filename : Option String) :
    Except Yaml.Error ParseResult :=
  let cs := text.toList
  let report (e : Yaml.Error) : Except Yaml.Error ParseResult :=
    match issueOf? e with
    | some i => .ok (.failed i)
    | none => .error e
  if (cs.length : Int) > limits.maxSize then
    .ok (.failed (Refusal.size cs.length limits.maxSize).issue)
  else
    match Yaml.events cs with
    | .error e => report e
    | .ok events =>
      if anchorLike true cs && events.hasAnchor then .ok (.failed Refusal.anchors.issue)
      else
        match Yaml.load .lenient events with
        | .error e => report e
        | .ok v => .ok (Document.ofLoaded limits text filename v)

/-! ### Reading files -/

/-- What lies under a file's name. -/
inductive FileState where
  | missing
  | directory
  | bytes (content : List UInt8)

/-- The report of the system on a file that does not exist. -/
def missingFile (path : String) : String :=
  "[Errno 2] No such file or directory: " ++ Text.quote path

/-- The report of the system on a directory that is read like a file. -/
def directoryInPlace (path : String) : String :=
  "[Errno 21] Is a directory: " ++ Text.quote path

/-- The report of the system on a file that is taken for a directory. -/
def fileInPlace (path : String) : String := "[Errno 20] Not a directory: " ++ Text.quote path

/-- The text of a file, with every line end written as a line feed, or why it cannot be had. -/
def FileState.read (path : String) : FileState → Except String String
  | .missing => .error (missingFile path)
  | .directory => .error (directoryInPlace path)
  | .bytes content =>
    match Text.decodeUtf8 content with
    | .ok text => .ok (String.ofList (Text.unifyLines text.toList))
    | .error e => .error e.message

/-- Reads a file as a document. -/
def Document.parseFile (limits : Limits) (path : String) (file : FileState) :
    Except Yaml.Error ParseResult :=
  let path := FilePath.normalize path
  match file.read path with
  | .ok text => Document.parse limits text (some path)
  | .error reason =>
    .ok (.failed { code := .readError, message := "Could not read file: " ++ reason })

end BusinessModel
