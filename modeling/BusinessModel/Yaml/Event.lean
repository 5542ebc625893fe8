import BusinessModel.Yaml.Token.Stream

/-!
The structure of a document as a sequence of events: the starts and ends of documents and
collections, scalars, and aliases.

A document is read by one rule after another. The rules that follow are kept on a stack, so each
step yields one event.
-/

namespace BusinessModel.Yaml

/-- An event. A scalar says whether its form decides on its type; an empty scalar stands wherever a
value is left out. -/
inductive Event where
  | streamStart
  | streamEnd
  | documentStart (place : Mark)
  | documentEnd
  | aliasOf (name : String) (place : Mark)
  | scalar (anchor tag : Option String) (implicit : Bool) (text : String) (place : Mark)
  | sequenceStart (anchor tag : Option String) (place : Mark)
  | sequenceEnd
  | mappingStart (anchor tag : Option String) (place : Mark)
  | mappingEnd
deriving DecidableEq, Repr, Inhabited

/-- Whether an event names an anchor, as an alias or in front of a node. -/
def Event.hasAnchor : Event → Bool
  | .aliasOf .. => true
  | .scalar anchor .. | .sequenceStart anchor .. | .mappingStart anchor .. =>
    anchor.any (!·.isEmpty)
  | _ => false

/-- What is read next. -/
inductive Rule where
  | streamStart
  | implicitDocument
  | document
  | documentContent
  | documentEnd
  | blockNode
  | blockSequence
  | indentlessSequence
  | blockMappingKey
  | blockMappingValue
  | flowSequence (first : Bool)
  | flowPairKey
  | flowPairValue
  | flowPairEnd
  | flowMapping (first : Bool)
  | flowMappingValue
  | flowMappingEmptyValue
  | finished
deriving DecidableEq, Repr, Inhabited

/-- The tokens that are left, the rule to read next, the rules behind it, the starts of the open
collections, the tag handles of the document, and the version it declares. -/
structure EventReader where
  stream : TokenStream
  rule : Rule := .streamStart
  rules : List Rule := []
  starts : List Mark := []
  handles : List (String × String) := []
  version : Option (Nat × Nat) := none
deriving Inhabited

/-- A step of reading events. -/
abbrev Reading := StateT EventReader (Except Error)

namespace Reading

/-- The handles that every document knows. -/
def defaultHandles : List (String × String) := [("!", "!"), ("!!", "tag:yaml.org,2002:")]

/-- The next token. -/
def peek : Reading Token := do
  let s ← get
  match s.stream.tokens, s.stream.failure with
  | t :: _, _ => return t
  | [], some e => throw e
  | [], none => return Token.atMark .streamEnd ⟨0, 0⟩

/-- Whether the next token is one of those given. -/
def sees (kinds : List TokenKind) : Reading Bool := do
  return kinds.contains (← peek).kind

/-- Takes the next token. -/
def next : Reading Token := do
  let t ← peek
  modify fun s => { s with stream := { s.stream with tokens := s.stream.tokens.tail } }
  return t

/-- Replaces the next token. -/
def replace (t : Token) : Reading Unit :=
  modify fun s => { s with stream := { s.stream with tokens := t :: s.stream.tokens.tail } }

/-- Reads the rule next. -/
def goto (rule : Rule) : Reading Unit := modify fun s => { s with rule }

/-- Reads the rule once the current node is complete. -/
def defer (rule : Rule) : Reading Unit := modify fun s => { s with rules := rule :: s.rules }

/-- Goes on with the rule behind the current node. -/
def resume : Reading Unit :=
  modify fun s => { s with rule := s.rules.headD .finished, rules := s.rules.tail }

/-- Opens a collection that starts with the next token. -/
def openCollection : Reading Unit := do
  let t ← next
  modify fun s => { s with starts := t.startMark :: s.starts }

/-- Closes the innermost collection. -/
def closeCollection : Reading Unit := modify fun s => { s with starts := s.starts.tail }

/-- The start of the innermost collection. -/
def collectionStart : Reading Mark := return (← get).starts.headD ⟨0, 0⟩

/-- Whether the document is of a version above 1.1. -/
def newVersion : Reading Bool := do
  return match (← get).version with
    | none => true
    | some (major, minor) => major > 1 || (major == 1 && minor > 1)

/-- Hands the comments of a token on to the next one, unless a document or the stream ends there.
Returns the token with the comments it keeps. -/
def moveComment (t : Token) : Reading Token := do
  let target ← peek
  if !t.commentBefore && !t.commentAfter then return t
  if target.kind == .streamEnd || target.kind == .documentStart then return t
  if (t.commentBefore && target.commentBefore) || (t.commentAfter && target.commentAfter) then
    throw .commentOverlap
  replace { target with commentBefore := t.commentBefore || target.commentBefore
                        commentAfter := t.commentAfter || target.commentAfter }
  return { t with commentBefore := false, commentAfter := false }

/-- An empty scalar. -/
def emptyScalar (place : Mark) : Event := .scalar none none true "" place

/-- Reads the directives of a document. -/
def directives : Nat → Option (Nat × Nat) → List (String × String) → Reading Unit
  | 0, _, _ => return
  | fuel + 1, version, handles => do
    let t ← peek
    match t.kind with
    | .versionDirective major minor =>
      let t ← next
      if version.isSome then throw (.at none .repeatedVersion t.startMark)
      if major != 1 then throw (.at none .incompatibleVersion t.startMark)
      directives fuel (some (major, minor)) handles
    | .tagDirective handle expansion =>
      let t ← next
      if (handles.lookup handle).isSome then
        throw (.at none (.repeatedHandle handle) t.startMark)
      directives fuel version ((handle, expansion) :: handles)
    | .otherDirective =>
      let _ ← next
      directives fuel version handles
    | _ =>
      modify fun s => { s with
        handles := handles ++ defaultHandles
        version := if version.isSome then version else s.version }

/-- The full text of a tag. -/
def expandTag (start : Mark) (t : Token) (handle : Option String) (suffix : String) :
    Reading String := do
  match handle with
  | none => return suffix
  | some handle =>
    match (← get).handles.lookup handle with
    | some expansion => return expansion ++ suffix
    | none => throw (.at (some (.node, start)) (.undefinedHandle handle) t.startMark)

/-- Takes an anchor, if one comes next. -/
def anchor? : Reading (Option (String × Token)) := do
  match (← peek).kind with
  | .anchor name => return some (name, ← next)
  | _ => return none

/-- Takes a tag, if one comes next. -/
def tag? : Reading (Option (Option String × String × Token)) := do
  match (← peek).kind with
  | .tag handle suffix => return some (handle, suffix, ← next)
  | _ => return none

/-- The anchor and the tag in front of a node, in either order, and where the node starts. -/
def properties : Reading (Option String × Option String × Option Mark) := do
  match ← anchor? with
  | some (name, t) =>
    let _ ← moveComment t
    match ← tag? with
    | some (handle, suffix, tagToken) =>
      return (some name, some (← expandTag t.startMark tagToken handle suffix), some t.startMark)
    | none => return (some name, none, some t.startMark)
  | none =>
    match ← tag? with
    | some (handle, suffix, t) =>
      -- A comment that finds its place taken stays where it is.
      let _ ← try moveComment t catch | .commentOverlap => pure t | e => throw e
      match ← anchor? with
      | some (name, a) =>
        return (some name, some (← expandTag a.startMark a handle suffix), some a.startMark)
      | none => return (none, some (← expandTag t.startMark t handle suffix), some t.startMark)
    | none => return (none, none, none)

/-- A node. In a block context it may be a block collection; where `indentless` holds, a sequence
whose hyphens are not indented. -/
def node (block indentless : Bool) : Reading Event := do
  match (← peek).kind with
  | .aliasOf name =>
    let t ← next
    resume
    return .aliasOf name t.startMark
  | _ =>
  let (anchor, tag, start?) ← properties
  let t ← peek
  let start := start?.getD t.startMark
  let untagged := tag.isNone || tag == some "!"
  if indentless && t.kind == .blockEntry then
    replace { t with commentAfter := false }
    goto .indentlessSequence
    return .sequenceStart anchor tag start
  match t.kind with
  | .scalar text style =>
    let _ ← next
    resume
    let implicit := (style == .plain && tag.isNone) || tag == some "!"
    return .scalar anchor tag implicit text start
  | .flowSequenceStart =>
    goto (.flowSequence true)
    return .sequenceStart anchor tag start
  | .flowMappingStart =>
    goto (.flowMapping true)
    return .mappingStart anchor tag start
  | kind =>
    if block && kind == .blockSequenceStart then
      openCollection
      goto .blockSequence
      return .sequenceStart anchor tag start
    else if block && kind == .blockMappingStart then
      openCollection
      goto .blockMappingKey
      return .mappingStart anchor tag start
    else if anchor.isSome || tag.isSome then
      resume
      return .scalar anchor tag untagged "" start
    else
      let context := if block then Context.blockNode else .flowNode
      throw (.at (some (context, start)) (.nodeContent kind.name) t.startMark)

/-- The start of a document, or the end of the stream. -/
def document : Nat → Reading Event
  | 0 => return .streamEnd
  | fuel + 1 => do
    if ← sees [.documentEnd] then
      let _ ← next
      document fuel
    else if ← sees [.streamEnd] then
      goto .finished
      return .streamEnd
    else
      directives (← get).stream.tokens.length.succ none []
      let t ← peek
      if t.kind != .documentStart then
        throw (.at none (.documentStart t.kind.name) t.startMark)
      let _ ← next
      defer .documentEnd
      goto .documentContent
      return .documentStart t.startMark

/-- An item of a block sequence behind its hyphen, or nothing before one of the given tokens. -/
def item (again : Rule) (stops : List TokenKind) : Reading Event := do
  let t ← next
  let t ← moveComment t
  if ← sees stops then
    goto again
    return emptyScalar t.endMark
  defer again
  node true false

/-- The value of a block mapping's entry behind its colon. An empty value is placed behind the colon
if a comment follows there, and behind the next token otherwise. -/
def mappingValue : Reading Event := do
  let t ← next
  let t ← if ← sees [.key] then pure t else moveComment t
  if ← sees [.key, .value, .blockEnd] then
    goto .blockMappingKey
    if t.commentBefore || t.commentAfter then return emptyScalar t.endMark
    let following ← peek
    replace { following with commentAfter := false }
    return emptyScalar following.endMark
  defer .blockMappingKey
  node true true

/-- One rule: the event that it yields, with the next rule chosen. -/
def step (rule : Rule) : Reading Event := do
  match rule with
  | .streamStart =>
    let t ← next
    let _ ← moveComment t
    goto .implicitDocument
    return .streamStart
  | .implicitDocument =>
    let t ← peek
    if t.isDirective || t.kind == .documentStart || t.kind == .streamEnd then
      document (← get).stream.tokens.length.succ
    else
      modify fun s => { s with handles := defaultHandles }
      defer .documentEnd
      goto .blockNode
      return .documentStart t.startMark
  | .document => document (← get).stream.tokens.length.succ
  | .documentContent =>
    let t ← peek
    if t.isDirective || [.documentStart, .documentEnd, .streamEnd].contains t.kind then
      resume
      return emptyScalar t.startMark
    node true false
  | .documentEnd =>
    let explicit ← sees [.documentEnd]
    if explicit then
      let t ← next
      let following ← peek
      if following.kind != .streamEnd && t.endMark.line == following.startMark.line then
        throw (.at none (.contentAfterEnd following.kind.name) following.startMark)
    goto (if explicit && (← get).version != some (1, 1) then .implicitDocument else .document)
    return .documentEnd
  | .blockNode => node true false
  | .blockSequence =>
    if ← sees [.blockEntry] then item .blockSequence [.blockEntry, .blockEnd]
    else
      let t ← peek
      if t.kind != .blockEnd then
        throw (.at (some (.blockCollection, ← collectionStart)) (.blockEnd t.kind.name) t.startMark)
      let _ ← next
      resume
      closeCollection
      return .sequenceEnd
  | .indentlessSequence =>
    if ← sees [.blockEntry] then
      item .indentlessSequence [.blockEntry, .key, .value, .blockEnd]
    else
      let _ ← peek
      resume
      return .sequenceEnd
  | .blockMappingKey =>
    let t ← peek
    if t.kind == .key then
      let t ← next
      let t ← moveComment t
      if ← sees [.key, .value, .blockEnd] then
        goto .blockMappingValue
        return emptyScalar t.endMark
      defer .blockMappingValue
      node true true
    else if t.kind == .value && (← newVersion) then
      goto .blockMappingValue
      return emptyScalar t.startMark
    else
      if t.kind != .blockEnd then
        throw (.at (some (.blockMapping, ← collectionStart)) (.blockEnd t.kind.name) t.startMark)
      let t ← next
      let _ ← moveComment t
      resume
      closeCollection
      return .mappingEnd
  | .blockMappingValue =>
    let t ← peek
    if t.kind == .value then mappingValue
    else
      goto .blockMappingKey
      return emptyScalar t.startMark
  | .flowSequence first =>
    if first then openCollection
    let t ← peek
    if t.kind != .flowSequenceEnd && !first then
      if t.kind != .flowEntry then
        throw (.at (some (.flowSequence, ← collectionStart)) (.flowSequenceEnd t.kind.name)
          t.startMark)
      let _ ← next
    let t ← peek
    if t.kind == .key then
      goto .flowPairKey
      return .mappingStart none none t.startMark
    else if t.kind != .flowSequenceEnd then
      defer (.flowSequence false)
      node false false
    else
      let _ ← next
      resume
      closeCollection
      return .sequenceEnd
  | .flowPairKey =>
    let t ← next
    if ← sees [.value, .flowEntry, .flowSequenceEnd] then
      goto .flowPairValue
      return emptyScalar t.endMark
    defer .flowPairValue
    node false false
  | .flowPairValue =>
    let t ← peek
    if t.kind == .value then
      let _ ← next
      if ← sees [.flowEntry, .flowSequenceEnd] then
        goto .flowPairEnd
        return emptyScalar t.endMark
      defer .flowPairEnd
      node false false
    else
      goto .flowPairEnd
      return emptyScalar t.startMark
  | .flowPairEnd =>
    let _ ← peek
    goto (.flowSequence false)
    return .mappingEnd
  | .flowMapping first =>
    if first then openCollection
    let t ← peek
    if t.kind != .flowMappingEnd && !first then
      if t.kind != .flowEntry then
        throw (.at (some (.flowMapping, ← collectionStart)) (.flowMappingEnd t.kind.name)
          t.startMark)
      let _ ← next
    let t ← peek
    if t.kind == .key then
      let t ← next
      if ← sees [.value, .flowEntry, .flowMappingEnd] then
        goto .flowMappingValue
        return emptyScalar t.endMark
      defer .flowMappingValue
      node false false
    else if t.kind == .value && (← newVersion) then
      goto .flowMappingValue
      return emptyScalar t.endMark
    else if t.kind != .flowMappingEnd then
      defer .flowMappingEmptyValue
      node false false
    else
      let _ ← next
      resume
      closeCollection
      return .mappingEnd
  | .flowMappingValue =>
    let t ← peek
    if t.kind == .value then
      let _ ← next
      if ← sees [.flowEntry, .flowMappingEnd] then
        goto (.flowMapping false)
        return emptyScalar t.endMark
      defer (.flowMapping false)
      node false false
    else
      goto (.flowMapping false)
      return emptyScalar t.startMark
  | .flowMappingEmptyValue =>
    goto (.flowMapping false)
    return emptyScalar (← peek).startMark
  | .finished => return .streamEnd

end Reading

/-- The events of a text: those that can be had, and what kept reading from its end. -/
structure EventStream where
  events : List Event
  failure : Option Error := none
  version : Option (Nat × Nat) := none
deriving Inhabited

namespace EventStream

/-- The events from a state on, `seen` being those before them, last first. -/
def collect : Nat → List Event → EventReader → EventStream
  | 0, seen, s => { events := seen.reverse, version := s.version }
  | fuel + 1, seen, s =>
    match (Reading.step s.rule).run s with
    | .error e => { events := seen.reverse, failure := some e, version := s.version }
    | .ok (e, s) =>
      if e == .streamEnd then { events := (e :: seen).reverse, version := s.version }
      else collect fuel (e :: seen) s

/-- The events of a sequence of tokens. A token yields two events at most, apart from those around
the documents. -/
def ofTokens (stream : TokenStream) : EventStream :=
  collect (4 * stream.tokens.length + 16) [] { stream }

/-- The events of a text. -/
def ofChars (cs : List Char) : EventStream := ofTokens (TokenStream.ofChars cs)

/-- Whether an anchor or an alias occurs among the events. -/
def hasAnchor (s : EventStream) : Bool := s.events.any Event.hasAnchor

end EventStream

end BusinessModel.Yaml
