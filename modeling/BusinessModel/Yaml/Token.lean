import BusinessModel.Yaml.Error

/-!
The tokens of a document: indicators, scalars, and the starts and ends of blocks that indentation
implies.
-/

namespace BusinessModel.Yaml

/-- How a scalar is written. -/
inductive Style where
  | plain
  | singleQuoted
  | doubleQuoted
  | literal
  | folded
deriving DecidableEq, Repr, Inhabited

/-- The kinds of token. A tag without a handle is given in full. -/
inductive TokenKind where
  | streamStart
  | streamEnd
  | versionDirective (major minor : Nat)
  | tagDirective (handle expansion : String)
  | otherDirective
  | documentStart
  | documentEnd
  | blockSequenceStart
  | blockMappingStart
  | blockEnd
  | flowSequenceStart
  | flowMappingStart
  | flowSequenceEnd
  | flowMappingEnd
  | key
  | value
  | blockEntry
  | flowEntry
  | aliasOf (name : String)
  | anchor (name : String)
  | tag (handle : Option String) (suffix : String)
  | scalar (text : String) (style : Style)
  | comment
deriving DecidableEq, Repr, Inhabited

/-- The name of a token in reports. -/
def TokenKind.name : TokenKind → String
  | streamStart => "<stream start>"
  | streamEnd => "<stream end>"
  | versionDirective .. | tagDirective .. | otherDirective => "<directive>"
  | documentStart => "<document start>"
  | documentEnd => "<document end>"
  | blockSequenceStart => "<block sequence start>"
  | blockMappingStart => "<block mapping start>"
  | blockEnd => "<block end>"
  | flowSequenceStart => "["
  | flowMappingStart => "\x7b"
  | flowSequenceEnd => "]"
  | flowMappingEnd => "\x7d"
  | key => "?"
  | value => ":"
  | blockEntry => "-"
  | flowEntry => ","
  | aliasOf _ => "<alias>"
  | anchor _ => "<anchor>"
  | tag .. => "<tag>"
  | scalar .. => "<scalar>"
  | comment => "<comment>"

/-- A token, where it starts and ends, and whether comments belong to it: some that stand before
it, or one that follows it. -/
structure Token where
  kind : TokenKind
  startMark : Mark
  endMark : Mark
  commentBefore : Bool := false
  commentAfter : Bool := false
deriving DecidableEq, Repr, Inhabited

/-- A token without extent. -/
def Token.atMark (kind : TokenKind) (m : Mark) : Token := { kind, startMark := m, endMark := m }

namespace Token

/-- A directive. -/
def isDirective (t : Token) : Bool :=
  match t.kind with
  | .versionDirective .. | .tagDirective .. | .otherDirective => true
  | _ => false

/-- A scalar. -/
def isScalar (t : Token) : Bool :=
  match t.kind with
  | .scalar .. => true
  | _ => false

/-- A comment that no token has taken yet. -/
def isComment (t : Token) : Bool := t.kind == .comment

/-- A token that a comment on its line belongs to. -/
def takesComment (t : Token) : Bool :=
  match t.kind with
  | .scalar .. | .value | .flowSequenceEnd | .flowMappingEnd => true
  | _ => false

end Token

end BusinessModel.Yaml
