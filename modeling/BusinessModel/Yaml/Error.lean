import BusinessModel.Text.Quoted
import BusinessModel.Yaml.Cursor

/-!
Why a text is no document: what was being read, what is wrong with it, and where.
-/

namespace BusinessModel.Yaml

/-- What was being read when a problem came up. -/
inductive Context where
  | nextToken
  | simpleKey
  | directive
  | anchor
  | aliasName
  | tag
  | verbatimTag
  | tagPart (inDirective : Bool)
  | tagText (inDirective : Bool)
  | blockScalar
  | doubleQuoted
  | quoted
  | plain
  | node
  | blockNode
  | flowNode
  | blockCollection
  | blockMapping
  | flowSequence
  | flowMapping
  | singleDocument
  | mapping
  | orderedMap
  | pairs
deriving DecidableEq, Repr

/-- The words for what was being read. -/
def Context.text : Context → String
  | nextToken => "while scanning for the next token"
  | simpleKey => "while scanning a simple key"
  | directive => "while scanning a directive"
  | anchor => "while scanning an anchor"
  | aliasName => "while scanning an alias"
  | tag => "while scanning a tag"
  | verbatimTag => "while parsing a tag"
  | tagPart inDirective => "while scanning an " ++ if inDirective then "directive" else "tag"
  | tagText inDirective => "while parsing an " ++ if inDirective then "directive" else "tag"
  | blockScalar => "while scanning a block scalar"
  | doubleQuoted => "while scanning a double-quoted scalar"
  | quoted => "while scanning a quoted scalar"
  | plain => "while scanning a plain scalar"
  | node => "while parsing a node"
  | blockNode => "while parsing a block node"
  | flowNode => "while parsing a flow node"
  | blockCollection => "while parsing a block collection"
  | blockMapping => "while parsing a block mapping"
  | flowSequence => "while parsing a flow sequence"
  | flowMapping => "while parsing a flow mapping"
  | singleDocument => "expected a single document in the stream"
  | mapping => "while constructing a mapping"
  | orderedMap => "while constructing an ordered map"
  | pairs => "while constructing pairs"

/-- What should stand where another character was found. -/
inductive Expectation where
  | word
  | digit
  | digitOrPoint
  | digitOrSpace
  | space
  | commentOrBreak
  | exclamation
  | uri
  | uriEscape
  | escape (digits : Nat)
  | blockIndicators
deriving DecidableEq, Repr

/-- The words for what should stand there. -/
def Expectation.text : Expectation → String
  | word => "alphabetic or numeric character"
  | digit => "a digit"
  | digitOrPoint => "a digit or '.'"
  | digitOrSpace => "a digit or ' '"
  | space => "' '"
  | commentOrBreak => "a comment or a line break"
  | exclamation => "'!'"
  | uri => "URI"
  | uriEscape => "URI escape sequence of 2 hexdecimal numbers"
  | escape digits => "escape sequence of " ++ Text.natText digits ++ " hexdecimal numbers"
  | blockIndicators => "chomping or indentation indicators"

/-- What is wrong. Tokens and kinds of node are given by their names. -/
inductive Problem where
  | cannotStart (found : Char)
  | expected (what : Expectation) (found : Char)
  | missingColon
  | tagNotClosed (found : Char)
  | uriEncoding (reason : String)
  | zeroIndentation
  | sequenceNotAllowed
  | keyNotAllowed
  | valueNotAllowed
  | unknownEscape (found : Char)
  | unexpectedEnd
  | unexpectedSeparator
  | unexpectedColon
  | documentStart (token : String)
  | contentAfterEnd (token : String)
  | repeatedVersion
  | incompatibleVersion
  | repeatedHandle (handle : String)
  | undefinedHandle (handle : String)
  | blockEnd (token : String)
  | flowSequenceEnd (token : String)
  | flowMappingEnd (token : String)
  | nodeContent (token : String)
  | undefinedAlias (name : String)
  | anotherDocument
  | repeatedKey (key value earlier : String)
  | repeatedMergeKey
  | unacceptableKey (reason : String)
  | mergeValue (kind : String)
  | mergeItem (kind : String)
  | sequenceNode (kind : String)
  | mappingNode (kind : String)
  | scalarNode (kind : String)
  | sequenceOf (kind : String)
  | singleEntry (kind : String)
  | singleEntryCount (count : Nat)
  | timestamp (text : String)
  | base64 (reason : String)
  | undefinedTag (name : String)
deriving DecidableEq, Repr

/-- The words for what is wrong. -/
def Problem.text : Problem → String
  | cannotStart c => "found character " ++ Text.quoteChar c ++ " that cannot start any token"
  | expected what c => "expected " ++ what.text ++ ", but found " ++ Text.quoteChar c
  | missingColon => "could not find expected ':'"
  | tagNotClosed c => "expected '>' but found " ++ Text.quoteChar c
  | uriEncoding reason => reason
  | zeroIndentation => "expected indentation indicator in the range 1-9, but found 0"
  | sequenceNotAllowed => "sequence entries are not allowed here"
  | keyNotAllowed => "mapping keys are not allowed here"
  | valueNotAllowed => "mapping values are not allowed here"
  | unknownEscape c => "found unknown escape character " ++ Text.quoteChar c
  | unexpectedEnd => "found unexpected end of stream"
  | unexpectedSeparator => "found unexpected document separator"
  | unexpectedColon => "found unexpected ':'"
  | documentStart token => "expected '<document start>', but found (" ++ Text.quote token ++ ",)"
  | contentAfterEnd token =>
    "found non-comment content after document end marker, (" ++ Text.quote token ++ ",)"
  | repeatedVersion => "found duplicate YAML directive"
  | incompatibleVersion => "found incompatible YAML document (version 1.* is required)"
  | repeatedHandle handle => "duplicate tag handle " ++ Text.quote handle
  | undefinedHandle handle => "found undefined tag handle " ++ Text.quote handle
  | blockEnd token => "expected <block end>, but found " ++ Text.quote token
  | flowSequenceEnd token => "expected ',' or ']', but got " ++ Text.quote token
  | flowMappingEnd token => "expected ',' or '\x7d', but got " ++ Text.quote token
  | nodeContent token => "expected the node content, but found " ++ Text.quote token
  | undefinedAlias name => "found undefined alias " ++ Text.quote name
  | anotherDocument => "but found another document"
  | repeatedKey key value earlier =>
    "found duplicate key \"" ++ key ++ "\" with value \"" ++ value ++ "\" (original value: \"" ++
      earlier ++ "\")"
  | repeatedMergeKey => "found duplicate merge key \"<<\""
  | unacceptableKey reason => "found unacceptable key (" ++ reason ++ ")"
  | mergeValue kind => "expected a mapping or list of mappings for merging, but found " ++ kind
  | mergeItem kind => "expected a mapping for merging, but found " ++ kind
  | sequenceNode kind => "expected a sequence node, but found " ++ kind
  | mappingNode kind => "expected a mapping node, but found " ++ kind
  | scalarNode kind => "expected a scalar node, but found " ++ kind
  | sequenceOf kind => "expected a sequence, but found " ++ kind
  | singleEntry kind => "expected a mapping of length 1, but found " ++ kind
  | singleEntryCount count =>
    "expected a single mapping item, but found " ++ Text.natText count ++ " items"
  | timestamp text => "failed to construct timestamp from \"" ++ text ++ "\""
  | base64 reason => "failed to decode base64 data: " ++ reason
  | undefinedTag name => "could not determine a constructor for the tag " ++ Text.quote name

/-- A problem at a position, with what was being read and where that began. -/
structure SyntaxError where
  context : Option Context
  contextMark : Option Mark
  problem : Problem
  mark : Mark
deriving DecidableEq, Repr

/-- The context and the problem in one line. -/
def SyntaxError.summary (e : SyntaxError) : String :=
  match e.context with
  | some context => context.text ++ "; " ++ e.problem.text
  | none => e.problem.text

/-- A position inside the named file, counted from one. -/
def Mark.describe (file : String) (m : Mark) : String :=
  "  in \"" ++ file ++ "\", line " ++ Text.natText (m.line + 1) ++ ", column " ++
    Text.natText (m.column + 1)

/-- Where the reader of a report learns more about repeated keys. -/
def Problem.note : Problem → Option String
  | repeatedKey .. | repeatedMergeKey => some
      "\nTo suppress this check see:\n    https://yaml.dev/doc/ruamel.yaml/api/#Duplicate_keys\n"
  | _ => none

/-- The full report on a problem in the named file, one line for each of its parts. The position of
the context is left out where it is that of the problem. -/
def SyntaxError.report (file : String) (e : SyntaxError) : String :=
  let contextPlace := match e.contextMark with
    | some m => if m = e.mark then [] else [m.describe file]
    | none => []
  "\n".intercalate <|
    (e.context.map Context.text).toList ++ contextPlace ++
      [e.problem.text, e.mark.describe file] ++ e.problem.note.toList

/-- Why a text could not be read. -/
inductive Error where
  /-- A character that no document holds, and its index. -/
  | character (found : Char) (index : Nat)
  /-- A problem with a position. -/
  | marked (e : SyntaxError)
  /-- Collections nested beyond every bound. -/
  | nesting
  /-- A scalar whose form is right and whose value does not exist; the text says why. -/
  | scalarValue (reason : String)
  /-- An escape sequence for a number beyond all characters. -/
  | escapeOverflow
  /-- A scalar of a named kind without the text that the kind needs. -/
  | scalarText
  /-- A truth value that is none of the known words. -/
  | truthValue
  /-- A plain scalar in a document of an unknown edition. -/
  | unknownEdition
  /-- Comments of two tokens that would both move to a third. -/
  | commentOverlap
  /-- Comments before a token that already has some. -/
  | commentClash
  /-- A key given twice to an ordered map. -/
  | repeatedOrderedKey
deriving DecidableEq, Repr

/-- A marked error. -/
def Error.at (context : Option (Context × Mark)) (problem : Problem) (mark : Mark) : Error :=
  .marked ⟨context.map (·.1), context.map (·.2), problem, mark⟩

/-- The report on a character that no document holds. -/
def characterReport (name : String) (found : Char) (index : Nat) : String :=
  "unacceptable character #x" ++ String.ofList (Text.hexDigits 4 found.toNat) ++
    ": special characters are not allowed\n  in \"" ++ name ++ "\", position " ++
    Text.natText index

end BusinessModel.Yaml
