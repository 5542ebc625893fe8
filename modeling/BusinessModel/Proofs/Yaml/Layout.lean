import BusinessModel.Proofs.Yaml.Token.Plain

/-!
The layout of a document: which characters stand for which tokens. A collection has one item or entry
to a line, all at the same column; the first may stand on the line of the indicator before it. Both
writing and reading a document are understood by its layout, and need not know of each other.
-/

namespace BusinessModel.Yaml

/-- The writings of a scalar whose lines have at least so many spaces in front of them. -/
inductive ScalarForm (least : Nat) : List Char → Style → List Char → Prop where
  | plain {t w : List Char} (hform : PlainForm least t w) (hstarts : Quoting.startsOther t = false) :
      ScalarForm least t .plain w
  | quoted {double : Bool} {t w : List Char} (hform : QuotedForm double t w) :
      ScalarForm least t (if double then .doubleQuoted else .singleQuoted)
        (closingMark double :: (w ++ [closingMark double]))

theorem ScalarForm.mono {least least' : Nat} {style : Style} {t w : List Char}
    (h : ScalarForm least t style w) (hle : least' ≤ least) : ScalarForm least' t style w := by
  cases h with
  | plain hform hstarts => exact .plain (hform.mono hle) hstarts
  | quoted hform => exact .quoted hform

/-- The blanks before the first line of a collection at a column: spaces, if a collection may start on
this line behind a column, or else the end of the line and spaces. -/
inductive Lead (m : Nat) : Option Nat → List Char → Prop where
  | here {column : Nat} (hm : column < m) : Lead m (some column) (List.replicate (m - column) ' ')
  | below {here : Option Nat} : Lead m here ('\n' :: List.replicate m ' ')

/-- The blanks before a scalar: spaces, or the end of the line among them. -/
inductive Gap (least : Nat) : List Char → Prop where
  | here (n : Nat) : Gap least (List.replicate (n + 1) ' ')
  | below {n k : Nat} (hk : least ≤ k) :
      Gap least (List.replicate n ' ' ++ '\n' :: List.replicate k ' ')

/-- The token before the lines of a sequence or a mapping. -/
def blockStart (sequence : Bool) : TokenKind :=
  if sequence then .blockSequenceStart else .blockMappingStart

/-- The first token of an empty sequence or mapping. -/
def flowStart (sequence : Bool) : TokenKind :=
  if sequence then .flowSequenceStart else .flowMappingStart

/-- The last token of an empty sequence or mapping. -/
def flowEnd (sequence : Bool) : TokenKind :=
  if sequence then .flowSequenceEnd else .flowMappingEnd

/-- An empty sequence or mapping. -/
def flowMarks (sequence : Bool) : List Char :=
  if sequence then ['[', ']'] else ['\x7b', '\x7d']

mutual

/-- The tokens of a node behind an indicator, and their writings. The node belongs to a collection at a
column; the column behind the indicator is given if a collection may start there. -/
inductive NodeForm : Nat → Option Nat → List TokenKind → List Char → Prop where
  | empty {b n : Nat} {here : Option Nat} : NodeForm b here [] (List.replicate n ' ')
  | scalar {b : Nat} {here : Option Nat} {t g w : List Char} {style : Style} (hgap : Gap (b + 1) g)
      (h : ScalarForm (b + 1) t style w) :
      NodeForm b here [.scalar (String.ofList t) style] (g ++ w)
  | flow {b n : Nat} {here : Option Nat} {sequence : Bool} :
      NodeForm b here [flowStart sequence, flowEnd sequence]
        (List.replicate (n + 1) ' ' ++ flowMarks sequence)
  | block {b m : Nat} {here : Option Nat} {sequence : Bool} {g w : List Char} {ts : List TokenKind}
      (hm : b < m) (hlead : Lead m here g) (h : LinesForm sequence m ts w) :
      NodeForm b here (blockStart sequence :: ts ++ [.blockEnd]) (g ++ w)

/-- The tokens of the lines of a sequence or mapping at a column, and their writings. -/
inductive LinesForm : Bool → Nat → List TokenKind → List Char → Prop where
  | one {sequence : Bool} {m : Nat} {ts : List TokenKind} {w : List Char}
      (h : LineForm sequence m ts w) : LinesForm sequence m ts w
  | cons {sequence : Bool} {m : Nat} {ts ts' : List TokenKind} {w w' : List Char}
      (h : LineForm sequence m ts w) (hrest : LinesForm sequence m ts' w') :
      LinesForm sequence m (ts ++ ts') (w ++ ('\n' :: List.replicate m ' ' ++ w'))

/-- The tokens of an item or an entry of a collection at a column, and their writings. A key stands on
the line of its value, or is a node of its own. -/
inductive LineForm : Bool → Nat → List TokenKind → List Char → Prop where
  | item {m : Nat} {ts : List TokenKind} {w : List Char} (h : NodeForm m (some (m + 1)) ts w) :
      LineForm true m (.blockEntry :: ts) ('-' :: w)
  | entry {m : Nat} {style : Style} {t v w : List Char} {ts : List TokenKind}
      (hkey : ScalarForm (m + 1) t style v) (hline : '\n' ∉ v) (hlength : v.length ≤ 1024)
      (h : NodeForm m none ts w) :
      LineForm false m (.key :: .scalar (String.ofList t) style :: .value :: ts) (v ++ ':' :: w)
  | explicit {m : Nat} {ts ts' : List TokenKind} {w w' : List Char}
      (hkey : NodeForm m (some (m + 1)) ts w) (h : NodeForm m (some (m + 1)) ts' w') :
      LineForm false m (.key :: ts ++ .value :: ts')
        ('?' :: (w ++ ('\n' :: List.replicate m ' ' ++ ':' :: w')))

end

/-- The tokens of a mapping that is alone in a document, and their writings. -/
inductive RootForm : List TokenKind → List Char → Prop where
  | empty : RootForm [flowStart false, flowEnd false] (flowMarks false)
  | lines {ts : List TokenKind} {w : List Char} (h : LinesForm false 0 ts w) :
      RootForm (blockStart false :: ts ++ [.blockEnd]) w

end BusinessModel.Yaml
