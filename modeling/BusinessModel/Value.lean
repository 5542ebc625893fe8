import BusinessModel.Number.Shortest
import BusinessModel.Text.Quoted

/-!
Values of documents and schemas: scalars, lists, and mappings that keep the order of their entries.

Two equalities matter. `Scalar.same` is that of mapping keys: a truth value equals the number zero
or one, and an integer the floating point number of its value. `Value.alike` is that of schema
checks: numbers as before, but a truth value equals only itself.
-/

namespace BusinessModel

/-- A value without parts. -/
inductive Scalar where
  | null
  | bool (b : Bool)
  | int (n : Int)
  | float (x : Double)
  | str (s : String)
deriving DecidableEq, Repr, Inhabited

/-- A value: a scalar, a list, or a mapping in the order of its entries. -/
inductive Value where
  | scalar (s : Scalar)
  | list (items : List Value)
  | map (entries : List (Value × Value))
deriving Repr, Inhabited

namespace Scalar

/-- The scalar as it appears inside a printed value. -/
def quote : Scalar → String
  | null => "None"
  | bool true => "True"
  | bool false => "False"
  | int n => Text.intText n
  | float x => x.text
  | str s => Text.quote s

/-- The scalar as a text: a string stands for itself. -/
def text : Scalar → String
  | str s => s
  | s => s.quote

/-- Truth values count as zero and one among numbers. -/
def asNumber : Scalar → Scalar
  | bool b => int b.toNat
  | s => s

/-- The order of two numbers. -/
def compareNumbers? (a b : Scalar) : Option Ordering :=
  match a.asNumber, b.asNumber with
  | int a, int b => some (compare a b)
  | int a, float x =>
    match x.fraction? with
    | some (n, d) => some (compare (a * d) n)
    | none => (Double.zero false).compare? x
  | float x, int a =>
    match x.fraction? with
    | some (n, d) => some (compare n (a * d))
    | none => x.compare? (Double.zero false)
  | float x, float y => x.compare? y
  | _, _ => none

/-- Equality of mapping keys. -/
def same (a b : Scalar) : Bool :=
  match a, b with
  | null, null => true
  | str s, str t => s == t
  | a, b => a.compareNumbers? b = some .eq

/-- Equality in schema checks. -/
def alike (a b : Scalar) : Bool :=
  match a, b with
  | bool x, bool y => x == y
  | bool _, _ | _, bool _ => false
  | a, b => a.same b

/-- Whether a scalar counts as set: nothing, `false`, zero and the empty text do not. -/
def isSet : Scalar → Bool
  | null => false
  | bool b => b
  | int n => n ≠ 0
  | float x => !x.same (Double.zero false)
  | str s => !s.isEmpty

end Scalar

namespace Value

@[match_pattern] abbrev null : Value := .scalar .null
@[match_pattern] abbrev bool (b : Bool) : Value := .scalar (.bool b)
@[match_pattern] abbrev int (n : Int) : Value := .scalar (.int n)
@[match_pattern] abbrev float (x : Double) : Value := .scalar (.float x)
@[match_pattern] abbrev str (s : String) : Value := .scalar (.str s)

instance : Coe String Value := ⟨Value.str⟩
instance : Coe Bool Value := ⟨Value.bool⟩
instance : Coe Int Value := ⟨Value.int⟩
instance : OfNat Value n := ⟨Value.int n⟩

/-- A list of texts. -/
def texts (ss : List String) : Value := .list (ss.map .str)

/-- A mapping with texts as keys. -/
def object (entries : List (String × Value)) : Value :=
  .map (entries.map fun e => (.str e.1, e.2))

mutual

/-- The value as a printed text, with quotation marks around strings. -/
def quote : Value → String
  | .scalar s => s.quote
  | .list items => "[" ++ ", ".intercalate (quoteItems items) ++ "]"
  | .map entries => "\x7b" ++ ", ".intercalate (quoteEntries entries) ++ "\x7d"

/-- The printed items of a list. -/
def quoteItems : List Value → List String
  | [] => []
  | v :: rest => v.quote :: quoteItems rest

/-- The printed entries of a mapping. -/
def quoteEntries : List (Value × Value) → List String
  | [] => []
  | (k, v) :: rest => (k.quote ++ ": " ++ v.quote) :: quoteEntries rest

end

/-- The value as a text: a string stands for itself. -/
def text : Value → String
  | .scalar s => s.text
  | v => v.quote

/-- Whether a value counts as set: what is empty does not. -/
def isSet : Value → Bool
  | .scalar s => s.isSet
  | .list items => !items.isEmpty
  | .map entries => !entries.isEmpty

/-- The value of the first entry with the given text as its key. -/
def lookup (key : String) : List (Value × Value) → Option Value
  | [] => none
  | (.scalar (.str k), v) :: rest => if k == key then some v else lookup key rest
  | _ :: rest => lookup key rest

/-- The value at a key of a mapping. -/
def get? (v : Value) (key : String) : Option Value :=
  match v with
  | .map entries => lookup key entries
  | _ => none

/-- Whether a mapping has the key. -/
def has (v : Value) (key : String) : Bool := (v.get? key).isSome

/-- The entries of a mapping; other values have none. -/
def entries : Value → List (Value × Value)
  | .map entries => entries
  | _ => []

/-- The items of a list; other values have none. -/
def items : Value → List Value
  | .list items => items
  | _ => []

/-- What going through a value yields: the items of a list, the keys of a mapping, or the characters
of a text. No other value can be gone through. -/
def members? : Value → Option (List Value)
  | .list items => some items
  | .map entries => some (entries.map (·.1))
  | .str s => some (s.toList.map fun c => .str (String.singleton c))
  | _ => none

/-- The text of a string value. -/
def str? : Value → Option String
  | .str s => some s
  | _ => none

/-- Whether the value is a mapping. -/
def isMap : Value → Bool
  | .map _ => true
  | _ => false

/-- The value of the first entry whose key is the given scalar. -/
def lookupScalar (key : Scalar) : List (Value × Value) → Option Value
  | [] => none
  | (.scalar k, v) :: rest => if key.same k then some v else lookupScalar key rest
  | _ :: rest => lookupScalar key rest

mutual

/-- Equality in schema checks. -/
def alike : Value → Value → Bool
  | .scalar a, .scalar b => a.alike b
  | .list xs, .list ys => alikeItems xs ys
  | .map xs, .map ys => xs.length == ys.length && alikeEntries xs ys
  | _, _ => false

/-- Equality of lists, item by item. -/
def alikeItems : List Value → List Value → Bool
  | [], [] => true
  | x :: xs, y :: ys => x.alike y && alikeItems xs ys
  | _, _ => false

/-- Whether each entry of the first mapping has an equal entry in the second. -/
def alikeEntries : List (Value × Value) → List (Value × Value) → Bool
  | [], _ => true
  | (.scalar k, v) :: rest, ys =>
    (match lookupScalar k ys with
      | some w => v.alike w
      | none => false) && alikeEntries rest ys
  | _ :: _, _ => false

end

mutual

/-- Equality of keys, carried into lists and mappings. -/
def same : Value → Value → Bool
  | .scalar a, .scalar b => a.same b
  | .list xs, .list ys => sameItems xs ys
  | .map xs, .map ys => xs.length == ys.length && sameEntries xs ys
  | _, _ => false

/-- Equality of lists, item by item. -/
def sameItems : List Value → List Value → Bool
  | [], [] => true
  | x :: xs, y :: ys => x.same y && sameItems xs ys
  | _, _ => false

/-- Equality of mappings, entry by entry, in the same order. -/
def sameEntries : List (Value × Value) → List (Value × Value) → Bool
  | [], [] => true
  | (k, v) :: rest, (k', v') :: rest' => k.same k' && v.same v' && sameEntries rest rest'
  | _, _ => false

end

end Value

end BusinessModel
