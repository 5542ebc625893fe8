import BusinessModel.Yaml.Datum
import BusinessModel.Yaml.Node

/-!
Loaded documents: the values of the nodes, with the places they were written at.

A node that is wrong in two ways is reported for the first of them in the order of loading: the
content of a collection outside all mappings is loaded only after everything beside the collection,
and the content of a mapping at once. A fault therefore carries the round it occurs in.
-/

namespace BusinessModel.Yaml

/-- What makes two keys equal. -/
inductive KeyForm where
  | unique
  | temporal (text : String)
  | plain (value : Value)

/-- A key of a mapping: its text and what makes it equal to another. -/
structure Key where
  label : String
  form : KeyForm

namespace Key

/-- Whether two keys are equal. -/
def same (a b : Key) : Bool :=
  match a.form, b.form with
  | .temporal s, .temporal t => s == t
  | .plain v, .plain w => v.same w
  | _, _ => false

/-- The scalar that stands for a key: the key itself, or its text. -/
def scalar (k : Key) : Scalar :=
  match k.form with
  | .plain (.scalar s) => s
  | _ => .str k.label

end Key

/-- A loaded value. Entries have their key and, unless they were merged in from another mapping, the
places of key and value; items have their places. -/
inductive Loaded where
  | scalar (d : Datum)
  | sequence (anchor : Option Nat) (place : Option Mark) (items : List (Option Mark × Loaded))
  | mapping (anchor : Option Nat) (place : Option Mark)
      (entries : List (Key × Option (Mark × Mark) × Loaded))
  | aliasOf (target : Nat)
deriving Inhabited

namespace Loaded

mutual

/-- The value as it appears inside the text of a collection. -/
def quote : Loaded → String
  | .scalar d => d.value.quote
  | .sequence _ _ items => "[" ++ ", ".intercalate (quoteItems items) ++ "]"
  | .mapping _ _ entries => "\x7b" ++ ", ".intercalate (quoteEntries entries) ++ "\x7d"
  | .aliasOf _ => "[...]"

/-- The texts of the items of a sequence. -/
def quoteItems : List (Option Mark × Loaded) → List String
  | [] => []
  | (_, v) :: rest => v.quote :: quoteItems rest

/-- The texts of the entries of a mapping. -/
def quoteEntries : List (Key × Option (Mark × Mark) × Loaded) → List String
  | [] => []
  | (k, _, v) :: rest => (k.scalar.quote ++ ": " ++ v.quote) :: quoteEntries rest

end

/-- The text of a value in reports. -/
def text : Loaded → String
  | .scalar d => d.label
  | v => v.quote

mutual

/-- The value without its places; an alias counts as nothing. -/
def toValue : Loaded → Value
  | .scalar d => .scalar d.value
  | .sequence _ _ items => .list (itemValues items)
  | .mapping _ _ entries => .map (entryValues entries)
  | .aliasOf _ => .null

/-- The items of a sequence without their places. -/
def itemValues : List (Option Mark × Loaded) → List Value
  | [] => []
  | (_, v) :: rest => v.toValue :: itemValues rest

/-- The entries of a mapping without their places. -/
def entryValues : List (Key × Option (Mark × Mark) × Loaded) → List (Value × Value)
  | [] => []
  | (k, _, v) :: rest => (.scalar k.scalar, v.toValue) :: entryValues rest

end

/-- The kind of a collection in reports on keys. -/
def collectionKind? : Loaded → Option String
  | .scalar _ => none
  | .sequence .. => some "CommentedSeq"
  | _ => some "CommentedMap"

end Loaded

namespace Key

/-- The key that a loaded value makes, or the kind of the collection inside it that no key may
hold. A sequence has the text of a tuple, a mapping that of a list of pairs. -/
def ofLoaded (v : Loaded) : Except String Key :=
  match v with
  | .scalar d =>
    let form :=
      if d.tagged then .unique
      else if d.temporal then .temporal d.label
      else .plain (.scalar d.value)
    .ok ⟨d.label, form⟩
  | .sequence _ _ items =>
    match items.findSome? fun x => x.2.collectionKind? with
    | some kind => .error kind
    | none =>
      let texts := Loaded.quoteItems items
      let comma := if texts.length == 1 then "," else ""
      .ok ⟨"(" ++ ", ".intercalate texts ++ comma ++ ")", .plain v.toValue⟩
  | .mapping _ _ entries =>
    match entries.findSome? fun x => x.2.2.collectionKind? with
    | some kind => .error kind
    | none =>
      let texts := entries.map fun (k, _, v) => "(" ++ k.scalar.quote ++ ", " ++ v.quote ++ ")"
      .ok ⟨"ordereddict([" ++ ", ".intercalate texts ++ "])", .plain v.toValue⟩
  | .aliasOf _ => .error "CommentedMap"

end Key

/-- How documents are loaded. Schemas are loaded strictly: merged entries come first and give way to
those written beside them, and a tag must be known. -/
inductive Discipline where
  | lenient
  | strict
deriving DecidableEq, Repr

/-- What loading needs to know of the whole document: how it is loaded, its edition, and its
anchored nodes. -/
structure Loading where
  discipline : Discipline
  edition : Edition
  anchored : List (Nat × Node)

/-- An error, and the round of loading it occurs in. -/
abbrev Fault := Nat × Error

/-- The results, or the fault of the earliest round; of one round the first. -/
def firstFault {α : Type} (results : List (Except Fault α)) : Except Fault (List α) :=
  let faults := results.filterMap fun
    | .error f => some f
    | .ok _ => none
  match faults with
  | [] => .ok (results.filterMap Except.toOption)
  | f :: fs => .error (fs.foldl (fun least g => if g.1 < least.1 then g else least) f)

/-- A result that is had one round later. -/
def nextRound {α : Type} : Except Fault α → Except Fault α
  | .error (n, e) => .error (n + 1, e)
  | .ok v => .ok v

/-- A fault of the current round. -/
def fault {α : Type} (e : Error) : Except Fault α := .error (0, e)

/-- An entry of a mapping while it is loaded. -/
structure LoadedEntry where
  key : Key
  places : Option (Mark × Mark)
  value : Loaded

/-- The entries with those merged in, which give way to entries of the same key. -/
def mergeEntries (entries merged : List LoadedEntry) : List LoadedEntry :=
  merged.foldl (fun es m => if es.any (·.key.same m.key) then es else es ++ [m]) entries

/-- The entries with those of the second list written over them. -/
def overwriteEntries (merged entries : List LoadedEntry) : List LoadedEntry :=
  entries.foldl
    (fun es e =>
      if es.any (·.key.same e.key) then
        es.map fun m => if m.key.same e.key then { m with value := e.value } else m
      else es ++ [e])
    merged

/-- Adds an entry, unless its key is taken. `place` is the start of the mapping. -/
def addEntry (place keyPlace : Mark) (seen : List LoadedEntry) (e : LoadedEntry) :
    Except Fault (List LoadedEntry) :=
  match seen.find? (·.key.same e.key) with
  | some earlier =>
    fault (.at (some (.mapping, place))
      (.repeatedKey e.key.label e.value.text earlier.value.text) keyPlace)
  | none => .ok (e :: seen)

namespace Loading

/-- The node that an alias stands for; other nodes stand for themselves. -/
def resolve (l : Loading) : Node → Node
  | .aliasOf n place => (l.anchored.lookup n).getD (.aliasOf n place)
  | n => n

/-- The pairs of a mapping that merge another, and the rest. -/
def splitMerges (entries : List (Node × Node)) : List (Node × Node) × List (Node × Node) :=
  entries.partition fun e =>
    match e.1 with
    | .scalar _ .merge .. => true
    | _ => false

/-- The mappings that the value of a merge key names. -/
def mergeSources (l : Loading) (place : Mark) (value : Node) : Except Fault (List Node) :=
  match l.resolve value with
  | .mapping .. => .ok [value]
  | .sequence _ _ _ items =>
    items.mapM fun item =>
      match l.resolve item with
      | .mapping .. => .ok item
      | n => fault (.at (some (.mapping, place)) (.mergeItem n.kind) item.place)
  | n => fault (.at (some (.mapping, place)) (.mergeValue n.kind) value.place)

/-- The error for a collection whose tag asks for something else, if it does. -/
def misfit? (tag : Tag) (kind : String) (place : Mark) (strict : Bool) : Option Error :=
  match tag with
  | .null | .bool | .int | .float | .binary | .timestamp =>
    some (.at none (.scalarNode kind) place)
  | .str => if strict then some (.at none (.scalarNode kind) place) else none
  | .other name => if strict then some (.at none (.undefinedTag name) place) else none
  | .merge =>
    if strict then some (.at none (.undefinedTag (coreNamespace ++ "merge")) place) else none
  | _ => none

/-- The text of a pair. -/
def pairText (k v : Loaded) : String := "(" ++ k.quote ++ ", " ++ v.quote ++ ")"

/-- A value under the only key of each of the nodes. -/
def singleEntries (context : Context) (place : Mark) (items : List Node) :
    Except Fault (List (Node × Node)) :=
  items.mapM fun item =>
    match item with
    | .mapping _ _ _ [e] => .ok e
    | .mapping _ _ m es => fault (.at (some (context, place)) (.singleEntryCount es.length) m)
    | n => fault (.at (some (context, place)) (.singleEntry n.kind) n.place)

/-- The value of a node. `deep` says that a mapping lies around it; `pending` are the numbers of the
nodes it lies in, with what held for them. -/
def load (l : Loading) : Nat → Bool → List (Nat × Bool) → Node → Except Fault Loaded
  | 0, _, _, _ => fault .nesting
  | fuel + 1, deep, pending, node =>
    let strict := l.discipline == .strict
    let content {α : Type} (r : Except Fault α) : Except Fault α := if deep then r else nextRound r
    let within (anchor : Option Nat) := (anchor.map (·, deep)).toList ++ pending
    let datum (anchor : Option Nat) (tag : Tag) (text : String) (place : Mark) :
        Except Fault Loaded :=
      match tag, strict with
      | .other name, true => fault (.at none (.undefinedTag name) place)
      | tag, _ =>
        match Datum.ofText l.edition tag anchor.isSome place text with
        | .ok d => .ok (.scalar d)
        | .error e => fault e
    match node with
    | .aliasOf target place =>
      match pending.lookup target with
      | some true => .ok (.scalar (.ofScalar .null))
      | some false => .ok (.aliasOf target)
      | none =>
        match l.resolve (.aliasOf target place) with
        | .scalar anchor tag text place => datum anchor tag text place
        | _ => .ok (.aliasOf target)
    | .scalar anchor tag text place => datum anchor tag text place
    | .sequence anchor tag place items =>
      let pending := within anchor
      match misfit? tag "sequence" place strict with
      | some e => fault e
      | none =>
        match tag with
        | .mapping => content (fault (.at none (.mappingNode "sequence") place))
        | .orderedMap => content do
          let es ← singleEntries .orderedMap place items
          let entries ← es.foldlM (fun seen (k, v) => do
            let k ← load l fuel deep pending k
            let key ← match Key.ofLoaded k with
              | .ok key => pure key
              | .error _ => fault .scalarText
            if seen.any fun (e : LoadedEntry) => e.key.same key then fault .repeatedOrderedKey
            else return { key, places := none, value := ← load l fuel deep pending v } :: seen) []
          return .mapping anchor none (entries.reverse.map fun e => (e.key, none, e.value))
        | .pairs => content do
          let es ← singleEntries .pairs place items
          let texts ← es.mapM fun (k, v) => do
            return pairText (← load l fuel deep pending k) (← load l fuel deep pending v)
          return .sequence anchor none (texts.map fun t =>
            (none, .scalar { value := .str t, label := t }))
        | tag => content do
          let values ← firstFault (items.map (load l fuel deep pending))
          let places := items.map fun n => if tag == .sequence then some n.place else none
          return .sequence anchor (some place) (places.zip values)
    | .mapping anchor tag place entries =>
      let pending := within anchor
      match misfit? tag "mapping" place strict with
      | some e => fault e
      | none =>
        match tag with
        | .sequence => content (fault (.at none (.sequenceNode "mapping") place))
        | .orderedMap =>
          content (fault (.at (some (.orderedMap, place)) (.sequenceOf "mapping") place))
        | .pairs => content (fault (.at (some (.pairs, place)) (.sequenceOf "mapping") place))
        | tag => content do
          let inside := deep || (tag == .mapping && !strict)
          let (merges, rest) := splitMerges entries
          let sources ←
            match merges with
            | [] => pure []
            | [(_, v)] => l.mergeSources place v
            | (_, v) :: (k, _) :: _ =>
              let _ ← l.mergeSources place v
              fault (.at (some (.mapping, place)) .repeatedMergeKey k.place)
          let merged ← sources.mapM fun source =>
            let known := match source with
              | .aliasOf target _ => (pending.lookup target).isSome
              | _ => false
            if known then pure []
            else do
              match ← load l fuel true pending (l.resolve source) with
              | .mapping _ _ es => return es.map fun (k, _, v) =>
                  { key := k, places := none, value := v : LoadedEntry }
              | _ => return []
          let own ← rest.foldlM (fun (seen, late) (k, v) => do
            let key ← match Key.ofLoaded (← load l fuel true pending k) with
              | .ok key => pure key
              | .error kind =>
                fault (.at (some (.mapping, place))
                  (.unacceptableKey ("unhashable type: '" ++ kind ++ "'")) k.place)
            match load l fuel inside pending v with
            | .ok value =>
              let entry : LoadedEntry := { key, places := some (k.place, v.place), value }
              if strict && !merges.isEmpty then return (entry :: seen, late)
              return (← addEntry place k.place seen entry, late)
            | .error (0, e) => fault e
            | .error f => return (seen, late ++ [Except.error (α := Unit) f]))
            (([] : List LoadedEntry), ([] : List (Except Fault Unit)))
          let _ ← firstFault own.2
          let own := own.1.reverse
          let all :=
            if strict then overwriteEntries merged.flatten own
            else mergeEntries own merged.flatten
          return .mapping anchor (some place) (all.map fun e => (e.key, e.places, e.value))

end Loading

/-- The value of a document's root node. -/
def Loaded.ofNode (discipline : Discipline) (edition : Edition) (root : Node) :
    Except Error Loaded :=
  let l : Loading := ⟨discipline, edition, root.anchored⟩
  match l.load (2 * maxNesting + 8) false [] root with
  | .ok v => .ok v
  | .error (_, e) => .error e

mutual

/-- The anchored collections inside a loaded value, itself included, with their numbers. -/
def Loaded.anchored : Loaded → List (Nat × Loaded)
  | .scalar _ => []
  | .sequence a place xs =>
    (a.map fun n => (n, Loaded.sequence a place xs)).toList ++ anchoredItems xs
  | .mapping a place xs =>
    (a.map fun n => (n, Loaded.mapping a place xs)).toList ++ anchoredEntries xs
  | .aliasOf _ => []

/-- The anchored collections among the items of a sequence. -/
def Loaded.anchoredItems : List (Option Mark × Loaded) → List (Nat × Loaded)
  | [] => []
  | (_, x) :: xs => x.anchored ++ anchoredItems xs

/-- The anchored collections among the entries of a mapping. -/
def Loaded.anchoredEntries : List (Key × Option (Mark × Mark) × Loaded) → List (Nat × Loaded)
  | [] => []
  | (_, _, x) :: xs => x.anchored ++ anchoredEntries xs

end

end BusinessModel.Yaml
