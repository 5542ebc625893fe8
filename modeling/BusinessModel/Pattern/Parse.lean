import BusinessModel.Pattern

/-!
Reading patterns from their texts. A text that is no pattern has none.
-/

namespace BusinessModel.Pattern

/-- Settings that change how a pattern is read. -/
structure Flags where
  ignoreCase : Bool := false
  multiline : Bool := false
  dotAll : Bool := false
  verbose : Bool := false
  ascii : Bool := false
deriving DecidableEq, Repr, Inhabited

/-- The text that is left, and the groups so far: their number, their names, those that are not
closed yet, and the widths of the others. A part that looks behind may refer only to the groups
before it, as `visible` says, and `highest` is the last group that a condition asks about. `start`
says that nothing but global settings has been read. -/
structure Source where
  rest : List Char
  groups : Nat := 0
  names : List (String × Nat) := []
  opened : List Nat := []
  widths : List (Nat × Option Nat) := []
  visible : Option Nat := none
  highest : Nat := 0
  flags : Flags := {}
  start : Bool := true
deriving Inhabited

/-- A step of reading a pattern. -/
abbrev Reader := StateT Source Option

/-- A part of a pattern. Conditions cannot be repeated, and a repetition not directly. -/
inductive Part where
  | plain (p : Pattern)
  | condition (p : Pattern)
  | repetition (p : Pattern)

/-- The pattern of a part. -/
def Part.pattern : Part → Pattern
  | plain p | condition p | repetition p => p

namespace Reader

/-- No pattern. -/
def fail {α : Type} : Reader α := StateT.lift none

/-- The next character. -/
def peek : Reader (Option Char) := return (← get).rest.head?

/-- Takes the next character. -/
def next : Reader Char := do
  match (← get).rest with
  | c :: rest =>
    modify fun s => { s with rest }
    return c
  | [] => fail

/-- Takes the character if it comes next. -/
def takes (c : Char) : Reader Bool := do
  if (← peek) == some c then
    let _ ← next
    return true
  return false

/-- Demands the character. -/
def demand (c : Char) : Reader Unit := do
  if !(← takes c) then fail

/-- Takes the longest run of characters with the property. -/
def takeWhile (p : Char → Bool) : Reader (List Char) := do
  let cs := (← get).rest.takeWhile p
  modify fun s => { s with rest := s.rest.drop cs.length }
  return cs

/-- The value of digits in a base. -/
def number (base : Nat) (cs : List Char) : Nat :=
  cs.foldl (fun n c => base * n + (Text.hexValue? c).getD 0) 0

/-- Exactly `n` hexadecimal digits, as a character. -/
def hexChar (n : Nat) : Reader Char := do
  let cs := (← get).rest.take n
  if cs.length != n || cs.any fun c => (Text.hexValue? c).isNone then fail
  modify fun s => { s with rest := s.rest.drop n }
  let code := number 16 cs
  if code ≥ 0x110000 then fail
  return Char.ofNat code

/-- The class that a letter behind a backslash names. -/
def classOf? (ascii : Bool) (c : Char) : Option CharTest :=
  match c with
  | 'd' => some (.digit ascii)
  | 'D' => some (.not (.digit ascii))
  | 'w' => some (.word ascii)
  | 'W' => some (.not (.word ascii))
  | 's' => some (.blank ascii)
  | 'S' => some (.not (.blank ascii))
  | _ => none

/-- The control character that a letter behind a backslash names. -/
def controlOf? (c : Char) : Option Char :=
  match c with
  | 'a' => some (Char.ofNat 7)
  | 'f' => some (Char.ofNat 12)
  | 'n' => some '\n'
  | 'r' => some '\r'
  | 't' => some '\t'
  | 'v' => some (Char.ofNat 11)
  | _ => none

/-- A digit between zero and seven. -/
def isOctal (c : Char) : Bool := '0' ≤ c && c ≤ '7'

/-- The character of an escape that means the same inside a set and outside, apart from numbers. -/
def escapedChar (c : Char) : Reader Char := do
  match controlOf? c with
  | some c => return c
  | none =>
    if c == 'x' then hexChar 2
    else if c == 'u' then hexChar 4
    else if c == 'U' then hexChar 8
    else if c.isAlphanum && c.toNat < 128 then fail
    else return c

/-- The test of a character that letters of both cases may pass. -/
def inCase (flags : Flags) (t : CharTest) : CharTest :=
  if flags.ignoreCase then .ignoringCase t else t

/-- One member of a set: a class, or a character that may start a range. -/
def setMember (flags : Flags) : Reader (Sum CharTest Char) := do
  let c ← next
  if c != '\\' then return .inr c
  let e ← next
  match classOf? flags.ascii e with
  | some t => return .inl t
  | none =>
    if e == 'b' then return .inr (Char.ofNat 8)
    if isOctal e then
      let more := ((← get).rest.take 2).takeWhile isOctal
      modify fun s => { s with rest := s.rest.drop more.length }
      let code := number 8 (e :: more)
      if code > 255 then fail
      return .inr (Char.ofNat code)
    if e.isDigit then fail
    return .inr (← escapedChar e)

/-- The members of a set up to its closing bracket. -/
def setMembers (flags : Flags) : Nat → Bool → CharTest → Reader CharTest
  | 0, _, _ => fail
  | fuel + 1, first, acc => do
    if !first && (← takes ']') then return acc
    let low ← setMember flags
    let rest := (← get).rest
    let ranged := rest.head? == some '-' && rest.tail.head? != some ']'
    if ranged then
      let _ ← next
      match low, ← setMember flags with
      | .inr a, .inr b =>
        if b < a then fail
        setMembers flags fuel false (.either acc (.between a b))
      | _, _ => fail
    else
      let t := match low with
        | .inl t => t
        | .inr c => .exactly c
      setMembers flags fuel false (.either acc t)

/-- A set of characters behind its opening bracket. -/
def set (flags : Flags) : Reader Pattern := do
  let negated ← takes '^'
  let t ← setMembers flags ((← get).rest.length + 1) true .nothing
  let t := inCase flags t
  return .char (if negated then .not t else t)

/-- A reference to a group that is closed. -/
def reference (flags : Flags) (n : Nat) : Reader Part := do
  let s ← get
  if n == 0 || s.groups < n || s.opened.contains n || s.visible.any (· < n) then fail
  return .plain (.reference n flags.ignoreCase)

/-- What stands behind a backslash outside a set. -/
def escape (flags : Flags) : Reader Part := do
  let e ← next
  let literal (c : Char) : Part := .plain (.char (inCase flags (.exactly c)))
  match classOf? flags.ascii e with
  | some t => return .plain (.char t)
  | none =>
    if e == 'A' then return .condition (.anchor .textStart)
    else if e == 'Z' then return .condition (.anchor .absoluteEnd)
    else if e == 'b' then return .condition (.anchor (.wordEdge flags.ascii))
    else if e == 'B' then return .condition (.anchor (.noWordEdge flags.ascii))
    else if e == '0' then
      let more := ((← get).rest.take 2).takeWhile isOctal
      modify fun s => { s with rest := s.rest.drop more.length }
      return literal (Char.ofNat (number 8 more))
    else if e.isDigit then
      let ds := e :: ((← get).rest.take 2).takeWhile Char.isDigit
      if ds.length == 3 && ds.all isOctal then
        modify fun s => { s with rest := s.rest.drop 2 }
        let code := number 8 ds
        if code > 255 then fail
        return literal (Char.ofNat code)
      let ds := ds.take 2
      modify fun s => { s with rest := s.rest.drop (ds.length - 1) }
      reference flags (number 10 ds)
    else return literal (← escapedChar e)

/-- A name in a group, up to a closing character. -/
def groupName (close : Char) : Reader String := do
  let cs ← takeWhile (· != close)
  demand close
  match cs with
  | c :: _ =>
    if c.isDigit || !cs.all Text.isWord then fail
    return String.ofList cs
  | [] => fail

/-- The settings in a group: those switched on and those switched off, in order. -/
def setFlag (on : Bool) (c : Char) (f : Flags) : Option Flags :=
  match c with
  | 'i' => some { f with ignoreCase := on }
  | 'm' => some { f with multiline := on }
  | 's' => some { f with dotAll := on }
  | 'x' => some { f with verbose := on }
  | 'a' => if on then some { f with ascii := true } else none
  | 'u' => if on then some { f with ascii := false } else none
  | _ => none

/-- Applies the settings of the letters. -/
def setFlags (on : Bool) (cs : List Char) (f : Flags) : Reader Flags :=
  cs.foldlM (fun f c => StateT.lift (setFlag on c f)) f

/-- The bounds of a repetition behind an opening brace; nothing if the brace stands for itself. -/
def bounds : Reader (Option (Nat × Option Nat)) := do
  let saved ← get
  if (← peek) == some '\x7d' then return none
  let low ← takeWhile Char.isDigit
  let high ← if ← takes ',' then takeWhile Char.isDigit else pure low
  if !(← takes '\x7d') then
    StateT.set saved
    return none
  let least := number 10 low
  let most := if high.isEmpty then none else some (number 10 high)
  match most with
  | some m =>
    if m < least then fail
    return some (least, some m)
  | none => return some (least, none)

/-- The repetition that a character asks for. -/
def quantifier (c : Char) : Reader (Option (Nat × Option Nat)) := do
  match c with
  | '*' => return some (0, none)
  | '+' => return some (1, none)
  | '?' => return some (0, some 1)
  | _ => bounds

/-- How a repetition is to be tried. -/
def greed : Reader Greed := do
  if ← takes '?' then return .lazy
  if ← takes '+' then return .possessive
  return .greedy

/-- The last part, repeated. -/
def repeatLast (parts : List Part) (least : Nat) (most : Option Nat) : Reader (List Part) := do
  match parts with
  | .plain p :: rest => return .repetition (.repeated (← greed) least most p) :: rest
  | _ => fail

/-- The parts in order as one pattern. -/
def join (parts : List Part) : Pattern :=
  match parts.reverse with
  | [] => .empty
  | p :: ps =>
    match (p :: ps).reverse with
    | [] => .empty
    | last :: front => front.foldl (fun acc q => .seq q.pattern acc) last.pattern

/-- A new group. -/
def openGroup (name : Option String) : Reader Nat := do
  let s ← get
  let n := s.groups + 1
  if name.any fun name => (s.names.lookup name).isSome then fail
  StateT.set { s with
    groups := n, opened := n :: s.opened
    names := (name.map (·, n)).toList ++ s.names }
  return n

/-- The width of a pattern, with those of the groups so far. -/
def widthOf (p : Pattern) : Reader (Option Nat) := do
  let widths := (← get).widths
  return p.width? fun n => (widths.lookup n).join

/-- Closes a group. -/
def closeGroup (n : Nat) (p : Pattern) : Reader Unit := do
  let width ← widthOf p
  modify fun s => { s with
    opened := s.opened.filter (· != n), widths := (n, width) :: s.widths }

mutual

/-- Alternatives up to the end or a closing parenthesis. -/
def alternatives : Nat → Flags → Reader Pattern
  | 0, _ => fail
  | fuel + 1, flags => do
    let p ← sequence fuel flags []
    if ← takes '|' then
      modify fun s => { s with start := false }
      return .alt p (← alternatives fuel flags)
    return p

/-- Parts in sequence; `parts` are those before, last first. -/
def sequence : Nat → Flags → List Part → Reader Pattern
  | 0, _, _ => fail
  | fuel + 1, flags, parts => do
    match ← peek with
    | none => return join parts
    | some c =>
      if c == '|' || c == ')' then return join parts
      let _ ← next
      if flags.verbose && (c == '#' || " \t\n\r\x0b\x0c".toList.contains c) then
        if c == '#' then
          let _ ← takeWhile (· != '\n')
        sequence fuel flags parts
      else if c == '*' || c == '+' || c == '?' || c == '\x7b' then
        match ← quantifier c with
        | some (least, most) => sequence fuel flags (← repeatLast parts least most)
        | none =>
          modify fun s => { s with start := false }
          sequence fuel flags (.plain (.char (.exactly c)) :: parts)
      else if c == '(' then group fuel flags parts
      else
        modify fun s => { s with start := false }
        let part ←
          if c == '\\' then escape flags
          else if c == '[' then pure (.plain (← set flags))
          else if c == '.' then
            pure (.plain (.char (if flags.dotAll then .everything else .not (.exactly '\n'))))
          else if c == '^' then
            pure (.condition (.anchor (if flags.multiline then .lineStart else .textStart)))
          else if c == '$' then
            pure (.condition (.anchor (if flags.multiline then .lineEnd else .textEnd)))
          else pure (.plain (.char (inCase flags (.exactly c))))
        sequence fuel flags (part :: parts)

/-- What stands behind an opening parenthesis, and the parts behind it. -/
def group : Nat → Flags → List Part → Reader Pattern
  | 0, _, _ => fail
  | fuel + 1, flags, parts => do
    let started := (← get).start
    modify fun s => { s with start := false }
    let continueWith (part : Part) : Reader Pattern := sequence fuel flags (part :: parts)
    let capture (name : Option String) : Reader Pattern := do
      let n ← openGroup name
      let p ← alternatives fuel flags
      demand ')'
      closeGroup n p
      continueWith (.plain (.group n p))
    if !(← takes '?') then capture none
    else
      let c ← next
      if c == 'P' then
        if ← takes '<' then capture (some (← groupName '>'))
        else
          demand '='
          let name ← groupName ')'
          match (← get).names.lookup name with
          | some n => continueWith (← reference flags n)
          | none => fail
      else if c == ':' then
        let p ← alternatives fuel flags
        demand ')'
        continueWith (.plain p)
      else if c == '#' then
        let _ ← takeWhile (· != ')')
        demand ')'
        modify fun s => { s with start := started }
        sequence fuel flags parts
      else if c == '=' || c == '!' then
        let p ← alternatives fuel flags
        demand ')'
        continueWith (.plain (.ahead (c == '!') p))
      else if c == '<' then
        let d ← next
        if d != '=' && d != '!' then fail
        let visible := (← get).visible
        modify fun s => { s with visible := some (visible.getD s.groups) }
        let p ← alternatives fuel flags
        modify fun s => { s with visible }
        demand ')'
        match ← widthOf p with
        | some w => continueWith (.plain (.behind (d == '!') w p))
        | none => fail
      else if c == '>' then
        let p ← alternatives fuel flags
        demand ')'
        continueWith (.plain (.atomic p))
      else if c == '(' then
        let cs ← takeWhile (· != ')')
        demand ')'
        let n ← match cs with
          | [] => fail
          | _ =>
            if cs.all Char.isDigit then pure (number 10 cs)
            else match (← get).names.lookup (String.ofList cs) with
              | some n => pure n
              | none => fail
        let s ← get
        if n == 0 || s.visible.any fun m => m < n || s.opened.contains n then fail
        modify fun s => { s with highest := max s.highest n }
        let yes ← sequence fuel flags []
        let no ← if ← takes '|' then sequence fuel flags [] else pure .empty
        demand ')'
        continueWith (.plain (.conditional n yes no))
      else
        modify fun s => { s with rest := c :: s.rest }
        let on ← takeWhile Char.isAlpha
        let off ← if ← takes '-' then takeWhile Char.isAlpha else pure []
        let inner ← setFlags false off (← setFlags true on flags)
        if ← takes ':' then
          let p ← alternatives fuel inner
          demand ')'
          continueWith (.plain p)
        else
          demand ')'
          if !off.isEmpty || on.isEmpty || !started || !parts.isEmpty then fail
          modify fun s => { s with start := true, flags := inner }
          sequence fuel inner parts

end

end Reader

/-- Reads a whole text as a pattern with the given settings. -/
def parseWith (flags : Flags) (text : String) : Option (Pattern × Source) := do
  let cs := text.toList
  let (p, s) ← (Reader.alternatives (4 * cs.length + 8) flags).run { rest := cs, flags }
  if s.rest.isEmpty && s.highest ≤ s.groups then some (p, s) else none

/-- The pattern that a text writes. Settings at its start hold for all of it. -/
def parse? (text : String) : Option Pattern := do
  let (p, s) ← parseWith {} text
  if s.flags == {} then return p
  return (← parseWith s.flags text).1

end BusinessModel.Pattern
