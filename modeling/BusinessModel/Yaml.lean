import BusinessModel.Yaml.Loaded

/-!
Reading texts: from characters to events, and from events to loaded values.
-/

namespace BusinessModel.Yaml

/-- A character that a text may hold. -/
def isReadable (c : Char) : Bool :=
  let n := c.toNat
  n == 9 || n == 10 || n == 13 || (0x20 ≤ n && n ≤ 0x7E) || n == 0x85 ||
    (0xA0 ≤ n && n ≤ 0xD7FF) || (0xE000 ≤ n && n ≤ 0xFFFD) || 0x10000 ≤ n

/-- The first character that a text may not hold, with its index. -/
def unreadable? (cs : List Char) : Option (Char × Nat) :=
  let before := cs.takeWhile isReadable
  (cs.drop before.length).head?.map (·, before.length)

/-- The events of a text without unreadable characters. -/
def events (cs : List Char) : Except Error EventStream :=
  match unreadable? cs with
  | some (c, index) => .error (.character c index)
  | none => .ok (.ofChars cs)

/-- The value of the only document among the events; nothing if there is none. -/
def load (discipline : Discipline) (s : EventStream) : Except Error Loaded := do
  match ← Node.ofEvents? s with
  | some root => Loaded.ofNode discipline (.ofVersion s.version) root
  | none => return .scalar (.ofScalar .null)

end BusinessModel.Yaml
