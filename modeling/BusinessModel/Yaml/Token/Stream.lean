import BusinessModel.Yaml.Token.Lexer

/-!
The tokens of a text in order, comments taken out of their sequence.

A comment on the line of a scalar, a colon or the end of a flow collection belongs to that token,
and so do comments on the lines behind a scalar; all others belong to the token they stand before.
The sequence ends with the end of the stream, or early, with the error that reading met.
-/

namespace BusinessModel.Yaml

namespace Lexer

/-- Whether the first token in the queue is not settled yet. -/
def needsMore (l : Lexer) : Except Error (Bool × Lexer) := do
  if l.done then return (false, l)
  if l.queue.isEmpty then return (true, l)
  let l ← l.dropStaleKeys
  return (l.keys.any (·.2.number == l.taken), l)

/-- Reads until the first token in the queue is settled. -/
def settle : Nat → Lexer → Except Error Lexer
  | 0, l => .ok l
  | fuel + 1, l => do
    let (more, l) ← l.needsMore
    if more then settle fuel (← l.fetch) else return l

/-- A bound on the number of reading steps that are left. -/
def budget (l : Lexer) : Nat := l.cursor.size + 2

/-- Takes a comment from the front of the queue, if one is there. -/
def popComment? (l : Lexer) : Option Lexer :=
  match l.queue with
  | t :: rest => if t.isComment then some { l with queue := rest, taken := l.taken + 1 } else none
  | [] => none

/-- Takes the comments before the next token, and reads until that token is settled. -/
def gatherComments : Nat → Bool → Lexer → Except Error (Bool × Lexer)
  | 0, found, l => .ok (found, l)
  | fuel + 1, found, l => do
    let (more, l) ← l.needsMore
    if !more then return (found, l)
    let l ← l.fetch
    match l.popComment? with
    | some l => gatherComments fuel true l
    | none => gatherComments fuel found l

/-- Marks the first token of the queue as having comments before it. -/
def markCommented (l : Lexer) : Except Error Lexer :=
  match l.queue with
  | t :: rest =>
    if t.commentBefore then .error .commentClash
    else .ok { l with queue := { t with commentBefore := true } :: rest }
  | [] => .ok l

/-- Brings the next token to the front of the queue, settled and with the comments before it, and
reads one token beyond it. -/
def view (l : Lexer) : Except Error Lexer := do
  let l ← settle l.budget l
  if l.queue.isEmpty then return l
  let (found, l) := match l.popComment? with
    | some l => (true, l)
    | none => (false, l)
  let (found, l) ← gatherComments l.budget found l
  let l ← if found then l.markCommented else pure l
  if !l.done && l.queue.length < 2 then l.fetch else return l

/-- Takes the comments behind the first token out of the queue and reads on. -/
def dropFollowing : Nat → Lexer → Except Error Lexer
  | 0, l => .ok l
  | fuel + 1, l =>
    match l.queue with
    | t :: c :: rest =>
      if c.isComment then do
        dropFollowing fuel (← { l with queue := t :: rest, taken := l.taken + 1 }.fetch)
      else .ok l
    | _ => .ok l

/-- The first token of the queue with the comments behind it, and the state without it. -/
def take? (l : Lexer) : Except Error (Option (Token × Lexer)) := do
  match l.queue with
  | [] => return none
  | t :: c :: _ =>
    let follows := c.isComment &&
      if t.endMark.line == c.startMark.line then t.takesComment else t.isScalar
    let l ← if follows then dropFollowing (l.budget + l.queue.length) l else pure l
    let t := if follows then { t with commentAfter := true } else t
    return some (t, { l with queue := l.queue.tail, taken := l.taken + 1 })
  | [t] => return some (t, { l with queue := [], taken := l.taken + 1 })

end Lexer

/-- The tokens of a text: those that can be had, and what kept reading from its end. -/
structure TokenStream where
  tokens : List Token
  failure : Option Error := none
deriving Inhabited

namespace TokenStream

/-- The tokens from a state on, `seen` being those before them, last first. -/
def collect : Nat → List Token → Lexer → TokenStream
  | 0, seen, _ => { tokens := seen.reverse }
  | fuel + 1, seen, l =>
    match l.view with
    | .error e => { tokens := seen.reverse, failure := some e }
    | .ok l =>
      match l.take?, l.queue with
      | .error e, t :: _ => { tokens := (t :: seen).reverse, failure := some e }
      | .error e, [] => { tokens := seen.reverse, failure := some e }
      | .ok none, _ => { tokens := seen.reverse }
      | .ok (some (t, l)), _ =>
        if t.kind == .streamEnd then { tokens := (t :: seen).reverse }
        else collect fuel (t :: seen) l

/-- The tokens of a text. Each character yields four tokens at most. -/
def ofChars (cs : List Char) : TokenStream := collect (4 * cs.length + 16) [] (Lexer.start cs)

end TokenStream

end BusinessModel.Yaml
