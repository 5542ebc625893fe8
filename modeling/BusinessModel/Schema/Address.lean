import BusinessModel.Text.Utf8
import BusinessModel.Text.Digit

/-!
Addresses of schemas: their parts, the address that a relative one means seen from another, and the
part behind the number sign, which points into a schema.
-/

namespace BusinessModel

/-- The parts of an address. Parts that are absent are empty. -/
structure Address where
  scheme : List Char := []
  host : List Char := []
  path : List Char := []
  query : List Char := []
  fragment : List Char := []
deriving DecidableEq, Repr, Inhabited

namespace Address

/-- The characters before the first occurrence of `c`, and those behind it if there is one. -/
def cut (c : Char) : List Char → List Char × Option (List Char)
  | [] => ([], none)
  | d :: rest =>
    if d == c then ([], some rest)
    else
      let (before, after) := cut c rest
      (d :: before, after)

/-- A character that the name of a scheme may hold. -/
def isSchemeChar (c : Char) : Bool := c.isAlphanum || c == '+' || c == '-' || c == '.'

/-- The scheme at the front, in small letters, and the rest. -/
def splitScheme (cs : List Char) : List Char × List Char :=
  match cut ':' cs with
  | (name, some rest) =>
    if name.head?.any Char.isAlpha && name.all isSchemeChar then (name.map Char.toLower, rest)
    else ([], cs)
  | (_, none) => ([], cs)

/-- The parts of an address. Controls and blanks in front of it do not belong to it, nor do tabs and
line ends anywhere. -/
def ofChars (cs : List Char) : Address :=
  let cs := (cs.dropWhile (·.toNat ≤ 32)).filter fun c => c != '\t' && c != '\n' && c != '\r'
  let (scheme, cs) := splitScheme cs
  let (host, cs) := match cs with
    | '/' :: '/' :: rest =>
      let host := rest.takeWhile fun c => c != '/' && c != '?' && c != '#'
      (host, rest.drop host.length)
    | _ => ([], cs)
  let (cs, fragment) := cut '#' cs
  let (path, query) := cut '?' cs
  { scheme, host, path, query := query.getD [], fragment := fragment.getD [] }

/-- Schemes whose addresses name a host; addresses without a scheme may. -/
def hostSchemes : List String :=
  ["", "ftp", "http", "gopher", "nntp", "telnet", "imap", "wais", "file", "mms", "https", "shttp",
   "snews", "prospero", "rtsp", "rtspu", "rsync", "svn", "svn+ssh", "sftp", "nfs", "git",
   "git+ssh", "ws", "wss"]

/-- Schemes for which an address can be relative to another. -/
def relativeSchemes : List String :=
  ["", "ftp", "http", "gopher", "nntp", "imap", "wais", "file", "https", "shttp", "mms",
   "prospero", "rtsp", "rtspu", "sftp", "svn", "svn+ssh", "ws", "wss"]

/-- The written address. -/
def toChars (a : Address) : List Char :=
  let named := hostSchemes.contains (String.ofList a.scheme)
  let cs :=
    if !a.host.isEmpty || (!a.scheme.isEmpty && named && a.path.take 2 != ['/', '/']) then
      let path := if !a.path.isEmpty && a.path.head? != some '/' then '/' :: a.path else a.path
      '/' :: '/' :: a.host ++ path
    else a.path
  (if a.scheme.isEmpty then [] else a.scheme ++ [':']) ++ cs
    ++ (if a.query.isEmpty then [] else '?' :: a.query)
    ++ (if a.fragment.isEmpty then [] else '#' :: a.fragment)

/-- The pieces of a path between slashes, one at least. -/
def pathPieces : List Char → List (List Char)
  | [] => [[]]
  | c :: rest =>
    match pathPieces rest with
    | piece :: pieces => if c == '/' then [] :: piece :: pieces else (c :: piece) :: pieces
    | [] => [[c]]

/-- The list without its empty members, apart from the first and the last. -/
def dropInnerEmpty (pieces : List (List Char)) : List (List Char) :=
  match pieces with
  | first :: rest =>
    match rest.reverse with
    | last :: inner => first :: (inner.reverse.filter (!·.isEmpty)) ++ [last]
    | [] => [first]
  | [] => []

/-- Follows the steps of a path: one dot stays, two dots go up. -/
def followDots (pieces : List (List Char)) : List (List Char) :=
  let kept := pieces.foldl (fun acc piece =>
    if piece == ['.', '.'] then acc.drop 1 else if piece == ['.'] then acc else piece :: acc) []
  let kept := kept.reverse
  match pieces.getLast? with
  | some last => if last == ['.'] || last == ['.', '.'] then kept ++ [[]] else kept
  | none => kept

/-- The path that a relative one means, seen from a base path. -/
def joinPaths (base path : List Char) : List Char :=
  let pieces :=
    if path.head? == some '/' then pathPieces path
    else
      let front := pathPieces base
      let front := if front.getLast? == some [] then front else front.dropLast
      dropInnerEmpty (front ++ pathPieces path)
  let path := ['/'].intercalate (followDots pieces)
  if path.isEmpty then ['/'] else path

/-- The address that `text` means, seen from the address `base`. -/
def join (base text : String) : String :=
  if base.isEmpty then text
  else if text.isEmpty then base
  else
    let b := ofChars base.toList
    let a := ofChars text.toList
    let a := if a.scheme.isEmpty then { a with scheme := b.scheme } else a
    let scheme := String.ofList a.scheme
    if a.scheme != b.scheme || !relativeSchemes.contains scheme then text
    else if hostSchemes.contains scheme && !a.host.isEmpty then String.ofList a.toChars
    else
      let a := if hostSchemes.contains scheme then { a with host := b.host } else a
      let a :=
        if a.path.isEmpty then
          { a with path := b.path, query := if a.query.isEmpty then b.query else a.query }
        else { a with path := joinPaths b.path a.path }
      String.ofList a.toChars

/-- An address without the part behind the number sign, and that part. -/
def splitFragment (text : String) : String × String :=
  if text.toList.contains '#' then
    let a := ofChars text.toList
    (String.ofList { a with fragment := [] }.toChars, String.ofList a.fragment)
  else (text, "")

/-- The text without the number signs at its end. -/
def dropHashes (text : String) : String :=
  String.ofList (text.toList.reverse.dropWhile (· == '#')).reverse

/-- The bytes of a character. -/
def bytesOf (c : Char) : List UInt8 := (String.singleton c).toUTF8.toList

/-- The bytes of a text in which a percent sign and two hexadecimal digits stand for a byte. -/
def percentBytes : List Char → List UInt8
  | c :: a :: b :: rest =>
    match c == '%', Text.hexValue? a, Text.hexValue? b with
    | true, some x, some y => UInt8.ofNat (16 * x + y) :: percentBytes rest
    | _, _, _ => bytesOf c ++ percentBytes (a :: b :: rest)
  | c :: rest => bytesOf c ++ percentBytes rest
  | [] => []

/-- The text that bytes write; what cannot be read becomes the replacement character. -/
def lenientText : Nat → List UInt8 → List Char
  | 0, _ => []
  | fuel + 1, bytes =>
    match Text.decodeUtf8 bytes with
    | .ok s => s.toList
    | .error e =>
      let before := match Text.decodeUtf8 (bytes.take e.position) with
        | .ok s => s.toList
        | .error _ => []
      before ++ Char.ofNat 0xFFFD :: lenientText fuel (bytes.drop (e.position + e.bytes.length))

/-- The text in which a percent sign and two hexadecimal digits stand for a byte. -/
def unquote (text : String) : String :=
  let bytes := percentBytes text.toList
  String.ofList (lenientText (bytes.length + 1) bytes)

end Address

end BusinessModel
