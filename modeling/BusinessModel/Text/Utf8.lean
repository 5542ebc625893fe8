import BusinessModel.Text.Quoted

/-!
Texts from bytes in UTF-8. The first bytes that cannot be read are reported with the reason.
-/

namespace BusinessModel.Text

/-- Bytes that are no text: where they begin, the bytes themselves, and why. -/
structure Utf8Error where
  position : Nat
  bytes : List UInt8
  reason : String
deriving DecidableEq, Repr

/-- The report on bytes that are no text. -/
def Utf8Error.message (e : Utf8Error) : String :=
  let place := match e.bytes with
    | [b] =>
      "byte 0x" ++ String.ofList (hexDigits 2 b.toNat) ++ " in position " ++ natText e.position
    | bs => "bytes in position " ++ natText e.position ++ "-" ++
        natText (e.position + bs.length - 1)
  "'utf-8' codec can't decode " ++ place ++ ": " ++ e.reason

/-- A byte that continues a character. -/
def isContinuation (b : UInt8) : Bool := 0x80 ≤ b && b ≤ 0xBF

/-- The number of bytes behind a first byte, the bits it holds, and the range of the byte behind
it; `none` for a byte that starts nothing. -/
def leadByte? (b : UInt8) : Option (Nat × Nat × UInt8 × UInt8) :=
  if 0xC2 ≤ b && b ≤ 0xDF then some (1, b.toNat - 0xC0, 0x80, 0xBF)
  else if b == 0xE0 then some (2, 0, 0xA0, 0xBF)
  else if b == 0xED then some (2, 0xD, 0x80, 0x9F)
  else if 0xE1 ≤ b && b ≤ 0xEF then some (2, b.toNat - 0xE0, 0x80, 0xBF)
  else if b == 0xF0 then some (3, 0, 0x90, 0xBF)
  else if b == 0xF4 then some (3, 4, 0x80, 0x8F)
  else if 0xF1 ≤ b && b ≤ 0xF3 then some (3, b.toNat - 0xF0, 0x80, 0xBF)
  else none

/-- The bytes at the start that continue a character of `count` more bytes, the first of them in a
range of its own. -/
def continuationBytes (count : Nat) (low high : UInt8) (bytes : List UInt8) : List UInt8 :=
  match bytes with
  | [] => []
  | b :: rest =>
    if low ≤ b && b ≤ high then b :: (rest.take (count - 1)).takeWhile isContinuation else []

/-- The characters of the bytes from a position on; `seen` are those before them, last first. -/
def decodeFrom : Nat → Nat → List Char → List UInt8 → Except Utf8Error (List Char)
  | 0, _, seen, _ => .ok seen.reverse
  | _, _, seen, [] => .ok seen.reverse
  | fuel + 1, position, seen, b :: rest =>
    if b < 0x80 then decodeFrom fuel (position + 1) (Char.ofNat b.toNat :: seen) rest
    else
      match leadByte? b with
      | none => .error ⟨position, [b], "invalid start byte"⟩
      | some (count, bits, low, high) =>
        let more := continuationBytes count low high rest
        if more.length == count then
          let code := more.foldl (fun n c => 64 * n + (c.toNat - 0x80)) bits
          decodeFrom fuel (position + 1 + count) (Char.ofNat code :: seen) (rest.drop count)
        else if more.length == rest.length then
          .error ⟨position, b :: more, "unexpected end of data"⟩
        else .error ⟨position, b :: more, "invalid continuation byte"⟩

/-- The text of bytes in UTF-8. -/
def decodeUtf8 (bytes : List UInt8) : Except Utf8Error String :=
  (decodeFrom bytes.length 0 [] bytes).map String.ofList

/-- The characters with every line end written as a line feed. -/
def unifyLines : List Char → List Char
  | '\r' :: '\n' :: rest => '\n' :: unifyLines rest
  | '\r' :: rest => '\n' :: unifyLines rest
  | c :: rest => c :: unifyLines rest
  | [] => []

end BusinessModel.Text
