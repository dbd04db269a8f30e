import MarkdownOutlets.Text.Utf8

/-! # Streams

  A text that is read as a stream arrives in portions of a fixed number of
  characters. Its bytes are decoded in chunks: bytes of a character that goes
  on in the next chunk are carried along, and so is a carriage return, whose
  line feed may still follow. A fault is known only when its chunk is
  decoded, and then says where in that chunk it is.
-/

namespace MarkdownOutlets

namespace Utf8

/-- A text that is being read. -/
structure Stream where
  /-- The bytes that no chunk held yet. -/
  unread : Bytes
  /-- The bytes of a character that goes on in the next chunk. -/
  carried : Bytes := []
  /-- A carriage return at the end of the last chunk waits for the next
      one. -/
  heldReturn : Bool := false
  /-- The characters that were decoded and not handed out yet. -/
  ready : Text := []
  /-- How many bytes and characters the last chunk had. -/
  density : Nat × Nat := (0, 1)
  deriving DecidableEq, Repr

namespace Stream

/-- Least number of bytes of a chunk. -/
def chunkSize : Nat := 8192

/-- Number of characters of a portion. -/
def portionSize : Nat := 4096

/-- The bytes at the end of a chunk may become a character. Those of the
    first half of a pair are not refused before the next chunk either. -/
def isUnfinished (fault : Fault) (rest : Bytes) : Bool :=
  fault.reason = .unexpectedEnd
    || match rest with
      | [0xed, b] => isTail b
      | _ => false

/-- The text of the bytes of a chunk, and the bytes of a character that has
    not ended. -/
def decodeChunk (bytes : Bytes) : Except Fault (Text × Bytes) :=
  match decode bytes with
  | .ok t => .ok (t, [])
  | .error fault =>
    let rest := bytes.drop fault.start
    if isUnfinished fault rest then
      (decode (bytes.take fault.start)).map fun t => (t, rest)
    else .error fault

/-- The text without a carriage return at its end, and whether there was
    one. -/
def holdReturn (t : Text) : Text × Bool :=
  match t.getLast? with
  | some '\r' => (t.dropLast, true)
  | _ => (t, false)

/-- The stream after one more chunk, when so many characters are wanted. A
    chunk is greater where characters take many bytes. -/
def readChunk (s : Stream) (wanted : Nat) : Except Fault Stream := do
  let size := max chunkSize (s.density.1 * wanted / s.density.2)
  let chunk := s.unread.take size
  let (t, carried) ← decodeChunk (s.carried ++ chunk)
  let (t, heldReturn) := holdReturn (if s.heldReturn && t ≠ [] then '\r' :: t else t)
  let t := t.unifyNewlines
  return {
    unread := s.unread.drop size
    carried
    heldReturn := heldReturn || (s.heldReturn && t = [])
    ready := s.ready ++ t
    density := (chunk.length, max 1 t.length) }

/-- The stream after its last chunk. -/
def finish (s : Stream) : Except Fault Stream := do
  let t ← decode s.carried
  let rest := if s.heldReturn then '\n' :: t else t
  return { unread := [], ready := s.ready ++ rest }

/-- The next portion, and the stream behind it. Every chunk takes bytes, so
    their number is enough fuel. -/
def readPortion : (fuel : Nat) → Stream → Except Fault (Text × Stream)
  | 0, s => .ok (s.ready.take portionSize, { s with ready := s.ready.drop portionSize })
  | fuel + 1, s =>
    if portionSize ≤ s.ready.length then
      .ok (s.ready.take portionSize, { s with ready := s.ready.drop portionSize })
    else if s.unread = [] then do
      let s ← s.finish
      return (s.ready.take portionSize, { s with ready := s.ready.drop portionSize })
    else do
      let s ← s.readChunk (portionSize - s.ready.length)
      readPortion fuel s

/-- The portions up to the end or to a fault. Every portion but the last one
    takes bytes. -/
def portions : (fuel : Nat) → Stream → List Text × Option Fault
  | 0, _ => ([], none)
  | fuel + 1, s =>
    match readPortion (s.unread.length + 1) s with
    | .error fault => ([], some fault)
    | .ok ([], _) => ([], none)
    | .ok (portion, s) =>
      let (rest, fault) := portions fuel s
      (portion :: rest, fault)

/-- The text that a reader of some bytes can know before it meets a fault,
    and the fault. The first two portions are read before anything is looked
    at. -/
def beforeFault (bytes : Bytes) : Text × Option Fault :=
  match portions (bytes.length + 2) { unread := bytes } with
  | ([_], some fault) => ([], some fault)
  | (known, fault) => (known.flatten, fault)

end Stream

end Utf8

end MarkdownOutlets
