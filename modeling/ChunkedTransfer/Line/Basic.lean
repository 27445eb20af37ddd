import ChunkedTransfer.Buffer.Basic
import ChunkedTransfer.Dialect
import ChunkedTransfer.FramingError

/-!
# Lines

A line is framed piece by piece, as its bytes come into a buffer. It ends with a carriage return and a line feed.
The carriage return is kept in the line until its line feed is seen, so that it does not matter between which
bytes the pieces are cut.
-/

namespace ChunkedTransfer

inductive LineState
  /-- No byte of the line was seen. -/
  | idle
  /-- Bytes were seen, but not the end of the line. -/
  | accumulating
  /-- The end of the line was seen and dropped. -/
  | complete
  deriving DecidableEq, Repr, Inhabited

def LineState.name : LineState → String
  | idle => "Idle"
  | accumulating => "Accumulating"
  | complete => "Complete"

structure Line where
  content : Bytes := []
  state : LineState := .idle
  deriving DecidableEq, Repr, Inhabited

namespace Line

/-- Appends bytes in which the line does not end. -/
def extend (l : Line) (bs : Bytes) : Line where
  content := l.content ++ bs
  state := if l.content ++ bs = [] then l.state else .accumulating

/-- Ends the line after the given bytes. The line feed itself is not among them. -/
def finish (δ : Dialect) (l : Line) (bs : Bytes) : Except FramingError Unit × Line :=
  let content := l.content ++ bs
  if content.getLast? = some carriageReturn then (.ok (), ⟨content.dropLast, .complete⟩)
  else if δ.allowsBareLineFeed then (.ok (), ⟨content, .complete⟩)
  else (.error .bareLineFeed, ⟨content, l.state⟩)

/-- The length that is held against the limit. A carriage return that may belong to the end of the line does not
count. -/
def countedLength (l : Line) : Nat :=
  if l.state = .accumulating ∧ l.content.getLast? = some carriageReturn then l.content.length - 1
  else l.content.length

/-- The state of the line, if it is within the limit. -/
def checked (l : Line) (limit : Nat) : Except FramingError LineState :=
  if limit < l.countedLength then .error (.lineTooLong l.countedLength limit) else .ok l.state

/-- What becomes of a line and of a buffer when bytes of the buffer are moved into the line. -/
structure Absorbed where
  result : Except FramingError LineState
  line : Line
  buffer : Buffer
  /-- The bytes that were taken out of the buffer. -/
  taken : Bytes

/-- Moves the data of the buffer into the line, up to the first line feed. Nothing is moved into a line that is
complete. -/
def absorb (δ : Dialect) (limit : Nat) (l : Line) (b : Buffer) : Absorbed :=
  if l.state = .complete then ⟨.ok .complete, l, b, []⟩
  else
    let front := b.data.takeWhile (· != lineFeed)
    if front.length < b.data.length then
      let r := l.finish δ front
      let taken := front ++ [lineFeed]
      ⟨r.1.bind fun _ => r.2.checked limit, r.2, (b.consume taken.length).2, taken⟩
    else
      let l := l.extend front
      ⟨l.checked limit, l, (b.consume front.length).2, front⟩

end Line

end ChunkedTransfer
