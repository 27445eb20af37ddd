import ChunkedTransfer.Buffer.Basic
import ChunkedTransfer.Text.Block
import ChunkedTransfer.Text.Quoted
import ChunkedTransfer.Text.Utf8

/-!
# Descriptions of buffers

A buffer is shown by its indices, its data as text, and a meter: a bar as long as the storage, filled where the
data lies, with a mark in the middle.
-/

namespace ChunkedTransfer.Buffer

/-- The meter with `half` cells on each side of the mark. -/
def meter (b : Buffer) (half : Nat) : String :=
  let width := half * 2 + 1
  let scale := max b.capacity 1
  let cell := fun i =>
    if i = half then ':'
    else if i < b.start * width / scale then ' '
    else if i < b.stop * width / scale then '█'
    else ' '
  String.ofList ('[' :: (List.range width).map cell ++ [']'])

/-- The description of the buffer, each line after the first behind `pad`. -/
def describe (b : Buffer) (pad : String) : String :=
  Text.block pad "Buffer" [
    ("start", toString b.start),
    ("end", toString b.stop),
    ("view", b.meter 20),
    ("data", Text.Quoted.encode ((Text.Utf8.text? b.data).getD "[ERROR::UTF8]"))]

end ChunkedTransfer.Buffer
