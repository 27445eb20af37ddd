import ChunkedTransfer.Decoder.Describe
import ChunkedTransfer.Decoder.Read
import ChunkedTransfer.Transport.Fragments

/-!
# Demonstration

Four bodies that come in fragments are decoded. What the decoder looks like is told after each read, and the
payload at the end.
-/

namespace ChunkedTransfer.Demo

/-- Reads until the body ends or fails. Gives the payload, and what is told on the way. No more than `reads` reads
are made. -/
def follow (d : Decoder Fragments) : Nat → Bytes × String
  | 0 => ([], d.describe "" ++ "\n")
  | reads + 1 =>
    let r := d.read .strict 16
    let seen := r.state.describe "" ++ "\n"
    let go := fun (payload : Bytes) =>
      let rest := follow r.state reads
      (payload ++ rest.1, seen ++ rest.2)
    match r.result with
    | .ok (.read payload) => go payload
    | .ok .pending => go []
    | .ok .ended => ([], seen)
    | .error f => ([], f.message ++ "\n" ++ seen)

/-- Decodes a body from a buffer of the given capacity. A read uses up a byte, a gap or the end of the transport,
which bounds the number of reads. -/
def decode (capacity : Nat) (fragments : List String) : String :=
  let pieces := fragments.map fun s => s.toUTF8.toList
  let source := Source.ofBuffer (Buffer.ofStorage (List.replicate capacity 0)) (Fragments.interleaved pieces)
  let r := follow (Decoder.ofSource source {}) (pieces.flatten.length + pieces.length + 1)
  let rule := "==============================="
  r.2 ++ rule ++ "\n" ++ Text.Utf8.lossy r.1 ++ "\n" ++ rule ++ "\n"

/-- All that the demonstration prints. -/
def transcript : String :=
  decode 512 ["4\r\nWiki\r\n5\r\npedia\r\n0\r\nFoo: bar\r\n\r\n"] ++
  decode 8 ["4", "\r\nWi", "ki\r\n5\r\npedia\r\n0", "\r\nFoo: bar\r", "\n\r\n"] ++
  decode 512 ["1a", ";ext=value\r\n", "abcdefghijklmnopqrstuvwxyz\r\n0\r\n\r\n"] ++
  decode 512 ["4\r\nWiki\r\nzz\r\n"]

end ChunkedTransfer.Demo
