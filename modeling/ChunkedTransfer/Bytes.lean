/-!
# Bytes

Everything that is framed, buffered or sent is a list of bytes.
-/

namespace ChunkedTransfer

abbrev Bytes := List UInt8

def lineFeed : UInt8 := 10

def carriageReturn : UInt8 := 13

end ChunkedTransfer
