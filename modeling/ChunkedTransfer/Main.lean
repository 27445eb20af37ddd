import ChunkedTransfer.Demo

/-!
# The demonstration as a program
-/

def main : IO Unit := IO.print ChunkedTransfer.Demo.transcript
