import ChunkedTransfer.Bytes

/-!
# Line parsers

A parser reads a value from the front of a line and leaves the bytes that it did not use. It never gives back what
it has taken: `run` takes the longest front of bytes in a class, so that there is one way at most to read a line.
-/

namespace ChunkedTransfer

/-- What a parser looked for where it failed. -/
inductive Expected
  | hexDigit
  | tokenByte
  | separator
  | lineEnd
  deriving DecidableEq, Repr, Inhabited

/-- What was looked for, and the part of the line where it was not found. -/
structure ParseError where
  expected : Expected
  rest : Bytes
  deriving DecidableEq, Repr, Inhabited

def Parser (α : Type) : Type := Bytes → Except ParseError (α × Bytes)

namespace Parser

/-- The longest front of bytes in the class `p`. -/
def run (p : UInt8 → Bool) : Parser Bytes := fun s =>
  .ok (s.takeWhile p, s.dropWhile p)

/-- The longest front of bytes in the class `p`, which is not empty. -/
def run1 (p : UInt8 → Bool) (expected : Expected) : Parser Bytes := fun s =>
  if (s.takeWhile p).isEmpty then .error ⟨expected, s⟩ else run p s

/-- The single byte `b`. -/
def byte (b : UInt8) : Parser Unit
  | [] => .error ⟨.separator, []⟩
  | c :: s => if c = b then .ok ((), s) else .error ⟨.separator, c :: s⟩

def lineEnd : Parser Unit
  | [] => .ok ((), [])
  | c :: s => .error ⟨.lineEnd, c :: s⟩

/-- Takes all that is left. -/
def rest : Parser Bytes := fun s => .ok (s, [])

protected def pure {α : Type} (a : α) : Parser α := fun s => .ok (a, s)

protected def bind {α β : Type} (p : Parser α) (f : α → Parser β) : Parser β := fun s =>
  match p s with
  | .ok (a, s') => f a s'
  | .error e => .error e

instance : Monad Parser where
  pure := Parser.pure
  bind := Parser.bind

/-- Tries `p`, then `q` at the same place. If both fail the error is that of `q`. -/
def orElse {α : Type} (p q : Parser α) : Parser α := fun s =>
  match p s with
  | .ok r => .ok r
  | .error _ => q s

@[simp] theorem pure_apply {α : Type} (a : α) (s : Bytes) : (Pure.pure a : Parser α) s = .ok (a, s) := rfl

theorem bind_apply {α β : Type} (p : Parser α) (f : α → Parser β) (s : Bytes) :
    (p >>= f) s = match p s with
      | .ok (a, s') => f a s'
      | .error e => .error e := rfl

end Parser

/-- Spaces and tabs. -/
def isBlank (b : UInt8) : Bool := b == 32 || b == 9

end ChunkedTransfer
