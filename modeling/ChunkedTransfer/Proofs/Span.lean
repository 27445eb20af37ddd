import ChunkedTransfer.Proofs.Destination

/-!
# Spans

A span is a storage with two places in it, of which nothing is known. Its operations look at bytes only through slices,
and there is no slice from one place to another unless they come in this order and lie within what is sliced. An
operation that asks for a slice which does not exist gives nothing, and so does one that takes a greater place from a
smaller one.

A buffer is a span whose places are in order. On such a span every operation finds all the slices that it asks for, and
comes to the same as the operation of the buffer (`Buffer.write?_toSpan` and the others of its kind).
-/

namespace ChunkedTransfer

/-- The number of bytes from one place up to another, if they come in this order. -/
def distance? (i j : Nat) : Option Nat := if i ≤ j then some (j - i) else none

/-- The bytes from one place up to another, if there is such a slice. -/
def slice? (bs : Bytes) (i j : Nat) : Option Bytes :=
  if i ≤ j ∧ j ≤ bs.length then some ((bs.take j).drop i) else none

/-- Copies bytes over a slice, if there is one and it has their length. -/
def copyOver? (bs : Bytes) (i j : Nat) (src : Bytes) : Option Bytes :=
  if i ≤ j ∧ j ≤ bs.length ∧ src.length = j - i then some (bs.take i ++ src ++ bs.drop j) else none

/-- Copies a slice to the place `k`. It is read before anything is written, so that the two may overlap. -/
def copyWithin? (bs : Bytes) (i j k : Nat) : Option Bytes := do
  let src ← slice? bs i j
  copyOver? bs k (k + src.length) src

structure Span where
  storage : Bytes
  start : Nat := 0
  stop : Nat := 0
  deriving DecidableEq, Repr

namespace Span

def available? (s : Span) : Option Nat := distance? s.start s.stop

def space? (s : Span) : Option Nat := distance? s.stop s.storage.length

def data? (s : Span) : Option Bytes := slice? s.storage s.start s.stop

def fill? (s : Span) (n : Nat) : Option (Nat × Span) := do
  let space ← s.space?
  return (min n space, { s with stop := s.stop + min n space })

def consume? (s : Span) (n : Nat) : Option (Nat × Span) := do
  let available ← s.available?
  return (min n available, { s with start := s.start + min n available })

def clear (s : Span) : Span where
  storage := s.storage

def shift? (s : Span) : Option (Nat × Span) :=
  if 0 < s.start then do
    let storage ← copyWithin? s.storage s.start s.stop 0
    let stop ← distance? s.start s.stop
    return (s.start, { storage, stop })
  else
    some (s.start, s)

/-- Copies what fits over the front of the space. -/
def put? (s : Span) (bs : Bytes) : Option Span := do
  let space ← slice? s.storage s.stop s.storage.length
  let src ← slice? bs 0 (min bs.length space.length)
  let storage ← copyOver? s.storage s.stop (s.stop + src.length) src
  return { s with storage }

def write? (s : Span) (bs : Bytes) : Option (Nat × Span) := do
  let space ← s.space?
  let src ← slice? bs 0 (min bs.length space)
  let storage ← copyOver? s.storage s.stop (s.stop + min bs.length space) src
  fill? { s with storage } (min bs.length space)

/-- Writes until nothing is left to be written. It is a fault if something is left and none of it fits. -/
def writeAll? (s : Span) (bs : Bytes) : Option (Except Fault Unit × Span) :=
  if _h : bs = [] then some (.ok (), s)
  else
    match s.write? bs with
    | none => none
    | some (0, s) => some (.error .storageFull, s)
    | some (n + 1, s) => s.writeAll? (bs.drop (n + 1))
termination_by bs.length
decreasing_by
  have := List.length_pos_iff.2 _h
  simp only [List.length_drop]
  omega

/-- Copies data to the front of the destination and drops it. -/
def readInto? (s : Span) (dst : Bytes) : Option ((Nat × Bytes) × Span) := do
  let available ← s.available?
  let data ← s.data?
  let src ← slice? data 0 (min available dst.length)
  let dst' ← copyOver? dst 0 (min available dst.length) src
  return ((min available dst.length, dst'), { s with start := s.start + min available dst.length })

end Span

/-! ### Slices that exist -/

private theorem distance?_of_le {i j : Nat} (h : i ≤ j) : distance? i j = some (j - i) := if_pos h

private theorem slice?_of_le {bs : Bytes} {i j : Nat} (h : i ≤ j) (hj : j ≤ bs.length) :
    slice? bs i j = some ((bs.take j).drop i) := if_pos ⟨h, hj⟩

/-- The slice at the front is what is taken from there. -/
private theorem slice?_zero {bs : Bytes} {n : Nat} (h : n ≤ bs.length) : slice? bs 0 n = some (bs.take n) := by
  rw [slice?_of_le (Nat.zero_le n) h, List.drop_zero]

private theorem copyOver?_of_le {bs src : Bytes} {i n : Nat} (h : i + n ≤ bs.length) (hn : src.length = n) :
    copyOver? bs i (i + n) src = some (bs.take i ++ src ++ bs.drop (i + n)) := by
  unfold copyOver?
  rw [if_pos]
  refine ⟨?_, h, ?_⟩ <;> omega

/-- Over the front of a destination fits what is not longer. -/
private theorem copyOver?_front {dst src : Bytes} {n : Nat} (h : n ≤ dst.length) (hn : src.length = n) :
    copyOver? dst 0 n src = some (overwrite dst src) := by
  have hcopy := copyOver?_of_le (show 0 + n ≤ dst.length by omega) hn
  rw [Nat.zero_add] at hcopy
  rw [hcopy, overwrite, hn, List.take_zero, List.nil_append]

/-! ### Buffers as spans -/

namespace Buffer

def toSpan (b : Buffer) : Span := ⟨b.storage, b.start, b.stop⟩

theorem toSpan_injective : Function.Injective toSpan := by
  intro b c h
  cases b
  cases c
  simpa [toSpan] using h

private theorem available?_toSpan (b : Buffer) : b.toSpan.available? = some b.available :=
  distance?_of_le b.start_le_stop

theorem space?_toSpan (b : Buffer) : b.toSpan.space? = some b.space := distance?_of_le b.stop_le_length

theorem data?_toSpan (b : Buffer) : b.toSpan.data? = some b.data := slice?_of_le b.start_le_stop b.stop_le_length

theorem fill?_toSpan (b : Buffer) (n : Nat) : b.toSpan.fill? n = some ((b.fill n).1, (b.fill n).2.toSpan) := by
  simp only [Span.fill?, space?_toSpan]
  rfl

theorem consume?_toSpan (b : Buffer) (n : Nat) :
    b.toSpan.consume? n = some ((b.consume n).1, (b.consume n).2.toSpan) := by
  simp only [Span.consume?, available?_toSpan]
  rfl

theorem clear_toSpan (b : Buffer) : b.toSpan.clear = b.clear.toSpan := rfl

theorem shift?_toSpan (b : Buffer) : b.toSpan.shift? = some (b.shift.1, b.shift.2.toSpan) := by
  have hs := b.start_le_stop
  have hl := b.stop_le_length
  by_cases h : 0 < b.start
  · have hslice : slice? b.storage b.start b.stop = some b.data := slice?_of_le hs hl
    have hroom : 0 + b.data.length ≤ b.storage.length := by
      rw [b.length_data, available]
      omega
    have hcopy := copyOver?_of_le hroom (rfl : b.data.length = b.data.length)
    simp only [Span.shift?, toSpan, if_pos h, copyWithin?, hslice, Option.bind_eq_bind, Option.bind_some, hcopy,
      distance?_of_le hs]
    simp [shift, available, b.length_data]
  · -- Data that lies at the front already stays where it is.
    have h0 : b.start = 0 := by omega
    have hstorage : b.data ++ b.storage.drop b.available = b.storage := by
      simp [data, available, h0]
    simp only [Span.shift?, toSpan, shift, hstorage]
    simp [available, h0]

/-- What is copied over the front of the space is what fits. -/
private theorem copyOver?_space (b : Buffer) (bs : Bytes) :
    copyOver? b.storage b.stop (b.stop + min bs.length b.space) (bs.take (min bs.length b.space)) =
      some (b.put bs).storage := by
  have hl := b.stop_le_length
  have hlength : (bs.take (min bs.length b.space)).length = min bs.length b.space := by simp
  have hcount : (bs.take b.space).length = min bs.length b.space := by simp [Nat.min_comm]
  have htake : bs.take (min bs.length b.space) = bs.take b.space := by
    rw [Nat.min_comm, ← List.take_take, List.take_length]
  have hroom : b.stop + min bs.length b.space ≤ b.storage.length := by
    simp only [space, capacity]
    omega
  rw [copyOver?_of_le hroom hlength, htake]
  simp only [put, hcount]

theorem put?_toSpan (b : Buffer) (bs : Bytes) : b.toSpan.put? bs = some (b.put bs).toSpan := by
  have hspace : slice? b.storage b.stop b.storage.length = some (b.storage.drop b.stop) := by
    rw [slice?_of_le b.stop_le_length (Nat.le_refl _), List.take_length]
  have hlength : (b.storage.drop b.stop).length = b.space := List.length_drop
  have hsrc := slice?_zero (Nat.min_le_left bs.length b.space)
  have htaken : (bs.take (min bs.length b.space)).length = min bs.length b.space := by simp
  simp only [Span.put?, toSpan, hspace, Option.bind_eq_bind, Option.bind_some, hlength, hsrc, htaken,
    b.copyOver?_space bs]
  rfl

theorem write?_toSpan (b : Buffer) (bs : Bytes) :
    b.toSpan.write? bs = some ((b.write bs).1, (b.write bs).2.toSpan) := by
  have hsrc := slice?_zero (Nat.min_le_left bs.length b.space)
  have hfill := (b.put bs).fill?_toSpan (min bs.length b.space)
  have hcount : (b.put bs).fill (min bs.length b.space) = b.write bs := by
    simp only [write, fill, space_put, Nat.min_assoc, Nat.min_self]
  rw [hcount] at hfill
  simp only [Span.write?, b.space?_toSpan, Option.bind_eq_bind, Option.bind_some, hsrc]
  rw [toSpan, b.copyOver?_space bs, Option.bind_some]
  exact hfill

theorem fst_write (b : Buffer) (bs : Bytes) : (b.write bs).1 = min bs.length b.space := by
  change min bs.length (b.put bs).space = _
  rw [space_put]

theorem space_fill (b : Buffer) (n : Nat) : (b.fill n).2.space = b.space - n := by
  simp only [fill, space, capacity]
  omega

private theorem space_write (b : Buffer) (bs : Bytes) : (b.write bs).2.space = b.space - bs.length := by
  rw [write, space_fill, space_put]

/-- A write that finds no room, or nothing to write, leaves the buffer as it is. -/
private theorem write_eq_self {b : Buffer} {bs : Bytes} (h : min bs.length b.space = 0) : (b.write bs).2 = b := by
  apply toSpan_injective
  have htake : bs.take b.space = [] := by
    rw [← List.length_eq_zero_iff, List.length_take, Nat.min_comm, h]
  simp [write, fill, put, toSpan, htake, h]

private theorem writeAll?_of_no_space {b : Buffer} (h : b.space = 0) {bs : Bytes} (hb : bs ≠ []) :
    b.toSpan.writeAll? bs = some (.error .storageFull, b.toSpan) := by
  have hmin : min bs.length b.space = 0 := by omega
  rw [Span.writeAll?, dif_neg hb, write?_toSpan, fst_write, write_eq_self hmin, hmin]

theorem writeAll?_toSpan (b : Buffer) (bs : Bytes) :
    b.toSpan.writeAll? bs = some ((b.writeAll bs).1, (b.writeAll bs).2.toSpan) := by
  by_cases hb : bs = []
  · subst hb
    rw [Span.writeAll?, dif_pos rfl, writeAll, write_eq_self (by simp)]
    rfl
  · have hpos := List.length_pos_iff.2 hb
    by_cases hspace : b.space = 0
    · have hmin : min bs.length b.space = 0 := by omega
      rw [writeAll?_of_no_space hspace hb, writeAll, if_neg (by omega), write_eq_self hmin]
    · -- The first write takes what fits, and the second finds nothing to write or no room.
      obtain ⟨n, hn⟩ : ∃ n, min bs.length b.space = n + 1 := ⟨min bs.length b.space - 1, by omega⟩
      have hstep : b.toSpan.writeAll? bs = (b.write bs).2.toSpan.writeAll? (bs.drop (n + 1)) := by
        rw [Span.writeAll?, dif_neg hb, write?_toSpan, fst_write, hn]
      rw [hstep, writeAll]
      by_cases hfits : bs.length ≤ b.space
      · have hrest : bs.drop (n + 1) = [] := List.drop_of_length_le (by omega)
        rw [hrest, Span.writeAll?, dif_pos rfl, if_pos hfits]
      · have hrest : bs.drop (n + 1) ≠ [] := by
          rw [← List.length_pos_iff, List.length_drop]
          omega
        have hfull : (b.write bs).2.space = 0 := by
          rw [space_write]
          omega
        rw [writeAll?_of_no_space hfull hrest, if_neg hfits]

theorem readInto?_toSpan (b : Buffer) (dst : Bytes) :
    b.toSpan.readInto? dst = some ((b.readInto dst).1, (b.readInto dst).2.toSpan) := by
  have hle : min b.available dst.length ≤ b.data.length := by
    rw [b.length_data]
    exact Nat.min_le_left ..
  have htaken : (b.data.take (min b.available dst.length)).length = min b.available dst.length := by
    rw [List.length_take]
    omega
  have hcopy := copyOver?_front (Nat.min_le_right b.available dst.length) htaken
  simp only [Span.readInto?, b.available?_toSpan, b.data?_toSpan, Option.bind_eq_bind, Option.bind_some,
    slice?_zero hle, hcopy]
  have hmin : min (min b.available dst.length) b.available = min b.available dst.length := by omega
  simp only [readInto, consume, toSpan, hmin]
  rfl

end Buffer

end ChunkedTransfer
