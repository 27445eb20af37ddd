import ChunkedTransfer.Decoder.Basic
import ChunkedTransfer.Proofs.Framing

/-!
# Scanning a body

A body read byte by byte, without buffers, transports or destinations. A scan is in the same place after the same
bytes whatever the pieces they come in (`Scan.feed_append`), and it stays where it is once it has refused a byte
(`Scan.feed_of_rejected`). No byte belongs to a body that is complete, so that nothing follows it unnoticed.

A line is scanned as it is framed: the bytes that leave it open, complete it or break it do the same to the scan
(`Scan.feed_of_framing`).
-/

namespace ChunkedTransfer

structure Scan where
  phase : PhaseMarker := .size
  /-- A byte was refused in this phase. -/
  rejected : Bool := false
  /-- The bytes of the line that is read. -/
  line : Bytes := []
  /-- How many bytes of payload the chunk still has. -/
  remaining : Nat := 0
  /-- The payload that was read. -/
  payload : Bytes := []
  /-- How many trailer lines were read. -/
  trailers : Nat := 0
  deriving DecidableEq, Repr

namespace Scan

def reject (s : Scan) : Scan := { s with rejected := true, line := [] }

def acceptSizeLine (limits : Limits) (s : Scan) (line : Bytes) : Scan :=
  match (SizeLine.size line).bind (limits.accept s.payload.length.toUInt64) with
  | .error _ => s.reject
  | .ok size => { s with line := [], remaining := size.toNat, phase := if size = 0 then .trailers else .data }

def acceptTerminator (s : Scan) (line : Bytes) : Scan :=
  if line = [] then { s with line := [], phase := .size } else s.reject

def acceptTrailerLine (s : Scan) (line : Bytes) : Scan :=
  if line = [] then { s with line := [], phase := .terminated }
  else { s with line := [], trailers := s.trailers + 1 }

/-- Reads a byte of a line, and goes on with `accept` once the line is complete. -/
def lineByte (δ : Dialect) (limit : Nat) (accept : Scan → Bytes → Scan) (s : Scan) (b : UInt8) : Scan :=
  if b = lineFeed then
    match δ.content? s.line with
    | some content => if content.length ≤ limit then accept s content else s.reject
    | none => s.reject
  else if framedLength (s.line ++ [b]) ≤ limit then { s with line := s.line ++ [b] }
  else s.reject

def step (δ : Dialect) (limits : Limits) (s : Scan) (b : UInt8) : Scan :=
  if s.rejected then s
  else
    match s.phase with
    | .size => s.lineByte δ limits.chunkLine (acceptSizeLine limits) b
    | .data =>
      if 0 < s.remaining then { s with remaining := s.remaining - 1, payload := s.payload ++ [b] }
      else s.lineByte δ limits.chunkLine acceptTerminator b
    | .trailers => s.lineByte δ limits.trailerLine acceptTrailerLine b
    | .terminated | .error => s.reject

def feed (δ : Dialect) (limits : Limits) (s : Scan) (bs : Bytes) : Scan := bs.foldl (step δ limits) s

variable {δ : Dialect} {limits : Limits}

@[simp] theorem feed_nil (s : Scan) : s.feed δ limits [] = s := rfl

@[simp] theorem feed_cons (s : Scan) (b : UInt8) (bs : Bytes) :
    s.feed δ limits (b :: bs) = (s.step δ limits b).feed δ limits bs := rfl

theorem feed_append (s : Scan) (bs cs : Bytes) :
    s.feed δ limits (bs ++ cs) = (s.feed δ limits bs).feed δ limits cs := List.foldl_append

theorem feed_of_rejected {s : Scan} (h : s.rejected = true) (bs : Bytes) : s.feed δ limits bs = s := by
  induction bs with
  | nil => rfl
  | cons b bs ih => rw [feed_cons, step, if_pos h, ih]

/-- A byte after the end of the body is refused. -/
theorem feed_of_terminated {s : Scan} (hr : s.rejected = false) (hp : s.phase = .terminated) {bs : Bytes}
    (h : bs ≠ []) : s.feed δ limits bs = s.reject := by
  obtain ⟨b, cs, rfl⟩ := List.exists_cons_of_ne_nil h
  have hs : s.step δ limits b = s.reject := by simp [step, hr, hp]
  rw [feed_cons, hs, feed_of_rejected rfl]

/-- Where no byte is refused, the body has not ended in front of the last. -/
theorem front_of_not_rejected {s : Scan} {bs rest : Bytes} (hr : (s.feed δ limits (bs ++ rest)).rejected = false)
    (h : rest ≠ []) : (s.feed δ limits bs).rejected = false ∧ (s.feed δ limits bs).phase ≠ .terminated := by
  rw [feed_append] at hr
  have hrejected : (s.feed δ limits bs).rejected = false := by
    cases hb : (s.feed δ limits bs).rejected with
    | false => rfl
    | true => rwa [feed_of_rejected hb, hb] at hr
  constructor
  · exact hrejected
  · intro hp'
    rw [feed_of_terminated hrejected hp' h] at hr
    simp [reject] at hr

theorem feed_payload {s : Scan} (hr : s.rejected = false) (hp : s.phase = .data) {bs : Bytes}
    (h : bs.length ≤ s.remaining) :
    s.feed δ limits bs = { s with remaining := s.remaining - bs.length, payload := s.payload ++ bs } := by
  induction bs generalizing s with
  | nil => simp
  | cons b bs ih =>
    simp only [List.length_cons] at h
    have hs : s.step δ limits b = { s with remaining := s.remaining - 1, payload := s.payload ++ [b] } := by
      simp only [step, hr, hp, Bool.false_eq_true, if_false]
      rw [if_pos (by omega)]
    rw [feed_cons, hs, ih (s := { s with remaining := s.remaining - 1, payload := s.payload ++ [b] }) hr hp
      (by simp only; omega)]
    simp only [List.append_assoc, List.singleton_append, List.length_cons]
    congr 1
    omega

/-! ### Payload -/

private theorem payload_acceptSizeLine (s : Scan) (line : Bytes) :
    (s.acceptSizeLine limits line).payload = s.payload := by
  unfold acceptSizeLine
  split <;> rfl

private theorem payload_acceptTerminator (s : Scan) (line : Bytes) : (s.acceptTerminator line).payload = s.payload := by
  unfold acceptTerminator
  split <;> rfl

private theorem payload_acceptTrailerLine (s : Scan) (line : Bytes) :
    (s.acceptTrailerLine line).payload = s.payload := by
  unfold acceptTrailerLine
  split <;> rfl

private theorem payload_lineByte {limit : Nat} {accept : Scan → Bytes → Scan} (s : Scan) (b : UInt8)
    (ha : ∀ line, (accept s line).payload = s.payload) : (s.lineByte δ limit accept b).payload = s.payload := by
  unfold lineByte
  split
  · split
    · split
      · exact ha _
      · rfl
    · rfl
  · split <;> rfl

/-- Payload that was read is not taken back. -/
private theorem payload_prefix_step (s : Scan) (b : UInt8) : s.payload <+: (s.step δ limits b).payload := by
  unfold step
  split
  · exact List.prefix_rfl
  · split
    · exact ⟨[], by rw [List.append_nil, payload_lineByte s b s.payload_acceptSizeLine]⟩
    · split
      · exact List.prefix_append ..
      · exact ⟨[], by rw [List.append_nil, payload_lineByte s b s.payload_acceptTerminator]⟩
    · exact ⟨[], by rw [List.append_nil, payload_lineByte s b s.payload_acceptTrailerLine]⟩
    · exact List.prefix_rfl
    · exact List.prefix_rfl

theorem payload_prefix_feed (s : Scan) (bs : Bytes) : s.payload <+: (s.feed δ limits bs).payload := by
  induction bs generalizing s with
  | nil => exact List.prefix_rfl
  | cons b bs ih => exact (s.payload_prefix_step b).trans (ih _)

/-! ### Lines -/

/-- The scan reads a line within a limit, and goes on with `accept` once it is complete. -/
structure ReadsLine (δ : Dialect) (limits : Limits) (limit : Nat) (accept : Scan → Bytes → Scan) (s : Scan) : Prop where
  step_eq : ∀ line b, step δ limits { s with line } b = lineByte δ limit accept { s with line } b
  accept_eq : ∀ line content, accept { s with line } content = accept s content

theorem readsLine_size {s : Scan} (hr : s.rejected = false) (hp : s.phase = .size) :
    s.ReadsLine δ limits limits.chunkLine (acceptSizeLine limits) where
  step_eq line b := by simp [step, hr, hp]
  accept_eq _ _ := rfl

theorem readsLine_terminator {s : Scan} (hr : s.rejected = false) (hp : s.phase = .data) (hz : s.remaining = 0) :
    s.ReadsLine δ limits limits.chunkLine acceptTerminator where
  step_eq line b := by simp [step, hr, hp, hz]
  accept_eq _ _ := rfl

theorem readsLine_trailers {s : Scan} (hr : s.rejected = false) (hp : s.phase = .trailers) :
    s.ReadsLine δ limits limits.trailerLine acceptTrailerLine where
  step_eq line b := by simp [step, hr, hp]
  accept_eq _ _ := rfl

namespace ReadsLine

variable {limit : Nat} {accept : Scan → Bytes → Scan} {s : Scan}

theorem feed_extend (h : s.ReadsLine δ limits limit accept) (line : Bytes) {bs : Bytes} (hb : lineFeed ∉ bs)
    (hl : bs = [] ∨ framedLength (line ++ bs) ≤ limit) :
    feed δ limits { s with line } bs = { s with line := line ++ bs } := by
  induction bs generalizing line with
  | nil => simp
  | cons b bs ih =>
    obtain ⟨hn, hb'⟩ : b ≠ lineFeed ∧ lineFeed ∉ bs := by
      simp only [List.mem_cons, not_or] at hb
      exact ⟨Ne.symm hb.1, hb.2⟩
    have hl : framedLength (line ++ [b] ++ bs) ≤ limit := by simpa using hl
    -- What is within the limit with all bytes was so with each front of them.
    have hf : framedLength (line ++ [b]) ≤ limit := Nat.le_trans (framedLength_le_append _ _) hl
    rw [feed_cons, h.step_eq, lineByte, if_neg hn, if_pos hf, ih _ hb' (.inr hl)]
    simp

private theorem feed_overlong (h : s.ReadsLine δ limits limit accept) (line : Bytes) {bs : Bytes} (hb : lineFeed ∉ bs)
    (hn : bs ≠ []) (hl : limit < framedLength (line ++ bs)) : feed δ limits { s with line } bs = s.reject := by
  induction bs generalizing line with
  | nil => exact absurd rfl hn
  | cons b bs ih =>
    obtain ⟨hn', hb'⟩ : b ≠ lineFeed ∧ lineFeed ∉ bs := by
      simp only [List.mem_cons, not_or] at hb
      exact ⟨Ne.symm hb.1, hb.2⟩
    have hl : limit < framedLength (line ++ [b] ++ bs) := by simpa using hl
    rw [feed_cons, h.step_eq, lineByte, if_neg hn']
    by_cases hf : framedLength (line ++ [b]) ≤ limit
    · rw [if_pos hf]
      have hbs : bs ≠ [] := by
        rintro rfl
        rw [List.append_nil] at hl
        omega
      exact ih _ hb' hbs hl
    · -- The first byte beyond the limit is refused, whatever follows it.
      rw [if_neg hf]
      exact feed_of_rejected rfl bs

theorem feed_complete (h : s.ReadsLine δ limits limit accept) (line : Bytes) {bs content : Bytes} (hb : lineFeed ∉ bs)
    (hc : δ.content? (line ++ bs) = some content) (hl : content.length ≤ limit) :
    feed δ limits { s with line } (bs ++ [lineFeed]) = accept s content := by
  rw [feed_append, h.feed_extend _ hb (.inr (by rwa [Dialect.framedLength_of_content? hc])), feed_cons, feed_nil,
    h.step_eq, lineByte, if_pos rfl]
  simp only [hc, if_pos hl]
  exact h.accept_eq _ _

private theorem feed_misended (h : s.ReadsLine δ limits limit accept) (line : Bytes) {bs : Bytes} (hb : lineFeed ∉ bs)
    (hc : ∀ c, δ.content? (line ++ bs) = some c → limit < c.length) :
    feed δ limits { s with line } (bs ++ [lineFeed]) = s.reject := by
  rw [feed_append]
  -- The line feed is refused, unless a byte in front of it was.
  by_cases hl : bs = [] ∨ framedLength (line ++ bs) ≤ limit
  · rw [h.feed_extend _ hb hl, feed_cons, feed_nil, h.step_eq, lineByte, if_pos rfl]
    cases hq : δ.content? (line ++ bs) with
    | none => rfl
    | some c =>
      have := hc c hq
      simp only
      rw [if_neg (by omega)]
      rfl
  · obtain ⟨hn, hl⟩ := not_or.1 hl
    rw [h.feed_overlong _ hb hn (by omega), feed_of_rejected rfl]

/-- The scan goes as the line is framed. -/
theorem feed_of_framing (h : s.ReadsLine δ limits limit accept) {bs : Bytes} {l : Line} {t : Line.Turn}
    (hf : Line.Framing δ limit s.line bs l t) :
    s.feed δ limits bs = match t with
      | .dry => { s with line := l.content }
      | .complete => accept s l.content
      | .broken _ => s.reject := by
  cases hf with
  | dry hb hl ho hc =>
    rw [hc]
    exact h.feed_extend s.line hb hl
  | complete hb hc hl => exact h.feed_complete s.line hb hc hl
  | overlong hb hn hl he => exact h.feed_overlong s.line hb hn hl
  | misended hb hc he => exact h.feed_misended s.line hb hc

end ReadsLine

end Scan

end ChunkedTransfer
