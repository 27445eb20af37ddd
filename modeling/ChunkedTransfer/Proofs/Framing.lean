import ChunkedTransfer.Grammar.Line
import ChunkedTransfer.Line.Fill
import ChunkedTransfer.Proofs.Trace

/-!
# Framing a line

What the bytes taken out of a buffer make of an open line: it stays open, it becomes complete at its line feed, or
it is refused (`Framing`). Moving the data of a buffer into a line frames it (`framing_absorb`), and the framing of
two pieces in a row is that of the pieces together (`Framing.trans`), so it does not matter where the pieces are cut
(`framing_fill`).
-/

namespace ChunkedTransfer

/-- The content of a line, given all bytes before its line feed, if the line may end there. -/
def Dialect.content? (δ : Dialect) (raw : Bytes) : Option Bytes :=
  if raw.getLast? = some carriageReturn then some raw.dropLast
  else if δ.allowsBareLineFeed then some raw
  else none

theorem Dialect.content?_append_carriageReturn (δ : Dialect) (line : Bytes) :
    δ.content? (line ++ [carriageReturn]) = some line := by simp [content?]

/-- The bytes of a line are its content and one of the line ends. -/
theorem Dialect.lineEnd_of_content? {δ : Dialect} {raw content : Bytes} (h : δ.content? raw = some content) :
    ∃ e, Grammar.LineEnd δ e ∧ raw ++ [lineFeed] = content ++ e := by
  unfold content? at h
  split at h
  · rename_i hr
    obtain ⟨ys, rfl⟩ := List.getLast?_eq_some_iff.1 hr
    simp only [List.dropLast_concat, Option.some.injEq] at h
    exact ⟨_, .full δ, by simp [h]⟩
  · split at h
    · rename_i hb
      cases δ with
      | strict => simp [allowsBareLineFeed] at hb
      | tolerant =>
        simp only [Option.some.injEq] at h
        exact ⟨_, .bare, by simp [h]⟩
    · simp at h

theorem Dialect.mem_of_mem_content? {δ : Dialect} {raw content : Bytes} (h : δ.content? raw = some content) {b : UInt8}
    (hb : b ∈ content) : b ∈ raw := by
  unfold content? at h
  split at h
  · simp only [Option.some.injEq] at h
    exact (List.dropLast_sublist raw).subset (h ▸ hb)
  · split at h
    · simp only [Option.some.injEq] at h
      exact h ▸ hb
    · simp at h

/-- The length of an unfinished line as it is held against a limit. -/
def framedLength (raw : Bytes) : Nat :=
  if raw.getLast? = some carriageReturn then raw.length - 1 else raw.length

/-- A byte that is not counted yet is counted when the next one comes. -/
theorem framedLength_le_append (raw bs : Bytes) : framedLength raw ≤ framedLength (raw ++ bs) := by
  by_cases h : bs = []
  · simp [h]
  · have hb : 0 < bs.length := List.length_pos_iff.2 h
    unfold framedLength
    rw [List.length_append]
    split <;> split <;> omega

theorem Dialect.framedLength_of_content? {δ : Dialect} {raw content : Bytes} (h : δ.content? raw = some content) :
    framedLength raw = content.length := by
  unfold content? at h
  unfold framedLength
  split at h
  · rename_i hr
    simp only [Option.some.injEq] at h
    rw [if_pos hr, ← h, List.length_dropLast]
  · rename_i hr
    split at h
    · simp only [Option.some.injEq] at h
      rw [if_neg hr, h]
    · simp at h

theorem Source.data_ne_nil_of_replenish {τ : Type} [Transport τ] {s : Source τ} {n : Nat}
    (h : s.replenish.result = .ok (n + 1)) : s.replenish.state.buffer.data ≠ [] := by
  intro hd
  have := le_available_of_replenish h
  rw [Buffer.data_eq_nil_iff] at hd
  omega

namespace Line

/-- A line whose end was not seen. -/
structure IsOpen (l : Line) : Prop where
  no_lineFeed : lineFeed ∉ l.content
  state_eq : l.state = if l.content = [] then .idle else .accumulating

theorem isOpen_empty : IsOpen {} := ⟨by simp, rfl⟩

theorem IsOpen.state_ne_complete {l : Line} (h : l.IsOpen) : l.state ≠ .complete := by
  rw [h.state_eq]
  split <;> simp

theorem IsOpen.state_eq_idle_iff {l : Line} (h : l.IsOpen) : l.state = .idle ↔ l.content = [] := by
  rw [h.state_eq]
  split <;> simp_all

theorem IsOpen.extend {l : Line} (h : l.IsOpen) {bs : Bytes} (hb : lineFeed ∉ bs) : (l.extend bs).IsOpen where
  no_lineFeed := by simp [Line.extend, h.no_lineFeed, hb]
  state_eq := by
    by_cases he : l.content ++ bs = []
    · have hc : l.content = [] := (List.append_eq_nil_iff.1 he).1
      simp [Line.extend, h.state_eq, hc]
    · simp [Line.extend, he]

private theorem IsOpen.countedLength_eq {l : Line} (h : l.IsOpen) : l.countedLength = framedLength l.content := by
  unfold countedLength framedLength
  rw [h.state_eq]
  by_cases hc : l.content = []
  · simp [hc]
  · simp [hc]

/-- What bytes make of an open line with the given content. A line is refused when it has grown beyond its limit, and
when it may not end at its line feed. -/
inductive Framing (δ : Dialect) (limit : Nat) (content : Bytes) : Bytes → Line → Turn → Prop
  | dry {bs : Bytes} {l : Line} (hb : lineFeed ∉ bs) (hl : bs = [] ∨ framedLength (content ++ bs) ≤ limit)
      (ho : l.IsOpen) (hc : l.content = content ++ bs) : Framing δ limit content bs l .dry
  | complete {bs c : Bytes} (hb : lineFeed ∉ bs) (hc : δ.content? (content ++ bs) = some c) (hl : c.length ≤ limit) :
      Framing δ limit content (bs ++ [lineFeed]) ⟨c, .complete⟩ .complete
  | overlong {bs : Bytes} {l : Line} {e : FramingError} (hb : lineFeed ∉ bs) (hn : bs ≠ [])
      (hl : limit < framedLength (content ++ bs)) (he : ∀ p, e ≠ .truncated p) :
      Framing δ limit content bs l (.broken e)
  | misended {bs : Bytes} {l : Line} {e : FramingError} (hb : lineFeed ∉ bs)
      (hc : ∀ c, δ.content? (content ++ bs) = some c → limit < c.length) (he : ∀ p, e ≠ .truncated p) :
      Framing δ limit content (bs ++ [lineFeed]) l (.broken e)

theorem Framing.refl {l : Line} (δ : Dialect) (limit : Nat) (h : l.IsOpen) : Framing δ limit l.content [] l .dry :=
  .dry (by simp) (.inl rfl) h (by simp)

theorem Framing.isOpen {δ : Dialect} {limit : Nat} {content bs : Bytes} {l : Line}
    (h : Framing δ limit content bs l .dry) : l.IsOpen := by
  cases h with
  | dry hb hl ho hc => exact ho

/-- A line that is complete has ended within its limit, at the line feed that was seen last. -/
theorem Framing.of_complete {δ : Dialect} {limit : Nat} {content cs : Bytes} {l : Line}
    (h : Framing δ limit content cs l .complete) :
    ∃ bs, cs = bs ++ [lineFeed] ∧ lineFeed ∉ bs ∧ δ.content? (content ++ bs) = some l.content ∧
      l.content.length ≤ limit := by
  cases h with
  | complete hb hc hl => exact ⟨_, rfl, hb, hc, hl⟩

/-- A line that is refused was not cut short. -/
theorem Framing.ne_truncated {δ : Dialect} {limit : Nat} {content bs : Bytes} {l : Line} {e : FramingError}
    (h : Framing δ limit content bs l (.broken e)) (p : PhaseMarker) : e ≠ .truncated p := by
  cases h with
  | overlong hb hn hl he => exact he p
  | misended hb hc he => exact he p

/-- Bytes that leave a line open, and then others, are as good as all of them together. -/
theorem Framing.trans {δ : Dialect} {limit : Nat} {content bs cs : Bytes} {l l' : Line} {t : Turn}
    (h : Framing δ limit content bs l .dry) (h' : Framing δ limit l.content cs l' t) :
    Framing δ limit content (bs ++ cs) l' t := by
  obtain ⟨hb, hl, -, hc⟩ := h
  -- The second piece is framed behind the content that the first has left.
  cases h' with
  | dry hb' hl' ho' hc' =>
    refine .dry (by simp [hb, hb']) ?_ ho' (by rw [hc', hc, List.append_assoc])
    rcases hl' with rfl | hl'
    · simpa using hl
    · exact .inr (by rwa [hc, List.append_assoc] at hl')
  | complete hb' hc' hl' =>
    rw [← List.append_assoc]
    exact .complete (by simp [hb, hb']) (by rwa [hc, List.append_assoc] at hc') hl'
  | overlong hb' hn hl' he =>
    exact .overlong (by simp [hb, hb']) (by simp [hn]) (by rwa [hc, List.append_assoc] at hl') he
  | misended hb' hc' he =>
    rw [← List.append_assoc]
    exact .misended (by simp [hb, hb']) (by rwa [hc, List.append_assoc] at hc') he

/-- How the result of taking in bytes reads as the stop of a filling. -/
def turnOf : Except FramingError LineState → Turn
  | .ok .complete => .complete
  | .ok _ => .dry
  | .error e => .broken e

theorem turnOf_of_ne_complete {state : LineState} (h : state ≠ .complete) : turnOf (.ok state) = .dry := by
  cases state with
  | complete => exact absurd rfl h
  | idle => rfl
  | accumulating => rfl

theorem finish_eq (δ : Dialect) (l : Line) (bs : Bytes) :
    l.finish δ bs = match δ.content? (l.content ++ bs) with
      | some c => (.ok (), ⟨c, .complete⟩)
      | none => (.error .bareLineFeed, ⟨l.content ++ bs, l.state⟩) := by
  unfold finish Dialect.content?
  simp only
  split
  · rfl
  · split <;> rfl

theorem takeWhile_lineFeed {bs rest : Bytes} (h : lineFeed ∉ bs) :
    (bs ++ lineFeed :: rest).takeWhile (· != lineFeed) = bs := by
  rw [List.takeWhile_append_of_pos, List.takeWhile_cons_of_neg (by simp), List.append_nil]
  exact fun b hb => bne_iff_ne.2 fun he => h (he ▸ hb)

theorem absorb_of_lineFeed {δ : Dialect} {limit : Nat} {l : Line} {b : Buffer} {bs rest : Bytes}
    (hl : l.state ≠ .complete) (hb : lineFeed ∉ bs) (hd : b.data = bs ++ lineFeed :: rest) :
    l.absorb δ limit b = ⟨(l.finish δ bs).1.bind fun _ => (l.finish δ bs).2.checked limit, (l.finish δ bs).2,
      (b.consume (bs ++ [lineFeed]).length).2, bs ++ [lineFeed]⟩ := by
  unfold absorb
  rw [if_neg hl, hd, takeWhile_lineFeed hb, if_pos (by simp)]

theorem absorb_of_no_lineFeed {δ : Dialect} {limit : Nat} {l : Line} {b : Buffer} (hl : l.state ≠ .complete)
    (hb : lineFeed ∉ b.data) :
    l.absorb δ limit b = ⟨(l.extend b.data).checked limit, l.extend b.data, (b.consume b.data.length).2, b.data⟩ := by
  have ht : b.data.takeWhile (· != lineFeed) = b.data := by
    have h : (b.data ++ []).takeWhile (· != lineFeed) = b.data ++ [].takeWhile (· != lineFeed) :=
      List.takeWhile_append_of_pos fun c hc => bne_iff_ne.2 fun he => hb (he ▸ hc)
    simpa using h
  unfold absorb
  rw [if_neg hl, ht, if_neg (by omega)]

/-- The data of a buffer up to its first line feed, if it has one. -/
theorem lineFeed_cases (bs : Bytes) :
    lineFeed ∉ bs ∨ ∃ front rest, lineFeed ∉ front ∧ bs = front ++ lineFeed :: rest := by
  by_cases h : lineFeed ∈ bs
  · obtain ⟨front, rest, hd, hf⟩ := List.eq_append_cons_of_mem h
    exact .inr ⟨front, rest, hf, hd⟩
  · exact .inl h

/-- An open line takes in all data without a line feed, and may grow too long. -/
theorem IsOpen.absorb_of_no_lineFeed {l : Line} (ho : l.IsOpen) (δ : Dialect) (limit : Nat) {b : Buffer}
    (hb : lineFeed ∉ b.data) :
    l.absorb δ limit b =
      ⟨if limit < framedLength (l.content ++ b.data) then
          .error (.lineTooLong (framedLength (l.content ++ b.data)) limit) else .ok (l.extend b.data).state,
        l.extend b.data, (b.consume b.data.length).2, b.data⟩ := by
  rw [Line.absorb_of_no_lineFeed ho.state_ne_complete hb, checked, (ho.extend hb).countedLength_eq]
  rfl

/-- An open line ends at the first line feed of the data, if it may end there. Then it may be too long. -/
theorem IsOpen.absorb_of_lineFeed {l : Line} (ho : l.IsOpen) (δ : Dialect) (limit : Nat) {b : Buffer}
    {front rest : Bytes} (hf : lineFeed ∉ front) (hd : b.data = front ++ lineFeed :: rest) :
    l.absorb δ limit b = match δ.content? (l.content ++ front) with
      | some c => ⟨if limit < c.length then .error (.lineTooLong c.length limit) else .ok .complete, ⟨c, .complete⟩,
          (b.consume (front ++ [lineFeed]).length).2, front ++ [lineFeed]⟩
      | none => ⟨.error .bareLineFeed, ⟨l.content ++ front, l.state⟩,
          (b.consume (front ++ [lineFeed]).length).2, front ++ [lineFeed]⟩ := by
  rw [Line.absorb_of_lineFeed ho.state_ne_complete hf hd, finish_eq]
  cases δ.content? (l.content ++ front) with
  | none => rfl
  | some c => rfl

/-- The bytes moved into a line are read from the buffer. -/
theorem read_absorb (δ : Dialect) (limit : Nat) (l : Line) (b : Buffer) :
    b.read (l.absorb δ limit b).taken.length = ((l.absorb δ limit b).taken, (l.absorb δ limit b).buffer) := by
  by_cases hl : l.state = .complete
  · simp [absorb, hl, Buffer.read, Buffer.consume]
  rcases lineFeed_cases b.data with hb | ⟨front, rest, hf, hd⟩
  · rw [absorb_of_no_lineFeed hl hb, Buffer.read, List.take_length]
  · have hd' : b.data = front ++ [lineFeed] ++ rest := by rw [hd, List.append_assoc, List.singleton_append]
    rw [absorb_of_lineFeed hl hf hd, Buffer.read, hd', List.take_left]

/-- Moving the data of a buffer into an open line frames it with the bytes that were moved. -/
theorem framing_absorb (δ : Dialect) (limit : Nat) {l : Line} {b : Buffer} (ho : l.IsOpen) (hd : b.data ≠ []) :
    Framing δ limit l.content (l.absorb δ limit b).taken (l.absorb δ limit b).line
      (turnOf (l.absorb δ limit b).result) := by
  rcases lineFeed_cases b.data with hb | ⟨front, rest, hf, hd'⟩
  · -- All data goes into the line, which stays open or grows beyond its limit.
    have ho' := ho.extend hb
    rw [ho.absorb_of_no_lineFeed δ limit hb]
    by_cases hl : limit < framedLength (l.content ++ b.data)
    · rw [if_pos hl]
      exact .overlong hb hd hl (by simp)
    · rw [if_neg hl]
      simp only [turnOf_of_ne_complete ho'.state_ne_complete]
      exact .dry hb (.inr (Nat.le_of_not_lt hl)) ho' rfl
  · -- The line ends at the line feed, if it may end there and is not too long.
    rw [ho.absorb_of_lineFeed δ limit hf hd']
    cases hc : δ.content? (l.content ++ front) with
    | none => exact .misended hf (by simp [hc]) (by simp)
    | some c =>
      by_cases hl : limit < c.length
      · simp only [if_pos hl]
        exact .misended hf (by simpa [hc] using hl) (by simp)
      · simp only [if_neg hl]
        exact .complete hf hc (Nat.le_of_not_lt hl)

variable {τ : Type} [Transport τ]

/-! ### Turns of a filling -/

/-- The source after a turn in which bytes were moved into the line. -/
def turned (δ : Dialect) (limit : Nat) (l : Line) (s : Source τ) : Source τ :=
  Source.noteUsedUp { s.replenish.state with buffer := (l.absorb δ limit s.replenish.state.buffer).buffer }

/-- The events of a turn in which bytes were moved into the line. -/
def turnEvents (δ : Dialect) (limit : Nat) (l : Line) (s : Source τ) : List Event :=
  s.replenish.events ++ [.taken (l.absorb δ limit s.replenish.state.buffer).taken]

/-- The turn of a filling that moves bytes into the line. -/
theorem trace_turn (δ : Dialect) (limit : Nat) (l : Line) (s : Source τ) :
    s.Trace (turnEvents δ limit l s) (turned δ limit l s) := by
  have h := Source.Trace.take s.replenish.state (l.absorb δ limit s.replenish.state.buffer).taken.length
  rw [read_absorb] at h
  exact s.trace_replenish.trans h

section

variable {δ : Dialect} {limit : Nat} {l : Line} {s : Source τ}

theorem fill_of_error {f : Fault} (h : s.replenish.result = .error f) :
    l.fill δ limit s = ⟨.error f, (l, s.replenish.state), s.replenish.events⟩ := by
  fun_cases fill δ limit l s with
  | case1 r g hr =>
    obtain rfl : f = g := by simpa [r, h] using hr
    rfl
  | case2 r hr => simp [r, h] at hr
  | case3 r n hr => simp [r, h] at hr
  | case4 r n hr => simp [r, h] at hr
  | case5 r n hr => simp [r, h] at hr

theorem fill_of_dry (h : s.replenish.result = .ok 0) (δ : Dialect) (limit : Nat) (l : Line) :
    l.fill δ limit s = ⟨.ok .dry, (l, s.replenish.state), s.replenish.events⟩ := by
  fun_cases fill δ limit l s with
  | case1 r f hr => simp [r, h] at hr
  | case2 r hr => rfl
  | case3 r n hr => simp [r, h] at hr
  | case4 r n hr => simp [r, h] at hr
  | case5 r n hr => simp [r, h] at hr

theorem fill_of_broken {n : Nat} (h : s.replenish.result = .ok (n + 1)) {e : FramingError}
    (ha : (l.absorb δ limit s.replenish.state.buffer).result = .error e) :
    l.fill δ limit s = ⟨.ok (.broken e), ((l.absorb δ limit s.replenish.state.buffer).line, turned δ limit l s),
      turnEvents δ limit l s⟩ := by
  fun_cases fill δ limit l s with
  | case1 r f hr => simp [r, h] at hr
  | case2 r hr => simp [r, h] at hr
  | case3 r m hr a s' events e' he =>
    obtain rfl : e = e' := by simpa [a, r, ha] using he
    rfl
  | case4 r m hr a s' events he => simp [a, r, ha] at he
  | case5 r m hr a s' events state he => simp [a, r, ha] at he

theorem fill_of_complete {n : Nat} (h : s.replenish.result = .ok (n + 1))
    (ha : (l.absorb δ limit s.replenish.state.buffer).result = .ok .complete) :
    l.fill δ limit s = ⟨.ok .complete, ((l.absorb δ limit s.replenish.state.buffer).line, turned δ limit l s),
      turnEvents δ limit l s⟩ := by
  fun_cases fill δ limit l s with
  | case1 r f hr => simp [r, h] at hr
  | case2 r hr => simp [r, h] at hr
  | case3 r m hr a s' events e' he => simp [a, r, ha] at he
  | case4 r m hr a s' events he => rfl
  | case5 r m hr a s' events state he hs =>
    obtain rfl : LineState.complete = state := by simpa [a, r, ha] using he
    exact absurd rfl hs

theorem fill_of_open {n : Nat} (h : s.replenish.result = .ok (n + 1)) {state : LineState}
    (ha : (l.absorb δ limit s.replenish.state.buffer).result = .ok state) (hs : state ≠ .complete) :
    l.fill δ limit s = ((l.absorb δ limit s.replenish.state.buffer).line.fill δ limit (turned δ limit l s)).after
      (turnEvents δ limit l s) := by
  fun_cases fill δ limit l s with
  | case1 r f hr => simp [r, h] at hr
  | case2 r hr => simp [r, h] at hr
  | case3 r m hr a s' events e' he => simp [a, r, ha] at he
  | case4 r m hr a s' events he =>
    obtain rfl : state = .complete := by simpa [a, r, ha] using he
    exact absurd rfl hs
  | case5 r m hr a s' events state' he hs' => rfl

end

/-! ### Filling a line -/

theorem trace_fill (δ : Dialect) (limit : Nat) (l : Line) (s : Source τ) :
    s.Trace (l.fill δ limit s).events (l.fill δ limit s).state.2 := by
  fun_induction fill δ limit l s with
  | case1 l s r f hr => exact s.trace_replenish
  | case2 l s r hr => exact s.trace_replenish
  | case3 l s r n hr a s' events e ha => exact trace_turn δ limit l s
  | case4 l s r n hr a s' events ha => exact trace_turn δ limit l s
  | case5 l s r n hr a s' events state ha hstate ih => exact (trace_turn δ limit l s).trans ih

/-- Filling an open line frames it with the bytes that were taken, in however many pieces they came. -/
theorem framing_fill (δ : Dialect) (limit : Nat) {l : Line} (s : Source τ) (ho : l.IsOpen) :
    Framing δ limit l.content (consumed (l.fill δ limit s).events) (l.fill δ limit s).state.1
      (match (l.fill δ limit s).result with
        | .ok t => t
        | .error _ => .dry) := by
  -- One turn: there is data in the buffer, and moving it into the line frames it.
  have hframe {l : Line} {s : Source τ} {n : Nat} (ho : l.IsOpen) (hr : s.replenish.result = .ok (n + 1)) :
      let a := l.absorb δ limit s.replenish.state.buffer
      Framing δ limit l.content a.taken a.line (turnOf a.result) :=
    framing_absorb δ limit ho (Source.data_ne_nil_of_replenish hr)
  fun_induction fill δ limit l s with
  | case1 l s r f hr => simpa [r] using Framing.refl δ limit ho
  | case2 l s r hr => simpa [r] using Framing.refl δ limit ho
  | case3 l s r n hr a s' events e ha => simpa [events, r, a, turnOf, ha] using hframe ho hr
  | case4 l s r n hr a s' events ha => simpa [events, r, a, turnOf, ha] using hframe ho hr
  | case5 l s r n hr a s' events state ha hstate ih =>
    have hturn : turnOf a.result = .dry := by rw [ha, turnOf_of_ne_complete hstate]
    have h : Framing δ limit l.content a.taken a.line (turnOf a.result) := hframe ho hr
    rw [hturn] at h
    have := h.trans (ih h.isOpen)
    simpa [events, r] using this

end Line

end ChunkedTransfer
