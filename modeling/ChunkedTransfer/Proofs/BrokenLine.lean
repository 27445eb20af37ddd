import ChunkedTransfer.Proofs.Framing

/-!
# Broken lines

With which error a line is broken, and by which bytes (`Line.Breaks`). A line that has grown too long is refused as
soon as that is seen, and a line may not end with a bare line feed in the strict dialect. Which of the two is seen
first depends on the pieces in which the bytes come, if a line that is too long ends with a bare line feed: if its end
is in the piece that makes it too long, the end counts.
-/

namespace ChunkedTransfer

theorem Dialect.content?_eq_none_iff {δ : Dialect} {raw : Bytes} :
    δ.content? raw = none ↔ δ = .strict ∧ raw.getLast? ≠ some carriageReturn := by
  unfold content?
  split
  · simp_all
  · cases δ <;> simp_all [allowsBareLineFeed]

namespace Line

/-- What breaks an open line with the given content, and with which error. -/
inductive Breaks (δ : Dialect) (limit : Nat) (content : Bytes) : Bytes → FramingError → Prop
  /-- The line has grown too long, and its end was not seen. -/
  | overlong {bs : Bytes} (hb : lineFeed ∉ bs) (hn : bs ≠ []) (hl : limit < framedLength (content ++ bs)) :
      Breaks δ limit content bs (.lineTooLong (framedLength (content ++ bs)) limit)
  /-- The line has ended, but not as a line has to end. -/
  | bare {bs : Bytes} (hb : lineFeed ∉ bs) (hc : δ.content? (content ++ bs) = none) :
      Breaks δ limit content (bs ++ [lineFeed]) .bareLineFeed
  /-- The line has ended, and is found to be too long. -/
  | overlongAtEnd {bs c : Bytes} (hb : lineFeed ∉ bs) (hc : δ.content? (content ++ bs) = some c) (hl : limit < c.length) :
      Breaks δ limit content (bs ++ [lineFeed]) (.lineTooLong c.length limit)

variable {δ : Dialect} {limit : Nat}

/-- A line is broken for one of two reasons. -/
theorem Breaks.error_cases {content bs : Bytes} {e : FramingError} (h : Breaks δ limit content bs e) :
    e = .bareLineFeed ∨ ∃ n, e = .lineTooLong n limit := by
  cases h with
  | overlong => exact .inr ⟨_, rfl⟩
  | bare => exact .inl rfl
  | overlongAtEnd => exact .inr ⟨_, rfl⟩

/-- Bytes that leave a line open do not matter for what breaks it afterwards. -/
private theorem Breaks.prepend {content bs cs : Bytes} {l : Line} {e : FramingError}
    (h : Framing δ limit content bs l .dry) (h' : Breaks δ limit l.content cs e) :
    Breaks δ limit content (bs ++ cs) e := by
  obtain ⟨hb, -, -, hc⟩ := h
  cases h' with
  | overlong hb' hn hl =>
    rw [hc, List.append_assoc] at hl ⊢
    exact .overlong (by simp [hb, hb']) (by simp [hn]) hl
  | bare hb' hc' =>
    rw [← List.append_assoc]
    exact .bare (by simp [hb, hb']) (by rwa [hc, List.append_assoc] at hc')
  | overlongAtEnd hb' hc' hl =>
    rw [← List.append_assoc]
    exact .overlongAtEnd (by simp [hb, hb']) (by rwa [hc, List.append_assoc] at hc') hl

private theorem breaks_absorb {l : Line} {b : Buffer} (ho : l.IsOpen) (hd : b.data ≠ []) {e : FramingError}
    (h : (l.absorb δ limit b).result = .error e) : Breaks δ limit l.content (l.absorb δ limit b).taken e := by
  rcases lineFeed_cases b.data with hb | ⟨front, rest, hf, hd'⟩
  · rw [ho.absorb_of_no_lineFeed δ limit hb] at h ⊢
    simp only at h
    split at h
    · rename_i hl
      obtain rfl : _ = e := by simpa using h
      exact .overlong hb hd hl
    · simp at h
  · rw [ho.absorb_of_lineFeed δ limit hf hd'] at h ⊢
    cases hc : δ.content? (l.content ++ front) with
    | none =>
      obtain rfl : _ = e := by simpa [hc] using h
      exact .bare hf hc
    | some c =>
      simp only [hc] at h
      split at h
      · rename_i hl
        obtain rfl : _ = e := by simpa using h
        exact .overlongAtEnd hf hc hl
      · simp at h

variable {τ : Type} [Transport τ]

/-- Two ways of filling a line go together until a line is broken, if two ways of taking in bytes do. -/
theorem fill_eq_or_broken {δ' : Dialect} {limit' : Nat} {P : FramingError → Prop}
    (h : ∀ (l : Line) (b : Buffer), (∃ e, P e ∧ (l.absorb δ limit b).result = .error e) ∨
      l.absorb δ' limit' b = l.absorb δ limit b) (l : Line) (s : Source τ) :
    (∃ e, P e ∧ (l.fill δ limit s).result = .ok (.broken e)) ∨ l.fill δ' limit' s = l.fill δ limit s := by
  fun_induction fill δ limit l s with
  | case1 l s r f hr => exact .inr (fill_of_error hr)
  | case2 l s r hr => exact .inr (fill_of_dry hr ..)
  | case3 l s r n hr a s' events e ha =>
    rcases h l s.replenish.state.buffer with ⟨e', hP, he⟩ | h
    · obtain rfl : e' = e := by simpa [a, r, he] using ha
      exact .inl ⟨e', hP, rfl⟩
    · refine .inr ?_
      rw [fill_of_broken hr (by rw [h]; exact ha), turned, turnEvents, h]
  | case4 l s r n hr a s' events ha =>
    rcases h l s.replenish.state.buffer with ⟨e', hP, he⟩ | h
    · simp [a, r, he] at ha
    · refine .inr ?_
      rw [fill_of_complete hr (by rw [h]; exact ha), turned, turnEvents, h]
  | case5 l s r n hr a s' events state ha hstate ih =>
    rcases h l s.replenish.state.buffer with ⟨e', hP, he⟩ | h
    · simp [a, r, he] at ha
    · -- Both go on from the same line and the same source.
      have hnext : l.fill δ' limit' s = (a.line.fill δ' limit' s').after events := by
        rw [fill_of_open hr (by rw [h]; exact ha) hstate, turned, turnEvents, h]
      rw [hnext]
      exact ih.imp id fun ih => by rw [ih]

theorem breaks_fill {l : Line} {s : Source τ} (ho : l.IsOpen) {e : FramingError}
    (h : (l.fill δ limit s).result = .ok (.broken e)) :
    Breaks δ limit l.content (consumed (l.fill δ limit s).events) e := by
  fun_induction fill δ limit l s with
  | case1 l s r f hr => simp at h
  | case2 l s r hr => simp at h
  | case3 l s r n hr a s' events e' ha =>
    obtain rfl : e' = e := by simpa using h
    simpa [events, r] using breaks_absorb ho (Source.data_ne_nil_of_replenish hr) ha
  | case4 l s r n hr a s' events ha => simp at h
  | case5 l s r n hr a s' events state ha hstate ih =>
    -- The turns before the last one leave the line open.
    have hf := framing_absorb δ limit ho (Source.data_ne_nil_of_replenish hr)
    rw [ha, turnOf_of_ne_complete hstate] at hf
    simpa [events, r] using Breaks.prepend hf (ih hf.isOpen h)

end Line

end ChunkedTransfer
