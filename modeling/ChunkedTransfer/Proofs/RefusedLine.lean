import ChunkedTransfer.Proofs.Framing

/-!
# Lines that were refused

Nothing keeps bytes from being absorbed into a line that was refused (`Line.absorbEach`). A line that has grown too
long is refused again by every call until its end is seen, and by the call that sees it (`Line.Absorbs.overrun`). That
call leaves the line complete, however, and nothing is held against a line that is complete before. So a line that is
too long is handed out after all, but only where the call that has seen its end refused it
(`Line.overlong_only_after_refusal`). A decoder is not concerned, since it fails with the first refusal.
-/

namespace ChunkedTransfer.Line

/-- What is absorbed from buffers one after the other, whatever becomes of the line. -/
def absorbEach (δ : Dialect) (limit : Nat) : Line → List Buffer → List Absorbed
  | _, [] => []
  | l, b :: bs => l.absorb δ limit b :: absorbEach δ limit (l.absorb δ limit b).line bs

/-- What a call answers, and the line that it leaves. -/
inductive Absorbs (δ : Dialect) (limit : Nat) (l : Line) : Except FramingError LineState → Line → Prop
  /-- The line was complete before. -/
  | nothing (hl : l.state = .complete) : Absorbs δ limit l (.ok .complete) l
  | extended (hl : l.state ≠ .complete) (bs : Bytes) :
      Absorbs δ limit l
        (if limit < framedLength (l.content ++ bs) then .error (.lineTooLong (framedLength (l.content ++ bs)) limit)
          else .ok (l.extend bs).state)
        (l.extend bs)
  | misended (hl : l.state ≠ .complete) {bs : Bytes} (hc : δ.content? (l.content ++ bs) = none) :
      Absorbs δ limit l (.error .bareLineFeed) ⟨l.content ++ bs, l.state⟩
  /-- The end of the line is seen, and its length is judged. -/
  | ended (hl : l.state ≠ .complete) {bs c : Bytes} (hc : δ.content? (l.content ++ bs) = some c) :
      Absorbs δ limit l (if limit < c.length then .error (.lineTooLong c.length limit) else .ok .complete) ⟨c, .complete⟩

/-- Too long for the limit, as far as the line was seen. -/
def Overrun (limit : Nat) (l : Line) : Prop :=
  limit < if l.state = .complete then l.content.length else framedLength l.content

variable {δ : Dialect} {limit : Nat} {l l' : Line} {r : Except FramingError LineState}

/-! ### One call -/

private theorem state_extend_ne_complete (hl : l.state ≠ .complete) (bs : Bytes) : (l.extend bs).state ≠ .complete := by
  unfold extend
  by_cases hc : l.content ++ bs = []
  · simpa [hc] using hl
  · simp [hc]

/-- A line that is extended counts by its bytes alone, whatever its state was. -/
private theorem countedLength_extend (l : Line) (bs : Bytes) :
    (l.extend bs).countedLength = framedLength (l.content ++ bs) := by
  unfold countedLength framedLength extend
  by_cases hc : l.content ++ bs = []
  · simp [hc]
  · simp [hc]

private theorem absorbs_absorb (δ : Dialect) (limit : Nat) (l : Line) (b : Buffer) :
    Absorbs δ limit l (l.absorb δ limit b).result (l.absorb δ limit b).line := by
  by_cases hl : l.state = .complete
  · have ha : l.absorb δ limit b = ⟨.ok .complete, l, b, []⟩ := if_pos hl
    rw [ha]
    exact .nothing hl
  rcases lineFeed_cases b.data with hb | ⟨front, rest, hf, hd⟩
  · rw [absorb_of_no_lineFeed hl hb, checked, countedLength_extend]
    exact .extended hl b.data
  · rw [absorb_of_lineFeed hl hf hd, finish_eq]
    cases hc : δ.content? (l.content ++ front) with
    | none => exact .misended hl hc
    | some c => exact .ended hl hc

private theorem Absorbs.state_of_complete (h : Absorbs δ limit l (.ok .complete) l') : l'.state = .complete := by
  generalize hr : Except.ok LineState.complete = r at h
  cases h with
  | nothing hl => exact hl
  | extended hl bs =>
    split at hr
    · simp at hr
    · have hstate := state_extend_ne_complete hl bs
      exact absurd (Except.ok.inj hr).symm hstate
  | misended hl hc => simp at hr
  | ended hl hc => rfl

/-- The call after which the line is complete for the first time judges its length. -/
private theorem Absorbs.result_of_ended (h : Absorbs δ limit l r l') (hl : l.state ≠ .complete)
    (hl' : l'.state = .complete) :
    r = if limit < l'.content.length then .error (.lineTooLong l'.content.length limit) else .ok .complete := by
  cases h with
  | nothing hs => exact absurd hs hl
  | extended _ bs => exact absurd hl' (state_extend_ne_complete hl bs)
  | misended _ hc => exact absurd hl' hl
  | ended _ hc => rfl

/-- A line that is refused as too long is so. -/
private theorem Absorbs.overrun_of_lineTooLong {n m : Nat} (h : Absorbs δ limit l (.error (.lineTooLong n m)) l') :
    l'.Overrun limit := by
  generalize hr : Except.error (FramingError.lineTooLong n m) = r at h
  unfold Overrun
  cases h with
  | nothing hl => simp at hr
  | extended hl bs =>
    rw [if_neg (state_extend_ne_complete hl bs)]
    by_cases hlimit : limit < framedLength (l.content ++ bs)
    · exact hlimit
    · simp [hlimit] at hr
  | misended hl hc => simp at hr
  | @ended hl bs c hc =>
    by_cases hlimit : limit < c.length
    · exact hlimit
    · simp [hlimit] at hr

/-- A line that is too long stays so, and is refused until it is complete. -/
theorem Absorbs.overrun (h : Absorbs δ limit l r l') (ho : l.Overrun limit) :
    l'.Overrun limit ∧ ((∃ e, r = .error e) ∨ r = .ok .complete ∧ limit < l'.content.length) := by
  unfold Overrun at ho ⊢
  cases h with
  | nothing hl =>
    rw [if_pos hl] at ho ⊢
    exact ⟨ho, .inr ⟨rfl, ho⟩⟩
  | extended hl bs =>
    rw [if_neg hl] at ho
    have hlength : limit < framedLength (l.content ++ bs) :=
      Nat.lt_of_lt_of_le ho (framedLength_le_append l.content bs)
    rw [if_neg (state_extend_ne_complete hl bs), if_pos hlength]
    exact ⟨hlength, .inl ⟨_, rfl⟩⟩
  | @misended hl bs hc =>
    rw [if_neg hl] at ho
    rw [if_neg hl]
    exact ⟨Nat.lt_of_lt_of_le ho (framedLength_le_append l.content bs), .inl ⟨_, rfl⟩⟩
  | @ended hl bs c hc =>
    rw [if_neg hl] at ho
    -- The carriage return that was not counted before belongs to the end of the line.
    have hlength : limit < c.length := by
      have := framedLength_le_append l.content bs
      have := Dialect.framedLength_of_content? hc
      omega
    rw [if_pos hlength]
    exact ⟨hlength, .inl ⟨_, rfl⟩⟩

/-! ### Any number of calls -/

variable {bs : List Buffer} {a : Absorbed}

/-- What comes after a call starts from the line that it leaves. -/
private theorem drop_absorbEach {i : Nat} (h : (absorbEach δ limit l bs)[i]? = some a) :
    (absorbEach δ limit l bs).drop (i + 1) = absorbEach δ limit a.line (bs.drop (i + 1)) := by
  induction bs generalizing l i with
  | nil => simp [absorbEach] at h
  | cons b bs ih =>
    cases i with
    | zero =>
      obtain rfl : l.absorb δ limit b = a := by simpa [absorbEach] using h
      rfl
    | succ i => exact ih (by simpa [absorbEach] using h)

private theorem absorbs_of_mem (h : a ∈ absorbEach δ limit l bs) : ∃ l', Absorbs δ limit l' a.result a.line := by
  induction bs generalizing l with
  | nil => simp [absorbEach] at h
  | cons b bs ih =>
    rcases List.mem_cons.1 h with rfl | h
    · exact ⟨l, absorbs_absorb δ limit l b⟩
    · exact ih h

private theorem Overrun.of_mem (ho : l.Overrun limit) (h : a ∈ absorbEach δ limit l bs) :
    (∃ e, a.result = .error e) ∨ a.result = .ok .complete ∧ limit < a.line.content.length := by
  induction bs generalizing l with
  | nil => simp [absorbEach] at h
  | cons b bs ih =>
    obtain ⟨ho', hr⟩ := (absorbs_absorb δ limit l b).overrun ho
    rcases List.mem_cons.1 h with rfl | h
    · exact hr
    · exact ih ho' h

/-- Nothing is absorbed into a line that is complete. -/
private theorem line_of_mem (hl : l.state = .complete) (h : a ∈ absorbEach δ limit l bs) : a.line = l := by
  induction bs with
  | nil => simp [absorbEach] at h
  | cons b bs ih =>
    have ha : l.absorb δ limit b = ⟨.ok .complete, l, b, []⟩ := if_pos hl
    rw [absorbEach, ha] at h
    rcases List.mem_cons.1 h with rfl | h
    · rfl
    · exact ih h

/-- A line that is complete was judged by the call that has seen its end. -/
private theorem exists_ended (hl : l.state ≠ .complete) {i : Nat} (h : (absorbEach δ limit l bs)[i]? = some a)
    (ha : a.line.state = .complete) :
    ∃ j a', j ≤ i ∧ (absorbEach δ limit l bs)[j]? = some a' ∧ a'.line = a.line ∧
      a'.result = if limit < a.line.content.length then .error (.lineTooLong a.line.content.length limit)
        else .ok .complete := by
  induction bs generalizing l i with
  | nil => simp [absorbEach] at h
  | cons b bs ih =>
    by_cases hc : (l.absorb δ limit b).line.state = .complete
    · -- The first call has seen the end, and leaves the line for all others.
      have hline : a.line = (l.absorb δ limit b).line := by
        rcases List.mem_cons.1 (List.mem_of_getElem? h) with rfl | h
        · rfl
        · exact line_of_mem hc h
      have hresult := (absorbs_absorb δ limit l b).result_of_ended hl hc
      exact ⟨0, l.absorb δ limit b, Nat.zero_le i, rfl, hline.symm, hline ▸ hresult⟩
    · cases i with
      | zero =>
        obtain rfl : l.absorb δ limit b = a := by simpa [absorbEach] using h
        exact absurd ha hc
      | succ i =>
        obtain ⟨j, a', hj, ha', hline, hresult⟩ := ih hc (by simpa [absorbEach] using h)
        exact ⟨j + 1, a', Nat.succ_le_succ hj, ha', hline, hresult⟩

/-- When a line that is too long is handed out. Let bytes be absorbed into an empty line from buffers one after the
other, with the same limit each time, and no matter which calls were refused. A call that gives a complete line gives
one beyond the limit exactly if an earlier call has refused this very line, complete as it is, for its length. After a
refusal for the length each further call is a refusal too, or gives a line beyond the limit. -/
theorem overlong_only_after_refusal (δ : Dialect) (limit : Nat) (bs : List Buffer) :
    let absorbed := absorbEach δ limit {} bs
    (∀ (i : Nat) (a : Absorbed), absorbed[i]? = some a → a.result = .ok .complete →
      (limit < a.line.content.length ↔
        ∃ j a', j < i ∧ absorbed[j]? = some a' ∧ a'.line = a.line ∧
          a'.result = .error (.lineTooLong a.line.content.length limit))) ∧
      ∀ (i j n : Nat) (a a' : Absorbed), i < j → absorbed[i]? = some a → absorbed[j]? = some a' →
        a.result = .error (.lineTooLong n limit) →
          (∃ e, a'.result = .error e) ∨ a'.result = .ok .complete ∧ limit < a'.line.content.length := by
  intro absorbed
  constructor
  · intro i a hi ha
    have hstate : a.line.state = .complete := by
      obtain ⟨l, hl⟩ := absorbs_of_mem (List.mem_of_getElem? hi)
      rw [ha] at hl
      exact hl.state_of_complete
    constructor
    · intro hlimit
      obtain ⟨j, a', hj, ha', hline, hresult⟩ := exists_ended (by simp) hi hstate
      rw [if_pos hlimit] at hresult
      -- The call itself was not refused, so that it is another one that has seen the end.
      have hne : j ≠ i := by
        rintro rfl
        obtain rfl : a' = a := Option.some.inj (ha'.symm.trans hi)
        simp [ha] at hresult
      exact ⟨j, a', Nat.lt_of_le_of_ne hj hne, ha', hline, hresult⟩
    · rintro ⟨j, a', -, ha', hline, hresult⟩
      obtain ⟨l, hl⟩ := absorbs_of_mem (List.mem_of_getElem? ha')
      rw [hresult, hline] at hl
      have hoverrun := hl.overrun_of_lineTooLong
      rwa [Overrun, if_pos hstate] at hoverrun
  · intro i j n a a' hij hi hj hn
    obtain ⟨l, hl⟩ := absorbs_of_mem (List.mem_of_getElem? hi)
    rw [hn] at hl
    have hlater : a' ∈ absorbEach δ limit a.line (bs.drop (i + 1)) := by
      rw [← drop_absorbEach hi]
      refine List.mem_of_getElem? (i := j - (i + 1)) ?_
      rw [List.getElem?_drop, show i + 1 + (j - (i + 1)) = j by omega]
      exact hj
    exact hl.overrun_of_lineTooLong.of_mem hlater

/-- Two bytes where one is the limit. They are refused before their end is seen and with it, and then handed out. -/
theorem overlong_only_after_refusal_of_cut_line :
    let absorbed := absorbEach .strict 1 {} [.withReceived [97, 97] 2, .withReceived [13, 10] 2, .ofStorage []]
    absorbed.map (·.result) = [.error (.lineTooLong 2 1), .error (.lineTooLong 2 1), .ok .complete] ∧
      ∃ a j a', absorbed[2]? = some a ∧ j < 2 ∧ absorbed[j]? = some a' ∧ a'.line = a.line ∧
        a'.result = .error (.lineTooLong 2 1) := by
  intro absorbed
  obtain ⟨hiff, -⟩ :=
    overlong_only_after_refusal .strict 1 [.withReceived [97, 97] 2, .withReceived [13, 10] 2, .ofStorage []]
  obtain ⟨j, a', hj, ha', hline, hresult⟩ := (hiff 2 _ rfl rfl).1 (by decide)
  exact ⟨rfl, _, j, a', rfl, hj, ha', hline, hresult⟩

/-- So a line may be handed out that is longer than the limit: it is refused when its end is seen, and is complete when
it is asked for again. -/
theorem overlong_line_handed_out :
    ∃ a, (absorbEach .strict 1 {} [.withReceived [97, 97, 13, 10] 4, .ofStorage []])[1]? = some a ∧
      a.result = .ok .complete ∧ 1 < a.line.content.length :=
  ⟨_, rfl, rfl, by decide⟩

end ChunkedTransfer.Line
