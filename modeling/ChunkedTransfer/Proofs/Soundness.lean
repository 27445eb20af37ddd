import ChunkedTransfer.Grammar.Body
import ChunkedTransfer.Proofs.Agreement
import ChunkedTransfer.Proofs.SizeLine
import ChunkedTransfer.Proofs.Verdict
import ChunkedTransfer.Transport.Faulty
import ChunkedTransfer.Transport.Fragments

/-!
# Soundness

Whatever bytes a decoder is given: if it comes to the end of a body, the bytes that it has taken are those of a
well-formed body (`sound`). The invariant is how the bytes that were scanned read as the front of a body, in each of
the phases (`Scan.Parses`): whole chunks, then a chunk of which some payload was read, or trailer lines, and at last
a part of a line.

The bound on the body is checked again with the last size line, against the whole payload as far as 64 bits can
count it. This is why the stream has to be shorter than that.
-/

namespace ChunkedTransfer

open Grammar (Body Chunk Framed LineEnd)

/-! ### Sent in a row -/

namespace Grammar

private theorem LineEnd.ne_nil {δ : Dialect} {e : Bytes} (h : LineEnd δ e) : e ≠ [] := by cases h <;> simp

theorem Sent.single {δ : Dialect} {e : Bytes} (he : LineEnd δ e) (line : Bytes) : Sent δ [line] (line ++ e) := by
  have h : Sent δ [line] (line ++ e ++ []) := .cons he .nil
  rwa [List.append_nil] at h

theorem Sent.append {δ : Dialect} {lines lines' : List Bytes} {bs bs' : Bytes} (h : Sent δ lines bs)
    (h' : Sent δ lines' bs') : Sent δ (lines ++ lines') (bs ++ bs') := by
  induction h with
  | nil => exact h'
  | cons he _ ih =>
    rw [List.append_assoc]
    exact .cons he ih

/-- Each line is sent with at least one byte. -/
private theorem Sent.length_le {δ : Dialect} {lines : List Bytes} {bs : Bytes} (h : Sent δ lines bs) :
    lines.length ≤ bs.length := by
  induction h with
  | nil => exact Nat.le_refl _
  | cons he _ ih =>
    have hpos : 0 < _ := List.length_pos_iff.2 he.ne_nil
    simp only [List.length_cons, List.length_append]
    omega

private theorem Chunk.Sent.append {δ : Dialect} {cs cs' : List Chunk} {bs bs' : Bytes} (h : Chunk.Sent δ cs bs)
    (h' : Chunk.Sent δ cs' bs') : Chunk.Sent δ (cs ++ cs') (bs ++ bs') := by
  induction h with
  | nil => exact h'
  | cons hh ht _ ih =>
    rw [List.append_assoc]
    exact .cons hh ht ih

/-- The payload is among the bytes that are sent. -/
private theorem Chunk.Sent.length_payload_le {δ : Dialect} {cs : List Chunk} {bs : Bytes} (h : Chunk.Sent δ cs bs) :
    (cs.flatMap Chunk.payload).length ≤ bs.length := by
  induction h with
  | nil => exact Nat.le_refl _
  | cons _ _ _ ih =>
    simp only [List.flatMap_cons, List.length_append]
    omega

private theorem Body.Sent.length_le {δ : Dialect} {body : Body} {bs : Bytes} (h : body.Sent δ bs) :
    body.payload.length ≤ bs.length ∧ body.trailers.length ≤ bs.length := by
  obtain ⟨front, back, rfl, hf, hb⟩ := h
  have hpayload := hf.length_payload_le
  have hlines := hb.length_le
  simp only [List.length_append, List.length_cons] at hlines
  rw [List.length_append, Body.payload]
  exact ⟨by omega, by omega⟩

end Grammar

namespace Scan

variable {δ : Dialect} {limits : Limits}

/-! ### One byte of a line -/

/-- A byte that is not refused makes the line longer, or it is the last of a line that was sent. -/
private theorem lineByte_cases {limit : Nat} {accept : Scan → Bytes → Scan} {s : Scan} (hl : lineFeed ∉ s.line)
    {b : UInt8} (hr : (s.lineByte δ limit accept b).rejected = false) :
    (lineFeed ∉ s.line ++ [b] ∧ s.lineByte δ limit accept b = { s with line := s.line ++ [b] }) ∨
      ∃ content e, Framed limit content ∧ LineEnd δ e ∧ s.line ++ [b] = content ++ e ∧
        s.lineByte δ limit accept b = accept s content := by
  unfold lineByte at hr ⊢
  split at hr
  · rename_i hb
    subst hb
    rw [if_pos rfl]
    split at hr
    · rename_i content hc
      split at hr
      · rename_i hlen
        obtain ⟨e, he, hs⟩ := Dialect.lineEnd_of_content? hc
        simp only [if_pos hlen]
        exact .inr ⟨content, e, ⟨fun hm => hl (Dialect.mem_of_mem_content? hc hm), hlen⟩, he, hs, rfl⟩
      · simp [reject] at hr
    · simp [reject] at hr
  · rename_i hb
    rw [if_neg hb]
    split at hr
    · rename_i hlen
      rw [if_pos hlen]
      exact .inl ⟨by simp [hl, Ne.symm hb], rfl⟩
    · simp [reject] at hr

/-- A size line that is not refused has the form of one, and what it announces is within the limits. -/
private theorem acceptSizeLine_cases {s : Scan} {line : Bytes} (hr : (s.acceptSizeLine limits line).rejected = false) :
    ∃ n numeral, Grammar.IsSizeLine line numeral ∧ Grammar.numeralValue numeral = n ∧ n ≤ limits.chunk.toNat ∧
      (s.payload.length + n < UInt64.size → s.payload.length + n ≤ limits.body.toNat) ∧
      s.acceptSizeLine limits line =
        { s with line := [], remaining := n, phase := if n = 0 then .trailers else .data } := by
  unfold acceptSizeLine at hr ⊢
  cases hsize : SizeLine.size line with
  | error e => simp [hsize, Except.bind, reject] at hr
  | ok size =>
    simp only [hsize, Except.bind] at hr ⊢
    cases haccept : limits.accept s.payload.length.toUInt64 size with
    | error e => simp [haccept, reject] at hr
    | ok n =>
      obtain ⟨numeral, hl, hv⟩ := SizeLine.size_eq_ok_iff.1 hsize
      obtain ⟨rfl, hc, hb⟩ := Limits.accept_eq_ok_iff.1 haccept
      refine ⟨n.toNat, numeral, hl, hv, hc, fun hlt => ?_, ?_⟩
      · rw [UInt64.toNat_ofNat_of_lt' (by omega)] at hb
        omega
      · have hz : n.toNat = 0 ↔ n = 0 := by
          rw [← UInt64.toNat_inj]
          rfl
        simp only [hz]

/-! ### What was read so far -/

/-- How the bytes that were scanned read as the front of a body. -/
inductive Parses (δ : Dialect) (limits : Limits) : Scan → Bytes → Prop
  | size {cs : List Chunk} {front line : Bytes} (hs : Chunk.Sent δ cs front) (hw : ∀ c ∈ cs, c.WellFormed limits)
      (hl : lineFeed ∉ line) : Parses δ limits { line, payload := cs.flatMap Chunk.payload } (front ++ line)
  /-- Whatever the payload is that remains, the chunk is well-formed with it. -/
  | data {cs : List Chunk} {front sizeLine head payload line : Bytes} {remaining : Nat} (hs : Chunk.Sent δ cs front)
      (hw : ∀ c ∈ cs, c.WellFormed limits) (hh : Grammar.Sent δ [sizeLine] head)
      (hc : ∀ rest : Bytes, rest.length = remaining → (Chunk.mk sizeLine (payload ++ rest)).WellFormed limits)
      (hl : lineFeed ∉ line) (hr : remaining = 0 ∨ line = []) :
      Parses δ limits { phase := .data, line, remaining, payload := cs.flatMap Chunk.payload ++ payload }
        (front ++ head ++ payload ++ line)
  | trailers {body : Body} {front back line : Bytes} (hs : Chunk.Sent δ body.chunks front)
      (ht : Grammar.Sent δ (body.lastLine :: body.trailers) back)
      (hw : body.payload.length < UInt64.size → body.WellFormed limits) (hl : lineFeed ∉ line) :
      Parses δ limits { phase := .trailers, line, payload := body.payload, trailers := body.trailers.length }
        (front ++ back ++ line)
  | ended {body : Body} {bs : Bytes} (hs : body.Sent δ bs)
      (hw : body.payload.length < UInt64.size → body.WellFormed limits) :
      Parses δ limits { phase := .terminated, payload := body.payload, trailers := body.trailers.length } bs

theorem parses_nil : Parses δ limits {} [] := .size .nil (by simp) List.not_mem_nil

private theorem parses_step_size {cs : List Chunk} {front line : Bytes} (hs : Chunk.Sent δ cs front)
    (hw : ∀ c ∈ cs, c.WellFormed limits) (hl : lineFeed ∉ line) {b : UInt8} :
    let s : Scan := { line, payload := cs.flatMap Chunk.payload }
    (s.step δ limits b).rejected = false → Parses δ limits (s.step δ limits b) (front ++ line ++ [b]) := by
  intro s hr
  have hstep : s.step δ limits b = s.lineByte δ limits.chunkLine (acceptSizeLine limits) b :=
    (readsLine_size (s := s) rfl rfl).step_eq line b
  rw [hstep] at hr ⊢
  rcases lineByte_cases hl hr with ⟨hl', he⟩ | ⟨content, e, hf, hend, hsent, he⟩
  · rw [he, List.append_assoc]
    exact .size hs hw hl'
  · rw [he] at hr ⊢
    obtain ⟨n, numeral, hline, hv, hchunk, hbody, he'⟩ := acceptSizeLine_cases hr
    rw [he', List.append_assoc, hsent]
    -- A size of zero stands in front of the trailer lines, any other in front of payload.
    by_cases hz : n = 0
    · subst hz
      let body : Body := ⟨cs, content, []⟩
      have hbody' : body.payload.length < UInt64.size → body.WellFormed limits := fun hlt =>
        { chunks := hw
          last := ⟨numeral, hline, hv⟩
          last_framed := hf
          trailers := by simp [body]
          total_le := hbody hlt }
      have h := Parses.trailers (show Chunk.Sent δ body.chunks front from hs) (.single hend content) hbody'
        List.not_mem_nil
      rwa [List.append_nil] at h
    · rw [if_neg hz]
      have hc (rest : Bytes) (hrest : rest.length = n) : (Chunk.mk content ([] ++ rest)).WellFormed limits :=
        { size := ⟨numeral, hline, hv.trans hrest.symm⟩
          framed := hf
          nonempty := fun h => hz (by simpa [hrest] using congrArg List.length h)
          length_le := by simpa [hrest] using hchunk }
      simpa using Parses.data hs hw (.single hend content) hc List.not_mem_nil (.inr rfl)

private theorem parses_step_payload {cs : List Chunk} {front sizeLine head payload : Bytes} {remaining : Nat}
    (hs : Chunk.Sent δ cs front) (hw : ∀ c ∈ cs, c.WellFormed limits) (hh : Grammar.Sent δ [sizeLine] head)
    (hc : ∀ rest : Bytes, rest.length = remaining + 1 → (Chunk.mk sizeLine (payload ++ rest)).WellFormed limits)
    (b : UInt8) :
    let s : Scan := { phase := .data, remaining := remaining + 1, payload := cs.flatMap Chunk.payload ++ payload }
    Parses δ limits (s.step δ limits b) (front ++ head ++ payload ++ [b]) := by
  intro s
  have hstep : s.step δ limits b =
      { phase := .data, remaining, payload := cs.flatMap Chunk.payload ++ (payload ++ [b]) } := by
    simp [s, step]
  have hc' (rest : Bytes) (hrest : rest.length = remaining) :
      (Chunk.mk sizeLine (payload ++ [b] ++ rest)).WellFormed limits := by
    rw [List.append_assoc]
    apply hc
    simp [hrest]
  rw [hstep]
  simpa using Parses.data hs hw hh hc' List.not_mem_nil (.inr rfl)

private theorem parses_step_terminator {cs : List Chunk} {front sizeLine head payload line : Bytes}
    (hs : Chunk.Sent δ cs front) (hw : ∀ c ∈ cs, c.WellFormed limits) (hh : Grammar.Sent δ [sizeLine] head)
    (hc : (Chunk.mk sizeLine payload).WellFormed limits) (hl : lineFeed ∉ line) {b : UInt8} :
    let s : Scan := { phase := .data, line, payload := cs.flatMap Chunk.payload ++ payload }
    (s.step δ limits b).rejected = false →
      Parses δ limits (s.step δ limits b) (front ++ head ++ payload ++ line ++ [b]) := by
  intro s hr
  have hstep : s.step δ limits b = s.lineByte δ limits.chunkLine acceptTerminator b :=
    (readsLine_terminator (s := s) rfl rfl rfl).step_eq line b
  rw [hstep] at hr ⊢
  rcases lineByte_cases hl hr with ⟨hl', he⟩ | ⟨content, e, -, hend, hsent, he⟩
  · rw [he, List.append_assoc _ line]
    refine .data hs hw hh (fun rest hrest => ?_) hl' (.inl rfl)
    rwa [List.length_eq_zero_iff.1 hrest, List.append_nil]
  · rw [he] at hr ⊢
    unfold acceptTerminator at hr ⊢
    split at hr
    · -- The line is empty, and the chunk is complete.
      rename_i hcontent
      subst hcontent
      rw [if_pos rfl, List.append_assoc _ line, hsent]
      have hone := Chunk.Sent.cons (c := ⟨sizeLine, payload⟩) hh (Grammar.Sent.single hend []) .nil
      have hall : ∀ c ∈ cs ++ [⟨sizeLine, payload⟩], c.WellFormed limits := by
        intro c hm
        rcases List.mem_append.1 hm with hm | hm
        · exact hw c hm
        · rwa [List.mem_singleton.1 hm]
      simpa [s] using Parses.size (hs.append hone) hall List.not_mem_nil
    · simp [reject] at hr

private theorem parses_step_trailers {body : Body} {front back line : Bytes} (hs : Chunk.Sent δ body.chunks front)
    (ht : Grammar.Sent δ (body.lastLine :: body.trailers) back)
    (hw : body.payload.length < UInt64.size → body.WellFormed limits) (hl : lineFeed ∉ line) {b : UInt8} :
    let s : Scan := { phase := .trailers, line, payload := body.payload, trailers := body.trailers.length }
    (s.step δ limits b).rejected = false → Parses δ limits (s.step δ limits b) (front ++ back ++ line ++ [b]) := by
  intro s hr
  have hstep : s.step δ limits b = s.lineByte δ limits.trailerLine acceptTrailerLine b :=
    (readsLine_trailers (s := s) rfl rfl).step_eq line b
  rw [hstep] at hr ⊢
  rcases lineByte_cases hl hr with ⟨hl', he⟩ | ⟨content, e, hf, hend, hsent, he⟩
  · rw [he, List.append_assoc _ line]
    exact .trailers hs ht hw hl'
  · rw [he, List.append_assoc _ line, hsent]
    have hback := ht.append (.single hend content)
    unfold acceptTrailerLine
    -- An empty line ends the body, any other is one more of its trailer lines.
    split
    · rename_i hcontent
      subst hcontent
      exact .ended ⟨front, _, by simp, hs, hback⟩ hw
    · rename_i hcontent
      let body' : Body := { body with trailers := body.trailers ++ [content] }
      have hw' : body'.payload.length < UInt64.size → body'.WellFormed limits := by
        intro hlt
        obtain ⟨hchunks, hlast, hframed, htrailers, htotal⟩ := hw hlt
        refine ⟨hchunks, hlast, hframed, fun t hm => ?_, htotal⟩
        rcases List.mem_append.1 hm with hm | hm
        · exact htrailers t hm
        · rw [List.mem_singleton.1 hm]
          exact ⟨hcontent, hf⟩
      simpa [s, body', Body.payload] using
        Parses.trailers (show Chunk.Sent δ body'.chunks front from hs) hback hw' List.not_mem_nil

/-- What a byte that is not refused adds to what was read so far. -/
private theorem Parses.step {s : Scan} {bs : Bytes} (h : Parses δ limits s bs) {b : UInt8}
    (hr : (s.step δ limits b).rejected = false) : Parses δ limits (s.step δ limits b) (bs ++ [b]) := by
  cases h with
  | size hs hw hl => exact parses_step_size hs hw hl hr
  | @data _ _ _ _ _ _ remaining hs hw hh hc hl hz =>
    cases remaining with
    | zero =>
      have hc' := hc [] rfl
      rw [List.append_nil] at hc'
      exact parses_step_terminator hs hw hh hc' hl hr
    | succ n =>
      obtain rfl := hz.resolve_left (Nat.succ_ne_zero n)
      rw [List.append_nil]
      exact parses_step_payload hs hw hh hc b
  | trailers hs ht hw hl => exact parses_step_trailers hs ht hw hl hr
  | ended hs hw => simp [Scan.step, reject] at hr

/-- As long as no byte is refused, all bytes read as the front of a body. -/
theorem Parses.feed {s : Scan} {bs : Bytes} (h : Parses δ limits s bs) {cs : Bytes}
    (hr : (s.feed δ limits cs).rejected = false) : Parses δ limits (s.feed δ limits cs) (bs ++ cs) := by
  induction cs generalizing s bs with
  | nil => simpa using h
  | cons c cs ih =>
    rw [feed_cons] at hr ⊢
    have hc : (s.step δ limits c).rejected = false := by
      cases hq : (s.step δ limits c).rejected with
      | false => rfl
      | true => rwa [feed_of_rejected hq, hq] at hr
    have := ih (h.step hc) hr
    rwa [List.append_assoc, List.singleton_append] at this

/-- Bytes that are scanned to the end of a body are those of a body. -/
private theorem exists_sent_of_terminated {bs : Bytes} (hr : (feed δ limits {} bs).rejected = false)
    (hp : (feed δ limits {} bs).phase = .terminated) (hlt : bs.length < UInt64.size) :
    ∃ body : Body, body.WellFormed limits ∧ body.Sent δ bs ∧
      feed δ limits {} bs = { phase := .terminated, payload := body.payload, trailers := body.trailers.length } := by
  have h := parses_nil.feed hr
  rw [List.nil_append] at h
  generalize feed δ limits {} bs = s at h hp
  cases h with
  | size => simp at hp
  | data => simp at hp
  | trailers => simp at hp
  | @ended body _ hs hw => exact ⟨body, hw (Nat.lt_of_le_of_lt hs.length_le.1 hlt), hs, rfl⟩

end Scan

namespace Decoder

/-- A decoder ends no other bodies than well-formed ones. Whatever it was given, and however: if it has told the end,
the bytes that it has taken are those of a body within the limits, and it has delivered the payload of this body and
counted its trailer lines. -/
theorem sound {τ : Type} [Transport τ] (δ : Dialect) (limits : Limits) (b : Buffer) (t : τ) {ops : List Operation}
    (ho : ∀ op ∈ ops, op.IsReading) :
    let d := ofSource (.ofBuffer b t) limits
    (consumed (eventsOf (d.run δ ops))).length < UInt64.size →
      (∃ r ∈ d.run δ ops, r.result = .ok (.progress .ended)) →
      ∃ body : Body, body.WellFormed limits ∧ body.Sent δ (consumed (eventsOf (d.run δ ops))) ∧
        delivered (d.run δ ops) = body.payload ∧ (d.finish δ ops).trailers.toNat = body.trailers.length := by
  intro d hlt ⟨r, hr, hend⟩
  obtain ⟨ha, hp⟩ := follows_run δ (agrees_ofSource (.ofBuffer b t) limits) ho
  obtain ⟨hrejected, hphase⟩ := ha.of_terminated (phase_finish_of_ended ho hr hend)
  obtain ⟨body, hw, hs, hfeed⟩ := Scan.exists_sent_of_terminated hrejected hphase hlt
  refine ⟨body, hw, hs, ?_, ?_⟩
  · rw [hfeed] at hp
    exact hp.symm
  · -- There are fewer trailer lines than bytes, so the counter does not wrap.
    have htrailers := ha.trailers
    rw [hfeed] at htrailers
    rw [htrailers]
    exact UInt64.toNat_ofNat_of_lt' (Nat.lt_of_le_of_lt hs.length_le.2 hlt)

/-- One chunk with bare line feeds, read past a timeout and by a read without room. -/
theorem sound_of_one_chunk :
    let t : Faulty Fragments := ⟨⟨[.fragment 49 [10, 97], .gap, .fragment 10 [48, 10, 10, 88]], true⟩,
      [(1, .fault (.plain .timedOut))]⟩
    let d := ofSource (.ofBuffer (.ofStorage [0, 0]) t) {}
    let ops := [.read 4, .refill, .read 0] ++ List.replicate 5 (.read 1)
    ∃ body : Body, body.WellFormed {} ∧ body.Sent .tolerant (consumed (eventsOf (d.run .tolerant ops))) ∧
      delivered (d.run .tolerant ops) = body.payload ∧
      (d.finish .tolerant ops).trailers.toNat = body.trailers.length := by
  intro t d ops
  exact sound .tolerant {} (.ofStorage [0, 0]) t (show ∀ op ∈ ops, op.IsReading by decide) (by decide +kernel)
    ⟨(d.run .tolerant ops).get ⟨7, by decide⟩, List.get_mem _ _, by decide +kernel⟩

end Decoder

end ChunkedTransfer
