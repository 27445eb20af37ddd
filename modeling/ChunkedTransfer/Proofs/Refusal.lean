import Mathlib.Data.List.Induction
import ChunkedTransfer.Proofs.BrokenLine
import ChunkedTransfer.Proofs.Fragmentation

/-!
# Refusals

With which error a body is refused. The first byte that a scan refuses has a cause (`Scan.refusal`), and this does not
depend on the pieces in which the bytes come (`Scan.refusal_append`). A decoder reports the cause, but for one case
(`Scan.Refuses`): a line that has grown too long may be reported for its bare line feed, if this comes in the piece
that makes the line too long. So two decoders over the same bytes report the same error, unless there is such a line
among the bytes (`refusal_invariance`).
-/

namespace ChunkedTransfer

/-- The error without the length that a line has come to, which depends on the pieces in which it came. -/
def FramingError.withoutLength : FramingError → FramingError
  | lineTooLong _ limit => lineTooLong 0 limit
  | e => e

namespace Scan

/-! ### Causes -/

/-- Why a byte is refused in a line, if it is. The content of a line within its limit is judged at its end. -/
def lineCause (δ : Dialect) (limit : Nat) (judge : Bytes → Option FramingError) (line : Bytes) (b : UInt8) :
    Option FramingError :=
  if b = lineFeed then
    match δ.content? line with
    | some content => if content.length ≤ limit then judge content else some (.lineTooLong content.length limit)
    | none => some .bareLineFeed
  else if framedLength (line ++ [b]) ≤ limit then none
  else some (.lineTooLong (framedLength (line ++ [b])) limit)

def judgeSizeLine (limits : Limits) (s : Scan) (line : Bytes) : Option FramingError :=
  match (SizeLine.size line).bind (limits.accept s.payload.length.toUInt64) with
  | .error e => some e
  | .ok _ => none

def judgeTerminator (line : Bytes) : Option FramingError :=
  if line = [] then none else some .missingChunkTerminator

/-- Why a byte is refused, if it is. -/
def cause (δ : Dialect) (limits : Limits) (s : Scan) (b : UInt8) : Option FramingError :=
  if s.rejected then none
  else
    match s.phase with
    | .size => lineCause δ limits.chunkLine (judgeSizeLine limits s) s.line b
    | .data => if 0 < s.remaining then none else lineCause δ limits.chunkLine judgeTerminator s.line b
    | .trailers => lineCause δ limits.trailerLine (fun _ => none) s.line b
    | .terminated | .error => none

/-- Why the first byte is refused that is. -/
def refusal (δ : Dialect) (limits : Limits) : Scan → Bytes → Option FramingError
  | _, [] => none
  | s, b :: bs => (s.cause δ limits b).or (refusal δ limits (s.step δ limits b) bs)

variable {δ : Dialect} {limits : Limits} {s : Scan}

theorem refusal_append (s : Scan) (bs cs : Bytes) :
    s.refusal δ limits (bs ++ cs) = (s.refusal δ limits bs).or ((s.feed δ limits bs).refusal δ limits cs) := by
  induction bs generalizing s with
  | nil => rfl
  | cons b bs ih => rw [List.cons_append, refusal, refusal, ih, Option.or_assoc, feed_cons]

private theorem rejected_lineByte {limit : Nat} {judge : Bytes → Option FramingError} {accept : Scan → Bytes → Scan}
    {b : UInt8} {e : FramingError} (ha : ∀ line, judge line = some e → (accept s line).rejected = true)
    (h : lineCause δ limit judge s.line b = some e) : (s.lineByte δ limit accept b).rejected = true := by
  unfold lineCause at h
  unfold lineByte
  split
  · rename_i hb
    rw [if_pos hb] at h
    cases hc : δ.content? s.line with
    | none => rfl
    | some content =>
      simp only [hc] at h ⊢
      split
      · rename_i hl
        rw [if_pos hl] at h
        exact ha content h
      · rfl
  · rename_i hb
    rw [if_neg hb] at h
    split
    · rename_i hl
      simp [if_pos hl] at h
    · rfl

/-- A byte for which there is a cause is refused. -/
private theorem rejected_step_of_cause {b : UInt8} {e : FramingError} (h : s.cause δ limits b = some e) :
    (s.step δ limits b).rejected = true := by
  unfold cause at h
  unfold step
  split
  · assumption
  · rename_i hr
    rw [if_neg hr] at h
    cases hp : s.phase with
    | size =>
      simp only [hp] at h ⊢
      refine rejected_lineByte (fun line hj => ?_) h
      cases hv : (SizeLine.size line).bind (limits.accept s.payload.length.toUInt64) with
      | error e' => simp [acceptSizeLine, hv, reject]
      | ok size => simp [judgeSizeLine, hv] at hj
    | data =>
      simp only [hp] at h ⊢
      split
      · rename_i hn
        simp [if_pos hn] at h
      · rename_i hn
        rw [if_neg hn] at h
        refine rejected_lineByte (fun line hj => ?_) h
        unfold judgeTerminator at hj
        split at hj
        · simp at hj
        · rename_i hl
          simp [acceptTerminator, hl, reject]
    | trailers =>
      simp only [hp] at h ⊢
      exact rejected_lineByte (fun line hj => by simp at hj) h
    | terminated => simp [hp] at h
    | error => simp [hp] at h

private theorem refusal_eq_none {bs : Bytes} (h : (s.feed δ limits bs).rejected = false) :
    s.refusal δ limits bs = none := by
  induction bs generalizing s with
  | nil => rfl
  | cons b bs ih =>
    rw [feed_cons] at h
    have hc : s.cause δ limits b = none := by
      refine Option.eq_none_iff_forall_ne_some.2 fun e he => ?_
      have hr := rejected_step_of_cause he
      rw [feed_of_rejected hr, hr] at h
      simp at h
    rw [refusal, hc, Option.none_or, ih h]

/-! ### Lines -/

/-- The limit of the line that is read, if one is. -/
def lineLimit? (limits : Limits) (s : Scan) : Option Nat :=
  match s.phase with
  | .size => some limits.chunkLine
  | .data => if 0 < s.remaining then none else some limits.chunkLine
  | .trailers => some limits.trailerLine
  | .terminated | .error => none

/-- The scan reads a line within a limit, and its content is judged at its end. -/
structure JudgesLine (δ : Dialect) (limits : Limits) (limit : Nat) (judge : Bytes → Option FramingError) (s : Scan) :
    Prop where
  not_rejected : s.rejected = false
  reads : ∃ accept, s.ReadsLine δ limits limit accept
  cause_eq : ∀ line b, cause δ limits { s with line } b = lineCause δ limit judge line b
  limit_eq : s.lineLimit? limits = some limit

private theorem judgesLine_size (hr : s.rejected = false) (hp : s.phase = .size) :
    s.JudgesLine δ limits limits.chunkLine (judgeSizeLine limits s) where
  not_rejected := hr
  reads := ⟨_, readsLine_size hr hp⟩
  cause_eq line b := by
    simp only [cause, hr, hp, Bool.false_eq_true, if_false]
    rfl
  limit_eq := by simp [lineLimit?, hp]

private theorem judgesLine_terminator (hr : s.rejected = false) (hp : s.phase = .data) (hz : s.remaining = 0) :
    s.JudgesLine δ limits limits.chunkLine judgeTerminator where
  not_rejected := hr
  reads := ⟨_, readsLine_terminator hr hp hz⟩
  cause_eq line b := by simp [cause, hr, hp, hz]
  limit_eq := by simp [lineLimit?, hp, hz]

private theorem judgesLine_trailers (hr : s.rejected = false) (hp : s.phase = .trailers) :
    s.JudgesLine δ limits limits.trailerLine (fun _ => none) where
  not_rejected := hr
  reads := ⟨_, readsLine_trailers hr hp⟩
  cause_eq line b := by simp [cause, hr, hp]
  limit_eq := by simp [lineLimit?, hp]

/-- Among the bytes is a line that grows too long and ends with a bare line feed. It can be refused for either. -/
inductive Ambiguous (δ : Dialect) (limits : Limits) (s : Scan) : Bytes → Prop
  | intro {front tail rest : Bytes} {limit : Nat} (hr : (s.feed δ limits front).rejected = false)
      (hl : (s.feed δ limits front).lineLimit? limits = some limit) (ht : lineFeed ∉ tail)
      (hc : δ.content? ((s.feed δ limits front).line ++ tail) = none)
      (hn : limit < ((s.feed δ limits front).line ++ tail).length) :
      Ambiguous δ limits s (front ++ (tail ++ lineFeed :: rest))

private theorem Ambiguous.append {bs : Bytes} (h : s.Ambiguous δ limits bs) (cs : Bytes) :
    s.Ambiguous δ limits (bs ++ cs) := by
  obtain ⟨hr, hl, ht, hc, hn⟩ := h
  rw [List.append_assoc, List.append_assoc, List.cons_append]
  exact .intro hr hl ht hc hn

private theorem Ambiguous.prepend {bs cs : Bytes} (h : (s.feed δ limits cs).Ambiguous δ limits bs) :
    s.Ambiguous δ limits (cs ++ bs) := by
  obtain ⟨hr, hl, ht, hc, hn⟩ := h
  rw [← feed_append] at hr hl hc hn
  rw [← List.append_assoc]
  exact .intro hr hl ht hc hn

/-- A tolerant decoder takes a bare line feed for the end of a line. -/
private theorem Ambiguous.eq_strict {bs : Bytes} (h : s.Ambiguous δ limits bs) : δ = .strict := by
  obtain ⟨-, -, -, hc, -⟩ := h
  exact (Dialect.content?_eq_none_iff.1 hc).1

/-- A decoder that refuses the bytes may report this with the error. -/
inductive Refuses (δ : Dialect) (limits : Limits) (s : Scan) (bs : Bytes) : FramingError → Prop
  | cause {e e' : FramingError} (h : s.refusal δ limits bs = some e') (he : e.withoutLength = e'.withoutLength) :
      Refuses δ limits s bs e
  | lineEnd {n limit : Nat} (h : s.refusal δ limits bs = some (.lineTooLong n limit)) (ha : s.Ambiguous δ limits bs) :
      Refuses δ limits s bs .bareLineFeed

private theorem Refuses.append {bs : Bytes} {e : FramingError} (h : s.Refuses δ limits bs e) (cs : Bytes) :
    s.Refuses δ limits (bs ++ cs) e := by
  cases h with
  | cause h he => exact .cause (by rw [refusal_append, h, Option.some_or]) he
  | lineEnd h ha => exact .lineEnd (by rw [refusal_append, h, Option.some_or]) (ha.append cs)

private theorem Refuses.prepend {bs cs : Bytes} {e : FramingError} (hr : (s.feed δ limits cs).rejected = false)
    (h : (s.feed δ limits cs).Refuses δ limits bs e) : s.Refuses δ limits (cs ++ bs) e := by
  cases h with
  | cause h he => exact .cause (by rw [refusal_append, refusal_eq_none hr, Option.none_or, h]) he
  | lineEnd h ha => exact .lineEnd (by rw [refusal_append, refusal_eq_none hr, Option.none_or, h]) ha.prepend

/-- The same bytes are refused with the same error, unless they can be refused for two reasons. -/
private theorem Refuses.eq_or {bs : Bytes} {e e' : FramingError} (h : s.Refuses δ limits bs e)
    (h' : s.Refuses δ limits bs e') :
    e.withoutLength = e'.withoutLength ∨ s.Ambiguous δ limits bs ∧
      (e = .bareLineFeed ∧ (∃ n limit, e' = .lineTooLong n limit) ∨
        e' = .bareLineFeed ∧ ∃ n limit, e = .lineTooLong n limit) := by
  have hlong {e : FramingError} {n limit : Nat} (he : e.withoutLength = (FramingError.lineTooLong n limit).withoutLength) :
      ∃ n limit, e = .lineTooLong n limit := by
    cases e <;> simp_all [FramingError.withoutLength]
  cases h with
  | cause h he =>
    cases h' with
    | cause h' he' =>
      obtain rfl := Option.some.inj (h.symm.trans h')
      exact .inl (he.trans he'.symm)
    | lineEnd h' ha =>
      obtain rfl := Option.some.inj (h.symm.trans h')
      exact .inr ⟨ha, .inr ⟨rfl, hlong he⟩⟩
  | lineEnd h ha =>
    cases h' with
    | cause h' he' =>
      obtain rfl := Option.some.inj (h.symm.trans h')
      exact .inr ⟨ha, .inl ⟨rfl, hlong he'⟩⟩
    | lineEnd h' ha' => exact .inl rfl

namespace JudgesLine

variable {limit : Nat} {judge : Bytes → Option FramingError}

private theorem refusal_of_extend (h : s.JudgesLine δ limits limit judge) {bs : Bytes} (hb : lineFeed ∉ bs)
    (hl : bs = [] ∨ framedLength (s.line ++ bs) ≤ limit) (b : UInt8) :
    s.refusal δ limits (bs ++ [b]) = lineCause δ limit judge (s.line ++ bs) b := by
  obtain ⟨accept, hreads⟩ := h.reads
  have hfeed : s.feed δ limits bs = { s with line := s.line ++ bs } := hreads.feed_extend s.line hb hl
  rw [refusal_append, refusal_eq_none (by rw [hfeed]; exact h.not_rejected), hfeed, Option.none_or, refusal, refusal,
    Option.or_none, h.cause_eq]

private theorem refusal_of_overlong (h : s.JudgesLine δ limits limit judge) {bs : Bytes} (hb : lineFeed ∉ bs)
    (hn : bs ≠ []) (hl : limit < framedLength (s.line ++ bs)) :
    ∃ n, s.refusal δ limits bs = some (.lineTooLong n limit) := by
  -- The bytes are taken from the end, where the line may still be within its limit.
  induction bs using List.reverseRecOn with
  | nil => exact absurd rfl hn
  | append_singleton bs b ih =>
    obtain ⟨hb', hb⟩ : lineFeed ∉ bs ∧ b ≠ lineFeed := by
      simpa [eq_comm] using hb
    by_cases hbs : bs = [] ∨ framedLength (s.line ++ bs) ≤ limit
    · rw [h.refusal_of_extend hb' hbs, lineCause, if_neg hb, List.append_assoc, if_neg (by omega)]
      exact ⟨_, rfl⟩
    · obtain ⟨hne, hlong⟩ := not_or.1 hbs
      obtain ⟨n, hr⟩ := ih hb' hne (by omega)
      exact ⟨n, by rw [refusal_append, hr, Option.some_or]⟩

/-- A complete line is refused for what its content is judged. -/
private theorem refusal_of_complete (h : s.JudgesLine δ limits limit judge) {bs content : Bytes} (hb : lineFeed ∉ bs)
    (hc : δ.content? (s.line ++ bs) = some content) (hl : content.length ≤ limit) :
    s.refusal δ limits (bs ++ [lineFeed]) = judge content := by
  rw [h.refusal_of_extend hb (.inr (by rwa [Dialect.framedLength_of_content? hc])), lineCause, if_pos rfl]
  simp only [hc, if_pos hl]

/-- What breaks a line is reported as the refusal of its bytes. -/
private theorem refuses_of_breaks (h : s.JudgesLine δ limits limit judge) {bs : Bytes} {e : FramingError}
    (hb : Line.Breaks δ limit s.line bs e) : s.Refuses δ limits bs e := by
  cases hb with
  | overlong hb hn hl =>
    obtain ⟨n, hr⟩ := h.refusal_of_overlong hb hn hl
    exact .cause hr rfl
  | @bare bs hb hc =>
    by_cases hl : bs = [] ∨ framedLength (s.line ++ bs) ≤ limit
    · have hr : s.refusal δ limits (bs ++ [lineFeed]) = some .bareLineFeed := by
        rw [h.refusal_of_extend hb hl, lineCause, if_pos rfl]
        simp only [hc]
      exact .cause hr rfl
    · -- The line was too long before its end was seen to be wrong.
      obtain ⟨hn, hl⟩ := not_or.1 hl
      obtain ⟨n, hr⟩ := h.refusal_of_overlong hb hn (by omega)
      have hcounted : framedLength (s.line ++ bs) = (s.line ++ bs).length :=
        if_neg (Dialect.content?_eq_none_iff.1 hc).2
      have ha : s.Ambiguous δ limits ([] ++ (bs ++ [lineFeed])) :=
        .intro h.not_rejected h.limit_eq hb hc (by simp only [feed_nil]; omega)
      exact .lineEnd (by rw [refusal_append, hr, Option.some_or]) ha
  | @overlongAtEnd bs c hb hc hl =>
    obtain ⟨n, hr⟩ : ∃ n, s.refusal δ limits (bs ++ [lineFeed]) = some (.lineTooLong n limit) := by
      by_cases hbs : bs = []
      · subst hbs
        rw [h.refusal_of_extend hb (.inl rfl), lineCause, if_pos rfl]
        simp only [hc, if_neg (Nat.not_le.2 hl)]
        exact ⟨_, rfl⟩
      · obtain ⟨n, hr⟩ := h.refusal_of_overlong hb hbs (by rwa [Dialect.framedLength_of_content? hc])
        exact ⟨n, by rw [refusal_append, hr, Option.some_or]⟩
    exact .cause hr rfl

end JudgesLine

end Scan

namespace Decoder

open Scan (Refuses JudgesLine judgeSizeLine judgeTerminator)

variable {τ : Type}

/-! ### Reports -/

/-- A decoder that has taken the bytes, and that has failed because of them only with the refusal of them. -/
structure Reports (δ : Dialect) (d : Decoder τ) (bs : Bytes) : Prop where
  agrees : d.Agrees (Scan.feed δ d.limits {} bs)
  refuses : ∀ m e, d.phase = .failed m e → (∀ p, e ≠ .truncated p) → Refuses δ d.limits {} bs e

private theorem reports_ofSource (δ : Dialect) (source : Source τ) (limits : Limits) :
    (ofSource source limits).Reports δ [] where
  agrees := agrees_ofSource source limits
  refuses m e hf := by simp [ofSource] at hf

private theorem Reports.withSource {δ : Dialect} {d : Decoder τ} {bs : Bytes} (h : d.Reports δ bs) (source : Source τ) :
    Reports δ { d with source } bs :=
  ⟨h.agrees.withSource source, h.refuses⟩

/-- An operation fails with a framing error, which it leaves in the decoder. -/
structure FailsWith (r : Outcome (Decoder τ) Answer) (m : PhaseMarker) (e : FramingError) : Prop where
  result_eq : r.result = .error (.framing e)
  phase_eq : r.state.phase = .failed m e

/-- A decoder that gives a verdict on a body that is not complete fails. -/
private theorem Concludes.failsWith {r : Outcome (Decoder τ) Answer} {v : Verdict} (h : Concludes r v)
    (hv : v ≠ .complete) : ∃ m e, FailsWith r m e := by
  cases h with
  | complete => exact absurd rfl hv
  | truncated hr hp => exact ⟨_, _, hr, hp⟩
  | malformed hr he hp => exact ⟨_, _, hr, hp⟩

/-- A decoder that has failed agrees with a scan whose verdict is not that the body is complete. -/
private theorem Agrees.verdict_ne {d : Decoder τ} {s : Scan} {m : PhaseMarker} {e : FramingError} (h : d.Agrees s)
    (hp : d.phase = .failed m e) : s.verdict ≠ .complete := by
  obtain ⟨hm, hreading, -⟩ := h.of_failed hp
  intro hv
  rw [(Scan.verdict_eq_complete_iff.1 hv).2] at hm
  simp [← hm, PhaseMarker.IsReading] at hreading

/-! ### Steps -/

private theorem judge_of_acceptSizeLine {d : Decoder τ} {s : Scan} (h : d.Agrees s) {line : Line} {source : Source τ}
    {m : PhaseMarker} {e : FramingError}
    (hf : (acceptSizeLine { d with line, source }).state.phase = .failed m e) :
    judgeSizeLine d.limits s line.content = some e := by
  unfold acceptSizeLine at hf
  unfold judgeSizeLine
  rw [← h.decoded]
  split at hf
  · rename_i e' he
    obtain ⟨-, rfl⟩ : _ ∧ e' = e := by simpa [fail, Phase.fail] using hf
    simp only at he
    rw [he]
  · split at hf <;> simp at hf

private theorem judge_of_acceptTerminator {d : Decoder τ} {line : Line} {source : Source τ} {m : PhaseMarker}
    {e : FramingError} (hf : (acceptTerminator { d with line, source }).state.phase = .failed m e) :
    judgeTerminator line.content = some e := by
  unfold acceptTerminator at hf
  unfold judgeTerminator
  split at hf
  · simp at hf
  · rename_i hl
    obtain ⟨-, rfl⟩ : _ ∧ FramingError.missingChunkTerminator = e := by simpa [fail, Phase.fail] using hf
    rw [if_neg (by simpa using hl)]

private theorem phase_acceptTrailerLine_ne (δ : Dialect) {d : Decoder τ} (hp : d.phase = .trailers) (line : Line)
    (source : Source τ) (m : PhaseMarker) (e : FramingError) :
    (acceptTrailerLine δ { d with line, source }).state.phase ≠ .failed m e := by
  unfold acceptTrailerLine
  split
  · simp
  · simp [hp]

/-- A stall is reported as a truncation, and so as no refusal. -/
private theorem eq_truncated_of_stall {d : Decoder τ} (hp : d.phase.isFailed = false) {line : Line} {source : Source τ}
    {m : PhaseMarker} {e : FramingError} (hf : (stall { d with line, source }).state.phase = .failed m e) :
    ∃ p, e = .truncated p := by
  unfold stall at hf
  split at hf
  · obtain ⟨-, rfl⟩ : _ ∧ FramingError.truncated _ = e := by simpa [fail, Phase.fail] using hf
    exact ⟨_, rfl⟩
  · simp only at hf
    simp [hf, Phase.isFailed] at hp

variable [Transport τ] {δ : Dialect} {m : PhaseMarker} {e : FramingError}

/-- Payload is not refused. -/
private theorem eq_truncated_of_handOver {d : Decoder τ} (hp : d.phase.isFailed = false) {room : Nat}
    (hf : (d.handOver room).state.phase = .failed m e) : ∃ p, e = .truncated p := by
  have hne : d.phase ≠ .failed m e := fun hq => by simp [hq, Phase.isFailed] at hp
  unfold handOver at hf
  split at hf
  · exact absurd hf hne
  · simp only at hf
    split at hf
    · exact absurd hf hne
    · exact eq_truncated_of_stall hp hf
    · exact absurd hf hne

/-- A line is refused for what breaks it, or for what its content is judged. -/
private theorem refuses_withLine {limit : Nat} {d : Decoder τ} {s : Scan} {accept : Decoder τ → StepOutcome τ}
    {judge : Bytes → Option FramingError} (h : d.Agrees s) (hp : d.phase.isFailed = false)
    (hs : s.JudgesLine δ d.limits limit judge)
    (hc : ∀ line source, consumed (accept { d with line, source }).events = [])
    (ha : ∀ line source, (accept { d with line, source }).state.phase = .failed m e → judge line.content = some e)
    (hf : (d.withLine δ limit accept).state.phase = .failed m e) (he : ∀ p, e ≠ .truncated p) :
    s.Refuses δ d.limits (consumed (d.withLine δ limit accept).events) e := by
  obtain ⟨-, -, ho, hl⟩ := h.stands.of_running hp
  have hne : d.phase ≠ .failed m e := fun hq => by simp [hq, Phase.isFailed] at hp
  have hframe := Line.framing_fill δ limit d.source ho
  rw [← hl] at hframe
  unfold withLine at hf ⊢
  simp only at hf ⊢
  split at hf
  · exact absurd hf hne
  · obtain ⟨p, rfl⟩ := eq_truncated_of_stall hp hf
    exact absurd rfl (he p)
  · rename_i e' hres
    obtain ⟨-, rfl⟩ : _ ∧ e' = e := by simpa [fail, Phase.fail] using hf
    have hb : Line.Breaks δ limit d.line.content (consumed (d.line.fill δ limit d.source).events) e' :=
      Line.breaks_fill ho hres
    rw [← hl] at hb
    simpa [hres, fail] using hs.refuses_of_breaks hb
  · rename_i hres
    simp only [hres] at hframe ⊢
    rw [Outcome.events_after, consumed_append, hc, List.append_nil]
    have hjudge := ha _ _ hf
    generalize (d.line.fill δ limit d.source).state.1 = line at hframe hjudge
    generalize consumed (d.line.fill δ limit d.source).events = bs at hframe
    cases hframe with
    | complete hb hcontent hlength =>
      exact .cause ((hs.refusal_of_complete hb hcontent hlength).trans hjudge) rfl

/-- A step that fails because of what it has read reports the refusal of that. -/
private theorem refuses_step {d : Decoder τ} {s : Scan} (h : d.Agrees s) (hp : d.phase.isFailed = false) (room : Nat)
    (hf : (d.step δ room).state.phase = .failed m e) (he : ∀ p, e ≠ .truncated p) :
    s.Refuses δ d.limits (consumed (d.step δ room).events) e := by
  obtain ⟨hr, hm, -, -⟩ := h.stands.of_running hp
  unfold step at hf ⊢
  split at hf
  · rename_i hq
    rw [hq] at hm
    exact refuses_withLine h hp (Scan.judgesLine_size hr hm)
      (fun line source => (accepts_sizeLine h hq line source).consumed_eq)
      (fun line source => judge_of_acceptSizeLine h) hf he
  · rename_i hq
    rw [hq] at hm
    split at hf
    · obtain ⟨p, rfl⟩ := eq_truncated_of_handOver hp hf
      exact absurd rfl (he p)
    · rename_i hz
      rw [if_neg hz]
      have hz' : s.remaining = 0 := by
        rw [← h.remaining]
        simpa [UInt64.lt_iff_toNat_lt] using hz
      exact refuses_withLine h hp (Scan.judgesLine_terminator hr hm hz')
        (fun line source => (accepts_terminator h hq line source).consumed_eq)
        (fun line source => judge_of_acceptTerminator) hf he
  · rename_i hq
    rw [hq] at hm
    exact refuses_withLine h hp (Scan.judgesLine_trailers hr hm)
      (fun line source => (accepts_trailerLine δ h hq line source).consumed_eq)
      (fun line source hq' => absurd hq' (phase_acceptTrailerLine_ne δ hq line source m e)) hf he
  · rename_i hq
    simp [hq] at hf
  · rename_i hq
    simp [hq, Phase.isFailed] at hp

/-! ### Reads and runs -/

variable {d : Decoder τ} {bs : Bytes}

private theorem Reports.step (h : d.Reports δ bs) (room : Nat) :
    (d.step δ room).state.Reports δ (bs ++ consumed (d.step δ room).events) := by
  have hfollows := follows_step δ h.agrees room
  refine ⟨by rw [hfollows.limits_eq, Scan.feed_append]; exact hfollows.agrees, fun m e hf he => ?_⟩
  rw [hfollows.limits_eq]
  cases hp : d.phase.isFailed with
  | true =>
    have hstep : (d.step δ room).state = d ∧ consumed (d.step δ room).events = [] := by
      cases hq : d.phase with
      | failed m e => simp [Decoder.step, hq]
      | _ => simp [hq, Phase.isFailed] at hp
    rw [hstep.1] at hf
    rw [hstep.2, List.append_nil]
    exact h.refuses m e hf he
  | false =>
    obtain ⟨hr, -⟩ := h.agrees.stands.of_running hp
    exact (refuses_step h.agrees hp room hf he).prepend hr

private theorem Reports.advance (δ : Dialect) (d : Decoder τ) (room : Nat) {bs : Bytes} (h : d.Reports δ bs) :
    (d.advance δ room).state.Reports δ (bs ++ consumed (d.advance δ room).events) := by
  fun_induction Decoder.advance δ d room generalizing bs with
  | case1 d r f => exact h.step room
  | case2 d r p => exact h.step room
  | case3 d r hr =>
    rename_i ih
    have := ih (h.step room)
    rwa [List.append_assoc, ← consumed_append] at this

private theorem Reports.perform (h : d.Reports δ bs) {op : Operation} (ho : op.IsReading) :
    (d.perform δ op).state.Reports δ (bs ++ consumed (d.perform δ op).events) := by
  rcases ho with ⟨room, rfl⟩ | rfl
  · simpa [Decoder.perform, Decoder.read] using (Reports.advance δ d room h).withSource _
  · simpa [Decoder.perform, onSource, Outcome.mapState] using h.withSource d.source.refill.state

private theorem Reports.finish (h : d.Reports δ bs) {ops : List Operation} (ho : ∀ op ∈ ops, op.IsReading) :
    (d.finish δ ops).Reports δ (bs ++ consumed (eventsOf (d.run δ ops))) := by
  induction ops generalizing d bs with
  | nil => simpa using h
  | cons op ops ih =>
    obtain ⟨hop, hops⟩ := List.forall_mem_cons.1 ho
    simpa using ih (h.perform hop) hops

private theorem FailsWith.finish {ops : List Operation} (ho : ∀ op ∈ ops, op.IsReading) {r : Outcome (Decoder τ) Answer}
    (hm : r ∈ d.run δ ops) (h : FailsWith r m e) : (d.finish δ ops).phase = .failed m e := by
  have hs : r.state.Settled := settled_iff.2 (.inr ⟨m, e, h.phase_eq⟩)
  exact (phase_finish_of_mem_run (fun op hm => (ho op hm).ne_next) hm hs).trans h.phase_eq

variable {τ' : Type} [Transport τ'] [Script τ] [Script τ']

/-- Two decoders that have drawn from the same stream and have both failed did so in the same phase and with the same
error, unless the stream can be refused for two reasons. -/
private theorem Reports.eq_or {stream bs bs' : Bytes} {d : Decoder τ} {d' : Decoder τ'} (h : d.Reports δ bs)
    (h' : d'.Reports δ bs') (hd : d.Draws δ stream bs) (hd' : d'.Draws δ stream bs') (hl : d'.limits = d.limits)
    {m' : PhaseMarker} {e' : FramingError} (hp : d.phase = .failed m e) (hp' : d'.phase = .failed m' e') :
    m = m' ∧ (e.withoutLength = e'.withoutLength ∨ Scan.Ambiguous δ d.limits {} stream ∧
      (e = .bareLineFeed ∧ (∃ n limit, e' = .lineTooLong n limit) ∨
        e' = .bareLineFeed ∧ ∃ n limit, e = .lineTooLong n limit)) := by
  obtain ⟨hfeed, -⟩ := hd.feed_eq_feed hd' (settled_iff.2 (.inr ⟨m, e, hp⟩)) (settled_iff.2 (.inr ⟨m', e', hp'⟩)) hl
  obtain ⟨hm, -, hcases⟩ := h.agrees.of_failed hp
  obtain ⟨hm', -, hcases'⟩ := h'.agrees.of_failed hp'
  rw [hl] at hm' hcases'
  rw [← hfeed] at hm' hcases'
  obtain rfl := hm.symm.trans hm'
  refine ⟨rfl, ?_⟩
  rcases hcases with ⟨hr, rfl⟩ | ⟨hr, he⟩
  · rcases hcases' with ⟨-, rfl⟩ | ⟨hr', -⟩
    · exact .inl rfl
    · simp [hr] at hr'
  · rcases hcases' with ⟨hr', -⟩ | ⟨-, he'⟩
    · simp [hr] at hr'
    · -- Both have refused a front of the stream, and more bytes would not have changed that.
      have hrefuses := (h.refuses m e hp he).append d.source.unread
      have hrefuses' := (h'.refuses m e' hp' he').append d'.source.unread
      rw [hl, hd'.stream_eq] at hrefuses'
      rw [hd.stream_eq] at hrefuses
      exact hrefuses.eq_or hrefuses'

/-- The error does not depend on the schedule. If a decoder that reads to the end of its transport fails, then a decoder
that reads the same bytes by another schedule fails as well, in the same phase and with the same error but for the
length of a line that is too long. There is one exception, for the strict dialect: if a line of the stream is too long
and ends with a bare line feed, then it depends on the pieces in which it comes for which of the two it is refused. -/
theorem refusal_invariance (δ : Dialect) (limits : Limits) {b b' : Buffer} {t : τ} {t' : τ'}
    (hb : 0 < b.capacity) (hb' : 0 < b'.capacity) (ht : Script.Faithful t) (ht' : Script.Faithful t')
    (hc' : Script.closed t' = true) (he : b.data ++ Script.unread t = b'.data ++ Script.unread t')
    {ops ops' : List Operation} (ho : ∀ op ∈ ops, op.IsReading ∧ op ≠ .read 0)
    (ho' : ∀ op ∈ ops', op.IsReading ∧ op ≠ .read 0) :
    let d := ofSource (.ofBuffer b t) limits
    let d' := ofSource (.ofBuffer b' t') limits
    ∀ r ∈ d.run δ ops, ∀ m e, FailsWith r m e →
      ((b'.data ++ Script.unread t').length + Script.delays t' < ops'.countP Operation.isRead →
        ∃ r' ∈ d'.run δ ops', ∃ m' e', FailsWith r' m' e') ∧
      ∀ r' ∈ d'.run δ ops', ∀ m' e', FailsWith r' m' e' →
        m = m' ∧ (e.withoutLength = e'.withoutLength ∨
          δ = .strict ∧ Scan.Ambiguous δ limits {} (b.data ++ Script.unread t) ∧
            (e = .bareLineFeed ∧ (∃ n limit, e' = .lineTooLong n limit) ∨
              e' = .bareLineFeed ∧ ∃ n limit, e = .lineTooLong n limit)) := by
  intro d d' r hr m e hfails
  have hread (op : Operation) (hm : op ∈ ops) : op.IsReading := (ho op hm).1
  have hread' (op : Operation) (hm : op ∈ ops') : op.IsReading := (ho' op hm).1
  have h : d.Draws δ (b.data ++ Script.unread t) [] := draws_ofBuffer δ hb ht limits
  have h' : d'.Draws δ (b.data ++ Script.unread t) [] := he ▸ draws_ofBuffer δ hb' ht' limits
  have hp := hfails.finish hread hr
  have hk := h.finish hread
  have hk' := h'.finish hread'
  have hl : (d.finish δ ops).limits = limits := limits_finish δ h.tracks.agrees hread
  have hl' : (d'.finish δ ops').limits = limits := limits_finish δ h'.tracks.agrees hread'
  refine ⟨fun hn => ?_, fun r' hr' m' e' hfails' => ?_⟩
  · have hclosed := (Script.closed_of_reads (d'.trace_run δ ops').reads).trans hc'
    obtain ⟨r', hr', v', hv'⟩ :=
      exists_concludes_of_reach_lt δ h'.tracks ho' (.inl rfl) (fun _ => .inl hclosed) hn
    obtain ⟨hs', rfl⟩ := concludes_of_mem_run δ h'.tracks ho' hr' hv'
    obtain ⟨hfeed, -⟩ := hk.feed_eq_feed hk' (settled_iff.2 (.inr ⟨m, e, hp⟩)) hs' (hl'.trans hl.symm)
    have hne := hk.tracks.agrees.verdict_ne hp
    rw [hfeed, hl] at hne
    exact ⟨r', hr', hv'.failsWith hne⟩
  · have hreports := (reports_ofSource δ (.ofBuffer b t) limits).finish hread
    have hreports' := (reports_ofSource δ (.ofBuffer b' t') limits).finish hread'
    obtain ⟨hm, heq⟩ :=
      hreports.eq_or hreports' hk hk' (hl'.trans hl.symm) hp (hfails'.finish hread' hr')
    rw [hl] at heq
    refine ⟨hm, heq.imp_right fun ⟨ha, hcases⟩ => ⟨ha.eq_strict, ha, hcases⟩⟩

/-- A chunk with a byte too many, read byte by byte past a gap and a timeout, and read at once behind its first bytes. -/
theorem refusal_invariance_of_long_chunk :
    let t : Faulty Fragments :=
      ⟨⟨[.fragment 49 [13, 10, 97], .gap, .fragment 98 [13, 10]], true⟩, [(3, .fault (.plain .timedOut))]⟩
    let t' : Fragments := ⟨[.fragment 10 [97, 98, 13, 10]], true⟩
    let d := ofSource (.ofBuffer (.ofStorage [0]) t) {}
    let d' := ofSource (.ofBuffer (.withReceived (49 :: 13 :: List.replicate 8 0) 2) t') {}
    let ops := List.replicate 8 (.read 1)
    let ops' := List.replicate 8 (.read 8)
    (∃ r ∈ d.run .strict ops, FailsWith r .data .missingChunkTerminator) ∧
      ∃ r' ∈ d'.run .strict ops', FailsWith r' .data .missingChunkTerminator := by
  intro t t' d d' ops ops'
  obtain ⟨r, hr, hresult, hphase⟩ : ∃ r ∈ d.run .strict ops,
      r.result = .error (.framing .missingChunkTerminator) ∧ r.state.phase = .failed .data .missingChunkTerminator := by
    decide +kernel
  have hfails : FailsWith r .data .missingChunkTerminator := ⟨hresult, hphase⟩
  have h := refusal_invariance .strict {} (show 0 < (Buffer.ofStorage [0]).capacity by decide)
    (show 0 < (Buffer.withReceived (49 :: 13 :: List.replicate 8 0) 2).capacity by decide)
    (show Script.Faithful t from ⟨trivial, by decide⟩) (show Script.Faithful t' from trivial) rfl (by decide)
    (show ∀ op ∈ ops, op.IsReading ∧ op ≠ .read 0 by decide)
    (show ∀ op ∈ ops', op.IsReading ∧ op ≠ .read 0 by decide) r hr _ _ hfails
  obtain ⟨r', hr', m', e', hfails'⟩ := h.1 (by decide)
  obtain ⟨rfl, he | ⟨-, -, ⟨he, -⟩ | ⟨-, n, limit, he⟩⟩⟩ := h.2 r' hr' m' e' hfails'
  · refine ⟨⟨r, hr, hfails⟩, r', hr', ?_⟩
    cases e' <;> simp_all [FramingError.withoutLength]
  · simp at he
  · simp at he

/-- A size line of two bytes where one is allowed, with a bare line feed behind it. It matters whether the line feed comes
together with the second byte. -/
theorem refusal_of_long_line_with_bare_end :
    let limits : Limits := { chunkLine := 1 }
    let t : Fragments := ⟨[.fragment 49 [49, 10]], true⟩
    let d := ofSource (.ofBuffer (.ofStorage (List.replicate 64 0)) t) limits
    let d' := ofSource (.ofBuffer (.ofStorage [0, 0]) t) limits
    (d.read .strict 16).result = .error (.framing .bareLineFeed) ∧
      (d'.read .strict 16).result = .error (.framing (.lineTooLong 2 1)) := by
  decide +kernel

end Decoder

end ChunkedTransfer
