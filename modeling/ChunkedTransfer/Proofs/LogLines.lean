import ChunkedTransfer.Proofs.Judgement
import ChunkedTransfer.Proofs.OneLine
import ChunkedTransfer.Proofs.TrailerField
import ChunkedTransfer.Transport.Faulty
import ChunkedTransfer.Transport.Fragments

/-!
# Lines of the log

A peer writes no line of the log. Its bytes come into a record as the line that an error cites, as the key of a trailer
field, or as a trailer line between quotes. A line that a decoder keeps has no line feed, whether its end was seen or
not, and what is cited of it is the text of its bytes. So every step leaves records of one line each, and an error that
will be cited again by later ones goes on one line as well (`Decoder.Tame`). What a transport says of its own faults is
not looked at, and this is all that is to be asked of it (`Decoder.log_lines`).

A log that is written with a line feed behind each record is thus divided by its line feeds into the records that were
written (`OneLineLog.splitOn`).
-/

namespace ChunkedTransfer

/-- Every record goes on one line. -/
def OneLineLog (es : List Event) : Prop := ∀ r, .logged r ∈ es → OneLine r.text

private theorem oneLineLog_nil : OneLineLog [] := by simp [OneLineLog]

private theorem oneLineLog_logged {r : Record} (h : r.CitesOneLine) : OneLineLog [.logged r] := by
  intro r' hr
  obtain rfl : r' = r := by simpa using hr
  exact Record.oneLine_text h

private theorem OneLineLog.append {es es' : List Event} (h : OneLineLog es) (h' : OneLineLog es') :
    OneLineLog (es ++ es') := by
  intro r hr
  rcases List.mem_append.1 hr with hr | hr
  · exact h r hr
  · exact h' r hr

/-- A source cites nothing. -/
private theorem oneLineLog_of_source {es : List Event} (h : ∀ e ∈ es, e.OfSource) : OneLineLog es := by
  intro r hr
  refine Record.oneLine_text ?_
  cases h _ hr with
  | refilled => exact trivial
  | transportExhausted => exact trivial

/-- The line feeds of a log that has one behind each record are those, and no others. -/
theorem OneLineLog.splitOn {es : List Event} (h : OneLineLog es) :
    let lines := (es.filterMap Event.record?).map fun r => r.text.toList
    (lines.flatMap (· ++ ['\n'])).splitOn '\n' = lines ++ [[]] := by
  intro lines
  have hlines : ∀ line ∈ lines, '\n' ∉ line := by
    intro line hline
    obtain ⟨r, hr, rfl⟩ := List.mem_map.1 hline
    obtain ⟨e, he, her⟩ := List.mem_filterMap.1 hr
    cases e with
    | logged record =>
      obtain rfl : record = r := by simpa [Event.record?] using her
      exact h record he
    | asked => simp [Event.record?] at her
    | taken => simp [Event.record?] at her
    | completed => simp [Event.record?] at her
  clear_value lines
  induction lines with
  | nil => rfl
  | cons line lines ih =>
    obtain ⟨hline, hrest⟩ := List.forall_mem_cons.1 hlines
    rw [List.flatMap_cons, List.append_assoc, List.singleton_append,
      List.splitOn_append_cons_self_of_not_mem hline, ih hrest, List.cons_append]

/-! ### Faults -/

/-- The transport has only given faults whose messages go on one line. -/
private def OneLineFaults (es : List Event) : Prop := ∀ f, .fault f ∈ replies es → OneLine f.message

private theorem oneLineFaults_append {es es' : List Event} :
    OneLineFaults (es ++ es') ↔ OneLineFaults es ∧ OneLineFaults es' := by
  simp only [OneLineFaults, replies_append, List.mem_append, or_imp, forall_and]

private theorem Fault.FromBelow.oneLine_message {f : Fault} {es : List Event} (h : f.FromBelow es)
    (hf : OneLineFaults es) : OneLine f.message := by
  rcases h with rfl | h
  · decide
  · exact hf f (List.mem_of_getLast? h)

/-- The message of the fault in a result goes on one line. -/
private def Outcome.ErrsOnOneLine {σ α : Type} (r : Outcome σ α) : Prop := ∀ f, r.result = .error f → OneLine f.message

namespace Outcome

variable {σ ρ α β : Type} {r : Outcome σ α}

private theorem errsOnOneLine_of_ok {a : α} (h : r.result = .ok a) : r.ErrsOnOneLine := by
  intro f hf
  simp [h] at hf

private theorem errsOnOneLine_of_fromBelow (h : ∀ f, r.result = .error f → f.FromBelow r.events)
    (hf : OneLineFaults r.events) : r.ErrsOnOneLine :=
  fun f hr => (h f hr).oneLine_message hf

private theorem ErrsOnOneLine.map (h : r.ErrsOnOneLine) (g : α → β) : (r.map g).ErrsOnOneLine := by
  intro f hf
  cases hr : r.result with
  | ok a => simp [Outcome.map, hr, Except.map] at hf
  | error f' =>
    obtain rfl : f' = f := by simpa [Outcome.map, hr, Except.map] using hf
    exact h f' hr

private theorem ErrsOnOneLine.mapState (h : r.ErrsOnOneLine) (g : σ → ρ) : (r.mapState g).ErrsOnOneLine := h

end Outcome

/-! ### What is cited -/

/-- A size line that is refused is cited as it is, or not at all. -/
private theorem SizeLine.cited_of_error {limits : Limits} {decoded : UInt64} {line : Bytes} {e : FramingError}
    (h : (size line).bind (limits.accept decoded) = .error e) : ∀ text ∈ e.cited?, text = Text.Utf8.lossy line := by
  intro text htext
  cases judged_iff.2 h with
  | empty => simp [FramingError.cited?] at htext
  | malformed => exact (Option.some.inj htext).symm
  | overflow => exact (Option.some.inj htext).symm
  | chunkTooLarge => simp [FramingError.cited?] at htext
  | bodyTooLarge => simp [FramingError.cited?] at htext

private theorem Line.Breaks.cited?_eq {δ : Dialect} {limit : Nat} {content bs : Bytes} {e : FramingError}
    (h : Breaks δ limit content bs e) : e.cited? = none := by
  rcases h.error_cases with rfl | ⟨n, rfl⟩
  · rfl
  · rfl

/-- The key of a trailer field is a part of its line. -/
private theorem TrailerField.mem_of_mem_key {δ : Dialect} {line rest : Bytes} {field : TrailerField}
    (h : parser δ line = .ok (field, rest)) {b : UInt8} (hb : b ∈ field.key) : b ∈ line := by
  obtain ⟨p, rfl⟩ := exists_parts_of_ok h
  rw [parser_line, Except.ok.injEq, Prod.mk.injEq] at h
  obtain ⟨rfl, -⟩ := h
  exact List.mem_append_left _ hb

/-- The line feed that completes a line does not belong to it. -/
private theorem Line.Framing.no_lineFeed {δ : Dialect} {limit : Nat} {content bs : Bytes} {l : Line}
    (h : Framing δ limit content bs l .complete) (ho : lineFeed ∉ content) : lineFeed ∉ l.content := by
  obtain ⟨cs, -, hcs, hc, -⟩ := h.of_complete
  intro hm
  rcases List.mem_append.1 (Dialect.mem_of_mem_content? hc hm) with hm | hm
  · exact ho hm
  · exact hcs hm

namespace Decoder

variable {τ α : Type}

/-- The error with which the decoder has failed goes on one line. -/
def CitesOneLine (d : Decoder τ) : Prop := ∀ m e, d.phase = .failed m e → OneLine e.message

private theorem citesOneLine_of_isFailed {d : Decoder τ} (h : d.phase.isFailed = false) : d.CitesOneLine := by
  intro m e hp
  simp [hp, Phase.isFailed] at h

/-- What an outcome has logged goes on lines, and so does what will be said of the decoder that it leaves. -/
structure Tame (r : Outcome (Decoder τ) α) : Prop where
  log : OneLineLog r.events
  cites : r.state.CitesOneLine

private theorem Tame.after {r : Outcome (Decoder τ) α} (h : Tame r) {es : List Event} (hes : OneLineLog es) :
    Tame (r.after es) :=
  ⟨hes.append h.log, h.cites⟩

/-! ### Lines -/

private theorem tame_fail (d : Decoder τ) {e : FramingError} (h : OneLine e.message) :
    Tame (d.fail e : Outcome (Decoder τ) α) := by
  constructor
  · exact oneLineLog_logged h
  · intro m e' hp
    obtain ⟨-, rfl⟩ : d.phase.marker = m ∧ e = e' := by simpa [fail, Phase.fail] using hp
    exact h

/-- An error that cites nothing goes on one line. -/
private theorem tame_fail_of_cited?_eq (d : Decoder τ) {e : FramingError} (h : e.cited? = none) :
    Tame (d.fail e : Outcome (Decoder τ) α) :=
  d.tame_fail (FramingError.oneLine_message (by simp [h]))

private theorem tame_stall {d : Decoder τ} (hd : d.CitesOneLine) (line : Line) (source : Source τ) :
    Tame (stall { d with line, source }) := by
  unfold stall
  split
  · exact tame_fail_of_cited?_eq _ rfl
  · exact ⟨oneLineLog_nil, hd⟩

private theorem tame_acceptSizeLine {d : Decoder τ} (hl : lineFeed ∉ d.line.content) : Tame d.acceptSizeLine := by
  unfold acceptSizeLine
  split
  · rename_i e he
    refine d.tame_fail (FramingError.oneLine_message fun text htext => ?_)
    rw [SizeLine.cited_of_error he text htext]
    exact Text.Utf8.oneLine_lossy hl
  · split
    · exact ⟨oneLineLog_logged trivial, citesOneLine_of_isFailed rfl⟩
    · exact ⟨oneLineLog_logged trivial, citesOneLine_of_isFailed rfl⟩

private theorem tame_acceptTerminator (d : Decoder τ) : Tame d.acceptTerminator := by
  unfold acceptTerminator
  split
  · exact ⟨oneLineLog_nil, citesOneLine_of_isFailed rfl⟩
  · exact d.tame_fail_of_cited?_eq rfl

private theorem tame_acceptTrailerLine (δ : Dialect) {d : Decoder τ} (hd : d.CitesOneLine)
    (hl : lineFeed ∉ d.line.content) : Tame (d.acceptTrailerLine δ) := by
  unfold acceptTrailerLine
  split
  · exact ⟨oneLineLog_logged trivial, citesOneLine_of_isFailed rfl⟩
  · refine ⟨oneLineLog_logged ?_, hd⟩
    unfold trailerRecord
    split
    · rename_i field rest hfield
      exact fun hm => hl (TrailerField.mem_of_mem_key hfield hm)
    · exact trivial

private theorem oneLineLog_report (s : Source τ) {result : Except Fault (Progress Nat)}
    (h : ∀ f, result = .error f → OneLine f.message) : OneLineLog (s.report result).2 := by
  unfold Source.report
  split
  · split
    · exact oneLineLog_nil
    · intro r hr
      obtain rfl : r = .streamEnded := by simpa using hr
      exact Record.oneLine_text trivial
  · exact oneLineLog_logged trivial
  · exact oneLineLog_logged (h _ rfl)

variable [Transport τ]

/-! ### Steps -/

private theorem tame_withLine (δ : Dialect) (limit : Nat) {accept : Decoder τ → StepOutcome τ} {d : Decoder τ}
    (hd : d.CitesOneLine) (ho : d.line.IsOpen)
    (ha : ∀ line source, lineFeed ∉ line.content → Tame (accept { d with line, source })) :
    Tame (d.withLine δ limit accept) := by
  have hlog := oneLineLog_of_source (Line.ofSource_fill δ limit d.line d.source)
  have hf := Line.framing_fill δ limit d.source ho
  unfold withLine
  simp only
  split
  · exact ⟨hlog, hd⟩
  · exact (tame_stall hd _ _).after hlog
  · rename_i hr
    exact (tame_fail_of_cited?_eq _ (Line.breaks_fill ho hr).cited?_eq).after hlog
  · rename_i hr
    rw [hr] at hf
    exact (ha _ _ (hf.no_lineFeed ho.no_lineFeed)).after hlog

private theorem tame_handOver {d : Decoder τ} (hp : d.phase = .data) (room : Nat) : Tame (d.handOver room) := by
  have hlog := oneLineLog_of_source (d.source.ofSource_read (min room d.remaining.toNat))
  have hd : d.CitesOneLine := citesOneLine_of_isFailed (by rw [hp]; rfl)
  unfold handOver
  split
  · exact ⟨oneLineLog_nil, hd⟩
  · simp only
    split
    · exact ⟨hlog, hd⟩
    · exact (tame_stall hd _ _).after hlog
    · exact ⟨hlog, hd⟩

private theorem tame_step (δ : Dialect) {d : Decoder τ} (h : d.Coherent) (hd : d.CitesOneLine) (room : Nat) :
    Tame (d.step δ room) := by
  unfold step
  split
  · rename_i hp
    exact tame_withLine δ _ hd (h.line_isOpen (by rw [hp]; rfl)) fun _ _ hl => tame_acceptSizeLine hl
  · rename_i hp
    split
    · exact tame_handOver hp room
    · exact tame_withLine δ _ hd (h.line_isOpen (by rw [hp]; rfl)) fun _ _ _ => tame_acceptTerminator _
  · rename_i hp
    exact tame_withLine δ _ hd (h.line_isOpen (by rw [hp]; rfl)) fun _ _ hl => tame_acceptTrailerLine δ hd hl
  · exact ⟨oneLineLog_nil, hd⟩
  · exact ⟨oneLineLog_nil, hd⟩

private theorem tame_advance (δ : Dialect) (d : Decoder τ) (room : Nat) (h : d.Coherent) (hd : d.CitesOneLine) :
    Tame (d.advance δ room) := by
  fun_induction advance δ d room with
  | case1 d r f hr =>
    obtain ⟨hlog, hcites⟩ := tame_step δ h hd room
    exact ⟨hlog, hcites⟩
  | case2 d r p hr =>
    obtain ⟨hlog, hcites⟩ := tame_step δ h hd room
    exact ⟨hlog, hcites⟩
  | case3 d r hr ih =>
    have hstep := tame_step δ h hd room
    exact (ih (h.step δ room) hstep.cites).after hstep.log

/-! ### Reads and runs -/

/-- A read cites what its decoder has failed with, or what the transport has said. -/
private theorem errsOnOneLine_advance (δ : Dialect) {d : Decoder τ} (h : d.Coherent) (hd : d.CitesOneLine) (room : Nat)
    (hf : OneLineFaults (d.advance δ room).events) : (d.advance δ room).ErrsOnOneLine := by
  intro f hr
  rcases attributed_advance δ d room f hr with ⟨m, e, rfl, hp⟩ | ⟨-, hb⟩
  · exact (tame_advance δ d room h hd).cites m e hp
  · exact hb.oneLine_message hf

private theorem tame_read (δ : Dialect) {d : Decoder τ} (h : d.Coherent) (hd : d.CitesOneLine) (room : Nat)
    (hf : OneLineFaults (d.read δ room).events) : Tame (d.read δ room) ∧ (d.read δ room).ErrsOnOneLine := by
  have hadvance := tame_advance δ d room h hd
  have herrs := errsOnOneLine_advance δ h hd room (oneLineFaults_append.1 hf).1
  refine ⟨⟨hadvance.log.append (oneLineLog_report _ ?_), hadvance.cites⟩, herrs⟩
  exact herrs.map (Progress.map List.length)

private theorem tame_perform (δ : Dialect) {d : Decoder τ} (h : d.Coherent) (hd : d.CitesOneLine) (op : Operation)
    (hf : OneLineFaults (d.perform δ op).events) : Tame (d.perform δ op) ∧ (d.perform δ op).ErrsOnOneLine := by
  cases op with
  | read room =>
    obtain ⟨⟨hlog, hcites⟩, herrs⟩ := tame_read δ h hd room hf
    exact ⟨⟨hlog, hcites⟩, herrs.map Answer.progress⟩
  | refill =>
    have herrs := Outcome.errsOnOneLine_of_fromBelow (fun f hr => Source.fromBelow_refill hr) hf
    exact ⟨⟨oneLineLog_of_source d.source.ofSource_refill, hd⟩, (herrs.map _).mapState _⟩
  | take room =>
    have herrs := Outcome.errsOnOneLine_of_fromBelow (fun f hr => Source.fromBelow_read hr) hf
    exact ⟨⟨oneLineLog_of_source (d.source.ofSource_read room), hd⟩, (herrs.map _).mapState _⟩
  | replenish =>
    have herrs := Outcome.errsOnOneLine_of_fromBelow (fun f hr => Source.fromBelow_replenish hr) hf
    exact ⟨⟨oneLineLog_of_source d.source.ofSource_replenish, hd⟩, (herrs.map _).mapState _⟩
  | noteUsedUp => exact ⟨⟨oneLineLog_nil, hd⟩, Outcome.errsOnOneLine_of_ok rfl⟩
  | markDraining => exact ⟨⟨oneLineLog_nil, hd⟩, Outcome.errsOnOneLine_of_ok rfl⟩
  | next limits => exact ⟨⟨oneLineLog_nil, citesOneLine_of_isFailed rfl⟩, Outcome.errsOnOneLine_of_ok rfl⟩

private theorem tame_run (δ : Dialect) {d : Decoder τ} (h : d.Coherent) (hd : d.CitesOneLine) {ops : List Operation}
    (hf : OneLineFaults (eventsOf (d.run δ ops))) :
    OneLineLog (eventsOf (d.run δ ops)) ∧ (∀ r ∈ d.run δ ops, r.ErrsOnOneLine) ∧ (d.finish δ ops).CitesOneLine := by
  induction ops generalizing d with
  | nil => exact ⟨oneLineLog_nil, List.forall_mem_nil _, hd⟩
  | cons op ops ih =>
    rw [run_cons, eventsOf_cons, oneLineFaults_append] at hf
    obtain ⟨hop, hops⟩ := hf
    obtain ⟨⟨hlog, hcites⟩, herrs⟩ := tame_perform δ h hd op hop
    obtain ⟨hlog', herrs', hcites'⟩ := ih (h.perform δ op) hcites hops
    exact ⟨hlog.append hlog', List.forall_mem_cons.2 ⟨herrs, herrs'⟩, hcites'⟩

private theorem events_readBytes (δ : Dialect) (d : Decoder τ) (room : Nat) :
    (d.readBytes δ room).events = (d.read δ room).events := by
  unfold readBytes Outcome.andThen
  split
  · rename_i p hp
    cases p <;> exact List.append_nil _
  · rfl

private theorem errsOnOneLine_readBytes (δ : Dialect) {d : Decoder τ} {room : Nat} (h : (d.read δ room).ErrsOnOneLine) :
    (d.readBytes δ room).ErrsOnOneLine := by
  intro f hf
  unfold readBytes at hf
  cases hr : (d.read δ room).result with
  | error g =>
    rw [Outcome.andThen_of_error hr] at hf
    obtain rfl : g = f := by simpa using hf
    exact h g hr
  | ok p =>
    rw [Outcome.andThen_of_ok hr] at hf
    cases p with
    | read payload => simp at hf
    | pending =>
      obtain rfl : Fault.wouldBlock = f := by simpa using hf
      decide
    | ended => simp at hf

/-- Whatever bytes come in, and however they are read: as long as the faults of the transport have messages of one
line, each record that is written to the log goes on one line, and so does the message of each fault that comes back
from the decoder or from its source. This holds of a read of the decoder as a stream of bytes too, which gives a fault
where another read would wait. So if each record is written with a line feed behind it, then these line feeds are all
that the log has, and it is divided by them into its records. -/
theorem log_lines (δ : Dialect) (limits : Limits) (source : Source τ) (ops : List Operation) (room : Nat) :
    let start := ofSource source limits
    let r := (start.finish δ ops).readBytes δ room
    let es := eventsOf (start.run δ ops) ++ r.events
    let lines := (es.filterMap Event.record?).map fun record => record.text.toList
    (∀ f, .fault f ∈ replies es → OneLine f.message) →
      (∀ record, .logged record ∈ es → OneLine record.text) ∧
        (∀ answer ∈ start.run δ ops, ∀ f, answer.result = .error f → OneLine f.message) ∧
        (∀ f, r.result = .error f → OneLine f.message) ∧
        (lines.flatMap (· ++ ['\n'])).splitOn '\n' = lines ++ [[]] := by
  intro start r es lines hf
  obtain ⟨hrun, hread⟩ : OneLineFaults (eventsOf (start.run δ ops)) ∧ OneLineFaults r.events :=
    oneLineFaults_append.1 hf
  have hcoherent : start.Coherent := coherent_ofSource source limits
  obtain ⟨hlog, herrs, hcites⟩ := tame_run δ hcoherent (citesOneLine_of_isFailed rfl) hrun
  have hevents : r.events = ((start.finish δ ops).read δ room).events := events_readBytes δ _ room
  rw [hevents] at hread
  obtain ⟨⟨hlog', -⟩, herrs'⟩ := tame_read δ (hcoherent.finish δ ops) hcites room hread
  rw [← hevents] at hlog'
  have hes : OneLineLog es := hlog.append hlog'
  exact ⟨hes, herrs, errsOnOneLine_readBytes δ herrs', hes.splitOn⟩

/-- A body with a trailer line of control characters, and behind it a size line that is not text. The transport fails
once in between. Of the size line all but the line end is cited, the carriage return within it too. -/
theorem log_lines_of_hostile_lines :
    let fault := Fault.described .other "link down"
    let script : List Piece := [.fragment 48 [13, 10, 97, 0, 27, 13, 10], .fragment 13 [10, 255, 13, 122, 13, 10]]
    let t : Faulty Fragments := ⟨⟨script, false⟩, [(1, .fault fault)]⟩
    let start := ofSource (.ofBuffer (.ofStorage (List.replicate 16 0)) t) {}
    let ops : List Operation := [.read 4, .read 4, .next {}]
    let r := (start.finish .strict ops).readBytes .strict 4
    let es := eventsOf (start.run .strict ops) ++ r.events
    r.result = .error (.framing (.invalidSize "\ufffd\rz")) ∧
      ∀ record, .logged record ∈ es → OneLine record.text := by
  intro fault script t start ops r es
  have hreplies : replies es =
      [.data [48, 13, 10, 97, 0, 27, 13, 10], .fault fault, .data [13, 10, 255, 13, 122, 13, 10]] := by decide +kernel
  have hfaults : ∀ f, .fault f ∈ replies es → OneLine f.message := by
    intro f hf
    obtain rfl : f = fault := by simpa [hreplies] using hf
    decide
  obtain ⟨hlog, -⟩ := log_lines .strict {} (.ofBuffer (.ofStorage (List.replicate 16 0)) t) ops 4 hfaults
  exact ⟨by decide +kernel, hlog⟩

end Decoder

end ChunkedTransfer
