import ChunkedTransfer.Proofs.Framing

/-!
# Lines in pieces

A line is absorbed from one buffer after the other until its end is seen or it is refused. Each buffer is absorbed into
an open line that holds exactly the bytes before (`Line.getElem?_absorbAll`), so it does not matter how the bytes are
divided among the buffers: whether the line becomes complete, and with which content, is decided by the bytes alone. The
carriage return at the end of a piece is not counted, since the line may end behind it. Where it does not, the next byte
makes it count (`framedLength_le_append`), so that no division lets a line pass that is too long.
-/

namespace ChunkedTransfer

/-- The bytes before a line feed without the carriage return that belongs to the end of the line. -/
def withoutCarriageReturn (raw : Bytes) : Bytes :=
  if raw.getLast? = some carriageReturn then raw.dropLast else raw

private theorem Dialect.content?_eq_some_iff {δ : Dialect} {raw c : Bytes} :
    δ.content? raw = some c ↔
      c = withoutCarriageReturn raw ∧ (δ = .strict → raw.getLast? = some carriageReturn) := by
  unfold content? withoutCarriageReturn
  cases δ <;> split <;> simp_all [allowsBareLineFeed, eq_comm]

/-- The bytes in front of the first line feed are determined, and so are those behind it. -/
private theorem append_lineFeed_inj {front front' rest rest' : Bytes} (h : lineFeed ∉ front) (h' : lineFeed ∉ front')
    (he : front ++ lineFeed :: rest = front' ++ lineFeed :: rest') : front = front' ∧ rest = rest' := by
  have hfront : front = front' := by
    have htake := congrArg (List.takeWhile (· != lineFeed)) he
    rwa [Line.takeWhile_lineFeed h, Line.takeWhile_lineFeed h'] at htake
  subst hfront
  simpa using he

/-- Bytes without a line feed lie in front of the first one. -/
private theorem exists_of_append_lineFeed {bs cs front rest : Bytes} (h : lineFeed ∉ bs)
    (he : bs ++ cs = front ++ lineFeed :: rest) : ∃ front', front = bs ++ front' ∧ cs = front' ++ lineFeed :: rest := by
  rcases List.append_eq_append_iff.1 he with ⟨front', hf, hc⟩ | ⟨bs', hb, hc⟩
  · exact ⟨front', hf, hc⟩
  · cases bs' with
    | nil => exact ⟨[], by simpa using hb.symm, by simpa using hc.symm⟩
    | cons c bs' =>
      obtain ⟨rfl, -⟩ := List.cons.inj hc
      simp [hb] at h

namespace Line

/-- What bytes are absorbed from buffers one after the other. Nothing is absorbed any more when the line was refused or
is complete. -/
def absorbAll (δ : Dialect) (limit : Nat) : Line → List Buffer → List Absorbed
  | _, [] => []
  | l, b :: bs =>
    let a := l.absorb δ limit b
    match a.result with
    | .error _ | .ok .complete => [a]
    | .ok _ => a :: absorbAll δ limit a.line bs

variable {δ : Dialect} {limit : Nat} {l : Line} {b : Buffer} {bs : List Buffer}

/-! ### One piece and the others -/

private theorem absorbAll_cons_of_open {state : LineState} (h : (l.absorb δ limit b).result = .ok state)
    (hs : state ≠ .complete) :
    absorbAll δ limit l (b :: bs) = l.absorb δ limit b :: absorbAll δ limit (l.absorb δ limit b).line bs := by
  rw [absorbAll]
  simp only [h]

private theorem absorbAll_cons_of_closed (h : ∀ state, (l.absorb δ limit b).result = .ok state → state = .complete) :
    absorbAll δ limit l (b :: bs) = [l.absorb δ limit b] := by
  rw [absorbAll]
  cases hr : (l.absorb δ limit b).result with
  | error e => rfl
  | ok state =>
    obtain rfl := h state hr
    rfl

/-- Behind a line feed nothing is absorbed. -/
private theorem IsOpen.eq_complete_of_lineFeed (ho : l.IsOpen) {front rest : Bytes} (hf : lineFeed ∉ front)
    (hd : b.data = front ++ lineFeed :: rest) {state : LineState} (h : (l.absorb δ limit b).result = .ok state) :
    state = .complete := by
  rw [ho.absorb_of_lineFeed δ limit hf hd] at h
  split at h
  · split at h
    · simp at h
    · simpa using h.symm
  · simp at h

/-- What is absorbed of a piece leaves the bytes behind its line feed. -/
private theorem IsOpen.data_absorb_of_lineFeed (ho : l.IsOpen) {front rest : Bytes} (hf : lineFeed ∉ front)
    (hd : b.data = front ++ lineFeed :: rest) : (l.absorb δ limit b).buffer.data = rest := by
  have hconsume : (b.consume (front ++ [lineFeed]).length).2.data = rest := by
    rw [Buffer.data_consume, hd, show front ++ lineFeed :: rest = front ++ [lineFeed] ++ rest by simp, List.drop_left]
  rw [ho.absorb_of_lineFeed δ limit hf hd]
  split <;> exact hconsume

/-- A line becomes complete at a line feed where it may end, and if it is not too long. -/
private theorem IsOpen.absorb_complete_iff (ho : l.IsOpen) {front rest : Bytes} (hf : lineFeed ∉ front)
    (hd : b.data = front ++ lineFeed :: rest) :
    (l.absorb δ limit b).result = .ok .complete ↔
      ∃ c, δ.content? (l.content ++ front) = some c ∧ c.length ≤ limit := by
  rw [ho.absorb_of_lineFeed δ limit hf hd]
  cases hc : δ.content? (l.content ++ front) with
  | none => simp
  | some c =>
    by_cases hl : limit < c.length
    · simp [hl]
    · simp [hl, Nat.le_of_not_lt hl]

private theorem IsOpen.content_of_complete (ho : l.IsOpen) {front rest : Bytes} (hf : lineFeed ∉ front)
    (hd : b.data = front ++ lineFeed :: rest) (h : (l.absorb δ limit b).result = .ok .complete) :
    δ.content? (l.content ++ front) = some (l.absorb δ limit b).line.content := by
  rw [ho.absorb_of_lineFeed δ limit hf hd] at h ⊢
  cases hc : δ.content? (l.content ++ front) with
  | none => simp [hc] at h
  | some c => rfl

/-- Pieces go on to be absorbed behind one without a line feed that leaves the line within the limit. -/
private theorem IsOpen.absorbAll_cons (ho : l.IsOpen) (hb : lineFeed ∉ b.data)
    (hl : framedLength (l.content ++ b.data) ≤ limit) :
    absorbAll δ limit l (b :: bs) = l.absorb δ limit b :: absorbAll δ limit (l.extend b.data) bs := by
  have ha := ho.absorb_of_no_lineFeed δ limit hb
  rw [absorbAll_cons_of_open (by rw [ha, if_neg (Nat.not_lt.2 hl)]) (ho.extend hb).state_ne_complete, ha]

/-- Behind any other piece none is absorbed. -/
private theorem IsOpen.absorbAll_cons_cases (ho : l.IsOpen) (δ : Dialect) (limit : Nat) (b : Buffer)
    (bs : List Buffer) :
    (lineFeed ∉ b.data ∧ framedLength (l.content ++ b.data) ≤ limit) ∨
      absorbAll δ limit l (b :: bs) = [l.absorb δ limit b] := by
  rcases lineFeed_cases b.data with hb | ⟨front, rest, hf, hd⟩
  · by_cases hl : limit < framedLength (l.content ++ b.data)
    · refine .inr (absorbAll_cons_of_closed fun state h => ?_)
      simp [ho.absorb_of_no_lineFeed δ limit hb, hl] at h
    · exact .inl ⟨hb, Nat.le_of_not_lt hl⟩
  · exact .inr (absorbAll_cons_of_closed fun state h => ho.eq_complete_of_lineFeed hf hd h)

/-! ### All pieces -/

/-- Each piece is absorbed into an open line that holds exactly the bytes before it. -/
theorem getElem?_absorbAll (ho : l.IsOpen) {i : Nat} {a : Absorbed} (h : (absorbAll δ limit l bs)[i]? = some a) :
    ∃ (l' : Line) (b : Buffer), l'.IsOpen ∧ l'.content = l.content ++ (bs.take i).flatMap Buffer.data ∧
      bs[i]? = some b ∧ a = l'.absorb δ limit b := by
  induction bs generalizing l i with
  | nil => simp [absorbAll] at h
  | cons b bs ih =>
    rcases ho.absorbAll_cons_cases δ limit b bs with ⟨hb, hl⟩ | hlast
    · rw [ho.absorbAll_cons hb hl] at h
      cases i with
      | zero => exact ⟨l, b, ho, by simp, rfl, by simpa using h.symm⟩
      | succ i =>
        obtain ⟨l', b', ho', hc', hb', ha'⟩ := ih (ho.extend hb) (by simpa using h)
        exact ⟨l', b', ho', by simpa [extend] using hc', by simpa using hb', ha'⟩
    · rw [hlast] at h
      obtain ⟨rfl, rfl⟩ : i = 0 ∧ l.absorb δ limit b = a := by simpa [List.getElem?_singleton] using h
      exact ⟨l, b, ho, by simp, rfl, rfl⟩

/-- The bytes of pieces around one of them. -/
private theorem flatMap_data_of_getElem? {i : Nat} (h : bs[i]? = some b) :
    bs.flatMap Buffer.data =
      (bs.take i).flatMap Buffer.data ++ b.data ++ (bs.drop (i + 1)).flatMap Buffer.data := by
  obtain ⟨hi, rfl⟩ := List.getElem?_eq_some_iff.1 h
  have hbs := congrArg (List.flatMap Buffer.data) (List.take_append_drop i bs)
  rw [List.drop_eq_getElem_cons hi, List.flatMap_append, List.flatMap_cons] at hbs
  rw [← hbs, List.append_assoc]

/-- A line that becomes complete holds the bytes in front of the first line feed. -/
private theorem of_complete_of_mem (ho : l.IsOpen) {a : Absorbed} (h : a ∈ absorbAll δ limit l bs)
    (ha : a.result = .ok .complete) :
    ∃ raw rest, l.content ++ bs.flatMap Buffer.data = raw ++ lineFeed :: rest ∧ lineFeed ∉ raw ∧
      δ.content? raw = some a.line.content ∧ a.line.content.length ≤ limit := by
  obtain ⟨i, hi⟩ := List.getElem?_of_mem h
  obtain ⟨l', b, ho', hc', hb, rfl⟩ := getElem?_absorbAll ho hi
  rcases lineFeed_cases b.data with hn | ⟨front, rest, hf, hd⟩
  · rw [ho'.absorb_of_no_lineFeed δ limit hn] at ha
    simp only at ha
    split at ha
    · simp at ha
    · simp [(ho'.extend hn).state_ne_complete] at ha
  · have hcontent := ho'.content_of_complete hf hd ha
    obtain ⟨c, hc, hl⟩ := (ho'.absorb_complete_iff hf hd).1 ha
    obtain rfl : c = _ := Option.some.inj (hc.symm.trans hcontent)
    refine ⟨l'.content ++ front, rest ++ (bs.drop (i + 1)).flatMap Buffer.data, ?_, ?_, hcontent, hl⟩
    · rw [flatMap_data_of_getElem? hb, hc', hd]
      simp
    · simp [ho'.no_lineFeed, hf]

/-- A line becomes complete at the first line feed if it may end there and is not too long, however the bytes before are
divided. -/
private theorem exists_complete (ho : l.IsOpen) {front rest c : Bytes}
    (hs : bs.flatMap Buffer.data = front ++ lineFeed :: rest) (hf : lineFeed ∉ front)
    (hc : δ.content? (l.content ++ front) = some c) (hl : c.length ≤ limit) :
    ∃ a, (absorbAll δ limit l bs).getLast? = some a ∧ a.result = .ok .complete := by
  induction bs generalizing l front with
  | nil => simp at hs
  | cons b bs ih =>
    rw [List.flatMap_cons] at hs
    rcases lineFeed_cases b.data with hb | ⟨front', rest', hf', hd⟩
    · -- The line feed is in a later piece, and no byte before it makes the line too long.
      obtain ⟨front', rfl, hs'⟩ := exists_of_append_lineFeed hb hs
      have hlength : framedLength (l.content ++ b.data) ≤ limit := by
        have := framedLength_le_append (l.content ++ b.data) front'
        rw [← Dialect.framedLength_of_content? hc, ← List.append_assoc] at hl
        omega
      obtain ⟨a, ha, hr⟩ := ih (ho.extend hb) hs' (by simp_all) (by simpa [extend] using hc)
      refine ⟨a, ?_, hr⟩
      rw [ho.absorbAll_cons hb hlength, List.getLast?_cons, ha]
      rfl
    · have hs' : front' ++ lineFeed :: (rest' ++ bs.flatMap Buffer.data) = front ++ lineFeed :: rest := by
        rw [← hs, hd]
        simp
      obtain ⟨rfl, -⟩ := append_lineFeed_inj hf' hf hs'
      refine ⟨l.absorb δ limit b, ?_, (ho.absorb_complete_iff hf' hd).2 ⟨c, hc, hl⟩⟩
      rw [absorbAll_cons_of_closed fun state h => ho.eq_complete_of_lineFeed hf' hd h]
      rfl

/-- A line without a line feed is refused as soon as it is too long. -/
private theorem exists_lineTooLong (ho : l.IsOpen) (hl : framedLength l.content ≤ limit)
    (hs : lineFeed ∉ bs.flatMap Buffer.data) (h : limit < framedLength (l.content ++ bs.flatMap Buffer.data)) :
    ∃ a ∈ absorbAll δ limit l bs, ∃ n, a.result = .error (.lineTooLong n limit) := by
  induction bs generalizing l with
  | nil =>
    rw [List.flatMap_nil, List.append_nil] at h
    omega
  | cons b bs ih =>
    obtain ⟨hb, hs'⟩ : lineFeed ∉ b.data ∧ lineFeed ∉ bs.flatMap Buffer.data := by
      rwa [List.flatMap_cons, List.mem_append, not_or] at hs
    by_cases hn : limit < framedLength (l.content ++ b.data)
    · have ha := ho.absorb_of_no_lineFeed δ limit hb
      rw [if_pos hn] at ha
      rw [absorbAll_cons_of_closed (by simp [ha])]
      exact ⟨_, List.mem_singleton_self _, _, by rw [ha]⟩
    · rw [ho.absorbAll_cons hb (Nat.le_of_not_lt hn)]
      obtain ⟨a, ha, hr⟩ := ih (ho.extend hb) (Nat.le_of_not_lt hn) hs' (by simpa [extend] using h)
      exact ⟨a, List.mem_cons_of_mem _ ha, hr⟩

/-- A line without a line feed that is refused is too long, whatever the piece at which that is seen. -/
private theorem lt_of_error_of_mem (ho : l.IsOpen) (hs : lineFeed ∉ bs.flatMap Buffer.data) {a : Absorbed}
    (h : a ∈ absorbAll δ limit l bs) {e : FramingError} (ha : a.result = .error e) :
    limit < framedLength (l.content ++ bs.flatMap Buffer.data) := by
  obtain ⟨i, hi⟩ := List.getElem?_of_mem h
  obtain ⟨l', b, ho', hc', hb, rfl⟩ := getElem?_absorbAll ho hi
  rw [flatMap_data_of_getElem? hb] at hs ⊢
  have hn : lineFeed ∉ b.data := by simp_all
  have hle := framedLength_le_append (l'.content ++ b.data) ((bs.drop (i + 1)).flatMap Buffer.data)
  rw [ho'.absorb_of_no_lineFeed δ limit hn] at ha
  by_cases hl : limit < framedLength (l'.content ++ b.data)
  · rw [hc'] at hl hle
    simp only [← List.append_assoc] at hl hle ⊢
    omega
  · simp [if_neg hl] at ha

/-- A piece without a line feed is used up, and the line holds all bytes so far. -/
private theorem holds_of_getElem?_absorbAll {i : Nat} {a : Absorbed} (h : (absorbAll δ limit {} bs)[i]? = some a)
    (hn : lineFeed ∉ (bs.take (i + 1)).flatMap Buffer.data) (hr : ∀ e, a.result ≠ .error e) :
    a.buffer.data = [] ∧ a.line.content = (bs.take (i + 1)).flatMap Buffer.data ∧ a.result = .ok a.line.state ∧
      a.line.state = if (bs.take (i + 1)).flatMap Buffer.data = [] then .idle else .accumulating := by
  obtain ⟨l, b, ho, hc, hb, rfl⟩ := getElem?_absorbAll isOpen_empty h
  rw [List.nil_append] at hc
  have htake : (bs.take (i + 1)).flatMap Buffer.data = l.content ++ b.data := by
    rw [List.take_add_one, hb, List.flatMap_append, hc]
    simp
  rw [htake] at hn ⊢
  have hb' : lineFeed ∉ b.data := fun hm => hn (List.mem_append_right _ hm)
  have ha := ho.absorb_of_no_lineFeed δ limit hb'
  by_cases hl : limit < framedLength (l.content ++ b.data)
  · rw [if_pos hl] at ha
    exact absurd (by rw [ha]) (hr _)
  · rw [if_neg hl] at ha
    rw [ha]
    exact ⟨by simp, rfl, rfl, (ho.extend hb').state_eq⟩

/-- A line of the bytes in the pieces is refused as too long. -/
def Overruns (δ : Dialect) (limit : Nat) (bs : List Buffer) : Prop :=
  ∃ a ∈ absorbAll δ limit {} bs, ∃ n, a.result = .error (.lineTooLong n limit)

private theorem overruns_iff (hs : lineFeed ∉ bs.flatMap Buffer.data) :
    Overruns δ limit bs ↔ limit < framedLength (bs.flatMap Buffer.data) := by
  constructor
  · rintro ⟨a, ha, n, hr⟩
    exact lt_of_error_of_mem isOpen_empty hs ha hr
  · exact exists_lineTooLong isOpen_empty (Nat.zero_le _) hs

/-- The framing of a line does not depend on how its bytes are divided. Let an empty line absorb the data of buffers one
after the other. As long as no line feed came and the line was not refused, each buffer is used up, the line is exactly
the bytes so far, and it is idle if there are none and accumulating otherwise. The buffer with the first line feed is
left with exactly the bytes behind it. In the end the line is complete if and only if the bytes before the line feed,
without the carriage return that belongs to the end of the line, are within the limit, and if in the strict dialect there
is that carriage return. These bytes are then the line. A line without a line feed is refused as too long for one
division of its bytes if and only if it is so for each. -/
theorem framing_of_pieces (δ : Dialect) (limit : Nat) (bs : List Buffer) :
    let stream := bs.flatMap Buffer.data
    let absorbed := absorbAll δ limit {} bs
    (∀ (i : Nat) (a : Absorbed), absorbed[i]? = some a →
      let front := (bs.take (i + 1)).flatMap Buffer.data
      lineFeed ∉ front → (∀ e, a.result ≠ .error e) →
        a.buffer.data = [] ∧ a.line.content = front ∧ a.result = .ok a.line.state ∧
          a.line.state = if front = [] then .idle else .accumulating) ∧
      (∀ (i : Nat) (a : Absorbed) (b : Buffer) (front rest : Bytes), absorbed[i]? = some a → bs[i]? = some b →
        lineFeed ∉ front → b.data = front ++ lineFeed :: rest → a.buffer.data = rest) ∧
      (∀ raw rest, stream = raw ++ lineFeed :: rest → lineFeed ∉ raw →
        ((∃ a, absorbed.getLast? = some a ∧ a.result = .ok .complete) ↔
          (withoutCarriageReturn raw).length ≤ limit ∧ (δ = .strict → raw.getLast? = some carriageReturn)) ∧
        ∀ a ∈ absorbed, a.result = .ok .complete → a.line.content = withoutCarriageReturn raw) ∧
      (lineFeed ∉ stream →
        (∀ a ∈ absorbed, a.result ≠ .ok .complete) ∧
          ((∃ bs' : List Buffer, bs'.flatMap Buffer.data = stream ∧ Overruns δ limit bs') ↔
            ∀ bs' : List Buffer, bs'.flatMap Buffer.data = stream → Overruns δ limit bs')) := by
  intro stream absorbed
  -- The content of a line that is complete, by the bytes in front of any first line feed.
  have hcomplete {raw rest : Bytes} (hs : stream = raw ++ lineFeed :: rest) (hraw : lineFeed ∉ raw) {a : Absorbed}
      (ha : a ∈ absorbed) (hr : a.result = .ok .complete) :
      (a.line.content = withoutCarriageReturn raw ∧ (δ = .strict → raw.getLast? = some carriageReturn)) ∧
        a.line.content.length ≤ limit := by
    obtain ⟨raw', rest', hs', hraw', hc, hl⟩ := of_complete_of_mem isOpen_empty ha hr
    obtain ⟨rfl, -⟩ := append_lineFeed_inj hraw hraw' (hs.symm.trans hs')
    exact ⟨Dialect.content?_eq_some_iff.1 hc, hl⟩
  refine ⟨fun i a hi => holds_of_getElem?_absorbAll hi, ?_, fun raw rest hs hraw => ⟨⟨?_, ?_⟩, ?_⟩, fun hs => ⟨?_, ?_, ?_⟩⟩
  · intro i a b front rest hi hb hf hd
    obtain ⟨l, b', ho, hc, hb', rfl⟩ := getElem?_absorbAll isOpen_empty hi
    obtain rfl : b' = b := Option.some.inj (hb'.symm.trans hb)
    exact ho.data_absorb_of_lineFeed hf hd
  · rintro ⟨a, ha, hr⟩
    obtain ⟨⟨hc, hend⟩, hl⟩ := hcomplete hs hraw (List.mem_of_getLast? ha) hr
    exact ⟨hc ▸ hl, hend⟩
  · rintro ⟨hl, hend⟩
    exact exists_complete isOpen_empty hs hraw (Dialect.content?_eq_some_iff.2 ⟨rfl, hend⟩) hl
  · intro a ha hr
    exact (hcomplete hs hraw ha hr).1.1
  · intro a ha hr
    obtain ⟨raw, rest, hs', -⟩ := of_complete_of_mem isOpen_empty ha hr
    exact hs (by simp [stream, show bs.flatMap Buffer.data = raw ++ lineFeed :: rest from hs'])
  · rintro ⟨bs', hbs', h⟩ bs'' hbs''
    rw [overruns_iff (by rwa [hbs'])] at h
    rw [overruns_iff (by rwa [hbs'']), hbs'', ← hbs']
    exact h
  · exact fun h => ⟨bs, rfl, h bs rfl⟩

/-- A line end that is cut in two, behind as many bytes as the limit admits. -/
theorem framing_of_pieces_of_cut_lineEnd :
    let absorbed := absorbAll .strict 1 {} [.withReceived [97, 13] 2, .withReceived [10, 98] 2]
    (∃ a, absorbed.getLast? = some a ∧ a.result = .ok .complete) ∧
      ∀ a ∈ absorbed, a.result = .ok .complete → a.line.content = [97] := by
  intro absorbed
  obtain ⟨-, -, hline, -⟩ := framing_of_pieces .strict 1 [.withReceived [97, 13] 2, .withReceived [10, 98] 2]
  obtain ⟨hiff, hcontent⟩ := hline [97, 13] [98] (by decide) (by decide)
  exact ⟨hiff.2 ⟨by decide, fun _ => by decide⟩, hcontent⟩

end Line

end ChunkedTransfer
