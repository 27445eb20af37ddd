import ChunkedTransfer.Event

/-!
# Texts on one line

A text goes on one line of a log if it has no line feed (`OneLine`). This module says which of the texts that are
written do: the text of a byte string if none of the bytes is a line feed, since no sequence of several bytes stands
for one (`oneLine_lossy`), a quoted text whatever it holds (`oneLine_encode`), and then the messages of errors and the
records of a log, as far as what they cite does.
-/

namespace ChunkedTransfer

/-- The text has no line feed. -/
def OneLine (s : String) : Prop := '\n' ∉ s.toList

instance : DecidablePred OneLine := fun s => inferInstanceAs (Decidable ('\n' ∉ s.toList))

private theorem oneLine_ofList {cs : List Char} (h : '\n' ∉ cs) : OneLine (String.ofList cs) := by
  rwa [OneLine, String.toList_ofList]

private theorem OneLine.append {s t : String} (h : OneLine s) (h' : OneLine t) : OneLine (s ++ t) := by
  rw [OneLine, String.toList_append, List.mem_append, not_or]
  exact ⟨h, h'⟩

private theorem OneLine.between {s front back : String} (h : OneLine s) (hfront : OneLine front)
    (hback : OneLine back) : OneLine (front ++ s ++ back) := (hfront.append h).append hback

/-! ### Numbers -/

private theorem lineFeed_not_mem_toDigits {b : Nat} (hb : 1 < b) (n : Nat) : '\n' ∉ b.toDigits n := by
  have hdigit (n : Nat) : '\n' ≠ n.digitChar := (Nat.digitChar_ne '\n' (by decide)).symm
  induction n using Nat.strongRecOn with
  | ind n ih =>
    rw [Nat.toDigits_eq_if hb]
    split
    · exact mt List.mem_singleton.1 (hdigit n)
    · rename_i h
      have hfront := ih (n / b) (Nat.div_lt_self (by omega) hb)
      rw [List.mem_append, not_or]
      exact ⟨hfront, mt List.mem_singleton.1 (hdigit (n % b))⟩

private theorem oneLine_toString (n : Nat) : OneLine (toString n) := by
  rw [Nat.toString_eq_ofList_toDigits]
  exact oneLine_ofList (lineFeed_not_mem_toDigits (by decide) n)

private theorem oneLine_toString_uint64 (n : UInt64) : OneLine (toString n) := oneLine_toString n.toNat

/-! ### Texts of byte strings -/

namespace Text

private theorem ByteRange.le_of_contains {r : ByteRange} {b : UInt8} (h : r.contains b = true) :
    r.low.toNat ≤ b.toNat ∧ b.toNat ≤ r.high.toNat := by
  simpa [contains, UInt8.le_iff_toNat_le] using h

namespace Utf8

private theorem eq_of_ofNat_eq_lineFeed {code : Nat} (h : Char.ofNat code = '\n') : code = 10 := by
  by_cases hv : code.isValidChar
  · have htoNat : (Char.ofNat code).toNat = code := by
      rw [Char.ofNat, dif_pos hv]
      rfl
    rw [← htoNat, h]
    rfl
  · rw [Char.ofNat, dif_neg hv] at h
    exact absurd h (by decide)

/-- What lies above the line feed stays there, since each byte that follows brings in further low bits. -/
private theorem follow_ne_lineFeed {code : Nat} (h : 10 < code) (rs : List ByteRange) (s : Bytes) :
    (follow code rs s).1 ≠ some '\n' := by
  induction rs generalizing code s with
  | nil =>
    rw [follow, Ne, Option.some.injEq]
    intro he
    have hcode := eq_of_ofNat_eq_lineFeed he
    omega
  | cons r rs ih =>
    cases s with
    | nil => simp [follow]
    | cons b s =>
      rw [follow]
      split
      · exact ih (by omega) s
      · simp

private theorem follow_suffix (code : Nat) (rs : List ByteRange) (s : Bytes) : (follow code rs s).2 <:+ s := by
  induction rs generalizing code s with
  | nil => exact List.suffix_refl s
  | cons r rs ih =>
    cases s with
    | nil => exact List.suffix_refl []
    | cons b s =>
      rw [follow]
      split
      · exact (ih _ s).trans (List.suffix_cons b s)
      · exact List.suffix_refl _

/-- A byte of such a range has two high bits which the code point does not take over. -/
private theorem lt_of_contains {low high : UInt8} {code : Nat} (h : 10 < code * 64 + (low.toNat - 128))
    (hlow : 128 ≤ low.toNat) (hhigh : high.toNat < 192) {c : UInt8} (hc : ByteRange.contains ⟨low, high⟩ c = true) :
    10 < code * 64 + c.toNat % 64 := by
  obtain ⟨hc, hc'⟩ := ByteRange.le_of_contains hc
  simp only at hc hc'
  omega

/-- A lead byte stands for itself, or it asks for bytes of which the first leads above the line feed. This is so
because overlong forms are refused at that byte. -/
private theorem lead?_cases {b : UInt8} {code : Nat} {rs : List ByteRange} (h : lead? b = some (code, rs)) :
    (code = b.toNat ∧ rs = []) ∨
      ∃ r rs', rs = r :: rs' ∧ ∀ c, r.contains c = true → 10 < code * 64 + c.toNat % 64 := by
  -- Either the lead byte brings in a bit, or the range of the next byte does.
  have hmany {low high : UInt8} {m : Nat} {rs' : List ByteRange} (he : some (m, ⟨low, high⟩ :: rs') = some (code, rs))
      (hl : 10 < m * 64 + (low.toNat - 128)) (hlow : 128 ≤ low.toNat) (hhigh : high.toNat < 192) :
      ∃ r rs', rs = r :: rs' ∧ ∀ c, r.contains c = true → 10 < code * 64 + c.toNat % 64 := by
    simp only [Option.some.injEq, Prod.mk.injEq] at he
    obtain ⟨rfl, rfl⟩ := he
    exact ⟨_, _, rfl, fun c hc => lt_of_contains hl hlow hhigh hc⟩
  simp only [lead?, ByteRange.continuation] at h
  split at h
  · simp only [Option.some.injEq, Prod.mk.injEq] at h
    exact .inl ⟨h.1.symm, h.2.symm⟩
  · right
    repeat' split at h
    · simp at h
    · exact hmany h (by simp; omega) (by decide) (by decide)
    · exact hmany h (by decide) (by decide) (by decide)
    · exact hmany h (by decide) (by decide) (by decide)
    · exact hmany h (by simp; omega) (by decide) (by decide)
    · exact hmany h (by decide) (by decide) (by decide)
    · exact hmany h (by simp; omega) (by decide) (by decide)
    · exact hmany h (by decide) (by decide) (by decide)
    · simp at h

private theorem lineFeed_not_mem_decode {s : Bytes} (h : lineFeed ∉ s) : some '\n' ∉ decode s := by
  fun_induction decode s with
  | case1 => simp
  | case2 b s hb ih =>
    have hs : lineFeed ∉ s := fun hs => h (List.mem_cons_of_mem b hs)
    simpa using ih hs
  | case3 b s code rs hb ih =>
    have hs : lineFeed ∉ s := fun hs => h (List.mem_cons_of_mem b hs)
    rw [List.mem_cons, not_or]
    refine ⟨?_, ih fun hr => hs ((follow_suffix code rs s).subset hr)⟩
    rcases lead?_cases hb with ⟨rfl, rfl⟩ | ⟨r, rs', rfl, hr⟩
    · intro he
      have htoNat := eq_of_ofNat_eq_lineFeed (Option.some.inj he).symm
      have hlineFeed : b = lineFeed := UInt8.toNat_inj.1 htoNat
      exact h (hlineFeed ▸ List.mem_cons_self)
    · cases s with
      | nil => simp [follow]
      | cons c s =>
        rw [follow]
        split
        · rename_i hc
          exact (follow_ne_lineFeed (hr c hc) rs' s).symm
        · simp

/-- The text of bytes among which there is no line feed, whether they are text or not. -/
theorem oneLine_lossy {s : Bytes} (h : lineFeed ∉ s) : OneLine (lossy s) := by
  refine oneLine_ofList fun hm => ?_
  obtain ⟨c, hc, hd⟩ := List.mem_map.1 hm
  cases c with
  | none => exact absurd hd (by decide)
  | some c =>
    obtain rfl : c = '\n' := hd
    exact lineFeed_not_mem_decode h hc

end Utf8

/-! ### Quoted texts -/

namespace Quoted

private theorem lineFeed_not_mem_escape (c : Char) : '\n' ∉ escape c := by
  unfold escape
  repeat' split
  · decide
  · decide
  · decide
  · decide
  · decide
  · decide
  · rename_i hc _ _ _
    exact fun hm => hc (List.mem_singleton.1 hm).symm
  · simpa using lineFeed_not_mem_toDigits (by decide) c.toNat

/-- Between quotes there is no line feed, whatever the text holds. -/
theorem oneLine_encode (s : String) : OneLine (encode s) := by
  refine oneLine_ofList ?_
  simpa using fun c _ => lineFeed_not_mem_escape c

end Quoted

end Text

/-! ### Messages and records -/

private theorem PhaseMarker.oneLine_label (m : PhaseMarker) : OneLine m.label := by
  cases m <;> decide

namespace FramingError

/-- The line that an error cites. -/
def cited? : FramingError → Option String
  | invalidSize line | sizeOverflow line => some line
  | emptySizeLine | bareLineFeed | missingChunkTerminator | lineTooLong _ _ | chunkTooLarge _ _ | bodyTooLarge _ _
  | truncated _ => none

/-- A message goes on one line if what it cites does. -/
theorem oneLine_message {e : FramingError} (h : ∀ line ∈ e.cited?, OneLine line) : OneLine e.message := by
  have hbound {front size limit : String} (hsize : OneLine size) (hlimit : OneLine limit) (hfront : OneLine front) :
      OneLine (front ++ size ++ " > " ++ limit) :=
    (hsize.between hfront (by decide)).append hlimit
  cases e with
  | emptySizeLine => decide
  | invalidSize line => exact (h line rfl).between (by decide) (by decide)
  | sizeOverflow line => exact (h line rfl).between (by decide) (by decide)
  | bareLineFeed => decide
  | missingChunkTerminator => decide
  | lineTooLong size limit => exact hbound (oneLine_toString size) (oneLine_toString limit) (by decide)
  | chunkTooLarge size limit => exact hbound (oneLine_toString_uint64 size) (oneLine_toString_uint64 limit) (by decide)
  | bodyTooLarge size limit => exact hbound (oneLine_toString_uint64 size) (oneLine_toString_uint64 limit) (by decide)
  | truncated phase => exact OneLine.append (by decide) phase.oneLine_label

end FramingError

namespace Record

/-- What the record cites goes on one line. Of a malformed trailer line nothing is asked, since it is quoted. -/
def CitesOneLine : Record → Prop
  | trailerDiscarded key => lineFeed ∉ key
  | decodingFailed _ error => OneLine error.message
  | readFailed fault => OneLine fault.message
  | lastChunk | newChunk _ | chunkedBodyTerminated _ _ | malformedTrailerDiscarded _ | refilled _ | transportExhausted
  | streamEnded | progressMade _ => True

theorem oneLine_text {r : Record} (h : r.CitesOneLine) : OneLine r.text := by
  cases r with
  | lastChunk => decide
  | newChunk size => exact (oneLine_toString_uint64 size).between (by decide) (by decide)
  | chunkedBodyTerminated decoded trailers =>
    have hdecoded : OneLine ("chunked body terminated: " ++ toString decoded ++ " bytes, ") :=
      (oneLine_toString_uint64 decoded).between (by decide) (by decide)
    exact (oneLine_toString_uint64 trailers).between hdecoded (by decide)
  | trailerDiscarded key => exact OneLine.append (by decide) (Text.Utf8.oneLine_lossy h)
  | malformedTrailerDiscarded line => exact OneLine.append (by decide) (Text.Quoted.oneLine_encode _)
  | decodingFailed marker error =>
    have hmarker : OneLine ("chunked decoding failed in " ++ marker.label ++ " phase: ") :=
      marker.oneLine_label.between (by decide) (by decide)
    exact hmarker.append h
  | refilled count => exact (oneLine_toString count).between (by decide) (by decide)
  | transportExhausted => decide
  | streamEnded => decide
  | progressMade progress =>
    cases progress with
    | read count =>
      have hread : OneLine ("Read(" ++ toString count ++ ")") :=
        (oneLine_toString count).between (by decide) (by decide)
      exact OneLine.append (by decide) hread
    | pending => decide
    | ended => decide
  | readFailed fault => exact OneLine.append (by decide) h

end Record

end ChunkedTransfer
