import ChunkedTransfer.Proofs.RoundTrip

/-!
# Pipelining

Bodies that follow each other in one stream are read by one decoder after another, each over the source that the one
before has left. At the end of its body a decoder leaves all that follows the body, wherever the buffer stands in it
and whether or not the transport was seen to be at its end (`Leaves.after`). So each decoder finds its own body where
that begins, and delivers it (`pipelining`).
-/

namespace ChunkedTransfer

open Grammar (Body)

/-- A body, and what is done to read it. -/
structure Reading where
  body : Body
  limits : Limits
  ops : List Operation

namespace Reading

/-- The operations that read the body. The first of them puts its decoder in place. -/
def operations (r : Reading) : List Operation := .next r.limits :: r.ops

/-- The bytes of the bodies, one after another. -/
def stream (rs : List Reading) : Bytes := rs.flatMap fun r => r.body.encode

end Reading

namespace Decoder

/-- The bodies are read one after another, each to its end. -/
def ReadsToEnd {τ : Type} [Transport τ] (δ : Dialect) : Decoder τ → List Reading → Prop
  | _, [] => True
  | d, r :: rs =>
    (∃ o ∈ (d.next r.limits).run δ r.ops, o.result = .ok (.progress .ended)) ∧
      ReadsToEnd δ ((d.next r.limits).finish δ r.ops) rs

variable {δ : Dialect} {stream bs : Bytes}

private theorem Draws.next {τ : Type} [Transport τ] [Script τ] {d : Decoder τ} (h : d.Draws δ stream bs)
    (limits : Limits) : (d.next limits).Draws δ d.source.unread [] where
  tracks :=
    { agrees := agrees_ofSource d.source limits
      drained := drained_of_running rfl
      consistent := h.tracks.consistent
      capacity_pos := h.tracks.capacity_pos }
  honest := h.honest
  stream_eq := rfl

/-- Whatever its limits, the decoder that follows can draw the bytes of a stream. -/
def Leaves {τ : Type} [Transport τ] [Script τ] (δ : Dialect) (d : Decoder τ) (stream : Bytes) : Prop :=
  ∀ limits, (d.next limits).Draws δ stream []

/-- A body that is read to its end leaves what follows it. -/
theorem Leaves.after {d : Decoder Fragments} {r : Reading} (h : d.Leaves δ (r.body.encode ++ stream))
    (hw : r.body.WellFormed r.limits) (ho : ∀ op ∈ r.ops, op.IsReading)
    (hend : ∃ o ∈ (d.next r.limits).run δ r.ops, o.result = .ok (.progress .ended)) :
    ((d.next r.limits).finish δ r.ops).Leaves δ stream := by
  intro limits
  have hd := h r.limits
  obtain ⟨-, -, -, hu⟩ := hd.of_ended hw ho hend
  have hnext := (hd.finish ho).next limits
  rwa [hu] at hnext

private theorem Leaves.after_all {rs : List Reading} {d : Decoder Fragments}
    (h : d.Leaves δ (Reading.stream rs ++ stream)) (hw : ∀ r ∈ rs, r.body.WellFormed r.limits)
    (ho : ∀ r ∈ rs, ∀ op ∈ r.ops, op.IsReading) (hend : d.ReadsToEnd δ rs) :
    (d.finish δ (rs.flatMap Reading.operations)).Leaves δ stream := by
  induction rs generalizing d with
  | nil => exact h
  | cons r rs ih =>
    obtain ⟨hwr, hwrs⟩ := List.forall_mem_cons.1 hw
    obtain ⟨hor, hors⟩ := List.forall_mem_cons.1 ho
    obtain ⟨hendr, hendrs⟩ := hend
    have h' : d.Leaves δ (r.body.encode ++ (Reading.stream rs ++ stream)) := by
      rwa [Reading.stream, List.flatMap_cons, List.append_assoc] at h
    rw [List.flatMap_cons, finish_append]
    exact ih (h'.after hwr hor hendr) hwrs hors hendrs

/-- Every body is read to its end if each is given enough reads. -/
private theorem Leaves.readsToEnd {rs : List Reading} {d : Decoder Fragments}
    (h : d.Leaves δ (Reading.stream rs ++ stream)) (hw : ∀ r ∈ rs, r.body.WellFormed r.limits)
    (ho : ∀ r ∈ rs, ∀ op ∈ r.ops, op.IsReading ∧ op ≠ .read 0)
    (hn : ∀ r ∈ rs, d.source.reach < r.ops.countP Operation.isRead) : d.ReadsToEnd δ rs := by
  induction rs generalizing d with
  | nil => trivial
  | cons r rs ih =>
    obtain ⟨hwr, hwrs⟩ := List.forall_mem_cons.1 hw
    obtain ⟨hor, hors⟩ := List.forall_mem_cons.1 ho
    obtain ⟨hnr, hnrs⟩ := List.forall_mem_cons.1 hn
    have h' : d.Leaves δ (r.body.encode ++ (Reading.stream rs ++ stream)) := by
      rwa [Reading.stream, List.flatMap_cons, List.append_assoc] at h
    have hend := (h' r.limits).exists_ended hwr (.inl rfl) hor hnr
    -- What was read cannot be read again, so that the reads are enough for the bodies that are left.
    have hreach := ((d.next r.limits).trace_run δ r.ops).reach_le (h' r.limits).tracks.consistent
    refine ⟨hend, ih (h'.after hwr (fun op hm => (hor op hm).1) hend) hwrs hors fun r' hr' => ?_⟩
    have hlt := hnrs r' hr'
    simp only [next, ofSource] at hreach ⊢
    omega

/-- Bodies that follow each other are read by decoders that follow each other. With enough reads for each, all of them
are read to their ends. As long as those before were read to their ends, a decoder does not fail, and at its end it has
delivered the payload of its own body, has counted that and the trailer lines, and has left the bodies that are still to
come and what follows them. -/
theorem pipelining (δ : Dialect) {readings : List Reading} (hw : ∀ r ∈ readings, r.body.WellFormed r.limits)
    (suffix : Bytes) {b : Buffer} (hb : 0 < b.capacity) {t : Fragments}
    (he : b.data ++ t.unread = Reading.stream readings ++ suffix)
    (ho : ∀ r ∈ readings, ∀ op ∈ r.ops, op.IsReading) (limits : Limits) :
    let first := ofSource (.ofBuffer b t) limits
    ((∀ r ∈ readings, (∀ op ∈ r.ops, op ≠ .read 0) ∧
        (b.data ++ t.unread).length + t.gaps < r.ops.countP Operation.isRead) → first.ReadsToEnd δ readings) ∧
      ∀ front r rest, readings = front ++ r :: rest → first.ReadsToEnd δ front →
        let d := (first.finish δ (front.flatMap Reading.operations)).next r.limits
        (∀ o ∈ d.run δ r.ops, ∃ a, o.result = .ok a) ∧
          ((∃ o ∈ d.run δ r.ops, o.result = .ok (.progress .ended)) →
            delivered (d.run δ r.ops) = r.body.payload ∧
              (d.finish δ r.ops).decoded.toNat = r.body.payload.length ∧
              (d.finish δ r.ops).trailers = r.body.trailers.length.toUInt64 ∧
              (d.finish δ r.ops).source.buffer.data ++ (d.finish δ r.ops).source.transport.unread =
                Reading.stream rest ++ suffix) := by
  intro first
  have hfirst : first.Leaves δ (Reading.stream readings ++ suffix) :=
    fun limits => he ▸ draws_ofBuffer δ hb trivial limits
  constructor
  · intro hn
    exact hfirst.readsToEnd hw (fun r hr op hop => ⟨ho r hr op hop, (hn r hr).1 op hop⟩) fun r hr => (hn r hr).2
  · rintro front r rest rfl hends d
    have hstream : Reading.stream (front ++ r :: rest) ++ suffix =
        Reading.stream front ++ (r.body.encode ++ (Reading.stream rest ++ suffix)) := by
      simp [Reading.stream]
    rw [hstream] at hfirst
    have hwr : r.body.WellFormed r.limits := hw r (by simp)
    have hor : ∀ op ∈ r.ops, op.IsReading := ho r (by simp)
    have hd : d.Draws δ (r.body.encode ++ (Reading.stream rest ++ suffix)) [] :=
      hfirst.after_all (fun r' hr' => hw r' (by simp [hr'])) (fun r' hr' => ho r' (by simp [hr'])) hends r.limits
    exact ⟨fun o hmem => hd.ok_of_mem_run hwr hor hmem, hd.of_ended hwr hor⟩

/-- The same body twice, and the front of a third. The fragments are cut across the bodies, so that the first decoder
leaves a part of the second body in the buffer. -/
theorem pipelining_of_same_body :
    let body : Body := ⟨[⟨[49], [97]⟩], [48], [[120]]⟩
    let reads := List.replicate 40 (.read 2)
    let readings : List Reading := [⟨body, {}, reads⟩, ⟨body, {}, .refill :: reads⟩]
    let t : Fragments := ⟨[.fragment 13 [10, 97, 13, 10, 48, 13, 10, 120, 13, 10, 13], .gap,
      .fragment 10 [49, 13, 10, 97, 13], .fragment 10 [48, 13, 10, 120, 13, 10, 13, 10, 53]], false⟩
    let first := ofSource (.ofBuffer (.withReceived [49, 0, 0] 1) t) {}
    let second := (first.finish .strict (.next {} :: reads)).next {}
    first.ReadsToEnd .strict readings ∧ delivered (second.run .strict (.refill :: reads)) = [97] ∧
      (second.finish .strict (.refill :: reads)).source.buffer.data ++
        (second.finish .strict (.refill :: reads)).source.transport.unread = [53] := by
  intro body reads readings t first second
  have hw : body.WellFormed {} :=
    { chunks := by
        intro c hc
        obtain rfl : c = ⟨[49], [97]⟩ := by simpa [body] using hc
        have hs : SizeLine.size [49] = .ok 1 := by decide +kernel
        exact ⟨SizeLine.size_eq_ok_iff.1 hs, by decide, by decide, by decide⟩
      last := SizeLine.size_eq_ok_iff.1 (show SizeLine.size [48] = .ok 0 by decide +kernel)
      last_framed := by decide
      trailers := by decide
      total_le := by decide }
  obtain ⟨hall, heach⟩ := pipelining .strict
    (show ∀ r ∈ readings, r.body.WellFormed r.limits by simpa [readings] using hw) [53]
    (show 0 < (Buffer.withReceived [49, 0, 0] 1).capacity by decide)
    (show (Buffer.withReceived [49, 0, 0] 1).data ++ t.unread = _ by decide)
    (show ∀ r ∈ readings, ∀ op ∈ r.ops, op.IsReading by decide) {}
  have hends : first.ReadsToEnd .strict readings := hall (by decide)
  obtain ⟨hpayload, -, -, hleft⟩ := (heach [⟨body, {}, reads⟩] _ [] rfl ⟨hends.1, trivial⟩).2 hends.2.1
  exact ⟨hends, hpayload, hleft⟩

end Decoder

end ChunkedTransfer
