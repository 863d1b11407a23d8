import Mathlib.Data.List.Basic

/-! Frames cut out of a stream of bytes by a decoder that looks at what has arrived so far. A decoder
is stable when more bytes never change a verdict other than `incomplete`; then the frames of a stream
do not depend on how the stream was cut into deliveries: whatever part has arrived, decoding its first
frame and erasing it leaves the frames of the rest. -/

namespace Framing

variable {β φ : Type*}

/-- What a decoder says of the bytes at hand: a frame and how many bytes it took, more bytes are
needed, or no bytes will ever help. -/
inductive Verdict (φ : Type*) where
  | frame (f : φ) (consumed : Nat)
  | incomplete
  | malformed
  deriving DecidableEq, Repr

/-- A decoder whose verdicts stand when more bytes arrive. -/
structure Decoder (β φ : Type*) where
  decode : List β → Verdict φ
  consumed_pos : ∀ {bytes f n}, decode bytes = .frame f n → 0 < n
  consumed_le : ∀ {bytes f n}, decode bytes = .frame f n → n ≤ bytes.length
  frame_append : ∀ {bytes f n} more, decode bytes = .frame f n → decode (bytes ++ more) = .frame f n
  malformed_append : ∀ {bytes} more, decode bytes = .malformed → decode (bytes ++ more) = .malformed

namespace Decoder

variable (d : Decoder β φ)

/-- The frames a stream starts with, in order, and what is left after the last of them. -/
def frames (bytes : List β) : List φ × List β :=
  match _hdec : d.decode bytes with
  | .frame f n =>
      let later := frames (bytes.drop n)
      (f :: later.1, later.2)
  | _ => ([], bytes)
termination_by bytes.length
decreasing_by
  have hpos := d.consumed_pos _hdec
  have hle := d.consumed_le _hdec
  rw [List.length_drop]
  omega

theorem frames_of_frame {bytes : List β} {f : φ} {n : Nat} (h : d.decode bytes = .frame f n) :
    d.frames bytes = (f :: (d.frames (bytes.drop n)).1, (d.frames (bytes.drop n)).2) := by
  rw [frames]
  split
  · next f' n' heq =>
      rw [h] at heq
      obtain ⟨rfl, rfl⟩ := Verdict.frame.inj heq
      rfl
  · next hno => exact absurd h (hno f n)

theorem frames_of_not_frame {bytes : List β} (h : ∀ f n, d.decode bytes ≠ .frame f n) :
    d.frames bytes = ([], bytes) := by
  rw [frames]
  split
  · next f n heq => exact absurd heq (h f n)
  · rfl

theorem frames_of_incomplete {bytes : List β} (h : d.decode bytes = .incomplete) :
    d.frames bytes = ([], bytes) :=
  d.frames_of_not_frame fun _ _ heq => nomatch h.symm.trans heq

theorem decode_of_frames_cons {bytes rest : List β} {f : φ} {later : List φ}
    (h : d.frames bytes = (f :: later, rest)) :
    ∃ n, d.decode bytes = .frame f n ∧ d.frames (bytes.drop n) = (later, rest) := by
  by_cases hframe : ∃ g n, d.decode bytes = .frame g n
  · obtain ⟨g, n, hdec⟩ := hframe
    rw [d.frames_of_frame hdec] at h
    obtain ⟨hframes, hrest⟩ := Prod.mk.inj h
    obtain ⟨rfl, hlater⟩ := List.cons.inj hframes
    exact ⟨n, hdec, Prod.ext hlater hrest⟩
  · rw [d.frames_of_not_frame fun g n hdec => hframe ⟨g, n, hdec⟩] at h
    exact nomatch h

/-- Nothing is decoded after a malformed start, however the stream goes on. -/
theorem frames_append_of_malformed {bytes : List β} (more : List β)
    (h : d.decode bytes = .malformed) : d.frames (bytes ++ more) = ([], bytes ++ more) :=
  d.frames_of_not_frame fun _ _ heq =>
    nomatch (d.malformed_append more h).symm.trans heq

/-- A frame decoded from what has arrived is the first frame of the stream; the others are those of
what is left of the arrived bytes followed by the bytes to come. -/
theorem frames_append_of_frame {bytes : List β} (more : List β) {f : φ} {n : Nat}
    (h : d.decode bytes = .frame f n) :
    (d.frames (bytes ++ more)).1 = f :: (d.frames (bytes.drop n ++ more)).1 := by
  rw [d.frames_of_frame (d.frame_append more h), List.drop_append_of_le_length (d.consumed_le h)]

/-- Of the bytes of one frame, a part leaves the decoder waiting until it is the whole. -/
theorem decode_part {bytes rest : List β} {f : φ}
    (h : d.decode (bytes ++ rest) = .frame f (bytes ++ rest).length) :
    rest = [] ∧ d.decode bytes = .frame f bytes.length ∨ rest ≠ [] ∧ d.decode bytes = .incomplete := by
  cases hdec : d.decode bytes with
  | frame g m =>
      left
      have hwhole := h.symm.trans (d.frame_append rest hdec)
      obtain ⟨rfl, hm⟩ := Verdict.frame.inj hwhole
      have hle := d.consumed_le hdec
      rw [List.length_append] at hm
      have hrest : rest.length = 0 := by omega
      have hbytes : m = bytes.length := by omega
      exact ⟨List.eq_nil_of_length_eq_zero hrest, by rw [hbytes]⟩
  | incomplete =>
      right
      refine ⟨?_, rfl⟩
      rintro rfl
      rw [List.append_nil, hdec] at h
      exact nomatch h
  | malformed => exact nomatch h.symm.trans (d.malformed_append rest hdec)

/-- A stream is the bytes of a first frame and a shorter stream, or does not start with a frame. -/
theorem stream_induction {motive : List β → Prop}
    (frame : ∀ bytes f n, d.decode bytes = .frame f n → motive (bytes.drop n) → motive bytes)
    (stop : ∀ bytes, (∀ f n, d.decode bytes ≠ .frame f n) → motive bytes) (bytes : List β) :
    motive bytes := by
  induction hlen : bytes.length using Nat.strongRecOn generalizing bytes with
  | ind k ih =>
      by_cases hframe : ∃ f n, d.decode bytes = .frame f n
      · obtain ⟨f, n, hdec⟩ := hframe
        have hpos := d.consumed_pos hdec
        have hle := d.consumed_le hdec
        apply frame bytes f n hdec
        exact ih (bytes.drop n).length (by rw [List.length_drop]; omega) (bytes.drop n) rfl
      · exact stop bytes fun f n hdec => hframe ⟨f, n, hdec⟩

/-- The frames are the maximal sequence: what is left does not start with a frame. -/
theorem decode_frames_rest (bytes : List β) (f : φ) (n : Nat) :
    d.decode (d.frames bytes).2 ≠ .frame f n := by
  induction bytes using d.stream_induction with
  | frame bytes g m hdec ih =>
      rw [d.frames_of_frame hdec]
      exact ih
  | stop bytes hstop =>
      rw [d.frames_of_not_frame hstop]
      exact hstop f n

/-- When every decoded frame is its own encoding read back, a stream is the encodings of its frames
followed by what is left. -/
theorem flatMap_frames {encode : φ → List β}
    (hencode : ∀ {bytes f n}, d.decode bytes = .frame f n → bytes.take n = encode f)
    (bytes : List β) : bytes = (d.frames bytes).1.flatMap encode ++ (d.frames bytes).2 := by
  induction bytes using d.stream_induction with
  | frame bytes f n hdec ih =>
      rw [d.frames_of_frame hdec, List.flatMap_cons, List.append_assoc, ← ih, ← hencode hdec,
        List.take_append_drop]
  | stop bytes hstop =>
      rw [d.frames_of_not_frame hstop]
      rfl

/-- What holds of every decoded frame holds of every frame of a stream. -/
theorem forall_mem_frames {p : φ → Prop} (hp : ∀ {bytes f n}, d.decode bytes = .frame f n → p f)
    (bytes : List β) : ∀ f ∈ (d.frames bytes).1, p f := by
  induction bytes using d.stream_induction with
  | frame bytes f n hdec ih =>
      rw [d.frames_of_frame hdec, List.forall_mem_cons]
      exact ⟨hp hdec, ih⟩
  | stop bytes hstop =>
      rw [d.frames_of_not_frame hstop]
      intro f hf
      exact nomatch hf

end Decoder
end Framing
