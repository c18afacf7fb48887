import PiRp.Framing
import PiRp.Transducer

/-! What a framed byte stream means, without a decoder: the frames it completes and what is left of
it. The left-over is an incomplete frame, or the stream declared a frame above the limit and nothing
after that counts. Reading a stream in parts is reading it whole. -/

namespace PiRp.Framing

open List

/-- What is left of a stream after its complete frames. -/
inductive Tail where
  | pending (bytes : Bytes)
  | oversized

/-- The complete frames of a stream and its tail; the fuel bounds the number of frames. -/
def splitFrames (maxFrameLength : Nat) : Nat → Bytes → Tail × List Bytes
  | 0, stream => (.pending stream, [])
  | fuel + 1, stream =>
    if stream.length < frameHeaderLength then (.pending stream, [])
    else
      let frameLength := headerValue (stream.take frameHeaderLength)
      let rest := stream.drop frameHeaderLength
      if maxFrameLength < frameLength then (.oversized, [])
      else if rest.length < frameLength then (.pending stream, [])
      else
        let later := splitFrames maxFrameLength fuel (rest.drop frameLength)
        (later.1, rest.take frameLength :: later.2)

variable {maxFrameLength : Nat}

theorem splitFrames_fuel {fuel extra : Nat} {stream : Bytes} (hfuel : stream.length ≤ fuel) :
    splitFrames maxFrameLength (fuel + extra) stream = splitFrames maxFrameLength fuel stream := by
  induction fuel generalizing stream with
  | zero =>
    have hnil : stream = [] := length_eq_zero_iff.mp (Nat.le_zero.mp hfuel)
    subst hnil
    cases extra <;> rfl
  | succ fuel ih =>
    rw [Nat.succ_add_eq_add_succ, Nat.add_succ]
    simp only [splitFrames]
    split_ifs with hshort hlong hinc
    · rfl
    · rfl
    · rfl
    · rw [ih]
      rw [length_drop, length_drop]
      simp only [frameHeaderLength] at hshort ⊢
      omega

/-- The frames and the tail of a whole stream. -/
def split (maxFrameLength : Nat) (stream : Bytes) : Tail × List Bytes :=
  splitFrames maxFrameLength stream.length stream

theorem split_of_length_le {fuel : Nat} {stream : Bytes} (hfuel : stream.length ≤ fuel) :
    splitFrames maxFrameLength fuel stream = split maxFrameLength stream := by
  obtain ⟨extra, rfl⟩ := Nat.exists_eq_add_of_le hfuel
  exact splitFrames_fuel le_rfl

theorem split_short {stream : Bytes} (hshort : stream.length < frameHeaderLength) :
    split maxFrameLength stream = (.pending stream, []) := by
  rw [← split_of_length_le (Nat.le_succ _), splitFrames, if_pos hshort]

theorem split_oversized {header rest : Bytes} (hhead : header.length = frameHeaderLength)
    (hlong : maxFrameLength < headerValue header) : split maxFrameLength (header ++ rest) = (.oversized, []) := by
  rw [← split_of_length_le (Nat.le_succ _), splitFrames, if_neg (by rw [length_append]; omega), take_left' hhead]
  exact if_pos hlong

theorem split_incomplete {header rest : Bytes} (hhead : header.length = frameHeaderLength)
    (hfits : headerValue header ≤ maxFrameLength) (hinc : rest.length < headerValue header) :
    split maxFrameLength (header ++ rest) = (.pending (header ++ rest), []) := by
  rw [← split_of_length_le (Nat.le_succ _), splitFrames,
    if_neg (by rw [length_append]; omega), take_left' hhead, drop_left' hhead]
  simp only [if_neg (Nat.not_lt.mpr hfits), if_pos hinc]

theorem split_frame {header payload rest : Bytes} (hhead : header.length = frameHeaderLength)
    (hfits : headerValue header ≤ maxFrameLength) (hload : payload.length = headerValue header) :
    split maxFrameLength (header ++ payload ++ rest) =
      ((split maxFrameLength rest).1, payload :: (split maxFrameLength rest).2) := by
  have hlen : (payload ++ rest).length = headerValue header + rest.length := by
    rw [length_append, hload]
  rw [append_assoc, ← split_of_length_le (Nat.le_succ _), splitFrames,
    if_neg (by rw [length_append]; omega), take_left' hhead, drop_left' hhead]
  simp only [if_neg (Nat.not_lt.mpr hfits), take_left' hload, drop_left' hload]
  rw [if_neg (by omega), split_of_length_le]
  rw [length_append, length_append]
  omega

/-- A stream is too short for a header, declares too much, is an incomplete frame, or starts with a
complete one. -/
theorem stream_cases (maxFrameLength : Nat) (stream : Bytes) : stream.length < frameHeaderLength ∨
    (∃ header rest, stream = header ++ rest ∧ header.length = frameHeaderLength ∧
      maxFrameLength < headerValue header) ∨
    (∃ header rest, stream = header ++ rest ∧ header.length = frameHeaderLength ∧
      headerValue header ≤ maxFrameLength ∧ rest.length < headerValue header) ∨
    (∃ header payload rest, stream = header ++ payload ++ rest ∧
      header.length = frameHeaderLength ∧ headerValue header ≤ maxFrameLength ∧
      payload.length = headerValue header) := by
  by_cases hshort : stream.length < frameHeaderLength
  · exact Or.inl hshort
  have hsplit := (take_append_drop frameHeaderLength stream).symm
  have hhead : (stream.take frameHeaderLength).length = frameHeaderLength := by
    rw [length_take]; omega
  by_cases hlong : maxFrameLength < headerValue (stream.take frameHeaderLength)
  · exact Or.inr (Or.inl ⟨_, _, hsplit, hhead, hlong⟩)
  by_cases hinc :
      (stream.drop frameHeaderLength).length < headerValue (stream.take frameHeaderLength)
  · exact Or.inr (Or.inr (Or.inl ⟨_, _, hsplit, hhead, Nat.not_lt.mp hlong, hinc⟩))
  · refine Or.inr (Or.inr (Or.inr ⟨stream.take frameHeaderLength,
      (stream.drop frameHeaderLength).take (headerValue (stream.take frameHeaderLength)),
      (stream.drop frameHeaderLength).drop (headerValue (stream.take frameHeaderLength)),
      ?_, hhead, Nat.not_lt.mp hlong, ?_⟩))
    · rw [append_assoc, take_append_drop, take_append_drop]
    · rw [length_take]; omega

/-- Continues a split with more bytes of the stream. -/
def resume (maxFrameLength : Nat) (tail : Tail) (more : Bytes) : Tail × List Bytes :=
  match tail with
  | .pending bytes => split maxFrameLength (bytes ++ more)
  | .oversized => (.oversized, [])

theorem split_append (left right : Bytes) : split maxFrameLength (left ++ right) =
      ((resume maxFrameLength (split maxFrameLength left).1 right).1, (split maxFrameLength left).2 ++
          (resume maxFrameLength (split maxFrameLength left).1 right).2) := by
  -- The left part is shorter by a whole frame in the only case that recurses.
  induction hlen : left.length using Nat.strong_induction_on generalizing left with
  | _ length ih =>
    rcases stream_cases maxFrameLength left with hshort | ⟨header, rest, rfl, hhead, hlong⟩ |
      ⟨header, rest, rfl, hhead, hfits, hinc⟩ |
      ⟨header, payload, rest, rfl, hhead, hfits, hload⟩
    · rw [split_short hshort]
      rfl
    · rw [append_assoc, split_oversized hhead hlong, split_oversized hhead hlong]
      rfl
    · rw [split_incomplete hhead hfits hinc]
      rfl
    · have hrest : rest.length < length := by
        rw [← hlen, length_append, length_append, hhead]
        simp only [frameHeaderLength]
        omega
      rw [append_assoc, split_frame hhead hfits hload, split_frame hhead hfits hload, ih rest.length hrest rest rfl]
      rfl

/-- A tail is stable when it is what a split leaves: no complete frame is pending. -/
def Tail.Stable (maxFrameLength : Nat) : Tail → Prop
  | .pending bytes => split maxFrameLength bytes = (.pending bytes, [])
  | .oversized => True

theorem split_stable (stream : Bytes) : (split maxFrameLength stream).1.Stable maxFrameLength := by
  induction hlen : stream.length using Nat.strong_induction_on generalizing stream with
  | _ length ih =>
    rcases stream_cases maxFrameLength stream with hshort | ⟨header, rest, rfl, hhead, hlong⟩ |
      ⟨header, rest, rfl, hhead, hfits, hinc⟩ |
      ⟨header, payload, rest, rfl, hhead, hfits, hload⟩
    · rw [split_short hshort]
      exact split_short hshort
    · rw [split_oversized hhead hlong]
      trivial
    · rw [split_incomplete hhead hfits hinc]
      exact split_incomplete hhead hfits hinc
    · have hrest : rest.length < length := by
        rw [← hlen, length_append, length_append, hhead]
        simp only [frameHeaderLength]
        omega
      rw [split_frame hhead hfits hload]
      exact ih rest.length hrest rest rfl

/-- The stream of frames as a transducer: its state is a stable tail. -/
def frameStream (maxFrameLength : Nat) :
    Transducer { tail : Tail // tail.Stable maxFrameLength } UInt8 Bytes where
  read tail more := (⟨(resume maxFrameLength tail.1 more).1, by
    obtain ⟨tail, hstab⟩ := tail
    cases tail with
    | pending bytes => exact split_stable _
    | oversized => trivial⟩, (resume maxFrameLength tail.1 more).2)
  read_nil tail := by
    obtain ⟨tail, hstab⟩ := tail
    cases tail with
    | pending bytes =>
      have hread : resume maxFrameLength (.pending bytes) [] = (.pending bytes, []) := by
        rw [resume, append_nil]
        exact hstab
      simp only [hread]
    | oversized => rfl
  read_append tail left right := by
    obtain ⟨tail, hstab⟩ := tail
    cases tail with
    | pending bytes =>
      have hread : resume maxFrameLength (.pending bytes) (left ++ right) =
          split maxFrameLength ((bytes ++ left) ++ right) := by
        rw [resume, append_assoc]
      rw [split_append] at hread
      simp only [hread]
      rfl
    | oversized => rfl

end PiRp.Framing
