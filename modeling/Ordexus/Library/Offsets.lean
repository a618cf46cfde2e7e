import Ordexus.Library.Borsh

/-!
# Fields at fixed offsets

A record whose fields have fixed widths can be read without a cursor: a field is the slice between
two offsets. What a record of consecutive fields has at an offset is found by skipping the fields
in front of it. Two fields that follow each other may also be read as one number.
-/

namespace Borsh

open List

/-- The bytes from `start` up to `stop`. -/
def slice (data : ByteString) (start stop : ℕ) : ByteString :=
  (data.take stop).drop start

/-- The number between two offsets. -/
def uintAt (data : ByteString) (start stop : ℕ) : ℕ :=
  ofLittleEndian (slice data start stop)

variable {first rest data : ByteString} {start stop middle width value : ℕ}

/-- Fields in front of the slice are skipped. -/
theorem slice_append_right (h : first.length ≤ start) :
    slice (first ++ rest) start stop =
      slice rest (start - first.length) (stop - first.length) := by
  unfold slice
  rw [drop_take, drop_take, drop_append, drop_eq_nil_of_le h]
  congr 1
  omega

theorem slice_front (h : first.length = stop) : slice (first ++ rest) 0 stop = first := by
  rw [slice, ← h, take_left, drop_zero]

theorem uintAt_append_right (h : first.length ≤ start) :
    uintAt (first ++ rest) start stop =
      uintAt rest (start - first.length) (stop - first.length) := by
  rw [uintAt, slice_append_right h, uintAt]

theorem uintAt_front (hvalue : value < 256 ^ width) :
    uintAt (littleEndian width value ++ rest) 0 width = value := by
  rw [uintAt, slice_front (littleEndian_length _ _), ofLittleEndian_littleEndian hvalue]

theorem ofLittleEndian_append (first rest : ByteString) :
    ofLittleEndian (first ++ rest) =
      ofLittleEndian first + 256 ^ first.length * ofLittleEndian rest := by
  induction first with
  | nil => simp [ofLittleEndian]
  | cons byte first ih =>
    rw [cons_append, ofLittleEndian, ih, ofLittleEndian, length_cons]
    ring

/-- Two adjacent fields, read as one. -/
theorem uintAt_adjacent (hstart : start ≤ middle) (hmiddle : middle ≤ stop)
    (hstop : stop ≤ data.length) :
    uintAt data start stop =
      uintAt data start middle + 256 ^ (middle - start) * uintAt data middle stop := by
  have hsplit : slice data start stop = slice data start middle ++ slice data middle stop := by
    unfold slice
    have hfront : (data.take middle).drop start =
        ((data.take stop).drop start).take (middle - start) := by
      rw [← drop_take, take_take, min_eq_left hmiddle]
    have hdrop : (data.take stop).drop middle =
        ((data.take stop).drop start).drop (middle - start) := by
      rw [drop_drop, Nat.add_sub_cancel' hstart]
    rw [hfront, hdrop, take_append_drop]
  have hlength : (slice data start middle).length = middle - start := by
    rw [slice, length_drop, length_take, min_eq_left (hmiddle.trans hstop)]
  rw [uintAt, hsplit, ofLittleEndian_append, hlength, uintAt, uintAt]

theorem uintAt_lt (data : ByteString) (start stop : ℕ) :
    uintAt data start stop < 256 ^ (stop - start) := by
  refine (ofLittleEndian_lt _).trans_le (Nat.pow_le_pow_right (by norm_num) ?_)
  rw [slice, length_drop, length_take]
  omega

end Borsh
