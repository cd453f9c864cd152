import Mathlib.Data.List.Basic

/-!
# Streams that split their bytes among reads

A read returns at least one of the bytes asked for while there are any, and how many it
returns is up to the stream.
-/

namespace DdTrace.Lib

/-- The bytes still to be read, and for each of the reads to come how many bytes it returns
beyond the first, if it is asked for them and they are there. -/
structure ByteStream where
  rest : List UInt8
  more : ℕ → ℕ

namespace ByteStream

def read (s : ByteStream) (count : ℕ) : List UInt8 × ByteStream :=
  let size := min count (s.more 0 + 1)
  (s.rest.take size, ⟨s.rest.drop size, fun k => s.more (k + 1)⟩)

variable (s : ByteStream) {b : UInt8} {bytes rest : List UInt8} {count : ℕ}

theorem read_append : (s.read count).1 ++ (s.read count).2.rest = s.rest :=
  List.take_append_drop ..

theorem length_read_le : (s.read count).1.length ≤ count :=
  Nat.le_trans (List.length_take_le ..) (Nat.min_le_left ..)

variable {s}

theorem read_ne_nil (h : s.rest ≠ []) (hcount : 0 < count) : (s.read count).1 ≠ [] := by
  obtain ⟨b, rest, hs⟩ := List.exists_cons_of_ne_nil h
  obtain ⟨k, hk⟩ := Nat.exists_eq_add_of_lt (Nat.lt_min.2 ⟨hcount, Nat.succ_pos (s.more 0)⟩)
  unfold read
  rw [hs, hk]
  simp

theorem read_one (h : s.rest = b :: rest) : (s.read 1).1 = [b] ∧ (s.read 1).2.rest = rest := by
  unfold read
  rw [h, Nat.min_eq_left (Nat.succ_pos _)]
  simp

/-- A read of some of the bytes that are there: they begin with what it returns. -/
theorem read_prefix (h : s.rest = bytes ++ rest) (hcount : count ≤ bytes.length) :
    ∃ tail, bytes = (s.read count).1 ++ tail ∧ (s.read count).2.rest = tail ++ rest := by
  have hlen : (s.read count).1.length ≤ bytes.length := Nat.le_trans (length_read_le s) hcount
  have happend := @read_append s count
  rw [h] at happend
  obtain ⟨tail, hbytes⟩ := List.prefix_of_prefix_length_le ⟨_, happend⟩ ⟨rest, rfl⟩ hlen
  refine ⟨tail, hbytes.symm, ?_⟩
  rw [← hbytes, List.append_assoc] at happend
  exact List.append_cancel_left happend

end ByteStream

end DdTrace.Lib
