import DdTrace.MessagePack.Accepted
import Mathlib.Algebra.Order.Ring.Int
import Mathlib.Tactic.Positivity

/-!
# The capacity of SpanBuffer

`EnsureCapacity` adds and doubles in integers of 32 bits. A buffer is its maximum size or a power
of two long; from 2^30 the next double is negative, then 0, and the loop goes on for ever.
-/

namespace DdTrace.MessagePack

namespace SpanBuffer

variable {Span : Type*} {formatter : SpanFormatter Span} {b b' b₀ : SpanBuffer}
  {es : List (Event Span)} {minDesiredSize maxBufferSize size : ℤ} {fuel i : ℕ} {memory : Bool}

/-- The products that the `while` loop of `EnsureCapacity` cuts to 32 bits. -/
def doublings (minDesiredSize maxBufferSize : ℤ) : ℕ → ℤ → List ℤ
  | 0, _ => []
  | fuel + 1, size =>
    if size < minDesiredSize ∧ size < maxBufferSize then
      size * 2 :: doublings minDesiredSize maxBufferSize fuel (Lib.int32 (size * 2))
    else []

/-- Neither the sum nor a product wraps around, and the call returns whether the trace fits
below the maximum, with room for it. -/
structure CapacityRight (b : SpanBuffer) (size : ℕ) (memory : Bool) : Prop where
  sum : Lib.int32 (size + b.offset) = size + b.offset
  products : (b.buffer.length : ℤ) < size + b.offset → size + b.offset ≤ b.maxBufferSize →
    ∀ p ∈ doublings (size + b.offset) b.maxBufferSize 33 b.buffer.length, Lib.int32 p = p
  returns : ∃ value b',
    b.ensureCapacity (Lib.int32 (size + b.offset)) memory = some (.returned value, b') ∧
    (value = true ↔ (size + b.offset : ℤ) ≤ b.maxBufferSize) ∧
    (value = true → size + b.offset ≤ b'.buffer.length ∧
      b'.buffer.take b.offset = b.buffer.take b.offset)

/-- The sum is an integer of 32 bits, and a buffer that has to grow grows to at most 2^30 bytes,
for which there is memory. -/
def FitsCapacity (b : SpanBuffer) (size : ℕ) (memory : Bool) : Prop :=
  (size + b.offset : ℤ) < 2 ^ 31 ∧
    (b.maxBufferSize < size + b.offset ∨ size + b.offset ≤ b.buffer.length ∨
      size + b.offset ≤ 2 ^ 30 ∧ memory = true)

/-! ## The loop -/

theorem doubleSize_zero (hmin : 0 < minDesiredSize) (hmax : 0 < maxBufferSize) :
    doubleSize minDesiredSize maxBufferSize fuel 0 = none := by
  induction fuel with
  | zero => rfl
  | succ fuel ih =>
    have hzero : Lib.int32 (0 * 2) = 0 := by decide
    rw [doubleSize, if_pos ⟨hmin, hmax⟩, hzero, ih]

/-- From a power of two the loop ends at one, or not at all. -/
theorem doubleSize_two_pow (hmin : 0 < minDesiredSize) (hmax : 0 < maxBufferSize) (hi : i ≤ 30)
    (h : doubleSize minDesiredSize maxBufferSize fuel (2 ^ i) = some size) :
    ∃ j ≤ 30, size = 2 ^ j := by
  induction fuel generalizing i with
  | zero => cases h
  | succ fuel ih =>
    rw [doubleSize] at h
    split at h
    · obtain rfl | hlt := hi.eq_or_lt
      · -- -2^31, then 0
        have hwrap : Lib.int32 (2 ^ 30 * 2) = -2 ^ 31 := by decide
        rw [hwrap] at h
        cases fuel with
        | zero => cases h
        | succ fuel =>
          have hzero : Lib.int32 (-2 ^ 31 * 2) = 0 := by decide
          rw [doubleSize, if_pos (by omega), hzero, doubleSize_zero hmin hmax] at h
          cases h
      · have hpow : (2 : ℤ) ^ (i + 1) ≤ 2 ^ 30 := pow_le_pow_right₀ (by decide) hlt
        have hpos : (0 : ℤ) < 2 ^ (i + 1) := by positivity
        rw [← pow_succ, Lib.int32_eq (by omega) (by omega)] at h
        exact ih hlt h
    · exact ⟨i, hi, (Option.some.inj h).symm⟩

theorem doublings_int32 (hmin : minDesiredSize ≤ 2 ^ 30) (hpos : 0 < size) :
    ∀ p ∈ doublings minDesiredSize maxBufferSize fuel size, Lib.int32 p = p := by
  induction fuel generalizing size with
  | zero => nofun
  | succ fuel ih =>
    rw [doublings]
    split
    · have hdouble : Lib.int32 (size * 2) = size * 2 := Lib.int32_eq (by omega) (by omega)
      rw [hdouble]
      exact List.forall_mem_cons.2 ⟨hdouble, ih (by omega)⟩
    · nofun

/-! ## The lengths -/

/-- The lengths that a buffer can have. -/
def PowerOrMax (b : SpanBuffer) : Prop :=
  (b.buffer.length : ℤ) = b.maxBufferSize ∨ ∃ i ≤ 30, b.buffer.length = 2 ^ i

theorem PowerOrMax.congr (h : b.PowerOrMax) (hlen : b'.buffer.length = b.buffer.length)
    (hmax : b'.maxBufferSize = b.maxBufferSize) : b'.PowerOrMax := by
  unfold PowerOrMax
  rwa [hlen, hmax]

theorem powerOrMax_new (h : new maxBufferSize = some b) : b.PowerOrMax := by
  unfold new at h
  split at h
  · cases h
  obtain rfl := Option.some.inj h
  unfold PowerOrMax
  rw [List.length_replicate]
  unfold InitialBufferSize HeaderSize at *
  obtain hle | hlt := le_or_gt maxBufferSize (64 * 1024 : ℕ)
  · left
    dsimp only
    omega
  · right
    refine ⟨16, by decide, ?_⟩
    omega

theorem powerOrMax_ensureCapacity {r : Result} (hpower : b.PowerOrMax)
    (hmax : 0 < b.maxBufferSize) (hpos : 0 < b.buffer.length)
    (h : b.ensureCapacity minDesiredSize memory = some (r, b')) :
    b'.PowerOrMax ∧ b'.maxBufferSize = b.maxBufferSize ∧ b'.offset = b.offset := by
  unfold ensureCapacity at h
  split at h
  · obtain ⟨_, rfl⟩ := Prod.mk.inj (Option.some.inj h)
    exact ⟨hpower, rfl, rfl⟩
  rename_i hmin
  split at h
  · obtain ⟨_, rfl⟩ := Prod.mk.inj (Option.some.inj h)
    exact ⟨hpower, rfl, rfl⟩
  rename_i hle
  simp only [Option.bind_eq_bind, Option.bind_eq_some_iff] at h
  obtain ⟨size, hdouble, h⟩ := h
  split at h
  · obtain ⟨_, rfl⟩ := Prod.mk.inj (Option.some.inj h)
    exact ⟨hpower, rfl, rfl⟩
  split at h
  · obtain ⟨_, rfl⟩ := Prod.mk.inj (Option.some.inj h)
    exact ⟨hpower, rfl, rfl⟩
  rename_i buffer hcopy
  obtain ⟨_, rfl⟩ := Prod.mk.inj (Option.some.inj h)
  refine ⟨?_, rfl, rfl⟩
  have hlen := Lib.length_of_blockCopy hcopy
  rw [List.length_replicate] at hlen
  obtain heq | ⟨i, hi, heq⟩ := hpower
  · omega
  rw [heq, Nat.cast_pow] at hdouble
  obtain ⟨j, hj, rfl⟩ := doubleSize_two_pow (by omega) hmax hi hdouble
  unfold PowerOrMax
  dsimp only
  rw [hlen]
  obtain hmin | hmin := min_choice ((2 : ℤ) ^ j) b.maxBufferSize
  · right
    refine ⟨j, hj, ?_⟩
    rw [hmin]
    exact Int.toNat_natCast (2 ^ j)
  · left
    rw [hmin]
    omega

theorem length_writeHeader {bytes : List UInt8} {count : ℤ} (h : HeaderSize ≤ bytes.length) :
    (writeHeader bytes count).length = bytes.length := by
  unfold HeaderSize at h
  simp only [writeHeader, if_neg (show ¬ bytes.length < 5 by omega), List.length_append,
    length_arrayHeader32, List.length_drop]
  omega

theorem powerOrMax_append {r : Result} {bytes : List UInt8} {count : ℕ} (hpower : b.PowerOrMax)
    (hmax : 0 < b.maxBufferSize) (hpos : 0 < b.buffer.length)
    (h : b.append bytes count memory = some (r, b')) : b'.PowerOrMax := by
  unfold append at h
  simp only [Option.bind_eq_bind, Option.bind_eq_some_iff] at h
  obtain ⟨⟨result, c⟩, hcap, h⟩ := h
  obtain ⟨hc, -, -⟩ := powerOrMax_ensureCapacity hpower hmax hpos hcap
  dsimp only at h
  split at h
  · split at h
    · obtain ⟨-, rfl⟩ := Prod.mk.inj (Option.some.inj h)
      exact hc
    · rename_i buffer hcopy
      obtain ⟨-, rfl⟩ := Prod.mk.inj (Option.some.inj h)
      exact hc.congr (Lib.length_of_blockCopy hcopy) rfl
  · obtain ⟨-, rfl⟩ := Prod.mk.inj (Option.some.inj h)
    exact hc.congr rfl rfl
  · obtain ⟨-, rfl⟩ := Prod.mk.inj (Option.some.inj h)
    exact hc

theorem powerOrMax_step {e : Event Span} {ts : List (ArraySegment Span)}
    (hb : Holds formatter maxBufferSize ts b) (hpower : b.PowerOrMax)
    (hs : Step formatter b e b') : b'.PowerOrMax := by
  have hoff := hb.headerSize_le
  have hle := hb.offset_le
  have hlen := hb.length_le
  have hmax := hb.maxBufferSize_eq
  unfold HeaderSize at hoff
  obtain ⟨call, r⟩ := e
  cases call with
  | tryWrite trace env =>
    have hw : b.tryWrite formatter trace env = some (r, b') := hs
    unfold tryWrite at hw
    split at hw
    · obtain ⟨-, rfl⟩ := Prod.mk.inj (Option.some.inj hw)
      exact hpower
    split at hw
    · obtain ⟨-, rfl⟩ := Prod.mk.inj (Option.some.inj hw)
      exact hpower
    · exact powerOrMax_append hpower (by omega) (by omega) hw
  | lock =>
    have hlock : b.lock.2 = b' := congrArg Prod.snd (Option.some.inj hs)
    rw [← hlock]
    unfold lock
    split
    · exact hpower
    · exact hpower.congr (length_writeHeader (by unfold HeaderSize; omega)) rfl
  | clear =>
    have hclear : b.clear = b' := congrArg Prod.snd (Option.some.inj hs)
    rw [← hclear]
    exact hpower.congr rfl rfl

theorem powerOrMax_run {ts : List (ArraySegment Span)} (hb : Holds formatter maxBufferSize ts b₀)
    (hpower : b₀.PowerOrMax) (h : Lib.Run (Step formatter) b₀ es b) : b.PowerOrMax := by
  induction h generalizing ts with
  | nil => exact hpower
  | cons h1 _ ih => exact ih (holds_step hb h1) (powerOrMax_step hb hpower h1)

/-! ## When the capacity is right -/

/-- A buffer as it is after any calls. -/
structure Allocated (b : SpanBuffer) : Prop where
  offset_pos : 0 < b.offset
  offset_le : b.offset ≤ b.buffer.length
  length_le : (b.buffer.length : ℤ) ≤ b.maxBufferSize
  powerOrMax : b.PowerOrMax

theorem allocated_of_run (h0 : new maxBufferSize = some b₀) (h : Lib.Run (Step formatter) b₀ es b) :
    b.Allocated := by
  have hb := holds_run (holds_new h0) h
  have hoff := hb.headerSize_le
  refine ⟨?_, hb.offset_le, ?_, powerOrMax_run (holds_new h0) (powerOrMax_new h0) h⟩
  · unfold HeaderSize at hoff
    omega
  · rw [hb.maxBufferSize_eq]
    exact hb.length_le

/-- A buffer that has to grow is a power of two long. -/
theorem Allocated.two_pow (h : b.Allocated) (hlt : (b.buffer.length : ℤ) < b.maxBufferSize) :
    ∃ i ≤ 30, b.buffer.length = 2 ^ i :=
  h.powerOrMax.resolve_left hlt.ne

/-- It grows where it can do so within 2^30 bytes. -/
theorem Allocated.grows (h : b.Allocated) (hlt : (b.buffer.length : ℤ) < minDesiredSize)
    (hmax : minDesiredSize ≤ b.maxBufferSize) (hmin : minDesiredSize ≤ 2 ^ 30) :
    ∃ b', b.ensureCapacity minDesiredSize true = some (.returned true, b') ∧
      minDesiredSize ≤ b'.buffer.length ∧ b'.buffer.take b.offset = b.buffer.take b.offset := by
  have hoff := h.offset_le
  have hpos := h.offset_pos
  obtain ⟨i, hi, hlen⟩ := h.two_pow (hlt.trans_le hmax)
  obtain ⟨size, hsize⟩ := Option.isSome_iff_exists.1
    (@doubleSize_isSome minDesiredSize b.maxBufferSize (by omega) 32 b.buffer.length (by omega)
      (by omega))
  have hge := doubleSize_spec hsize
  have hpow : size ≤ 2 ^ 30 := by
    rw [hlen, Nat.cast_pow] at hsize
    obtain ⟨j, hj, rfl⟩ := doubleSize_two_pow (by omega) (by omega) hi hsize
    exact pow_le_pow_right₀ (by decide) hj
  have harr : ¬ ((ArrayMaxSize : ℤ) < min size b.maxBufferSize ∨ true = false) := by
    refine not_or.2 ⟨?_, nofun⟩
    unfold ArrayMaxSize
    omega
  have hfit : 0 + (b.buffer.take b.offset).length ≤
      (List.replicate (min size b.maxBufferSize).toNat (0 : UInt8)).length := by
    rw [List.length_take, List.length_replicate]
    omega
  obtain ⟨buffer, hcopy⟩ : ∃ buffer, Lib.blockCopy (b.buffer.take b.offset)
      (List.replicate (min size b.maxBufferSize).toNat 0) 0 = some buffer :=
    ⟨_, Lib.blockCopy_of_le hfit⟩
  have htake := Lib.take_of_blockCopy hcopy
  have hnew := Lib.length_of_blockCopy hcopy
  rw [List.length_replicate] at hnew
  refine ⟨{ b with buffer }, ?_, ?_, ?_⟩
  · unfold ensureCapacity
    rw [if_neg (by omega), if_neg (by omega), hsize]
    simp only [Option.bind_eq_bind, Option.bind_some]
    rw [if_neg (by simpa using harr), hcopy]
    rfl
  · dsimp only
    omega
  · dsimp only
    rwa [Nat.zero_add, List.length_take, Nat.min_eq_left hoff, List.take_zero,
      List.nil_append] at htake

/-- Beyond 2^30 bytes it does not return. -/
theorem Allocated.stuck (h : b.Allocated) (hlt : (b.buffer.length : ℤ) < minDesiredSize)
    (hmax : minDesiredSize ≤ b.maxBufferSize) (hmin : 2 ^ 30 < minDesiredSize) :
    b.ensureCapacity minDesiredSize memory = none := by
  obtain ⟨i, hi, hlen⟩ := h.two_pow (hlt.trans_le hmax)
  have hnone : doubleSize minDesiredSize b.maxBufferSize 33 b.buffer.length = none := by
    by_contra hsome
    obtain ⟨size, hsize⟩ := Option.ne_none_iff_exists'.1 hsome
    have hge := doubleSize_spec hsize
    rw [hlen, Nat.cast_pow] at hsize
    obtain ⟨j, hj, rfl⟩ := doubleSize_two_pow (by omega) (by omega) hi hsize
    have hpow : (2 : ℤ) ^ j ≤ 2 ^ 30 := pow_le_pow_right₀ (by decide) hj
    omega
  unfold ensureCapacity
  rw [if_neg (by omega), if_neg (by omega), hnone]
  rfl

/-- Without memory for the new array it throws. -/
theorem ensureCapacity_threw (hlt : (b.buffer.length : ℤ) < minDesiredSize)
    (hmax : minDesiredSize ≤ b.maxBufferSize) {value : Bool} :
    b.ensureCapacity minDesiredSize false ≠ some (.returned value, b') := by
  intro hr
  unfold ensureCapacity at hr
  rw [if_neg (by omega), if_neg (by omega)] at hr
  simp only [Option.bind_eq_bind, Option.bind_eq_some_iff] at hr
  obtain ⟨_, -, hr⟩ := hr
  rw [if_pos (.inr trivial)] at hr
  cases hr

theorem Allocated.fits_of_right (h : b.Allocated) {size : ℕ} (hright : b.CapacityRight size memory) :
    b.FitsCapacity size memory := by
  obtain ⟨value, b', hcap, -, -⟩ := hright.returns
  have hsum := hright.sum
  rw [hsum] at hcap
  have hbounds := Lib.int32_bounds (size + b.offset)
  rw [hsum] at hbounds
  refine ⟨hbounds.2, ?_⟩
  by_contra hnot
  simp only [not_or, not_and, not_lt, not_le] at hnot
  obtain ⟨hmax, hlen, hmem⟩ := hnot
  obtain hmin | hmin := le_or_gt (size + b.offset) (2 ^ 30)
  · obtain rfl : memory = false := Bool.eq_false_iff.2 (hmem hmin)
    exact ensureCapacity_threw (by omega) hmax hcap
  · rw [h.stuck (by omega) hmax (by omega)] at hcap
    cases hcap

theorem Allocated.right_of_fits (h : b.Allocated) {size : ℕ} (hfits : b.FitsCapacity size memory) :
    b.CapacityRight size memory := by
  obtain ⟨hlt, hcases⟩ := hfits
  have hsum : Lib.int32 (size + b.offset) = size + b.offset := Lib.int32_eq (by omega) hlt
  have hlen := h.length_le
  have hpos := h.offset_pos
  have hoff := h.offset_le
  refine ⟨hsum, fun hgrow hmax => doublings_int32 ?_ (by omega), ?_⟩
  · omega
  rw [hsum]
  obtain hroom | hgrow := le_or_gt (size + b.offset) b.buffer.length
  · refine ⟨true, b, ?_, iff_of_true rfl (by omega), fun _ => ⟨hroom, rfl⟩⟩
    unfold ensureCapacity
    rw [if_pos (by omega)]
  obtain hmax | hmax := lt_or_ge b.maxBufferSize (size + b.offset : ℤ)
  · refine ⟨false, b, ?_, iff_of_false Bool.false_ne_true (by omega), fun h => by cases h⟩
    unfold ensureCapacity
    rw [if_neg (by omega), if_pos hmax]
  · obtain ⟨hmin, rfl⟩ := (hcases.resolve_left (by omega)).resolve_left (by omega)
    obtain ⟨b', hcap, hroom, htake⟩ := h.grows (by omega) hmax (by omega)
    exact ⟨true, b', hcap, iff_of_true rfl hmax, fun _ => ⟨by omega, htake⟩⟩

/-- After any calls, `EnsureCapacity` is right exactly for the sizes that fit. -/
theorem ensureCapacity_right_iff (h0 : new maxBufferSize = some b₀)
    (h : Lib.Run (Step formatter) b₀ es b) (size : ℕ) (memory : Bool) :
    b.CapacityRight size memory ↔ b.FitsCapacity size memory :=
  have hb := allocated_of_run h0 h
  ⟨hb.fits_of_right, hb.right_of_fits⟩

/-- A new buffer grows for a trace of 100000 bytes. -/
theorem capacityRight_grown : ∃ b, new 200000 = some b ∧ b.CapacityRight 100000 true := by
  obtain ⟨b, h0, hoff⟩ : ∃ b, new 200000 = some b ∧ b.offset = 5 := ⟨_, rfl, rfl⟩
  refine ⟨b, h0, (@ensureCapacity_right_iff _ byteFormatter _ _ _ _ h0 (.nil b) 100000 true).2 ?_⟩
  unfold FitsCapacity
  rw [hoff]
  exact ⟨by decide, .inr (.inr ⟨by decide, rfl⟩)⟩

/-- For a trace of 2^30 bytes it doubles for ever. -/
theorem not_capacityRight_stuck :
    ∃ b, new (2 ^ 31 - 1) = some b ∧ ¬ b.CapacityRight (2 ^ 30) true := by
  obtain ⟨b, h0, hoff, hmax, hlen⟩ : ∃ b, new (2 ^ 31 - 1) = some b ∧ b.offset = 5 ∧
      b.maxBufferSize = 2 ^ 31 - 1 ∧ b.buffer.length = 2 ^ 16 :=
    ⟨_, rfl, rfl, rfl, List.length_replicate⟩
  refine ⟨b, h0, fun hright => ?_⟩
  have hfits := (@allocated_of_run _ byteFormatter _ _ _ _ h0 (.nil b)).fits_of_right hright
  unfold FitsCapacity at hfits
  rw [hoff, hmax, hlen] at hfits
  revert hfits
  decide

end SpanBuffer

end DdTrace.MessagePack
