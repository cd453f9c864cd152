import DdTrace.Lib.RingBuffer
import DdTrace.Lib.Rounding
import Mathlib.Algebra.Order.BigOperators.Group.List

/-!
# The moving average of the keep rate

`MovingAverageKeepRateCalculator` as a sequence of its calls runs it, and what it is for: the
kept and dropped traces of the buckets completed so far. While the counts of a bucket fit into
64 bits, and the window is not empty, the calculator reports the rate over the last buckets.
-/

namespace DdTrace.Agent

open Lib

/-- A conversion or operation with `double` as its result. -/
def toDouble : ℚ → ℚ := roundTo 52

/-- A cast to `uint` of the smaller of a count and `uint.MaxValue`. -/
def capped (n : Int64) : UInt32 := (min n 4294967295).toUInt64.toUInt32

structure MovingAverageKeepRateCalculator where
  windowSize : ℕ
  dropped : List UInt32
  created : List UInt32
  index : ℕ
  sumDrops : UInt64
  sumCreated : UInt64
  keepRate : ℚ
  latestDrops : Int64
  latestKeeps : Int64
  deriving DecidableEq

inductive KeepRateCall where
  | incrementKeeps (count : Int32)
  | incrementDrops (count : Int32)
  | updateBucket
  deriving DecidableEq, Repr

namespace MovingAverageKeepRateCalculator

/-- The constructor, `none` where it throws. -/
def new (windowSize : Int32) : Option MovingAverageKeepRateCalculator :=
  if windowSize < 0 ∨ 100 < windowSize then none
  else some
    { windowSize := windowSize.toNatClampNeg
      dropped := List.replicate windowSize.toNatClampNeg 0
      created := List.replicate windowSize.toNatClampNeg 0
      index := 0
      sumDrops := 0
      sumCreated := 0
      keepRate := 0
      latestDrops := 0
      latestKeeps := 0 }

def incrementKeeps (c : MovingAverageKeepRateCalculator) (count : Int32) :
    Option MovingAverageKeepRateCalculator :=
  if count < 0 then none else some { c with latestKeeps := c.latestKeeps + count.toInt64 }

def incrementDrops (c : MovingAverageKeepRateCalculator) (count : Int32) :
    Option MovingAverageKeepRateCalculator :=
  if count < 0 then none else some { c with latestDrops := c.latestDrops + count.toInt64 }

/-- The conversions of the sums to `double`, the quotient and the difference round. -/
def rateOf (sumDrops sumCreated : UInt64) : ℚ :=
  if sumCreated = 0 then 0
  else toDouble (1 - toDouble (toDouble sumDrops.toNat / toDouble sumCreated.toNat))

def updateBucket (c : MovingAverageKeepRateCalculator) : Option MovingAverageKeepRateCalculator := do
  let previousDropped ← c.dropped[c.index]?
  let previousCreated ← c.created[c.index]?
  let latestDropped := capped c.latestDrops
  let latestCreated := capped (c.latestKeeps + latestDropped.toUInt64.toInt64)
  let newSumDropped := c.sumDrops - previousDropped.toUInt64 + latestDropped.toUInt64
  let newSumCreated := c.sumCreated - previousCreated.toUInt64 + latestCreated.toUInt64
  some
    { c with
      latestDrops := 0
      latestKeeps := 0
      keepRate := rateOf newSumDropped newSumCreated
      sumDrops := newSumDropped
      sumCreated := newSumCreated
      dropped := c.dropped.set c.index latestDropped
      created := c.created.set c.index latestCreated
      index := (c.index + 1) % c.windowSize }

def call (c : MovingAverageKeepRateCalculator) : KeepRateCall → Option MovingAverageKeepRateCalculator
  | .incrementKeeps count => c.incrementKeeps count
  | .incrementDrops count => c.incrementDrops count
  | .updateBucket => c.updateBucket

/-- The calls one after the other, `none` when one of them throws. -/
def run (c : MovingAverageKeepRateCalculator) :
    List KeepRateCall → Option MovingAverageKeepRateCalculator
  | [] => some c
  | op :: ops => (c.call op).bind fun c => c.run ops

end MovingAverageKeepRateCalculator

/-! ### What the calculator is for -/

/-- The traces kept and dropped while a bucket was open. -/
structure Bucket where
  keeps : ℕ
  drops : ℕ
  deriving DecidableEq, Repr

namespace Bucket

/-- The drops that count, at most `uint.MaxValue`. -/
def dropped (b : Bucket) : ℕ := min b.drops (2 ^ 32 - 1)

def created (b : Bucket) : ℕ := min (b.keeps + b.dropped) (2 ^ 32 - 1)

/-- The counts stay below 2^63. -/
def Fits (b : Bucket) : Prop := b.drops < 2 ^ 63 ∧ b.keeps + b.dropped < 2 ^ 63

instance (b : Bucket) : Decidable b.Fits := inferInstanceAs (Decidable (_ ∧ _))

theorem dropped_le_created (b : Bucket) : b.dropped ≤ b.created := by
  unfold created dropped
  omega

theorem created_lt (b : Bucket) : b.created < 2 ^ 32 := by
  unfold created
  omega

theorem dropped_lt (b : Bucket) : b.dropped < 2 ^ 32 :=
  b.dropped_le_created.trans_lt b.created_lt

end Bucket

/-- The completed buckets, the last one first, and the open one. -/
structure Buckets where
  completed : List Bucket
  current : Bucket
  deriving DecidableEq, Repr

namespace Buckets

def new : Buckets := ⟨[], ⟨0, 0⟩⟩

def call (b : Buckets) : KeepRateCall → Buckets
  | .incrementKeeps count =>
    { b with current := ⟨b.current.keeps + count.toNatClampNeg, b.current.drops⟩ }
  | .incrementDrops count =>
    { b with current := ⟨b.current.keeps, b.current.drops + count.toNatClampNeg⟩ }
  | .updateBucket => ⟨b.current :: b.completed, ⟨0, 0⟩⟩

def dropped (b : Buckets) (windowSize : ℕ) : ℕ :=
  ((b.completed.take windowSize).map Bucket.dropped).sum

def created (b : Buckets) (windowSize : ℕ) : ℕ :=
  ((b.completed.take windowSize).map Bucket.created).sum

/-- No count is negative; at an update the window is not empty and the counts fit. -/
def Fits (b : Buckets) (windowSize : ℕ) : KeepRateCall → Prop
  | .incrementKeeps count => 0 ≤ count
  | .incrementDrops count => 0 ≤ count
  | .updateBucket => 0 < windowSize ∧ b.current.Fits

/-- Every call fits the buckets that those before it leave. -/
def FitsAll (windowSize : ℕ) (b : Buckets) : List KeepRateCall → Prop
  | [] => True
  | op :: ops => b.Fits windowSize op ∧ FitsAll windowSize (b.call op) ops

instance (b : Buckets) (windowSize : ℕ) : (op : KeepRateCall) → Decidable (b.Fits windowSize op)
  | .incrementKeeps count => inferInstanceAs (Decidable (0 ≤ count))
  | .incrementDrops count => inferInstanceAs (Decidable (0 ≤ count))
  | .updateBucket => inferInstanceAs (Decidable (_ ∧ _))

instance instDecidableFitsAll (windowSize : ℕ) :
    (b : Buckets) → (ops : List KeepRateCall) → Decidable (FitsAll windowSize b ops)
  | _, [] => isTrue trivial
  | b, op :: ops =>
    have := instDecidableFitsAll windowSize (b.call op) ops
    inferInstanceAs (Decidable (_ ∧ _))

theorem dropped_le_created (b : Buckets) (windowSize : ℕ) :
    b.dropped windowSize ≤ b.created windowSize :=
  List.sum_le_sum fun x _ => x.dropped_le_created

end Buckets

/-! ### Machine counts -/

theorem ofNat_add_count (n : ℕ) {count : Int32} (h : 0 ≤ count) :
    Int64.ofNat n + count.toInt64 = Int64.ofNat (n + count.toNatClampNeg) := by
  rw [Int64.ofNat_add, Int64.ofNat_int32ToNatClampNeg count h]

theorem toInt_ofNat {n : ℕ} (h : n < 2 ^ 63) : (Int64.ofNat n).toInt = n :=
  Int64.toInt_ofNat_of_lt h

theorem toNat_toUInt32 {n : ℕ} (h : n < 2 ^ 32) : (Int64.ofNat n).toUInt64.toUInt32.toNat = n := by
  have h63 : n < 2 ^ 63 := by omega
  have h0 : 0 ≤ Int64.ofNat n := by
    rw [Int64.le_iff_toInt_le, toInt_ofNat h63, Int64.toInt_zero]
    exact n.cast_nonneg
  rw [UInt64.toNat_toUInt32, Int64.toNat_toUInt64_of_le h0, Int64.toNatClampNeg_ofNat_of_lt h63]
  exact Nat.mod_eq_of_lt h

theorem toNat_capped {n : ℕ} (h : n < 2 ^ 63) :
    (capped (Int64.ofNat n)).toNat = min n (2 ^ 32 - 1) := by
  have hle : Int64.ofNat n ≤ 4294967295 ↔ n ≤ 2 ^ 32 - 1 := by
    rw [Int64.le_iff_toInt_le, toInt_ofNat h]
    exact Int.ofNat_le
  change (if Int64.ofNat n ≤ 4294967295 then Int64.ofNat n else 4294967295).toUInt64.toUInt32.toNat = _
  by_cases hn : n ≤ 2 ^ 32 - 1
  · rw [if_pos (hle.2 hn), toNat_toUInt32 (by omega), min_eq_left hn]
  · rw [if_neg (mt hle.1 hn), min_eq_right (by omega)]
    rfl

theorem toInt64_toUInt64 (x : UInt32) : x.toUInt64.toInt64 = Int64.ofNat x.toNat := by
  refine Int64.toBitVec_inj.1 (BitVec.eq_of_toNat_eq ?_)
  simp

/-! ### A ring of counts and its running sum -/

/-- The ring has the last of the counts, here with the last one first, and the sum is theirs. -/
structure Tally (ring : List UInt32) (index windowSize : ℕ) (sum : UInt64) (counts : List ℕ) :
    Prop where
  length : ring.length = windowSize
  holds : RingBuffer.Holds ring index 0 (counts.map UInt32.ofNat)
  sum : sum.toNat = (ring.map UInt32.toNat).sum

namespace Tally

variable {ring : List UInt32} {index windowSize : ℕ} {sum : UInt64} {counts : List ℕ}

theorem replicate (windowSize : ℕ) :
    Tally (List.replicate windowSize 0) 0 windowSize 0 [] :=
  ⟨List.length_replicate, RingBuffer.holds_replicate _ _, by simp⟩

theorem sum_eq (h : Tally ring index windowSize sum counts) (hlt : ∀ n ∈ counts, n < 2 ^ 32) :
    sum.toNat = (counts.take windowSize).sum := by
  have hmap : (counts.take windowSize).map (UInt32.toNat ∘ UInt32.ofNat) =
      counts.take windowSize := by
    refine (List.map_congr_left fun n hn => ?_).trans (List.map_id _)
    exact UInt32.toNat_ofNat_of_lt' (hlt n (List.mem_of_mem_take hn))
  rw [h.sum, h.holds.sum_map rfl, h.length, ← List.map_take, List.map_map, hmap]

/-- No slot has more than the sum. -/
theorem slot_le (h : Tally ring index windowSize sum counts) {x : UInt32} (hx : x ∈ ring) :
    x.toNat ≤ sum.toNat := by
  rw [h.sum]
  exact List.single_le_sum (fun _ _ => Nat.zero_le _) _ (List.mem_map_of_mem hx)

theorem sum_le (h : Tally ring index windowSize sum counts) :
    sum.toNat ≤ windowSize * 2 ^ 32 := by
  have hle := List.sum_le_card_nsmul (ring.map UInt32.toNat) (2 ^ 32) fun n hn => by
    obtain ⟨x, -, rfl⟩ := List.mem_map.1 hn
    exact x.toNat_lt.le
  rw [List.length_map, h.length, nsmul_eq_mul, Nat.cast_id] at hle
  rwa [h.sum]

theorem update (h : Tally ring index windowSize sum counts) (hindex : index < ring.length)
    (hsize : windowSize ≤ 100) (x : UInt32) :
    Tally (ring.set index x) ((index + 1) % windowSize) windowSize
      (sum - ring[index].toUInt64 + x.toUInt64) (x.toNat :: counts) := by
  have hslot := h.slot_le (List.getElem_mem hindex)
  have hset := RingBuffer.sum_map_set UInt32.toNat hindex x
  have hle := h.sum_le
  have hx := x.toNat_lt
  refine ⟨by rw [List.length_set, h.length], ?_, ?_⟩
  · have hholds := h.holds.set hindex x
    rw [h.length] at hholds
    rwa [List.map_cons, UInt32.ofNat_toNat]
  · -- neither the subtraction nor the addition wraps
    have hsub : (sum - ring[index].toUInt64).toNat = sum.toNat - ring[index].toNat := by
      rw [UInt64.toNat_sub_of_le _ _ (UInt64.le_iff_toNat_le.2 (by rwa [UInt32.toNat_toUInt64])),
        UInt32.toNat_toUInt64]
    have hsum := h.sum
    rw [UInt64.toNat_add, hsub, UInt32.toNat_toUInt64, Nat.mod_eq_of_lt (by omega)]
    omega

end Tally

/-! ### Runs -/

namespace MovingAverageKeepRateCalculator

variable {c d : MovingAverageKeepRateCalculator} {b : Buckets} {op : KeepRateCall}
  {ops : List KeepRateCall} {windowSize : Int32}

/-- The calculator after the calls that leave `b`. -/
structure Follows (c : MovingAverageKeepRateCalculator) (b : Buckets) : Prop where
  dropped : Tally c.dropped c.index c.windowSize c.sumDrops (b.completed.map Bucket.dropped)
  created : Tally c.created c.index c.windowSize c.sumCreated (b.completed.map Bucket.created)
  windowSize_le : c.windowSize ≤ 100
  index_lt : 0 < c.windowSize → c.index < c.windowSize
  keepRate : c.keepRate = rateOf c.sumDrops c.sumCreated
  latestDrops : c.latestDrops = Int64.ofNat b.current.drops
  latestKeeps : c.latestKeeps = Int64.ofNat b.current.keeps

theorem follows_new (h : new windowSize = some c) : c.Follows .new := by
  unfold new at h
  split at h
  · cases h
  · rename_i hrange
    obtain rfl := Option.some.inj h
    have hle : windowSize.toNatClampNeg ≤ 100 := by
      have hlt : ¬ 100 < windowSize.toInt := fun h => hrange (.inr (Int32.lt_iff_toInt_lt.2 h))
      have hnat : windowSize.toInt.toNat = windowSize.toNatClampNeg := Int32.toNat_toInt _
      omega
    exact ⟨.replicate _, .replicate _, hle, id, rfl, rfl, rfl⟩

theorem updateBucket_spec (h : c.Follows b) (hsize : 0 < c.windowSize) (hfits : b.current.Fits) :
    ∃ d, c.updateBucket = some d ∧ d.windowSize = c.windowSize ∧ d.Follows (b.call .updateBucket) := by
  have hindex := h.index_lt hsize
  have hdropped : c.index < c.dropped.length := by rwa [h.dropped.length]
  have hcreated : c.index < c.created.length := by rwa [h.created.length]
  have hdrops : (capped c.latestDrops).toNat = b.current.dropped := by
    rw [h.latestDrops, toNat_capped hfits.1]
    rfl
  have hkeeps : (capped (c.latestKeeps + (capped c.latestDrops).toUInt64.toInt64)).toNat =
      b.current.created := by
    rw [h.latestKeeps, toInt64_toUInt64, hdrops, ← Int64.ofNat_add, toNat_capped hfits.2]
    rfl
  have hd := h.dropped.update hdropped h.windowSize_le (capped c.latestDrops)
  have hc := h.created.update hcreated h.windowSize_le
    (capped (c.latestKeeps + (capped c.latestDrops).toUInt64.toInt64))
  rw [hdrops] at hd
  rw [hkeeps] at hc
  unfold updateBucket
  rw [List.getElem?_eq_getElem hdropped, List.getElem?_eq_getElem hcreated]
  exact ⟨_, rfl, rfl, hd, hc, h.windowSize_le, fun _ => Nat.mod_lt _ hsize, rfl, rfl, rfl⟩

/-- A call that fits does not throw. -/
theorem call_spec (h : c.Follows b) (hfits : b.Fits c.windowSize op) :
    ∃ d, c.call op = some d ∧ d.windowSize = c.windowSize ∧ d.Follows (b.call op) := by
  cases op with
  | incrementKeeps count =>
    refine ⟨_, if_neg (Int32.not_lt.2 hfits), rfl, ?_⟩
    refine ⟨h.dropped, h.created, h.windowSize_le, h.index_lt, h.keepRate, h.latestDrops, ?_⟩
    rw [h.latestKeeps]
    exact ofNat_add_count _ hfits
  | incrementDrops count =>
    refine ⟨_, if_neg (Int32.not_lt.2 hfits), rfl, ?_⟩
    refine ⟨h.dropped, h.created, h.windowSize_le, h.index_lt, h.keepRate, ?_, h.latestKeeps⟩
    rw [h.latestDrops]
    exact ofNat_add_count _ hfits
  | updateBucket => exact updateBucket_spec h hfits.1 hfits.2

theorem run_spec (h : c.Follows b) (hfits : b.FitsAll c.windowSize ops) :
    ∃ d, c.run ops = some d ∧ d.windowSize = c.windowSize ∧ d.Follows (ops.foldl Buckets.call b) := by
  induction ops generalizing c b with
  | nil => exact ⟨c, rfl, rfl, h⟩
  | cons op ops ih =>
    obtain ⟨d, hcall, hsize, hd⟩ := call_spec h hfits.1
    obtain ⟨e, hrun, hsize', he⟩ := ih hd (hsize ▸ hfits.2)
    refine ⟨e, ?_, hsize'.trans hsize, he⟩
    unfold run
    rw [hcall]
    exact hrun

/-- The sums are those of the last buckets, no slot can be subtracted below 0, and the rate is
that of the sums. -/
structure Right (c : MovingAverageKeepRateCalculator) (b : Buckets) : Prop where
  sumDrops : c.sumDrops.toNat = b.dropped c.windowSize
  sumCreated : c.sumCreated.toNat = b.created c.windowSize
  dropped_le : ∀ x ∈ c.dropped, x.toNat ≤ c.sumDrops.toNat
  created_le : ∀ x ∈ c.created, x.toNat ≤ c.sumCreated.toNat
  drops_le_created : c.sumDrops ≤ c.sumCreated
  keepRate : c.keepRate = if b.created c.windowSize = 0 then 0
    else toDouble (1 - toDouble (b.dropped c.windowSize / b.created c.windowSize))
  keepRate_nonneg : 0 ≤ c.keepRate
  keepRate_le_one : c.keepRate ≤ 1

theorem toDouble_unit {x : ℚ} (h0 : 0 ≤ x) (h1 : x ≤ 1) : 0 ≤ toDouble x ∧ toDouble x ≤ 1 :=
  ⟨roundTo_nonneg _ h0, (roundTo_mono _ h0 h1).trans (roundTo_one _).le⟩

theorem Follows.right (h : c.Follows b) : c.Right b := by
  have hsumDrops : c.sumDrops.toNat = b.dropped c.windowSize := by
    rw [h.dropped.sum_eq, ← List.map_take]
    · rfl
    · simp only [List.mem_map, forall_exists_index, and_imp, forall_apply_eq_imp_iff₂]
      exact fun x _ => x.dropped_lt
  have hsumCreated : c.sumCreated.toNat = b.created c.windowSize := by
    rw [h.created.sum_eq, ← List.map_take]
    · rfl
    · simp only [List.mem_map, forall_exists_index, and_imp, forall_apply_eq_imp_iff₂]
      exact fun x _ => x.created_lt
  have hle := b.dropped_le_created c.windowSize
  have hsmall := h.created.sum_le
  have hsize := h.windowSize_le
  have hrate : c.keepRate = if b.created c.windowSize = 0 then 0
      else toDouble (1 - toDouble (b.dropped c.windowSize / b.created c.windowSize)) := by
    have hzero : c.sumCreated = 0 ↔ b.created c.windowSize = 0 := by
      rw [← hsumCreated, ← UInt64.toNat_inj]
      rfl
    -- both sums are exact as doubles
    have hd : toDouble c.sumDrops.toNat = b.dropped c.windowSize := by
      rw [hsumDrops]
      exact roundTo_natCast (by omega)
    have hc : toDouble c.sumCreated.toNat = b.created c.windowSize := by
      rw [hsumCreated]
      exact roundTo_natCast (by omega)
    rw [h.keepRate, rateOf, hd, hc]
    simp only [hzero]
  have hbounds : 0 ≤ c.keepRate ∧ c.keepRate ≤ 1 := by
    rw [hrate]
    split
    · exact ⟨le_rfl, zero_le_one⟩
    · have hquot : (b.dropped c.windowSize : ℚ) / b.created c.windowSize ≤ 1 :=
        div_le_one_of_le₀ (by exact_mod_cast hle) (Nat.cast_nonneg _)
      have hunit := toDouble_unit (div_nonneg (Nat.cast_nonneg _) (Nat.cast_nonneg _)) hquot
      exact toDouble_unit (by linarith only [hunit.2]) (by linarith only [hunit.1])
  refine ⟨hsumDrops, hsumCreated, fun x hx => h.dropped.slot_le hx,
    fun x hx => h.created.slot_le hx, ?_, hrate, hbounds.1, hbounds.2⟩
  rw [UInt64.le_iff_toNat_le, hsumDrops, hsumCreated]
  exact hle

/-- Calls that fit never throw, and leave the sums and the rate of the last buckets. -/
theorem run_right (h0 : new windowSize = some c) (hfits : Buckets.new.FitsAll c.windowSize ops) :
    ∃ d, c.run ops = some d ∧ d.windowSize = c.windowSize ∧
      d.Right (ops.foldl Buckets.call .new) := by
  obtain ⟨d, hrun, hsize, hd⟩ := run_spec (follows_new h0) hfits
  exact ⟨d, hrun, hsize, hd.right⟩

/-- Three buckets through a window of two. -/
theorem run_right_three : ∃ c d, new 2 = some c ∧
    c.run [.incrementDrops 5, .updateBucket, .incrementKeeps 3, .incrementDrops 1, .updateBucket,
      .incrementKeeps 4, .updateBucket] = some d ∧
    d.sumDrops.toNat = 1 ∧ d.sumCreated.toNat = 8 := by
  obtain ⟨c, h0, hsize⟩ : ∃ c, new 2 = some c ∧ c.windowSize = 2 := ⟨_, rfl, rfl⟩
  obtain ⟨d, hrun, hd, hright⟩ := @run_right c [.incrementDrops 5, .updateBucket,
    .incrementKeeps 3, .incrementDrops 1, .updateBucket, .incrementKeeps 4, .updateBucket] 2 h0
    (by rw [hsize]; decide)
  refine ⟨c, d, h0, hrun, ?_, ?_⟩
  · rw [hright.sumDrops, hd, hsize]
    rfl
  · rw [hright.sumCreated, hd, hsize]
    rfl

/-- A window of size 0 is accepted, and the first update throws. -/
theorem updateBucket_empty : ∃ c, new 0 = some c ∧ c.run [.updateBucket] = none :=
  ⟨_, rfl, rfl⟩

end MovingAverageKeepRateCalculator

end DdTrace.Agent
