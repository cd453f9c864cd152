import DdTrace.Logging.RotationIndex
import Mathlib.Data.List.Sort

/-!
# The rotation loop

A rotation raises `_rotationIndex` unless it is `int.MaxValue`, where the increment wraps around.
A loop that only raises it ends, so it converges exactly when no rotation starts from there.
With files of these two names that are both too large, the loop goes on for ever.
-/

namespace DdTrace.Logging

open DdTrace.Lib

variable {P : Platform} {s s' : FileLogSink} {moment : Moment} {moments : ℕ → Moment}

namespace Platform

/-- If the rotation takes place, it raises the index. -/
def Raises (P : Platform) (s : FileLogSink) (moment : Moment) : Prop :=
  ∀ s', P.rotation s moment = some s' → s.rotationIndex < s'.rotationIndex

/-- If the rotation takes place, the index can be incremented. -/
def Incrementable (P : Platform) (s : FileLogSink) (moment : Moment) : Prop :=
  (P.rotation s moment).isSome → s.rotationIndex ≠ Int32.maxValue

/-- The moments of the first rotations. -/
def firstMoments (moments : ℕ → Moment) (k : ℕ) : List Moment := (List.range k).map moments

/-- The loop ends, and all its rotations raise the index. -/
def Converges (P : Platform) (s : FileLogSink) (moments : ℕ → Moment) : Prop :=
  (∃ fuel, (P.rotationLoop fuel moments s).isSome) ∧
    ∀ k, EachStep (stepOf P.rotation) P.Raises s (firstMoments moments k)

theorem firstMoments_succ (moments : ℕ → Moment) (k : ℕ) : firstMoments moments (k + 1) =
    moments 0 :: firstMoments (fun k => moments (k + 1)) k := by
  rw [firstMoments, List.range_succ_eq_map, List.map_cons, List.map_map]
  rfl

theorem rotationIndex_of_rotateLogFile (h : P.rotateLogFile s moment = some s') :
    s'.rotationIndex =
      if s.rotationIndex < P.findLatestRotationIndex s.files s.logFileNameBase moment.now then
        P.findLatestRotationIndex s.files s.logFileNameBase moment.now
      else s.rotationIndex + 1 := by
  simp only [rotateLogFile, Option.bind_eq_bind, Option.bind_eq_some_iff, Option.guard_eq_some',
    Option.pure_def, Option.some.injEq] at h
  obtain ⟨-, -, -, -, -, -, rfl⟩ := h
  rfl

theorem lt_add_one_iff {n : Int32} : n < n + 1 ↔ n ≠ Int32.maxValue := by
  have hle := n.le_toInt
  have hlt := n.toInt_lt
  have hmax : Int32.maxValue.toInt = 2147483647 := rfl
  rw [Int32.lt_iff_toInt_lt, Int32.toInt_add, ne_eq, ← Int32.toInt_inj, hmax, Int32.toInt_one]
  by_cases h : n.toInt = 2147483647
  · rw [h]
    decide
  · rw [Int.bmod_eq_of_le (by omega) (by omega)]
    omega

theorem rotation_raises_iff (h : P.rotation s moment = some s') :
    s.rotationIndex < s'.rotationIndex ↔ s.rotationIndex ≠ Int32.maxValue := by
  unfold rotation at h
  split at h
  · rw [rotationIndex_of_rotateLogFile h]
    split
    · rename_i hlast
      refine iff_of_true hlast fun heq => ?_
      have hlt := (P.findLatestRotationIndex s.files s.logFileNameBase moment.now).toInt_lt
      have hmax : Int32.maxValue.toInt = 2147483647 := rfl
      rw [heq, Int32.lt_iff_toInt_lt, hmax] at hlast
      omega
    · exact lt_add_one_iff
  · cases h

theorem raises_iff : P.Raises s moment ↔ P.Incrementable s moment := by
  constructor
  · intro h hsome
    obtain ⟨s', hs'⟩ := Option.isSome_iff_exists.1 hsome
    exact (rotation_raises_iff hs').1 (h s' hs')
  · intro h s' hs'
    exact (rotation_raises_iff hs').2 (h (by rw [hs']; rfl))

/-- The index can only be raised so often. -/
theorem rotationLoop_ends (fuel : ℕ) : ∀ {s : FileLogSink} {moments : ℕ → Moment},
    2 ^ 31 - s.rotationIndex.toInt ≤ fuel →
    (∀ k, EachStep (stepOf P.rotation) P.Raises s (firstMoments moments k)) →
      (P.rotationLoop fuel moments s).isSome := by
  induction fuel with
  | zero =>
    intro s moments hfuel
    have hlt := s.rotationIndex.toInt_lt
    omega
  | succ fuel ih =>
    intro s moments hfuel h
    rw [rotationLoop]
    split
    · rename_i hrotate
      split
      · rename_i s' hs'
        have hstep : P.rotation s (moments 0) = some s' := by
          rw [rotation, if_pos hrotate, hs']
        have hsteps : ∀ k, P.Raises s (moments 0) ∧ ∀ t, stepOf P.rotation s (moments 0) t →
            EachStep (stepOf P.rotation) P.Raises t (firstMoments (fun k => moments (k + 1)) k) := by
          intro k
          rw [← eachStep_cons, ← firstMoments_succ]
          exact h (k + 1)
        have hraises := (hsteps 0).1 s' hstep
        rw [Int32.lt_iff_toInt_lt] at hraises
        apply ih
        · omega
        · exact fun k => (hsteps k).2 s' hstep
      · rfl
    · rfl

theorem converges_iff : P.Converges s moments ↔
    ∀ k, EachStep (stepOf P.rotation) P.Incrementable s (firstMoments moments k) := by
  have hstep : P.Raises = P.Incrementable := by
    funext s moment
    exact propext raises_iff
  rw [Converges, hstep, and_iff_right_iff_imp, ← hstep]
  intro h
  have hle := s.rotationIndex.le_toInt
  refine ⟨(2 ^ 31 - s.rotationIndex.toInt).toNat, rotationLoop_ends _ ?_ h⟩
  omega

end Platform

/-! ### Both together -/

/-- The search finds the latest index exactly when the file of the largest sorts last, and the
loop converges exactly when no rotation starts from the largest number there is. -/
theorem logRotation_converges_iff (P : Platform) :
    (∀ files nameBase timestamp,
      P.IsLatest nameBase timestamp files (P.findLatestRotationIndex files nameBase timestamp) ↔
        P.LatestSortsLast nameBase timestamp files) ∧
    (∀ files nameBase timestamp, P.OrdersDigits →
      (∀ file ∈ files, ∀ n, 0 ≤ n →
        P.isSameFilename file.name (constructFilename nameBase timestamp n) →
          file.name = constructFilename nameBase timestamp n) →
      (P.LatestSortsLast nameBase timestamp files ↔
        (∀ m n, P.HasIndex nameBase timestamp files m → P.IsLargest nameBase timestamp files n →
          Platform.LeFirstDigits m n) ∧
        ∀ file ∈ files, ∀ r < 0, P.rotationIndexOf nameBase timestamp file.name = some r →
          ∃ n, P.IsLargest nameBase timestamp files n ∧
            P.compareTo file.name (constructFilename nameBase timestamp n) = .lt)) ∧
    ∀ (s : FileLogSink) (moments : ℕ → Moment), P.Converges s moments ↔
      ∀ k, EachStep (stepOf P.rotation) P.Incrementable s (Platform.firstMoments moments k) :=
  ⟨fun _ _ _ => Platform.isLatest_findLatestRotationIndex_iff,
    fun _ _ _ hP hspelled => Platform.latestSortsLast_iff hP hspelled,
    fun _ _ => Platform.converges_iff⟩

/-! ### Where it goes wrong -/

theorem compare_eq_lt_iff (a b : Text) : compare a b = .lt ↔ a < b := by
  induction a generalizing b with
  | nil =>
    cases b with
    | nil => decide
    | cons y b => exact iff_of_true rfl (List.nil_lt_cons y b)
  | cons x a ih =>
    cases b with
    | nil => exact iff_of_false (by rintro ⟨⟩) (List.not_lt_nil _)
    | cons y b =>
      have hcons : compare (x :: a) (y :: b) = (compare x y).then (compare a b) := by
        show List.compareLex compare (x :: a) (y :: b) = _
        rw [List.compareLex_cons_cons]
        rfl
      rw [List.cons_lt_cons_iff, ← ih, ← Std.compare_eq_lt,
        ← Std.LawfulEqOrd.compare_eq_iff_eq (a := x), hcons, Ordering.then_eq_lt]

theorem append_lt_append_iff (s a b : Text) : s ++ a < s ++ b ↔ a < b := by
  induction s with
  | nil => rfl
  | cons c s ih =>
    rw [List.cons_append, List.cons_append, List.cons_lt_cons_iff, ih]
    simp

/-- A full stop is in front of the digits. -/
theorem digits_lt_iff {a b e : Text} (ha : ∀ c ∈ a, isDigit c = true)
    (hb : ∀ c ∈ b, isDigit c = true) (hne : a ≠ b) :
    a ++ unit '.' :: e < b ++ unit '.' :: e ↔ a < b := by
  have hstop : ∀ d, isDigit d = true → unit '.' < d := by
    intro d hd
    rw [isDigit_iff] at hd
    rw [UInt16.lt_iff_toNat_lt]
    exact Nat.lt_of_lt_of_le (by decide) hd.1
  induction a generalizing b with
  | nil =>
    cases b with
    | nil => exact absurd rfl hne
    | cons d b =>
      refine iff_of_true ?_ (List.nil_lt_cons d b)
      exact List.cons_lt_cons_iff.2 (.inl (hstop d (hb d List.mem_cons_self)))
  | cons c a ih =>
    have hc := hstop c (ha c List.mem_cons_self)
    cases b with
    | nil =>
      refine iff_of_false (fun h => ?_) (List.not_lt_nil _)
      rcases List.cons_lt_cons_iff.1 h with hlt | ⟨heq, -⟩
      · exact absurd (UInt16.lt_trans hc hlt) (UInt16.lt_irrefl _)
      · exact absurd hc (heq ▸ UInt16.lt_irrefl _)
    | cons d b =>
      rw [List.cons_append, List.cons_append, List.cons_lt_cons_iff, List.cons_lt_cons_iff]
      by_cases heq : c = d
      · have htails := ih (fun c hc => ha c (List.mem_cons_of_mem _ hc))
          (fun c hc => hb c (List.mem_cons_of_mem _ hc)) fun h => hne (by rw [heq, h])
        exact or_congr_right (and_congr_right fun _ => htails)
      · simp [heq]

def lastIndexOfUnit (s t : Text) : Option ℕ :=
  match t with
  | [c] => if c ∈ s then some (s.length - 1 - s.reverse.idxOf c) else none
  | _ => none

theorem lastIndexOfUnit_separator {s digits : Text} {c : UInt16}
    (hdigits : ∀ d ∈ digits, isDigit d = true) :
    lastIndexOfUnit (s ++ [c] ++ filenameSeparatorForIndex ++ digits) filenameSeparatorForIndex
      = some (s.length + 1) := by
  have hnot : unit '_' ∉ digits.reverse := by
    intro hmem
    have hdigit := hdigits _ (List.mem_reverse.1 hmem)
    revert hdigit
    decide
  have hreverse : (s ++ [c] ++ [unit '_'] ++ digits).reverse
      = digits.reverse ++ unit '_' :: c :: s.reverse := by simp
  show (if unit '_' ∈ s ++ [c] ++ [unit '_'] ++ digits then some ((s ++ [c] ++ [unit '_'] ++
    digits).length - 1 - (s ++ [c] ++ [unit '_'] ++ digits).reverse.idxOf (unit '_')) else none) = _
  rw [if_pos (by simp), hreverse, List.idxOf_append_of_notMem hnot, List.idxOf_cons_self]
  simp
  omega

def nameLE (f g : FileInfo) : Prop := (compare f.name g.name).isLE = true

instance : DecidableRel nameLE := fun f g =>
  inferInstanceAs (Decidable ((compare f.name g.name).isLE = true))

instance : Std.Total nameLE where
  total f g := by
    unfold nameLE
    have hswap : compare g.name f.name = (compare f.name g.name).swap := Std.OrientedCmp.eq_swap
    rw [hswap]
    cases compare f.name g.name <;> simp

instance : IsTrans FileInfo nameLE where
  trans _ _ _ := Std.TransOrd.isLE_trans

/-- The invariant mode of globalization on Unix: names are compared by their code units. -/
def invariantGlobalization : Platform where
  isWindowsFileSystem := false
  toUpper := id
  toUpper_caseless _ _ _ h := h
  numbers := .invariantInfo
  compareTo := compare
  lastIndexOf := lastIndexOfUnit
  sort := List.insertionSort nameLE
  numbers_symbols := NumberFormatInfo.symbols_invariantInfo
  compareTo_swap _ _ := Std.OrientedCmp.eq_swap
  compareTo_filenames nameBase timestamp m n s t hs ht h := by
    have hsame : ∀ {s t : Text}, FileSystem.isSameFilename ⟨false, id, fun _ _ _ h => h⟩ s t → s = t :=
      fun h => by simpa using FileSystem.map_toUpper_eq h
    rw [← hsame hs, ← hsame ht]
    exact Std.LawfulEqCmp.eq_of_compare h
  lastIndexOf_separator _ _ _ _ _ hdigits := lastIndexOfUnit_separator hdigits
  sort_perm := List.perm_insertionSort _
  sort_pairwise files := (List.pairwise_insertionSort nameLE files).imp
    fun h => Ordering.ne_gt_iff_isLE.2 h

theorem ordersDigits_invariantGlobalization : invariantGlobalization.OrdersDigits := by
  intro s a b _ _ ha hb hne
  show compare _ _ = .lt ↔ _
  rw [compare_eq_lt_iff, List.append_assoc _ a, List.append_assoc _ b, append_lt_append_iff]
  exact digits_lt_iff ha hb hne

def firstOfJanuary : Timestamp where
  text := text "20200101"
  text_ne_nil := by decide
  text_digits := List.all_eq_true.1 rfl

/-- The files of the last index with three digits and the first with four. -/
def thousandth : List FileInfo :=
  [⟨text "app-20200101_999.log", 2⟩, ⟨text "app-20200101_1000.log", 2⟩]

/-- A file without an index and one of the largest index. -/
def noneAndLast : List FileInfo :=
  [⟨text "app-20200101.log", 2⟩, ⟨text "app-20200101_2147483647.log", 2⟩]

/-- A sink that rotates files of more than one byte, with a file of two bytes. -/
def sinkAt (rotationIndex : Int32) : FileLogSink := ⟨text "app", 1, noneAndLast, rotationIndex, 2⟩

def newYear : Moment := ⟨true, true, firstOfJanuary, fun _ => true⟩

theorem rotationLoop_sinkAt (fuel : ℕ) :
    invariantGlobalization.rotationLoop fuel (fun _ => newYear) (sinkAt Int32.maxValue) = none ∧
      invariantGlobalization.rotationLoop fuel (fun _ => newYear) (sinkAt Int32.minValue) = none := by
  have hwraps : invariantGlobalization.rotateLogFile (sinkAt Int32.maxValue) newYear
      = some (sinkAt Int32.minValue) := by decide +kernel
  have hraises : invariantGlobalization.rotateLogFile (sinkAt Int32.minValue) newYear
      = some (sinkAt Int32.maxValue) := by decide +kernel
  have hrotate : ∀ n, (sinkAt n).mustRotate = true := fun n => by rfl
  induction fuel with
  | zero => exact ⟨rfl, rfl⟩
  | succ fuel ih =>
    unfold Platform.rotationLoop
    rw [if_pos (hrotate _), if_pos (hrotate _), hwraps, hraises]
    exact ih.symm

/-- The search misses index 1000, and the loop can go on for ever. -/
theorem logRotation_does_not_converge :
    ¬ ((∀ (P : Platform) files nameBase timestamp, P.IsLatest nameBase timestamp files
        (P.findLatestRotationIndex files nameBase timestamp)) ∧
      ∀ (P : Platform) s moments, P.Converges s moments) ∧
    invariantGlobalization.findLatestRotationIndex thousandth (text "app") firstOfJanuary = 999 ∧
    invariantGlobalization.HasIndex (text "app") firstOfJanuary thousandth 1000 ∧
    ¬ invariantGlobalization.Converges (sinkAt Int32.maxValue) fun _ => newYear := by
  have hfind : invariantGlobalization.findLatestRotationIndex thousandth (text "app") firstOfJanuary
      = 999 := by decide
  have hindex : invariantGlobalization.HasIndex (text "app") firstOfJanuary thousandth 1000 :=
    ⟨by decide, ⟨text "app-20200101_1000.log", 2⟩, by decide, by decide⟩
  refine ⟨fun h => ?_, hfind, hindex, ?_⟩
  · have hlatest := h.1 invariantGlobalization thousandth (text "app") firstOfJanuary
    rw [hfind] at hlatest
    rcases hlatest with ⟨-, hmax⟩ | ⟨hno, -⟩
    · exact absurd (hmax 1000 hindex) (by decide)
    · exact hno 1000 hindex
  · rintro ⟨⟨fuel, hends⟩, -⟩
    rw [(rotationLoop_sinkAt fuel).1] at hends
    cases hends

end DdTrace.Logging
