import DdTrace.Lib.Rounding
import DdTrace.Lib.SlidingWindow

/-!
# The rate limiter

`Allowed` as a sequence of calls runs it, one after the other: the queue of the last interval,
and the two statistical windows behind `GetEffectiveRate`. A call reads the clock twice, in
`WaitForRefresh` and when it enqueues. Times are ticks of 100 ns, the counters 32-bit.
-/

namespace DdTrace.Sampling

open Lib Lib.SlidingWindow

/-- A conversion or division with `float` as its result. -/
def toSingle : ℚ → ℚ := roundTo 23

structure RateLimiter where
  maxTracesPerInterval : Int32
  intervalQueue : List ℤ
  windowBegin : ℤ
  windowChecks : Int32
  windowAllowed : Int32
  previousWindowChecks : Int32
  previousWindowAllowed : Int32
  deriving DecidableEq, Repr

/-- `_interval`: 1000 ms. -/
def interval : ℤ := 10000000

/-- The two readings of the clock that one call can make. -/
structure Call where
  now : ℤ
  enqueued : ℤ
  deriving DecidableEq, Repr

structure Outcome where
  call : Call
  allowed : Bool
  /-- The metric `_dd.limit_psr` that the call sets. -/
  rate : ℚ
  deriving DecidableEq

namespace RateLimiter

def new (maxTracesPerInterval : Option Int32) (now : ℤ) : RateLimiter where
  maxTracesPerInterval := maxTracesPerInterval.getD 100
  intervalQueue := []
  windowBegin := now
  windowChecks := 0
  windowAllowed := 0
  previousWindowChecks := 0
  previousWindowAllowed := 0

def getEffectiveRate (r : RateLimiter) : ℚ :=
  if r.maxTracesPerInterval = 0 then 0
  else if r.maxTracesPerInterval < 0 then 1
  else
    let totalChecksForLastTwoWindows := r.windowChecks + r.previousWindowChecks
    if totalChecksForLastTwoWindows = 0 then 1
    else
      toSingle (toSingle (r.windowAllowed + r.previousWindowAllowed).toInt /
        toSingle totalChecksForLastTwoWindows.toInt)

/-- The statistical window that has passed becomes the previous one. -/
def shiftWindow (r : RateLimiter) (now : ℤ) : RateLimiter :=
  if interval ≤ now - r.windowBegin then
    { r with
      previousWindowAllowed := r.windowAllowed
      previousWindowChecks := r.windowChecks
      windowAllowed := 0
      windowChecks := 0
      windowBegin := now }
  else r

/-- No other refresh is in progress when the calls come one after the other. -/
def waitForRefresh (r : RateLimiter) (now : ℤ) : RateLimiter :=
  let r := r.shiftWindow now
  { r with intervalQueue := prune interval now r.intervalQueue }

/-- `Allowed` up to the metric it sets. -/
def decideAllowed (r : RateLimiter) (c : Call) : RateLimiter × Bool :=
  if r.maxTracesPerInterval = 0 then (r, false)
  else if r.maxTracesPerInterval < 0 then (r, true)
  else
    let r := r.waitForRefresh c.now
    let r := { r with windowChecks := r.windowChecks + 1 }
    if r.maxTracesPerInterval.toInt ≤ (r.intervalQueue.length : ℤ) then (r, false)
    else
      ({ r with
          intervalQueue := r.intervalQueue ++ [c.enqueued]
          windowAllowed := r.windowAllowed + 1 }, true)

def allowed (r : RateLimiter) (c : Call) : RateLimiter × Outcome :=
  let (r, result) := r.decideAllowed c
  (r, ⟨c, result, r.getEffectiveRate⟩)

/-- The outcomes of calls made one after the other. -/
def run (r : RateLimiter) : List Call → RateLimiter × List Outcome
  | [] => (r, [])
  | c :: cs =>
    let (r, o) := r.allowed c
    let (r, os) := r.run cs
    (r, o :: os)

end RateLimiter

/-! ### What the limiter is for -/

/-- The clock never goes back: not between the readings, nor since the limiter was made. -/
def NonDecreasing (start : ℤ) (calls : List Call) : Prop :=
  (start :: calls.flatMap fun c => [c.now, c.enqueued]).Pairwise (· ≤ ·)

instance (start : ℤ) (calls : List Call) : Decidable (NonDecreasing start calls) :=
  inferInstanceAs (Decidable (List.Pairwise _ _))

/-- At any instant of each call between its two readings, no closed interval has more than
`limit` allowed calls; a call that finds fewer in the interval that ends with it is allowed;
every rate is between 0 and 1. -/
structure Sound (limit : ℕ) (outcomes : List Outcome) : Prop where
  limited : ∀ time : Outcome → ℤ,
    (∀ o ∈ outcomes, o.call.now ≤ time o ∧ time o ≤ o.call.enqueued) →
    ∀ t, outcomes.countP (fun o => o.allowed && decide (t ≤ time o ∧ time o ≤ t + interval)) ≤ limit
  admits : ∀ pre o post, outcomes = pre ++ o :: post →
    pre.countP (fun p => p.allowed &&
      decide (o.call.now - interval ≤ p.call.enqueued ∧ p.call.enqueued ≤ o.call.now)) < limit →
    o.allowed = true
  rate : ∀ o ∈ outcomes, 0 ≤ o.rate ∧ o.rate ≤ 1

/-- The statistical windows with true counts: where the current one began, the calls in it and
those in the one before. -/
structure Windows where
  start : ℤ
  checks : ℕ
  previous : ℕ
  deriving DecidableEq, Repr

def Windows.check (w : Windows) (now : ℤ) : Windows :=
  if interval ≤ now - w.start then ⟨now, 1, w.checks⟩ else ⟨w.start, w.checks + 1, w.previous⟩

/-- At every call fewer than 2^31 calls are in its statistical window and the one before. -/
def CountsFit (w : Windows) : List Call → Prop
  | [] => True
  | c :: cs => (w.check c.now).checks + (w.check c.now).previous < 2 ^ 31 ∧
      CountsFit (w.check c.now) cs

instance instDecidableCountsFit : (w : Windows) → (calls : List Call) → Decidable (CountsFit w calls)
  | _, [] => isTrue trivial
  | w, c :: cs =>
    have := instDecidableCountsFit (w.check c.now) cs
    inferInstanceAs (Decidable (_ ∧ _))

/-! ### The rate -/

theorem toSingle_div_mem {a c : ℤ} (ha : 0 ≤ a) (hac : a ≤ c) (hc : 0 < c) :
    0 ≤ toSingle (toSingle a / toSingle c) ∧ toSingle (toSingle a / toSingle c) ≤ 1 := by
  have h1 : (0 : ℚ) ≤ toSingle a := roundTo_nonneg 23 (by exact_mod_cast ha)
  have h2 : toSingle a ≤ toSingle c :=
    roundTo_mono 23 (by exact_mod_cast ha) (by exact_mod_cast hac)
  have h3 : (1 : ℚ) ≤ toSingle c := by
    rw [← roundTo_one 23]
    exact roundTo_mono 23 (by norm_num) (by exact_mod_cast hc)
  have hq0 : (0 : ℚ) ≤ toSingle a / toSingle c := div_nonneg h1 (by linarith)
  have hq1 : toSingle a / toSingle c ≤ 1 := (div_le_one (by linarith)).2 h2
  refine ⟨roundTo_nonneg 23 hq0, ?_⟩
  rw [← roundTo_one 23]
  exact roundTo_mono 23 hq0 hq1

theorem toInt_add_of_lt {x y : Int32} {m n : ℕ} (hx : x.toInt = m) (hy : y.toInt = n)
    (h : m + n < 2 ^ 31) : (x + y).toInt = m + n := by
  rw [Int32.toInt_add, hx, hy]
  exact Int.bmod_eq_of_le (by omega) (by omega)

/-- The counters of the limiter are the true counts, and no more calls were allowed than
made. -/
structure Counted (w : Windows) (r : RateLimiter) : Prop where
  start : r.windowBegin = w.start
  checks : r.windowChecks.toInt = w.checks
  previous : r.previousWindowChecks.toInt = w.previous
  allowed : ∃ a : ℕ, r.windowAllowed.toInt = a ∧ a ≤ w.checks
  previousAllowed : ∃ a : ℕ, r.previousWindowAllowed.toInt = a ∧ a ≤ w.previous

variable {w : Windows} {r : RateLimiter} {c : Call}

theorem Counted.rate_mem (h : Counted w r) (hfit : w.checks + w.previous < 2 ^ 31) :
    0 ≤ r.getEffectiveRate ∧ r.getEffectiveRate ≤ 1 := by
  obtain ⟨a, ha, hac⟩ := h.allowed
  obtain ⟨b, hb, hbp⟩ := h.previousAllowed
  have htotal := toInt_add_of_lt h.checks h.previous hfit
  have hallowed := toInt_add_of_lt ha hb (by omega)
  unfold RateLimiter.getEffectiveRate
  by_cases h0 : r.maxTracesPerInterval = 0
  · rw [if_pos h0]
    norm_num
  by_cases h1 : r.maxTracesPerInterval < 0
  · rw [if_neg h0, if_pos h1]
    norm_num
  rw [if_neg h0, if_neg h1]
  show 0 ≤ ite _ _ _ ∧ ite _ _ _ ≤ (1 : ℚ)
  by_cases h2 : r.windowChecks + r.previousWindowChecks = 0
  · rw [if_pos h2]
    norm_num
  · have hne : (r.windowChecks + r.previousWindowChecks).toInt ≠ 0 := by
      intro hz
      exact h2 (Int32.toInt_inj.1 (by rw [hz]; rfl))
    rw [if_neg h2]
    exact toSingle_div_mem (by omega) (by omega) (by omega)

theorem Counted.shiftWindow (h : Counted w r) (now : ℤ) :
    ∃ checks : ℕ, checks + 1 = (w.check now).checks ∧
      (r.shiftWindow now).windowChecks.toInt = checks ∧
      (r.shiftWindow now).windowBegin = (w.check now).start ∧
      (r.shiftWindow now).previousWindowChecks.toInt = (w.check now).previous ∧
      (∃ a : ℕ, (r.shiftWindow now).windowAllowed.toInt = a ∧ a ≤ checks) ∧
      ∃ a : ℕ, (r.shiftWindow now).previousWindowAllowed.toInt = a ∧
        a ≤ (w.check now).previous := by
  unfold RateLimiter.shiftWindow Windows.check
  rw [h.start]
  split_ifs with hs
  · exact ⟨0, rfl, rfl, rfl, h.checks, ⟨0, rfl, le_rfl⟩, h.allowed⟩
  · exact ⟨w.checks, rfl, h.checks, h.start, h.previous, h.allowed, h.previousAllowed⟩

theorem toInt_add_one {x : Int32} {n : ℕ} (h : x.toInt = n) (hn : n + 1 < 2 ^ 31) :
    (x + 1).toInt = (n + 1 : ℕ) := by
  have := toInt_add_of_lt h (y := 1) (n := 1) rfl hn
  rw [this]
  push_cast
  rfl

/-- The limiter after its refresh and the count of the call. -/
def RateLimiter.refreshed (r : RateLimiter) (now : ℤ) : RateLimiter :=
  { r.waitForRefresh now with windowChecks := (r.shiftWindow now).windowChecks + 1 }

/-- With a positive maximum the call is allowed when the refreshed queue is shorter. -/
theorem decideAllowed_eq (hmax : 0 < r.maxTracesPerInterval.toInt) (c : Call) :
    r.decideAllowed c =
      if r.maxTracesPerInterval.toInt ≤ ((prune interval c.now r.intervalQueue).length : ℤ) then
        (r.refreshed c.now, false)
      else
        ({ r.refreshed c.now with
            intervalQueue := prune interval c.now r.intervalQueue ++ [c.enqueued]
            windowAllowed := (r.shiftWindow c.now).windowAllowed + 1 }, true) := by
  have h0 : r.maxTracesPerInterval ≠ 0 := by
    rintro h0
    rw [h0] at hmax
    exact absurd hmax (by decide)
  have h1 : ¬ r.maxTracesPerInterval < 0 := by
    rw [Int32.lt_iff_toInt_lt, Int32.toInt_zero]
    omega
  have hmaxShift : (r.shiftWindow c.now).maxTracesPerInterval = r.maxTracesPerInterval := by
    unfold RateLimiter.shiftWindow
    split <;> rfl
  have hqueue : (r.shiftWindow c.now).intervalQueue = r.intervalQueue := by
    unfold RateLimiter.shiftWindow
    split <;> rfl
  unfold RateLimiter.decideAllowed RateLimiter.refreshed RateLimiter.waitForRefresh
  rw [if_neg h0, if_neg h1]
  simp only [hmaxShift, hqueue]

/-- A call keeps the counters true as long as they fit. -/
theorem Counted.decideAllowed (h : Counted w r) (hmax : 0 < r.maxTracesPerInterval.toInt)
    (hfit : (w.check c.now).checks + (w.check c.now).previous < 2 ^ 31) :
    Counted (w.check c.now) (r.decideAllowed c).1 := by
  obtain ⟨checks, hn, hchecks, hstart, hprev, ⟨a, ha, hac⟩, hprevAllowed⟩ := h.shiftWindow c.now
  have hchecks' := toInt_add_one hchecks (by omega)
  have ha' := toInt_add_one ha (by omega)
  rw [hn] at hchecks'
  rw [decideAllowed_eq hmax]
  split
  · exact ⟨hstart, hchecks', hprev, ⟨a, ha, by omega⟩, hprevAllowed⟩
  · exact ⟨hstart, hchecks', hprev, ⟨a + 1, ha', by omega⟩, hprevAllowed⟩

/-! ### The queue -/

def Outcome.now (o : Outcome) : ℤ := o.call.now

def Outcome.enqueued (o : Outcome) : ℤ := o.call.enqueued

/-- The outcomes whose times the limiter has enqueued. -/
def admittedOf (outcomes : List Outcome) : List Outcome := outcomes.filter Outcome.allowed

def stampsOf (outcomes : List Outcome) : List ℤ := (admittedOf outcomes).map Outcome.enqueued

/-- After the outcomes so far the queue is the window of their stamps as of some earlier
refresh. -/
structure Queued (outcomes : List Outcome) (last : ℤ) (r : RateLimiter) : Prop where
  sorted : (stampsOf outcomes).Pairwise (· ≤ ·)
  le_last : ∀ t ∈ stampsOf outcomes, t ≤ last
  queue : ∃ seen ≤ last, r.intervalQueue = window interval seen (stampsOf outcomes)

variable {outcomes : List Outcome} {last : ℤ} {o : Outcome}

theorem stampsOf_snoc (outcomes : List Outcome) (o : Outcome) :
    stampsOf (outcomes ++ [o]) =
      stampsOf outcomes ++ if o.allowed then [o.call.enqueued] else [] := by
  cases ho : o.allowed <;> simp [stampsOf, admittedOf, ho, Outcome.enqueued]

theorem Queued.prune (h : Queued outcomes last r) {now : ℤ} (hle : last ≤ now) :
    prune interval now r.intervalQueue = window interval now (stampsOf outcomes) := by
  obtain ⟨seen, hseen, hq⟩ := h.queue
  rw [hq, prune_window h.sorted (hseen.trans hle)]

/-- A call is allowed exactly when its window has fewer stamps than the maximum, and it
leaves the queue as the window with its own stamp. -/
theorem Queued.decideAllowed (h : Queued outcomes last r) (hmax : 0 < r.maxTracesPerInterval.toInt)
    (hnow : last ≤ c.now) (henq : c.now ≤ c.enqueued) :
    ((r.decideAllowed c).2 = true ↔ ((window interval c.now (stampsOf outcomes)).length : ℤ) <
        r.maxTracesPerInterval.toInt) ∧
      (r.decideAllowed c).1.maxTracesPerInterval = r.maxTracesPerInterval ∧
      ∀ rate, Queued (outcomes ++ [⟨c, (r.decideAllowed c).2, rate⟩]) c.enqueued
        (r.decideAllowed c).1 := by
  have hmaxShift : (r.shiftWindow c.now).maxTracesPerInterval = r.maxTracesPerInterval := by
    unfold RateLimiter.shiftWindow
    split <;> rfl
  have hprune := h.prune hnow
  have hqueue : (r.refreshed c.now).intervalQueue = window interval c.now (stampsOf outcomes) := by
    rw [← hprune]
    unfold RateLimiter.refreshed RateLimiter.waitForRefresh RateLimiter.shiftWindow
    split <;> rfl
  have hlast : ∀ t ∈ stampsOf outcomes, t ≤ c.enqueued :=
    fun t ht => (h.le_last t ht).trans (hnow.trans henq)
  rw [decideAllowed_eq hmax, hprune]
  by_cases hcount : r.maxTracesPerInterval.toInt ≤
      ((window interval c.now (stampsOf outcomes)).length : ℤ)
  · rw [if_pos hcount]
    refine ⟨by simpa using hcount, hmaxShift, fun rate => ?_⟩
    refine ⟨?_, ?_, c.now, henq, ?_⟩
    · simpa [stampsOf_snoc] using h.sorted
    · simpa [stampsOf_snoc] using hlast
    · simpa [stampsOf_snoc] using hqueue
  · rw [if_neg hcount]
    refine ⟨by simpa using hcount, hmaxShift, fun rate => ?_⟩
    refine ⟨?_, ?_, c.now, henq, ?_⟩
    · rw [stampsOf_snoc, List.pairwise_append]
      exact ⟨h.sorted, by simp, fun t ht u hu => by
        rw [List.mem_singleton.1 hu]; exact hlast t ht⟩
    · intro t ht
      rw [stampsOf_snoc, List.mem_append] at ht
      obtain ht | ht := ht
      · exact hlast t ht
      · exact (List.mem_singleton.1 ht).le
    · rw [stampsOf_snoc]
      exact (window_append_now (by decide) henq _).symm

/-! ### Whole runs -/

/-- The outcomes so far are sound, and the limiter is in a state to go on. -/
structure Running (limit : ℕ) (w : Windows) (outcomes : List Outcome) (last : ℤ)
    (r : RateLimiter) : Prop where
  max : r.maxTracesPerInterval.toInt = limit
  counted : Counted w r
  queued : Queued outcomes last r
  admitted : Admitted Outcome.now Outcome.enqueued interval limit (admittedOf outcomes)
  admits : ∀ pre o post, outcomes = pre ++ o :: post →
    (window interval o.call.now (stampsOf pre)).length < limit → o.allowed = true
  before : ∀ pre o post, outcomes = pre ++ o :: post → ∀ t ∈ stampsOf pre, t ≤ o.call.now
  rate : ∀ o ∈ outcomes, 0 ≤ o.rate ∧ o.rate ≤ 1

variable {limit : ℕ}

theorem Running.sound (h : Running limit w outcomes last r) : Sound limit outcomes := by
  refine ⟨fun time htime t => ?_, fun pre o post he hcount => ?_, h.rate⟩
  · have := h.admitted.countP_le time (fun o ho => htime o (List.mem_of_mem_filter ho)) t
    rw [admittedOf, List.countP_filter] at this
    refine le_trans (le_of_eq ?_) this
    exact List.countP_congr fun o _ => by simp [and_comm]
  · refine h.admits pre o post he ?_
    refine lt_of_le_of_lt (le_of_eq ?_) hcount
    rw [window, ← List.countP_eq_length_filter, stampsOf, List.countP_map, admittedOf,
      List.countP_filter]
    refine List.countP_congr fun p hp => ?_
    have hle : p.allowed = true → p.call.enqueued ≤ o.call.now := by
      intro hallowed
      refine h.before pre o post he p.call.enqueued ?_
      exact List.mem_map_of_mem (f := Outcome.enqueued) (List.mem_filter.2 ⟨hp, hallowed⟩)
    simp only [Function.comp_apply, Bool.and_eq_true, decide_eq_true_eq, Outcome.enqueued]
    constructor
    · rintro ⟨h1, h2⟩
      have h1 : o.call.now - p.call.enqueued ≤ interval := of_decide_eq_true h1
      exact ⟨h2, by omega, hle h2⟩
    · rintro ⟨h1, h2, h3⟩
      exact ⟨decide_eq_true (by omega), h1⟩

/-- One call more. -/
theorem Running.allowed (h : Running limit w outcomes last r) (hpos : 0 < limit)
    (hnow : last ≤ c.now) (henq : c.now ≤ c.enqueued)
    (hfit : (w.check c.now).checks + (w.check c.now).previous < 2 ^ 31) :
    Running limit (w.check c.now) (outcomes ++ [(r.allowed c).2]) c.enqueued (r.allowed c).1 := by
  have hmax : 0 < r.maxTracesPerInterval.toInt := by rw [h.max]; exact_mod_cast hpos
  obtain ⟨hdecide, hkeep, hqueued⟩ := h.queued.decideAllowed hmax hnow henq
  rw [h.max] at hdecide
  have hcounted := h.counted.decideAllowed hmax hfit
  refine ⟨by rw [← h.max, ← hkeep]; rfl, hcounted, hqueued _, ?_, ?_, ?_, ?_⟩
  · cases hres : (r.decideAllowed c).2 with
    | true =>
      have hsnoc : admittedOf (outcomes ++ [(r.allowed c).2]) =
          admittedOf outcomes ++ [(r.allowed c).2] := by
        simp [admittedOf, RateLimiter.allowed, hres]
      rw [hsnoc, admitted_append]
      exact ⟨h.admitted, henq, by exact_mod_cast hdecide.1 hres⟩
    | false =>
      have hsnoc : admittedOf (outcomes ++ [(r.allowed c).2]) = admittedOf outcomes := by
        simp [admittedOf, RateLimiter.allowed, hres]
      rw [hsnoc]
      exact h.admitted
  · refine forall_split_snoc.2 ⟨h.admits, fun hcount => hdecide.2 ?_⟩
    exact_mod_cast hcount
  · exact forall_split_snoc.2 ⟨h.before, fun t ht => (h.queued.le_last t ht).trans hnow⟩
  · intro o ho
    obtain ho | ho := List.mem_append.1 ho
    · exact h.rate o ho
    · rw [List.mem_singleton.1 ho]
      exact hcounted.rate_mem hfit

theorem Running.run (h : Running limit w outcomes last r) (hpos : 0 < limit) {calls : List Call}
    (horder : NonDecreasing last calls) (hfit : CountsFit w calls) :
    Sound limit (outcomes ++ (r.run calls).2) := by
  induction calls generalizing w outcomes last r with
  | nil =>
    rw [show (r.run []).2 = [] from rfl, List.append_nil]
    exact h.sound
  | cons c calls ih =>
    obtain ⟨hfit, hrest⟩ := hfit
    have hsorted : (last :: c.now :: c.enqueued ::
        calls.flatMap fun c => [c.now, c.enqueued]).Pairwise (· ≤ ·) := horder
    simp only [List.pairwise_cons] at hsorted
    obtain ⟨h1, h2, h3, h4⟩ := hsorted
    have hnext := h.allowed hpos (h1 _ (by simp)) (h2 _ (by simp)) hfit
    have := ih hnext (List.pairwise_cons.2 ⟨h3, h4⟩) hrest
    rw [List.append_assoc] at this
    exact this

/-- Every run of a limiter with a positive maximum is sound, as long as the statistical
counters fit into 32 bits. -/
theorem run_sound (maxTracesPerInterval : Option Int32) (start : ℤ) (calls : List Call)
    (hpos : 0 < (RateLimiter.new maxTracesPerInterval start).maxTracesPerInterval)
    (horder : NonDecreasing start calls) (hfit : CountsFit ⟨start, 0, 0⟩ calls) :
    Sound (RateLimiter.new maxTracesPerInterval start).maxTracesPerInterval.toInt.toNat
      ((RateLimiter.new maxTracesPerInterval start).run calls).2 := by
  have hpos' : 0 < (RateLimiter.new maxTracesPerInterval start).maxTracesPerInterval.toInt := by
    simpa using Int32.lt_iff_toInt_lt.1 hpos
  have hstart : Running _ ⟨start, 0, 0⟩ [] start (RateLimiter.new maxTracesPerInterval start) :=
    { max := (Int.toNat_of_nonneg hpos'.le).symm
      counted := ⟨rfl, rfl, rfl, ⟨0, rfl, le_rfl⟩, ⟨0, rfl, le_rfl⟩⟩
      queued := ⟨List.Pairwise.nil, by simp [stampsOf, admittedOf], start, le_rfl, rfl⟩
      admitted := admitted_nil
      admits := by simp
      before := by simp
      rate := by simp }
  exact hstart.run (by omega) horder hfit

theorem run_sound_burst :
    Sound 2 ((RateLimiter.new (some 2) 0).run [⟨0, 0⟩, ⟨0, 3⟩, ⟨3, 3⟩, ⟨10000001, 10000001⟩]).2 :=
  run_sound (some 2) 0 [⟨0, 0⟩, ⟨0, 3⟩, ⟨3, 3⟩, ⟨10000001, 10000001⟩] (by decide) (by decide)
    (by decide)

/-! ### Counters that overflow -/

/-- A limiter of one trace that has seen `checks` calls (modulo 2^32), all at time 0. -/
def flooded (checks : Int32) : RateLimiter where
  maxTracesPerInterval := 1
  intervalQueue := [0]
  windowBegin := 0
  windowChecks := checks
  windowAllowed := 1
  previousWindowChecks := 0
  previousWindowAllowed := 0

theorem flooded_allowed (checks : Int32) :
    (flooded checks).allowed ⟨0, 0⟩ =
      (flooded (checks + 1), ⟨⟨0, 0⟩, false, (flooded (checks + 1)).getEffectiveRate⟩) := by
  have hdecide : (flooded checks).decideAllowed ⟨0, 0⟩ = (flooded (checks + 1), false) := by
    rw [decideAllowed_eq (show 0 < (1 : Int32).toInt by decide)]
    rfl
  unfold RateLimiter.allowed
  rw [hdecide]

/-- The rate after `n + 1` more calls is among the outcomes. -/
theorem flooded_run (checks : Int32) (n : ℕ) :
    ∃ o ∈ ((flooded checks).run (List.replicate (n + 1) ⟨0, 0⟩)).2,
      o.rate = (flooded (checks + Int32.ofNat (n + 1))).getEffectiveRate := by
  induction n generalizing checks with
  | zero =>
    refine ⟨((flooded checks).allowed ⟨0, 0⟩).2, List.mem_cons_self, ?_⟩
    rw [flooded_allowed]
    rfl
  | succ n ih =>
    obtain ⟨o, ho, hrate⟩ := ih (checks + 1)
    refine ⟨o, ?_, ?_⟩
    · rw [List.replicate_succ, RateLimiter.run, flooded_allowed]
      exact List.mem_cons_of_mem _ ho
    · rw [hrate, Int32.add_assoc]
      congr 3
      rw [Int32.ofNat_add (n + 1) 1, Int32.add_comm]
      rfl

theorem flooded_rate_neg : (flooded Int32.minValue).getEffectiveRate < 0 := by
  have hrate : (flooded Int32.minValue).getEffectiveRate =
      toSingle (toSingle ((1 : Int32) + 0).toInt / toSingle (Int32.minValue + 0).toInt) := rfl
  have h1 : (((1 : Int32) + 0).toInt : ℚ) = 1 := by rfl
  have h2 : ((Int32.minValue + 0).toInt : ℚ) = -2 ^ (31 : ℤ) := by
    rw [show (Int32.minValue + 0).toInt = -2147483648 by decide]
    norm_num
  have h3 : (1 : ℚ) / -2 ^ (31 : ℤ) = -2 ^ (-31 : ℤ) := by norm_num
  rw [hrate, h1, h2, toSingle, roundTo_one, roundTo_neg_two_zpow, h3, roundTo_neg_two_zpow]
  norm_num

theorem not_sound_of_overflow (n : ℕ) (hn : (1 : Int32) + Int32.ofNat (n + 1) = Int32.minValue) :
    ¬ Sound 1 ((RateLimiter.new (some 1) 0).run (List.replicate (n + 2) ⟨0, 0⟩)).2 := by
  intro h
  obtain ⟨o, ho, hrate⟩ := flooded_run 1 n
  have hfirst : (RateLimiter.new (some 1) 0).decideAllowed ⟨0, 0⟩ = (flooded 1, true) := by decide
  have hmem : o ∈ ((RateLimiter.new (some 1) 0).run (List.replicate (n + 2) ⟨0, 0⟩)).2 := by
    rw [List.replicate_succ, RateLimiter.run, RateLimiter.allowed, hfirst]
    exact List.mem_cons_of_mem _ ho
  have hneg := flooded_rate_neg
  rw [hn] at hrate
  rw [← hrate] at hneg
  exact absurd (h.rate o hmem).1 (not_le.2 hneg)

theorem nonDecreasing_replicate (n : ℕ) : NonDecreasing 0 (List.replicate n ⟨0, 0⟩) := by
  have hzero : ∀ t ∈ (0 : ℤ) :: (List.replicate n (Call.mk 0 0)).flatMap (fun c => [c.now, c.enqueued]),
      t = 0 := by
    intro t ht
    obtain rfl | ht := List.mem_cons.1 ht
    · rfl
    · obtain ⟨c, hc, ht⟩ := List.mem_flatMap.1 ht
      obtain ⟨-, rfl⟩ := List.mem_replicate.1 hc
      simpa using ht
  exact List.pairwise_of_forall_mem_list fun a ha b hb => by rw [hzero a ha, hzero b hb]

/-- The call number 2^31 within one window sets a negative rate. -/
theorem run_overflow :
    NonDecreasing 0 (List.replicate (2147483646 + 2) ⟨0, 0⟩) ∧
      ¬ Sound 1 ((RateLimiter.new (some 1) 0).run (List.replicate (2147483646 + 2) ⟨0, 0⟩)).2 :=
  ⟨nonDecreasing_replicate _, not_sound_of_overflow 2147483646 (by decide)⟩

end DdTrace.Sampling
