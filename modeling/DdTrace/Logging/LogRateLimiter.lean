import DdTrace.Lib.Dictionary
import DdTrace.Lib.Text
import Mathlib.Algebra.Order.Ring.Nat
import Mathlib.Data.List.Induction

/-!
# The limiter of log messages

`ShouldLog` lets one message of a call site through in every time bucket, and counts the others
(LogRateLimiter.cs). `shouldLog` is one call at a time in seconds since 1970, `run` a sequence
of them; `AddOrUpdate` makes a call one step.
-/

namespace DdTrace.Logging

open Lib

structure LogRateBucketKey where
  filePath : Option Text
  lineNo : Int32
  deriving DecidableEq, Repr

structure LogRateBucketInfo where
  timeBucket : Int32
  skipCount : UInt32
  previousSkipCount : UInt32
  deriving DecidableEq, Repr

structure LogRateLimiter where
  secondsBetweenLogs : Int32
  buckets : Dictionary LogRateBucketKey LogRateBucketInfo
  positive : 1 ≤ secondsBetweenLogs.toInt

/-- The constructor, which throws if the number of seconds is not positive. -/
def LogRateLimiter.new (secondsBetweenLogs : Int32) : Option LogRateLimiter :=
  if h : 1 ≤ secondsBetweenLogs.toInt then some ⟨secondsBetweenLogs, ∅, h⟩ else none

def getUpdatedLimitInfo (previous : LogRateBucketInfo) (currentTimeBucket : Int32) :
    LogRateBucketInfo :=
  if previous.timeBucket = currentTimeBucket then
    ⟨currentTimeBucket, previous.skipCount + 1, previous.previousSkipCount⟩
  else ⟨currentTimeBucket, 0, previous.skipCount⟩

structure LogCall where
  site : LogRateBucketKey
  timestamp : ℤ
  deriving DecidableEq, Repr

/-- A call with what it returned. -/
structure LogOutcome extends LogCall where
  logged : Bool
  skipCount : UInt32
  deriving DecidableEq, Repr

/-- `timestamp / _secondsBetweenLogs`, rounded towards zero. -/
def timeBucket (secondsBetweenLogs : Int32) (timestamp : ℤ) : ℤ :=
  timestamp.tdiv secondsBetweenLogs.toInt

/-- The cast of the time bucket to `int`. -/
def currentTimeBucket (secondsBetweenLogs : Int32) (timestamp : ℤ) : Int32 :=
  Int32.ofInt (timeBucket secondsBetweenLogs timestamp)

/-- The value that `AddOrUpdate` puts in. -/
def newLogInfo (previous : Option LogRateBucketInfo) (currentTimeBucket : Int32) :
    LogRateBucketInfo :=
  match previous with
  | none => ⟨currentTimeBucket, 0, 0⟩
  | some previous => getUpdatedLimitInfo previous currentTimeBucket

namespace LogRateLimiter

def shouldLog (limiter : LogRateLimiter) (call : LogCall) : LogOutcome × LogRateLimiter :=
  if call.site.filePath = some [] ∨ call.site.lineNo = 0 then ⟨⟨call, true, 0⟩, limiter⟩
  else
    let info := newLogInfo (limiter.buckets.tryGetValue call.site)
      (currentTimeBucket limiter.secondsBetweenLogs call.timestamp)
    (⟨call, info.skipCount = 0, info.previousSkipCount⟩,
      { limiter with buckets := limiter.buckets.set call.site info })

/-- Calls one after the other: what they returned, and the limiter behind them. -/
def run (limiter : LogRateLimiter) (calls : List LogCall) : List LogOutcome × LogRateLimiter :=
  calls.foldl (fun (outcomes, limiter) call =>
    let (outcome, limiter) := limiter.shouldLog call
    (outcomes ++ [outcome], limiter)) ([], limiter)

end LogRateLimiter

/-- The skip count that is held for a site. -/
def heldSkipCount : Option LogRateBucketInfo → ℕ
  | none => 0
  | some info => info.skipCount.toNat

example : ((LogRateLimiter.new 10).map fun limiter =>
    (limiter.run [⟨⟨some (text "a.cs"), 1⟩, 100⟩, ⟨⟨some (text "a.cs"), 1⟩, 105⟩,
      ⟨⟨some (text "a.cs"), 1⟩, 109⟩, ⟨⟨some (text "a.cs"), 1⟩, 110⟩]).1.map
        fun outcome => (outcome.logged, outcome.skipCount))
    = some [(true, 0), (false, 0), (false, 0), (true, 2)] := by decide

/-! ### One site -/

section

variable {seconds : Int32} {previous : Option LogRateBucketInfo} {history : List LogOutcome}
  {call : LogCall}

theorem timeBucket_mono (hseconds : 1 ≤ seconds.toInt) {t t' : ℤ} (h : t ≤ t') :
    timeBucket seconds t ≤ timeBucket seconds t' :=
  Int.tdiv_le_tdiv (by omega) h

/-- The outcome of a call whose site has a file and a line. -/
def outcomeOf (seconds : Int32) (previous : Option LogRateBucketInfo) (call : LogCall) :
    LogOutcome :=
  let info := newLogInfo previous (currentTimeBucket seconds call.timestamp)
  ⟨call, info.skipCount = 0, info.previousSkipCount⟩

/-- What the limiter keeps about a site, and what has come of the calls of the site. -/
structure Accounts (seconds : Int32) (previous : Option LogRateBucketInfo)
    (history : List LogOutcome) : Prop where
  fresh : previous = none → history = []
  last : ∀ info, previous = some info → ∃ o ∈ history,
    info.timeBucket = currentTimeBucket seconds o.timestamp ∧
      ∀ o' ∈ history, o'.timestamp ≤ o.timestamp
  counted : ∀ info, previous = some info → info.skipCount.toNat <
    history.countP fun o => currentTimeBucket seconds o.timestamp = info.timeBucket
  once : ∀ q, history.countP (fun o => o.logged ∧ timeBucket seconds o.timestamp = q) ≤ 1
  conserved : ((history.filter (·.logged)).map (·.skipCount.toNat)).sum + heldSkipCount previous
    = history.countP fun o => !o.logged

theorem Accounts.nil : Accounts seconds none [] where
  fresh _ := rfl
  last _ h := nomatch h
  counted _ h := nomatch h
  once _ := Nat.zero_le _
  conserved := rfl

/-- The outcome of a call that is not earlier than the others is the last. -/
theorem exists_last (outcome : LogOutcome)
    (htimes : ∀ o ∈ history, o.timestamp ≤ outcome.timestamp) :
    ∃ o ∈ history ++ [outcome], currentTimeBucket seconds outcome.timestamp
      = currentTimeBucket seconds o.timestamp ∧
        ∀ o' ∈ history ++ [outcome], o'.timestamp ≤ o.timestamp := by
  refine ⟨outcome, by simp, rfl, ?_⟩
  intro o ho
  rcases List.mem_append.1 ho with ho | ho
  · exact htimes o ho
  · rw [List.mem_singleton.1 ho]

/-- No call before was in a bucket that is not the one that is held. -/
theorem Accounts.earlier (h : Accounts seconds previous history) (hseconds : 1 ≤ seconds.toInt)
    (hbucket : ∀ info, previous = some info →
      info.timeBucket ≠ currentTimeBucket seconds call.timestamp)
    (htimes : ∀ o ∈ history, o.timestamp ≤ call.timestamp) :
    ∀ o ∈ history, timeBucket seconds o.timestamp ≠ timeBucket seconds call.timestamp := by
  intro o ho heq
  cases hprevious : previous with
  | none =>
    rw [h.fresh hprevious] at ho
    cases ho
  | some info =>
    obtain ⟨o', ho', hinfo, hlast⟩ := h.last info hprevious
    -- the last call is between the two
    have h1 := timeBucket_mono hseconds (hlast o ho)
    have h2 := timeBucket_mono hseconds (htimes o' ho')
    have h3 : timeBucket seconds o'.timestamp = timeBucket seconds call.timestamp := by omega
    exact hbucket info hprevious (by rw [hinfo, currentTimeBucket, h3, currentTimeBucket])

/-- A call in the bucket of the call before it is suppressed, and counted. -/
theorem Accounts.skip (h : Accounts seconds previous history) {info : LogRateBucketInfo}
    (hprevious : previous = some info)
    (hbucket : info.timeBucket = currentTimeBucket seconds call.timestamp)
    (htimes : ∀ o ∈ history, o.timestamp ≤ call.timestamp)
    (hcount : history.countP (fun o => currentTimeBucket seconds o.timestamp
      = currentTimeBucket seconds call.timestamp) < 2 ^ 32) :
    (outcomeOf seconds previous call).logged = false ∧
      Accounts seconds (some (newLogInfo previous (currentTimeBucket seconds call.timestamp)))
        (history ++ [outcomeOf seconds previous call]) := by
  subst hprevious
  have hcounted := h.counted info rfl
  rw [hbucket] at hcounted
  have hnext : (info.skipCount + 1).toNat = info.skipCount.toNat + 1 := by
    rw [UInt32.toNat_add]
    exact Nat.mod_eq_of_lt (by simp; omega)
  have hlogged : (outcomeOf seconds (some info) call).logged = false := by
    have hne : info.skipCount + 1 ≠ 0 := by
      intro hzero
      rw [hzero] at hnext
      simp at hnext
    simp [outcomeOf, newLogInfo, getUpdatedLimitInfo, hbucket, hne]
  have hnew : newLogInfo (some info) (currentTimeBucket seconds call.timestamp)
      = ⟨currentTimeBucket seconds call.timestamp, info.skipCount + 1, info.previousSkipCount⟩ :=
    if_pos hbucket
  refine ⟨hlogged, ?_⟩
  rw [hnew]
  constructor
  · exact nofun
  · rintro _ ⟨⟩
    exact exists_last (outcomeOf seconds (some info) call) htimes
  · rintro _ ⟨⟩
    have hthis : (outcomeOf seconds (some info) call).timestamp = call.timestamp := rfl
    simp only [List.countP_append, List.countP_singleton, hthis, hnext]
    simp
    omega
  · intro q
    have := h.once q
    simpa [List.countP_append, hlogged] using this
  · have := h.conserved
    simp only [heldSkipCount] at this ⊢
    simp only [List.filter_append, List.countP_append, List.countP_singleton,
      List.filter_singleton, hlogged, hnext]
    simp
    omega

/-- A call in a new bucket is let through. -/
theorem Accounts.log (h : Accounts seconds previous history) (hseconds : 1 ≤ seconds.toInt)
    (hbucket : ∀ info, previous = some info →
      info.timeBucket ≠ currentTimeBucket seconds call.timestamp)
    (htimes : ∀ o ∈ history, o.timestamp ≤ call.timestamp) :
    Accounts seconds (some (newLogInfo previous (currentTimeBucket seconds call.timestamp)))
      (history ++ [outcomeOf seconds previous call]) := by
  have hnew : newLogInfo previous (currentTimeBucket seconds call.timestamp)
      = ⟨currentTimeBucket seconds call.timestamp, 0, UInt32.ofNat (heldSkipCount previous)⟩ := by
    cases previous with
    | none => rfl
    | some info =>
      rw [newLogInfo, getUpdatedLimitInfo, if_neg (hbucket info rfl), heldSkipCount,
        UInt32.ofNat_toNat]
  have houtcome : outcomeOf seconds previous call
      = ⟨call, true, UInt32.ofNat (heldSkipCount previous)⟩ := by
    rw [outcomeOf, hnew]
    rfl
  have hheld : (UInt32.ofNat (heldSkipCount previous)).toNat = heldSkipCount previous := by
    cases previous with
    | none => rfl
    | some info => rw [heldSkipCount, UInt32.ofNat_toNat]
  have hearlier := h.earlier hseconds hbucket htimes
  rw [hnew, houtcome]
  constructor
  · exact nofun
  · rintro _ ⟨⟩
    exact exists_last ⟨call, true, UInt32.ofNat (heldSkipCount previous)⟩ htimes
  · rintro _ ⟨⟩
    simp
  · intro q
    have honce := h.once q
    rw [List.countP_append, List.countP_singleton]
    split
    · rename_i hq
      have hzero : history.countP (fun o => o.logged ∧ timeBucket seconds o.timestamp = q) = 0 := by
        rw [List.countP_eq_zero]
        intro o ho
        simp only [decide_eq_true_eq, not_and]
        intro _ hoq
        simp only [decide_eq_true_eq, true_and] at hq
        exact hearlier o ho (hoq.trans hq.symm)
      omega
    · omega
  · have hsum : (([(⟨call, true, UInt32.ofNat (heldSkipCount previous)⟩ : LogOutcome)].filter
        (·.logged)).map (·.skipCount.toNat)).sum = heldSkipCount previous := hheld
    rw [List.filter_append, List.map_append, List.sum_append, hsum, List.countP_append]
    exact h.conserved

/-- One call of the site. -/
theorem Accounts.step (h : Accounts seconds previous history) (hseconds : 1 ≤ seconds.toInt)
    (htimes : ∀ o ∈ history, o.timestamp ≤ call.timestamp)
    (hcount : history.countP (fun o => currentTimeBucket seconds o.timestamp
      = currentTimeBucket seconds call.timestamp) < 2 ^ 32) :
    Accounts seconds (some (newLogInfo previous (currentTimeBucket seconds call.timestamp)))
      (history ++ [outcomeOf seconds previous call]) := by
  by_cases hbucket : ∃ info, previous = some info ∧
      info.timeBucket = currentTimeBucket seconds call.timestamp
  · obtain ⟨info, hsome, hbucket⟩ := hbucket
    exact (h.skip hsome hbucket htimes hcount).2
  · refine h.log hseconds ?_ htimes
    intro info hsome heq
    exact hbucket ⟨info, hsome, heq⟩

end

/-! ### Runs -/

namespace LogRateLimiter

variable {limiter : LogRateLimiter} {calls : List LogCall} {call : LogCall}
  {site : LogRateBucketKey}

theorem run_append_singleton : limiter.run (calls ++ [call]) =
    ((limiter.run calls).1 ++ [((limiter.run calls).2.shouldLog call).1],
      ((limiter.run calls).2.shouldLog call).2) := by
  rw [run, List.foldl_append]
  rfl

theorem shouldLog_secondsBetweenLogs :
    (limiter.shouldLog call).2.secondsBetweenLogs = limiter.secondsBetweenLogs := by
  rw [shouldLog]
  split <;> rfl

theorem shouldLog_call : (limiter.shouldLog call).1.toLogCall = call := by
  rw [shouldLog]
  split <;> rfl

theorem run_secondsBetweenLogs :
    (limiter.run calls).2.secondsBetweenLogs = limiter.secondsBetweenLogs := by
  induction calls using List.reverseRecOn with
  | nil => rfl
  | append_singleton calls call ih => rw [run_append_singleton, shouldLog_secondsBetweenLogs, ih]

theorem run_calls (limiter : LogRateLimiter) (calls : List LogCall) :
    (limiter.run calls).1.map (·.toLogCall) = calls := by
  induction calls using List.reverseRecOn with
  | nil => rfl
  | append_singleton calls call ih =>
    rw [run_append_singleton, List.map_append, ih, List.map_singleton, shouldLog_call]

/-- Counting the outcomes of a site is counting its calls. -/
theorem countP_run (b : Int32) (seconds : Int32) :
    ((limiter.run calls).1.filter (·.site = site)).countP
        (fun o => currentTimeBucket seconds o.timestamp = b)
      = calls.countP fun c => c.site = site ∧ currentTimeBucket seconds c.timestamp = b := by
  have hcalls := run_calls limiter calls
  conv_rhs => rw [← hcalls, List.countP_map]
  rw [List.countP_filter]
  apply List.countP_congr
  intro o _
  simp [and_comm]

/-- A call of another site changes nothing for a site. -/
theorem shouldLog_other (h : call.site ≠ site) :
    (limiter.shouldLog call).2.buckets.tryGetValue site = limiter.buckets.tryGetValue site := by
  rw [shouldLog]
  split
  · rfl
  · exact (Dictionary.tryGetValue_set _ _ _ _).trans (if_neg (Ne.symm h))

theorem shouldLog_site (limiter : LogRateLimiter) (hfile : call.site.filePath ≠ some [])
    (hline : call.site.lineNo ≠ 0) :
    (limiter.shouldLog call).1 = outcomeOf limiter.secondsBetweenLogs
        (limiter.buckets.tryGetValue call.site) call ∧
      (limiter.shouldLog call).2.buckets.tryGetValue call.site
        = some (newLogInfo (limiter.buckets.tryGetValue call.site)
            (currentTimeBucket limiter.secondsBetweenLogs call.timestamp)) := by
  rw [shouldLog, if_neg (by simp [hfile, hline])]
  exact ⟨rfl, (Dictionary.tryGetValue_set _ _ _ _).trans (if_pos rfl)⟩

/-- The accounts of a site after any calls at times that do not go back. -/
theorem accounts_run (hempty : limiter.buckets = ∅) (hfile : site.filePath ≠ some [])
    (hline : site.lineNo ≠ 0) (htimes : calls.Pairwise fun c c' => c.timestamp ≤ c'.timestamp)
    (hcount : ∀ b, calls.countP (fun c => c.site = site ∧
      currentTimeBucket limiter.secondsBetweenLogs c.timestamp = b) ≤ 2 ^ 32) :
    Accounts limiter.secondsBetweenLogs ((limiter.run calls).2.buckets.tryGetValue site)
      ((limiter.run calls).1.filter (·.site = site)) := by
  induction calls using List.reverseRecOn with
  | nil =>
    rw [show (limiter.run []).2.buckets = ∅ from hempty]
    exact .nil
  | append_singleton calls call ih =>
    rw [List.pairwise_append] at htimes
    have hfewer : ∀ b, calls.countP (fun c => c.site = site ∧
        currentTimeBucket limiter.secondsBetweenLogs c.timestamp = b) ≤ 2 ^ 32 := by
      intro b
      have := hcount b
      rw [List.countP_append] at this
      omega
    have haccounts := ih htimes.1 hfewer
    rw [run_append_singleton, List.filter_append]
    by_cases hsite : call.site = site
    · subst hsite
      obtain ⟨houtcome, hinfo⟩ := shouldLog_site (limiter.run calls).2 hfile hline
      rw [run_secondsBetweenLogs] at houtcome hinfo
      have hbefore : ∀ o ∈ (limiter.run calls).1.filter (·.site = call.site),
          o.timestamp ≤ call.timestamp := by
        intro o ho
        have hmem : o.toLogCall ∈ calls := by
          have := List.mem_map_of_mem (f := (·.toLogCall)) (List.mem_filter.1 ho).1
          rwa [run_calls] at this
        exact htimes.2.2 _ hmem call List.mem_cons_self
      have hmine : ∀ o : LogOutcome, o.site = call.site →
          [o].filter (·.site = call.site) = [o] := by
        intro o ho
        exact List.filter_cons_of_pos (by simpa using ho)
      rw [hinfo, houtcome, hmine _ rfl]
      refine haccounts.step limiter.positive hbefore ?_
      have hlt := hcount (currentTimeBucket limiter.secondsBetweenLogs call.timestamp)
      rw [List.countP_append, List.countP_singleton, if_pos (by simp), ← countP_run] at hlt
      exact hlt
    · rw [shouldLog_other hsite, List.filter_singleton, shouldLog_call]
      simpa [hsite] using haccounts

/-- For a site with a file and a line, while no more than 2^32 of its calls fall into one time
bucket: one message at most is let through in every bucket, and the skip counts of those that
are let through and the one that is held are together the number of the suppressed calls. -/
theorem shouldLog_conserves {seconds : Int32} (limiter : LogRateLimiter)
    (hnew : LogRateLimiter.new seconds = some limiter) (calls : List LogCall)
    (site : LogRateBucketKey) (hfile : site.filePath ≠ some []) (hline : site.lineNo ≠ 0)
    (htimes : calls.Pairwise fun c c' => c.timestamp ≤ c'.timestamp)
    (hcount : ∀ b, calls.countP (fun c => c.site = site ∧
      currentTimeBucket seconds c.timestamp = b) ≤ 4294967296) :
    (∀ q, (limiter.run calls).1.countP (fun o => o.site = site ∧ o.logged ∧
        timeBucket seconds o.timestamp = q) ≤ 1) ∧
      (((limiter.run calls).1.filter fun o => o.site = site ∧ o.logged).map
          (·.skipCount.toNat)).sum
          + heldSkipCount ((limiter.run calls).2.buckets.tryGetValue site)
        = (limiter.run calls).1.countP fun o => o.site = site ∧ ¬o.logged := by
  obtain ⟨hempty, rfl⟩ : limiter.buckets = ∅ ∧ limiter.secondsBetweenLogs = seconds := by
    rw [LogRateLimiter.new] at hnew
    split at hnew
    · cases hnew
      exact ⟨rfl, rfl⟩
    · cases hnew
  have h := accounts_run hempty hfile hline htimes hcount
  constructor
  · intro q
    have honce := h.once q
    rw [List.countP_filter] at honce
    refine le_of_eq_of_le (List.countP_congr ?_) honce
    intro o _
    simp only [decide_eq_true_eq, Bool.and_eq_true]
    tauto
  · have hconserved := h.conserved
    rw [List.countP_filter, List.filter_filter] at hconserved
    have hfilter : (limiter.run calls).1.filter (fun o => o.site = site ∧ o.logged)
        = (limiter.run calls).1.filter fun o => o.logged && decide (o.site = site) := by
      apply List.filter_congr
      intro o _
      simp [Bool.and_comm]
    have hcountP : (limiter.run calls).1.countP (fun o => o.site = site ∧ ¬o.logged)
        = (limiter.run calls).1.countP fun o => !o.logged && decide (o.site = site) := by
      apply List.countP_congr
      intro o _
      simp [and_comm]
    rw [hfilter, hcountP, hconserved]

theorem one_le_ten : 1 ≤ (10 : Int32).toInt := by decide

theorem shouldLog_conserves_three :
    LogRateLimiter.new 10 = some ⟨10, ∅, one_le_ten⟩ ∧
      ((((⟨10, ∅, one_le_ten⟩ : LogRateLimiter).run
        ([100, 105, 110].map (LogCall.mk ⟨some (text "a.cs"), 1⟩))).1.filter fun o =>
          o.site = ⟨some (text "a.cs"), 1⟩ ∧ o.logged).map (·.skipCount.toNat)).sum
        + heldSkipCount (((⟨10, ∅, one_le_ten⟩ : LogRateLimiter).run
          ([100, 105, 110].map (LogCall.mk ⟨some (text "a.cs"), 1⟩))).2.buckets.tryGetValue
            ⟨some (text "a.cs"), 1⟩)
      = ((⟨10, ∅, one_le_ten⟩ : LogRateLimiter).run
          ([100, 105, 110].map (LogCall.mk ⟨some (text "a.cs"), 1⟩))).1.countP fun o =>
            o.site = ⟨some (text "a.cs"), 1⟩ ∧ ¬o.logged :=
  ⟨dif_pos one_le_ten, (shouldLog_conserves ⟨10, ∅, one_le_ten⟩ (dif_pos one_le_ten) _ _
    (by decide) (by decide) (by decide)
    fun b => List.countP_le_length.trans (by decide)).2⟩

/-- A site without a file path is never limited. -/
theorem no_file_path_not_limited :
    ¬∀ seconds limiter, LogRateLimiter.new seconds = some limiter →
      ∀ calls : List LogCall, calls.Pairwise (fun c c' => c.timestamp ≤ c'.timestamp) →
        ∀ site q, (limiter.run calls).1.countP (fun o => o.site = site ∧ o.logged ∧
          timeBucket seconds o.timestamp = q) ≤ 1 := by
  intro h
  have htwo := h 10 ⟨10, ∅, one_le_ten⟩ (dif_pos one_le_ten)
    [⟨⟨some [], 1⟩, 100⟩, ⟨⟨some [], 1⟩, 100⟩] (by decide) ⟨some [], 1⟩ 10
  have hrun : ((⟨10, ∅, one_le_ten⟩ : LogRateLimiter).run
      [⟨⟨some [], 1⟩, 100⟩, ⟨⟨some [], 1⟩, 100⟩]).1
      = [⟨⟨⟨some [], 1⟩, 100⟩, true, 0⟩, ⟨⟨⟨some [], 1⟩, 100⟩, true, 0⟩] := rfl
  rw [hrun] at htwo
  revert htwo
  decide

end LogRateLimiter

end DdTrace.Logging
