import Tinox.Data.Windows
import Tinox.Net.Connection

/-!
# The rate limiter

`RateLimiter` keeps the times of the requests that it allowed in the last window.  No window has
more of them than it may, and none is refused while there is room.
-/

namespace Tinox.Net

open Windows

structure RateLimiter where
  maxRequests : Int64
  windowMs : Int64
  requests : List Int64
  deriving DecidableEq

namespace RateLimiter

def new (maxRequests windowMs : Int64) : RateLimiter :=
  ⟨maxRequests, windowMs, []⟩

/-- The loop that `allow` and `remaining` run over the requests: those behind `windowStart`. -/
def validRequests (limiter : RateLimiter) (now : Int64) : List Int64 :=
  let windowStart := now - limiter.windowMs
  limiter.requests.filter fun request => request > windowStart

/-- `RateLimiter.allow`, when `Time.now` is `now`. -/
def allow (limiter : RateLimiter) (now : Int64) : Bool × RateLimiter :=
  let limiter := { limiter with requests := limiter.validRequests now }
  if Int64.ofNat limiter.requests.length < limiter.maxRequests then
    (true, { limiter with requests := limiter.requests ++ [now] })
  else (false, limiter)

/-- `RateLimiter.remaining`, when `Time.now` is `now`. -/
def remaining (limiter : RateLimiter) (now : Int64) : Int64 :=
  limiter.maxRequests - Int64.ofNat (limiter.validRequests now).length

theorem allow_fst (limiter : RateLimiter) (now : Int64) : (limiter.allow now).1 =
    decide (Int64.ofNat (limiter.validRequests now).length < limiter.maxRequests) := by
  rw [allow]
  dsimp only
  split
  next hasRoom => exact (decide_eq_true hasRoom).symm
  next isFull => exact (decide_eq_false isFull).symm

theorem allow_requests (limiter : RateLimiter) (now : Int64) : (limiter.allow now).2.requests =
    limiter.validRequests now ++ if (limiter.allow now).1 then [now] else [] := by
  rw [allow]
  dsimp only
  split
  · rfl
  · exact (List.append_nil _).symm

theorem allow_maxRequests (limiter : RateLimiter) (now : Int64) :
    (limiter.allow now).2.maxRequests = limiter.maxRequests := by
  rw [allow]
  dsimp only
  split <;> rfl

theorem allow_windowMs (limiter : RateLimiter) (now : Int64) :
    (limiter.allow now).2.windowMs = limiter.windowMs := by
  rw [allow]
  dsimp only
  split <;> rfl

/-- Calls of `allow` with their times and answers.  The clock counts from the epoch and does not
go back. -/
inductive Run (maxRequests windowMs : Int64) : List (Int64 × Bool) → RateLimiter → Prop where
  | new : Run maxRequests windowMs [] (RateLimiter.new maxRequests windowMs)
  | allow {calls : List (Int64 × Bool)} {limiter : RateLimiter} {now : Int64} :
      Run maxRequests windowMs calls limiter → 0 ≤ now → (∀ call ∈ calls, call.1 ≤ now) →
      Run maxRequests windowMs (calls ++ [(now, (limiter.allow now).1)]) (limiter.allow now).2

/-- The times of the calls that were allowed. -/
def allowedTimes (calls : List (Int64 × Bool)) : List Int :=
  (calls.filter Prod.snd).map fun call => call.1.toInt

/-- What a limiter promises behind some calls. -/
structure Limits (maxRequests windowMs : Int64) (calls : List (Int64 × Bool)) (limiter : RateLimiter) :
    Prop where
  /-- No window has too many calls that were allowed. -/
  windows : ∀ start, (count start windowMs.toInt (allowedTimes calls) : Int) ≤ maxRequests.toInt
  /-- The next call is refused only if the window before it is full. -/
  refused : ∀ now, 0 ≤ now → (∀ call ∈ calls, call.1 ≤ now) → (limiter.allow now).1 = false →
    (countBefore now.toInt windowMs.toInt (allowedTimes calls) : Int) = maxRequests.toInt
  /-- What remains is what is left of the window. -/
  remaining : ∀ now, 0 ≤ now → (∀ call ∈ calls, call.1 ≤ now) →
    (limiter.remaining now).toInt =
        maxRequests.toInt - countBefore now.toInt windowMs.toInt (allowedTimes calls) ∧
      0 ≤ limiter.remaining now

/-- A clock that counts from the epoch does not wrap when a window is taken off. -/
theorem toInt_windowStart {now windowMs : Int64} (isClock : 0 ≤ now) (positive : 0 < windowMs) :
    (now - windowMs).toInt = now.toInt - windowMs.toInt := by
  have low : 0 ≤ now.toInt := Int64.le_iff_toInt_le.mp isClock
  have high := now.toInt_lt
  have low' : 0 < windowMs.toInt := Int64.lt_iff_toInt_lt.mp positive
  have high' := windowMs.toInt_lt
  rw [Int64.toInt_sub]
  apply Int.bmod_eq_of_le <;> omega

/-- The limiter has its settings, no more requests than it may, and at every later time the
requests of the window. -/
structure Follows (maxRequests windowMs : Int64) (calls : List (Int64 × Bool))
    (limiter : RateLimiter) : Prop where
  sameMax : limiter.maxRequests = maxRequests
  sameWindow : limiter.windowMs = windowMs
  within : (limiter.requests.length : Int) ≤ maxRequests.toInt
  kept : ∀ now, 0 ≤ now → (∀ call ∈ calls, call.1 ≤ now) →
    ((limiter.validRequests now).map Int64.toInt) =
      (allowedTimes calls).filter fun time => now.toInt - windowMs.toInt < time

theorem allowedTimes_concat (calls : List (Int64 × Bool)) (now : Int64) (allowed : Bool) :
    allowedTimes (calls ++ [(now, allowed)]) =
      allowedTimes calls ++ if allowed then [now.toInt] else [] := by
  rw [allowedTimes, List.filter_append, List.map_append]
  cases allowed <;> rfl

theorem allowedTimes_le {calls : List (Int64 × Bool)} {now : Int64}
    (areBefore : ∀ call ∈ calls, call.1 ≤ now) : ∀ time ∈ allowedTimes calls, time ≤ now.toInt := by
  intro time member
  rcases List.mem_map.mp member with ⟨call, isCall, rfl⟩
  exact Int64.le_iff_toInt_le.mp (areBefore call (List.mem_of_mem_filter isCall))

theorem map_filter_requests (requests : List Int64) (windowStart : Int64) :
    (requests.filter fun request => request > windowStart).map Int64.toInt =
      (requests.map Int64.toInt).filter fun time => windowStart.toInt < time := by
  rw [List.filter_map]
  congr 1
  apply List.filter_congr
  intro request _
  rw [Bool.eq_iff_iff, decide_eq_true_eq]
  exact Int64.lt_iff_toInt_lt.trans decide_eq_true_iff.symm

section Kept

variable {maxRequests windowMs : Int64} {calls : List (Int64 × Bool)} {limiter : RateLimiter}

theorem Follows.length_valid (follows : Follows maxRequests windowMs calls limiter) {now : Int64}
    (isClock : 0 ≤ now) (areBefore : ∀ call ∈ calls, call.1 ≤ now) :
    (limiter.validRequests now).length =
      countBefore now.toInt windowMs.toInt (allowedTimes calls) := by
  rw [countBefore_eq (allowedTimes_le areBefore), List.countP_eq_length_filter,
    ← follows.kept now isClock areBefore, List.length_map]

theorem Follows.valid_le (follows : Follows maxRequests windowMs calls limiter) (now : Int64) :
    ((limiter.validRequests now).length : Int) ≤ maxRequests.toInt := by
  have fewer := List.length_filter_le (fun request => decide (request > now - limiter.windowMs))
    limiter.requests
  have within := follows.within
  rw [validRequests]
  omega

theorem Follows.allow_iff (follows : Follows maxRequests windowMs calls limiter) {now : Int64}
    (isClock : 0 ≤ now) (areBefore : ∀ call ∈ calls, call.1 ≤ now) :
    (limiter.allow now).1 ↔
      (countBefore now.toInt windowMs.toInt (allowedTimes calls) : Int) < maxRequests.toInt := by
  have isLength := follows.length_valid isClock areBefore
  have within := follows.valid_le now
  have high := maxRequests.toInt_lt
  have isInt : (Int64.ofNat (limiter.validRequests now).length).toInt =
      (limiter.validRequests now).length := Int64.toInt_ofNat_of_lt (by omega)
  rw [allow_fst, decide_eq_true_eq, follows.sameMax, Int64.lt_iff_toInt_lt, isInt, isLength]

theorem Follows.new (notNegative : 0 ≤ maxRequests) :
    Follows maxRequests windowMs [] (RateLimiter.new maxRequests windowMs) where
  sameMax := rfl
  sameWindow := rfl
  within := Int64.le_iff_toInt_le.mp notNegative
  kept _ _ _ := rfl

theorem Follows.allow (follows : Follows maxRequests windowMs calls limiter) (positive : 0 < windowMs)
    {now : Int64} (isClock : 0 ≤ now) (areBefore : ∀ call ∈ calls, call.1 ≤ now) :
    Follows maxRequests windowMs (calls ++ [(now, (limiter.allow now).1)]) (limiter.allow now).2 where
  sameMax := (allow_maxRequests limiter now).trans follows.sameMax
  sameWindow := (allow_windowMs limiter now).trans follows.sameWindow
  within := by
    have isLength := follows.length_valid isClock areBefore
    have within := follows.valid_le now
    rw [allow_requests, List.length_append]
    split
    next isAllowed =>
      have hasRoom := (follows.allow_iff isClock areBefore).mp isAllowed
      rw [List.length_singleton]
      omega
    next => exact within
  kept later isClock' areBefore' := by
    rw [List.forall_mem_append, List.forall_mem_singleton] at areBefore'
    have isLater : now.toInt ≤ later.toInt := Int64.le_iff_toInt_le.mp areBefore'.2
    rw [validRequests, allow_windowMs, follows.sameWindow, map_filter_requests,
      toInt_windowStart isClock' positive, allow_requests, List.map_append,
      follows.kept now isClock areBefore, List.filter_append, List.filter_filter,
      allowedTimes_concat, List.filter_append]
    congr 1
    · apply List.filter_congr
      intro time _
      rw [Bool.eq_iff_iff, Bool.and_eq_true, decide_eq_true_eq, decide_eq_true_eq]
      exact and_iff_left_of_imp fun isInside => by omega
    · split <;> rfl

theorem Run.follows (notNegative : 0 ≤ maxRequests) (positive : 0 < windowMs)
    (run : Run maxRequests windowMs calls limiter) : Follows maxRequests windowMs calls limiter := by
  induction run with
  | new => exact Follows.new notNegative
  | allow _ isClock areBefore follows => exact follows.allow positive isClock areBefore

theorem Run.windows (notNegative : 0 ≤ maxRequests) (positive : 0 < windowMs)
    (run : Run maxRequests windowMs calls limiter) (start : Int) :
    (count start windowMs.toInt (allowedTimes calls) : Int) ≤ maxRequests.toInt := by
  induction run generalizing start with
  | new => exact Int64.le_iff_toInt_le.mp notNegative
  | @allow calls limiter now run isClock areBefore limited =>
      rw [allowedTimes_concat]
      split
      next isAllowed =>
        have hasRoom := ((run.follows notNegative positive).allow_iff isClock areBefore).mp isAllowed
        have limited' (start : Int) :
            count start windowMs.toInt (allowedTimes calls) ≤ maxRequests.toInt.toNat := by
          have isLimited := limited start
          omega
        have isLimited := count_concat_le (allowedTimes_le areBefore) (by omega) limited' start
        omega
      next =>
        rw [List.append_nil]
        exact limited start

/-- The limiter keeps its promises behind every run. -/
theorem run_limits (notNegative : 0 ≤ maxRequests) (positive : 0 < windowMs)
    (run : Run maxRequests windowMs calls limiter) : Limits maxRequests windowMs calls limiter where
  windows := run.windows notNegative positive
  refused now isClock areBefore isRefused := by
    have follows := run.follows notNegative positive
    have noRoom := mt (follows.allow_iff isClock areBefore).mpr (Bool.eq_false_iff.mp isRefused)
    have isLength := follows.length_valid isClock areBefore
    have within := follows.valid_le now
    omega
  remaining now isClock areBefore := by
    have follows := run.follows notNegative positive
    have isLength := follows.length_valid isClock areBefore
    have within := follows.valid_le now
    have high := maxRequests.toInt_lt
    have isInt : (Int64.ofNat (limiter.validRequests now).length).toInt =
        (limiter.validRequests now).length := Int64.toInt_ofNat_of_lt (by omega)
    have isRemaining : (limiter.remaining now).toInt =
        maxRequests.toInt - (limiter.validRequests now).length := by
      rw [RateLimiter.remaining, follows.sameMax, Int64.toInt_sub, isInt]
      apply Int.bmod_eq_of_le <;> omega
    rw [Int64.le_iff_toInt_le, isRemaining, ← isLength]
    exact ⟨rfl, Int.sub_nonneg_of_le within⟩

end Kept

/-- One request a second: the second one in a second is refused. -/
theorem run_limits_oneASecond :
    Limits 1 1000 [(0, true), (999, false), (1000, true)] ⟨1, 1000, [1000]⟩ := by
  have first : Run 1 1000 [(0, true)] ⟨1, 1000, [0]⟩ :=
    @Run.allow 1 1000 _ _ 0 .new (by decide) (List.forall_mem_nil _)
  have second : Run 1 1000 [(0, true), (999, false)] ⟨1, 1000, [0]⟩ :=
    @Run.allow 1 1000 _ _ 999 first (by decide) (List.forall_mem_singleton.mpr (by decide))
  have third : Run 1 1000 [(0, true), (999, false), (1000, true)] ⟨1, 1000, [1000]⟩ :=
    @Run.allow 1 1000 _ _ 1000 second (by decide)
      (List.forall_mem_cons.mpr ⟨by decide, List.forall_mem_singleton.mpr (by decide)⟩)
  exact run_limits (by decide) (by decide) third

end RateLimiter

end Tinox.Net
