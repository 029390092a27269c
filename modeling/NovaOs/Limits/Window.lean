import NovaOs.Limits.Policy
import Mathlib.Logic.Function.Basic

/-! The share of the CPU a process gets, window after window, over any schedule. -/

namespace NovaOs.Limits

open RlimitState

/-- What happens to a process: the timer ticks, whether it interrupts the process in user mode or
not, and the scheduler takes it or leaves it. -/
inductive Event where
  | tick (fromUser : Bool)
  | switchIn
  | switchOut

variable (rl : RlimitState)

/-- What becomes of the process a tick finds running, and whether that is its end
(`enforce_current`). A process that has used its share is marked and then switched out. -/
def enforceCurrent (now : UInt32) (fromUser : Bool) : RlimitState × Bool :=
  match rl.rlVerdict now with
  | .killCpu => if fromUser then (rl.rlSwitchOut now, true) else (rl, false)
  | .throttle => ((rl.rlThrottle now).rlSwitchOut now, false)
  | .ok => (rl, false)

/-- One process and the clock. The clock the code reads is the last word of the time. -/
structure Watch where
  rl : RlimitState
  time : Nat
  killed : Bool := false
  -- When the first window began, and the ticks the process has run in each.
  anchor : Nat := 0
  ran : Nat → Nat := fun _ => 0

namespace Watch

variable (w : Watch)

def now : UInt32 :=
  .ofNat w.time

/-- The number of the window a time is in. -/
def window (t : Nat) : Nat :=
  (t - w.anchor) / 100

/-- A tick first releases a process that waits (`rlimit_bsp_tick`), then looks at the one running. A
process that waits, or has come to its end, is not taken. -/
def step : Event → Watch
  | .tick fromUser =>
    let now := UInt32.ofNat (w.time + 1)
    let rl := if w.rl.throttled then w.rl.rlTickWindow now else w.rl
    let (rl, ended) :=
      if rl.onCpu && rl.rlNeedsTick then enforceCurrent rl now fromUser else (rl, false)
    { w with
      rl := rl
      time := w.time + 1
      killed := w.killed || ended
      ran := if w.rl.onCpu then
          Function.update w.ran (w.window w.time) (w.ran (w.window w.time) + 1)
        else w.ran }
  | .switchIn =>
    if w.killed || w.rl.throttled || w.rl.onCpu then w
    else
      { w with
        rl := w.rl.rlSwitchIn w.now
        anchor := if w.rl.winValid then w.anchor else w.time }
  | .switchOut => { w with rl := w.rl.rlSwitchOut w.now }

def run (events : List Event) : Watch :=
  events.foldl step w

/-- What a tick must be like for the cap to be kept: the window on record is not half a round of the
clock old, a process that is to be ended is in user mode, and one that is to wait was taken in the
window it is in. -/
def Orderly : Event → Prop
  | .tick fromUser =>
    let now := UInt32.ofNat (w.time + 1)
    (w.rl.winValid = true → (now - w.rl.winStart).toNat < 2 ^ 31) ∧
      (w.rl.onCpu = true → w.rl.rlVerdict now = .killCpu → fromUser = true) ∧
      (w.rl.onCpu = true → w.rl.rlVerdict now = .throttle → (now - w.rl.winStart).toNat < 100)
  | _ => True

/-- A schedule all of whose ticks are like that. -/
def OrderlyRun (w : Watch) : List Event → Prop
  | [] => True
  | event :: rest => w.Orderly event ∧ (w.step event).OrderlyRun rest

end Watch

/-- The ticks of a slice that fall in the window with a given start. -/
def overlap (start stop win : Nat) : Nat :=
  min stop (win + 100) - max start win

/-- The record of a process: the window on record is number `j`, and the slice in progress began at
`s`. What is on record for the window and the slice in progress together are the ticks it has
run. -/
structure Books (p : Nat) (w : Watch) (j s : Nat) : Prop where
  valid : w.rl.winValid = true
  start : w.rl.winStart = .ofNat (w.anchor + 100 * j)
  begun : w.anchor + 100 * j ≤ s
  past : s ≤ w.time
  near : w.time - (w.anchor + 100 * j) < 2 ^ 31
  slice : w.rl.onCpu = true → w.rl.sliceStart = .ofNat s
  off : w.rl.onCpu = false → s = w.time
  used : ∀ i, j ≤ i → w.ran i
    = (if i = j then w.rl.winUsed.toNat else 0) + overlap s w.time (w.anchor + 100 * i)
  capped : ∀ i, w.ran i ≤ p

/-- Where the window that holds a time begins, from the start of an earlier one. -/
theorem rolled_start {win t : Nat} (order : win ≤ t) (near : t - win < 2 ^ 31) :
    UInt32.ofNat win + (UInt32.ofNat t - UInt32.ofNat win) / rlWindowTicks * rlWindowTicks
      = .ofNat (win + 100 * ((t - win) / 100)) := by
  apply UInt32.toNat_inj.mp
  rw [UInt32.toNat_add, UInt32.toNat_mul, UInt32.toNat_div, Ticks.toNat_sub order (by omega),
    UInt32.toNat_ofNat', UInt32.toNat_ofNat', show rlWindowTicks.toNat = 100 from rfl]
  omega

/-- What is added for a slice to the record of the window it ends in. -/
theorem charged_eq {start t win : Nat} {used : UInt32} (order : start ≤ t) (inside : win ≤ t)
    (ends : t < win + 100) (near : t - start < 2 ^ 31) :
    let first : UInt32 :=
      if Ticks.diff (.ofNat start) (.ofNat win) < 0 then .ofNat win else .ofNat start
    (if 0 < Ticks.diff (.ofNat t) first then used + (.ofNat t - first) else used)
      = used + .ofNat (overlap start t win) := by
  -- The slice counts from its own start or the start of the window, whichever is later.
  have first : (if Ticks.diff (.ofNat start) (.ofNat win) < 0 then .ofNat win else .ofNat start)
      = UInt32.ofNat (max start win) := by
    rw [Ticks.diff_eq (by omega) (by omega)]
    split
    · rw [Nat.max_eq_right (by omega)]
    · rw [Nat.max_eq_left (by omega)]
  simp only [first]
  rw [Ticks.diff_eq (by omega) (by omega), overlap, Nat.min_eq_left (by omega)]
  split
  · rw [UInt32.ofNat_sub (by omega)]
  · rw [Nat.sub_eq_zero_of_le (by omega)]
    exact (UInt32.add_zero used).symm

/-- What is on record for a window is not so much that adding to it starts over. -/
theorem charged_toNat {start t win : Nat} {used : UInt32} (small : used.toNat ≤ 100) :
    (used + .ofNat (overlap start t win)).toNat = used.toNat + overlap start t win := by
  rw [UInt32.toNat_add, UInt32.toNat_ofNat', overlap]
  omega

section

variable (rl : RlimitState) {win start t : Nat}

/-- Within the window on record nothing moves. -/
theorem rlRoll_same (record : rl.winStart = .ofNat win) (inside : win ≤ t)
    (ends : t < win + 100) : rl.rlRoll (.ofNat t) = rl := by
  rw [rlRoll, record, Ticks.diff_eq (by omega) (by omega)]
  exact if_pos (by rw [show rlWindowTicks.toNat = 100 from rfl]; omega)

/-- A window seen to be over moves on, and a process that waits is released. -/
theorem rlRoll_over {now : UInt32}
    (ended : ¬Ticks.diff now rl.winStart < rlWindowTicks.toNat) :
    ∃ waited, rl.rlRoll now = { rl with
      winStart := rl.winStart + (now - rl.winStart) / rlWindowTicks * rlWindowTicks, winUsed := 0
      throttled := false, throttledTicks := waited } := by
  rw [rlRoll, if_neg ended]
  by_cases waits : rl.throttled = true
  · exact ⟨_, if_pos waits⟩
  · refine ⟨rl.throttledTicks, (if_neg waits).trans ?_⟩
    rw [Bool.not_eq_true] at waits
    simp only [waits]

theorem rlRoll_moved (record : rl.winStart = .ofNat win) (behind : win + 100 ≤ t)
    (near : t - win < 2 ^ 31) :
    ∃ waited, rl.rlRoll (.ofNat t) = { rl with
      winStart := .ofNat (win + 100 * ((t - win) / 100)), winUsed := 0
      throttled := false, throttledTicks := waited } := by
  rw [← rolled_start (by omega) near, ← record]
  apply rlRoll_over
  rw [record, Ticks.diff_eq (by omega) (by omega), show rlWindowTicks.toNat = 100 from rfl]
  omega

theorem rlCharge_self {now : UInt32} : rl.rlCharge now now = rl :=
  if_pos (by simp [Ticks.diff])

/-- A charge counts from its own start, or from the start of the window that is then on record. -/
theorem rlCharge_rolled {rolled : RlimitState} {begun now : UInt32} (valid : rl.winValid = true)
    (spent : 0 < Ticks.diff now begun)
    (moved : ({ rl with cpuTicks := rl.cpuTicks + (now - begun) } : RlimitState).rlRoll now
      = rolled) :
    let first := if Ticks.diff begun rolled.winStart < 0 then rolled.winStart else begun
    rl.rlCharge begun now = { rolled with
      winUsed := if 0 < Ticks.diff now first then rolled.winUsed + (now - first)
        else rolled.winUsed } := by
  intro first
  rw [rlCharge, if_neg (Int.not_le.2 spent)]
  dsimp only
  rw [if_pos valid, moved]
  generalize same : (if Ticks.diff begun rolled.winStart < 0 then rolled.winStart else begun)
    = from_
  rw [show first = from_ from same]
  split <;> rfl

/-- A slice is added to the record of the window it ends in. -/
theorem rlCharge_eq {rolled : RlimitState} (valid : rl.winValid = true) (order : start < t)
    (near : t - start < 2 ^ 31)
    (moved : ({ rl with cpuTicks := rl.cpuTicks + (.ofNat t - .ofNat start) } : RlimitState).rlRoll
      (.ofNat t) = rolled)
    (record : rolled.winStart = .ofNat win) (inside : win ≤ t) (ends : t < win + 100) :
    rl.rlCharge (.ofNat start) (.ofNat t)
      = { rolled with winUsed := rolled.winUsed + .ofNat (overlap start t win) } := by
  have spent : 0 < Ticks.diff (.ofNat t) (.ofNat start) := by
    rw [Ticks.diff_eq (by omega) (by omega)]
    omega
  rw [rlCharge_rolled rl valid spent moved, record,
    charged_eq (Nat.le_of_lt order) inside ends near]

end

section

variable {p : Nat} {w : Watch} {j s : Nat}

theorem Books.window_eq (books : Books p w j s) :
    w.window w.time = j + (w.time - (w.anchor + 100 * j)) / 100 := by
  have begun := books.begun
  have past := books.past
  rw [Watch.window]
  omega

/-- What is on record is never more than was run. -/
theorem Books.winUsed_le (small : p ≤ 100) (books : Books p w j s) : w.rl.winUsed.toNat ≤ 100 := by
  have used := books.used j (Nat.le_refl j)
  have capped := books.capped j
  rw [if_pos rfl] at used
  omega

/-- The code's measure of the current window is the ticks run in it. -/
theorem Books.windowUsed (small : p ≤ 100) (books : Books p w j s) :
    (w.rl.rlWindowUsed w.now).toNat = w.ran (w.window w.time) := by
  have winUsed := books.winUsed_le small
  have window := books.window_eq
  obtain ⟨valid, start, begun, past, near, slice, off, used, capped⟩ := books
  have diff : Ticks.diff w.now w.rl.winStart = (w.time : Int) - (w.anchor + 100 * j : Nat) := by
    rw [start, Watch.now, Ticks.diff_eq (by omega) (by omega)]
  obtain ⟨k, quotient⟩ : ∃ k, k = (w.time - (w.anchor + 100 * j)) / 100 := ⟨_, rfl⟩
  have place : w.anchor + 100 * (j + k) = w.anchor + 100 * j + 100 * k := by omega
  rw [window, used _ (by omega), ← quotient, place]
  simp only [rlWindowUsed, valid, Bool.not_true, Bool.false_eq_true, if_false, diff]
  -- The window is the one on record, or one behind it with nothing on record yet.
  by_cases moved : 100 ≤ w.time - (w.anchor + 100 * j)
  · have later : ((rlWindowTicks.toNat : Int) ≤ w.time - (w.anchor + 100 * j : Nat)) := by
      rw [show rlWindowTicks.toNat = 100 from rfl]
      omega
    simp only [later, decide_true, if_true, if_neg (show ¬j + k = j by omega), start, Watch.now]
    rw [rolled_start (by omega) near, ← quotient]
    cases cpu : w.rl.onCpu with
    | true =>
      rw [if_pos rfl, slice cpu, charged_eq past (by omega) (by omega) (by omega)]
      exact charged_toNat (by decide)
    | false =>
      have off := off cpu
      simp only [Bool.false_eq_true, if_false, overlap, UInt32.toNat_zero]
      omega
  · have same : ¬((rlWindowTicks.toNat : Int) ≤ w.time - (w.anchor + 100 * j : Nat)) := by
      rw [show rlWindowTicks.toNat = 100 from rfl]
      omega
    obtain rfl : k = 0 := by omega
    simp only [same, decide_false, Bool.false_eq_true, if_false, Nat.add_zero, if_true,
      Nat.mul_zero, start, Watch.now]
    cases cpu : w.rl.onCpu with
    | true =>
      rw [if_pos rfl, slice cpu, charged_eq past (by omega) (by omega) (by omega)]
      exact charged_toNat winUsed
    | false =>
      have off := off cpu
      simp only [Bool.false_eq_true, if_false, overlap]
      omega

/-- With the slice on record, the record alone is the ticks run. -/
theorem Books.recorded {after : RlimitState} {i : Nat} (books : Books p w j s)
    (valid : after.winValid = true) (off : after.onCpu = false) (later : j ≤ i)
    (start : after.winStart = .ofNat (w.anchor + 100 * i)) (inside : w.anchor + 100 * i ≤ w.time)
    (ends : w.time < w.anchor + 100 * i + 100)
    (used : after.winUsed.toNat = w.ran i) : Books p { w with rl := after } i w.time where
  valid := valid
  start := start
  begun := inside
  past := Nat.le_refl _
  near := by simp only; omega
  slice cpu := by simp [off] at cpu
  off _ := rfl
  used k behind := by
    simp only
    by_cases same : k = i
    · rw [if_pos same, same, used, overlap]
      omega
    · -- The windows behind the current one have not come yet.
      have past := books.past
      rw [if_neg same, books.used k (by omega), if_neg (by omega), overlap, overlap]
      omega
  capped := books.capped

/-- Switching a process out puts the slice on record. A process that is to wait is not released by
this, as long as it was taken in the window it is in. -/
theorem Books.switchOut (small : p ≤ 100) (books : Books p w j s) (cpu : w.rl.onCpu = true)
    (waits : w.rl.throttled = true → w.time < w.anchor + 100 * j + 100) :
    ∃ i, Books p { w with rl := w.rl.rlSwitchOut w.now } i w.time ∧
      (w.rl.rlSwitchOut w.now).throttled = w.rl.throttled ∧
      (w.time < w.anchor + 100 * j + 100 → i = j) := by
  have winUsed := books.winUsed_le small
  have begun := books.begun
  have past := books.past
  have near := books.near
  have out : w.rl.rlSwitchOut w.now
      = { w.rl.rlCharge (.ofNat s) (.ofNat w.time) with onCpu := false } := by
    rw [rlSwitchOut, cpu, books.slice cpu]
    rfl
  rw [out]
  by_cases none : s = w.time
  · -- There is no time to charge.
    rw [none, rlCharge_self]
    refine ⟨j, ⟨books.valid, books.start, by simp only; omega, Nat.le_refl _, near,
      fun absurd => by simp at absurd, fun _ => rfl, ?_, books.capped⟩, rfl, fun _ => rfl⟩
    simpa only [none] using books.used
  by_cases moved : w.anchor + 100 * j + 100 ≤ w.time
  · -- The window on record is over: the slice is charged to the one that has come.
    have free : w.rl.throttled = false := by
      cases mark : w.rl.throttled with
      | false => rfl
      | true => exact absurd (waits mark) (by omega)
    obtain ⟨waited, rolled⟩ := rlRoll_moved
      { w.rl with cpuTicks := w.rl.cpuTicks + (.ofNat w.time - .ofNat s) }
      books.start moved near
    rw [rlCharge_eq w.rl books.valid (by omega) (by omega) rolled rfl (by omega) (by omega)]
    obtain ⟨i, number⟩ : ∃ i, i = j + (w.time - (w.anchor + 100 * j)) / 100 := ⟨_, rfl⟩
    have place : w.anchor + 100 * j + 100 * ((w.time - (w.anchor + 100 * j)) / 100)
        = w.anchor + 100 * i := by
      omega
    rw [place]
    refine ⟨i, books.recorded books.valid rfl (by omega) rfl (by omega) (by omega) ?_, free.symm,
      fun early => by omega⟩
    rw [books.used i (by omega), if_neg (by omega)]
    exact charged_toNat (Nat.zero_le 100)
  · have same := rlRoll_same (t := w.time)
      { w.rl with cpuTicks := w.rl.cpuTicks + (.ofNat w.time - .ofNat s) }
      books.start (by omega) (by omega)
    rw [rlCharge_eq w.rl books.valid (by omega) (by omega) same books.start (by omega) (by omega)]
    refine ⟨j, books.recorded books.valid rfl (Nat.le_refl j) books.start (by omega) (by omega) ?_,
      rfl, fun _ => rfl⟩
    rw [books.used j (Nat.le_refl j), if_pos rfl]
    exact charged_toNat winUsed

/-- A tick of a process that runs is run in the window the tick began in. -/
theorem overlap_succ {start t win : Nat} (order : start ≤ t) :
    overlap start (t + 1) win
      = overlap start t win + if win ≤ t ∧ t < win + 100 then 1 else 0 := by
  unfold overlap
  split <;> omega

/-- Time goes on for a process that runs. -/
theorem Books.tickOn (books : Books p w j s) (cpu : w.rl.onCpu = true)
    (free : w.ran (w.window w.time) < p)
    (near : (UInt32.ofNat (w.time + 1) - w.rl.winStart).toNat < 2 ^ 31) :
    Books p { w with
      time := w.time + 1
      ran := Function.update w.ran (w.window w.time) (w.ran (w.window w.time) + 1) } j s := by
  obtain ⟨valid, start, begun, past, before, slice, off, used, capped⟩ := books
  rw [start, Ticks.toNat_sub (by omega) (by omega)] at near
  refine ⟨valid, start, begun, by simp only; omega, near, slice, fun absurd => ?_, ?_, ?_⟩
  · simp [cpu] at absurd
  · intro i later
    simp only
    rw [overlap_succ past]
    by_cases here : i = w.window w.time
    · have inside : w.anchor + 100 * i ≤ w.time ∧ w.time < w.anchor + 100 * i + 100 := by
        rw [here, Watch.window]
        omega
      rw [if_pos inside, here, Function.update_self, ← Nat.add_assoc, ← here, used i later]
    · have outside : ¬(w.anchor + 100 * i ≤ w.time ∧ w.time < w.anchor + 100 * i + 100) := by
        rw [Watch.window] at here
        omega
      rw [if_neg outside, Function.update_of_ne here, Nat.add_zero, used i later]
  · intro i
    by_cases here : i = w.window w.time
    · simp only [here, Function.update_self]
      omega
    · simp only [Function.update_of_ne here]
      exact capped i

/-- Time goes on for a process that does not. -/
theorem Books.tickOff (books : Books p w j s) (cpu : w.rl.onCpu = false)
    (near : (UInt32.ofNat (w.time + 1) - w.rl.winStart).toNat < 2 ^ 31) :
    Books p { w with time := w.time + 1 } j (w.time + 1) := by
  obtain ⟨valid, start, begun, past, before, slice, off, used, capped⟩ := books
  rw [start, Ticks.toNat_sub (by omega) (by omega)] at near
  obtain rfl := off cpu
  refine ⟨valid, start, by simp only; omega, Nat.le_refl _, near, fun absurd => ?_,
    fun _ => rfl, ?_, capped⟩
  · simp [cpu] at absurd
  · intro i later
    rw [used i later]
    simp only [overlap]
    omega

/-- The window of a process that waits is over: it starts the next one with nothing used. -/
theorem Books.release (books : Books p w j s) (cpu : w.rl.onCpu = false)
    (ends : w.time = w.anchor + 100 * j + 100) :
    Books p { w with rl := w.rl.rlRoll w.now } (j + 1) w.time ∧
      (w.rl.rlRoll w.now).throttled = false := by
  have last := books.off cpu
  obtain ⟨waited, rolled⟩ := rlRoll_moved w.rl books.start (Nat.le_of_eq ends.symm) books.near
  rw [Watch.now, rolled]
  refine ⟨books.recorded books.valid cpu (by omega) ?_ (by omega) (by omega) ?_, rfl⟩
  · exact congrArg UInt32.ofNat (by omega)
  · rw [books.used (j + 1) (by omega), if_neg (by omega), overlap, UInt32.toNat_zero]
    omega

end

/-- What holds of a process with a cap all the time: no window has more ticks run in it than the cap
allows, and the current one has fewer, unless the process waits for its end. -/
structure Kept (p : Nat) (w : Watch) : Prop where
  percent : w.rl.cpuPercent.toNat = p
  idle : w.rl.winValid = false →
    w.rl.onCpu = false ∧ w.rl.throttled = false ∧ ∀ i, w.ran i = 0
  books : w.rl.winValid = true → ∃ j s, Books p w j s ∧
    (w.rl.throttled = true → w.rl.onCpu = false ∧ w.time < w.anchor + 100 * j + 100)
  free : w.rl.throttled = false → w.killed = false → w.ran (w.window w.time) < p
  ended : w.killed = true → w.rl.onCpu = false

theorem percent_ne_zero {p : Nat} {rl : RlimitState} (percent : rl.cpuPercent.toNat = p)
    (some : 1 ≤ p) : rl.cpuPercent ≠ 0 := by
  intro zero
  rw [zero, UInt32.toNat_zero] at percent
  omega

theorem budget_eq {p : Nat} (small : p ≤ 100) {rl : RlimitState}
    (percent : rl.cpuPercent.toNat = p) (some : 1 ≤ p) : rl.rlBudget.toNat = p := by
  rw [rlBudget, if_neg (percent_ne_zero percent some), UInt32.toNat_div, UInt32.toNat_mul, percent,
    show rlWindowTicks.toNat = 100 from rfl, show (100 : UInt32).toNat = 100 from rfl]
  omega

section

variable (rl : RlimitState) (start now : UInt32)

@[simp] theorem rlRoll_cpuPercent : (rl.rlRoll now).cpuPercent = rl.cpuPercent := by
  simp only [rlRoll, apply_ite cpuPercent, ite_self]

@[simp] theorem rlRoll_onCpu : (rl.rlRoll now).onCpu = rl.onCpu := by
  simp only [rlRoll, apply_ite onCpu, ite_self]

@[simp] theorem rlCharge_cpuPercent : (rl.rlCharge start now).cpuPercent = rl.cpuPercent := by
  simp only [rlCharge, apply_ite cpuPercent, rlRoll_cpuPercent, ite_self]

@[simp] theorem rlSwitchOut_cpuPercent : (rl.rlSwitchOut now).cpuPercent = rl.cpuPercent := by
  simp only [rlSwitchOut, apply_ite cpuPercent, rlCharge_cpuPercent, ite_self]

end

section

variable {p : Nat} {w : Watch} {j s : Nat} {fromUser : Bool}

/-- What a tick finds in a process that runs. -/
theorem verdict_ok (small : p ≤ 100) (some : 1 ≤ p) (books : Books p w j s)
    (percent : w.rl.cpuPercent.toNat = p) (waits : w.rl.throttled = false)
    (ok : w.rl.rlVerdict w.now = .ok) : w.ran (w.window w.time) < p := by
  have nonzero := percent_ne_zero percent some
  rw [← books.windowUsed small, ← budget_eq small percent some]
  unfold rlVerdict at ok
  split at ok
  · cases ok
  split at ok
  · cases ok
  · rename_i less
    simp only [nonzero, ne_eq, not_false_eq_true, waits, Bool.not_false, true_and] at less
    exact Nat.lt_of_not_le less

theorem Books.kept (books : Books p w j s) (percent : w.rl.cpuPercent.toNat = p)
    (waits : w.rl.throttled = true → w.rl.onCpu = false ∧ w.time < w.anchor + 100 * j + 100)
    (free : w.rl.throttled = false → w.killed = false → w.ran (w.window w.time) < p)
    (ended : w.killed = true → w.rl.onCpu = false) : Kept p w where
  percent := percent
  idle invalid := absurd (invalid.symm.trans books.valid) Bool.false_ne_true
  books _ := ⟨j, s, books, waits⟩
  free := free
  ended := ended

/-- A process that runs has a record, does not wait and has not come to its end. -/
theorem Kept.running (kept : Kept p w) (cpu : w.rl.onCpu = true) :
    w.rl.winValid = true ∧ w.rl.throttled = false ∧ w.killed = false := by
  have valid : w.rl.winValid = true := by
    by_contra none
    simp [(kept.idle (by simpa using none)).1] at cpu
  obtain ⟨j, s, -, waits⟩ := kept.books valid
  refine ⟨valid, ?_, ?_⟩
  · by_contra mark
    simp [(waits (by simpa using mark)).1] at cpu
  · by_contra killed
    simp [kept.ended (by simpa using killed)] at cpu

/-- Only a process that does not wait is put on the CPU. -/
theorem Kept.switchIn (some : 1 ≤ p) (kept : Kept p w) : Kept p (w.step .switchIn) := by
  rw [Watch.step]
  split
  · exact kept
  rename_i off
  simp only [Bool.or_eq_true, not_or, Bool.not_eq_true] at off
  obtain ⟨⟨alive, waits⟩, cpu⟩ := off
  cases valid : w.rl.winValid with
  | false =>
    -- The first window begins.
    have none := (kept.idle valid).2.2
    have fresh : Books p { w with rl := w.rl.rlSwitchIn w.now, anchor := w.time } 0 w.time := by
      refine ⟨?_, ?_, Nat.le_refl _, Nat.le_refl _, ?_, fun _ => ?_, fun _ => rfl, ?_, ?_⟩
      · simp [rlSwitchIn, valid]
      · simp [rlSwitchIn, valid, Watch.now]
      · simp
      · simp [rlSwitchIn, valid, Watch.now]
      · intro i _
        simp only [rlSwitchIn, valid, none, overlap, Bool.not_false, if_true,
          UInt32.toNat_zero, ite_self]
        omega
      · simp [none]
    simp only [Bool.false_eq_true, if_false]
    refine fresh.kept ?_ (fun mark => ?_) (fun _ _ => ?_) (fun killed => ?_)
    · simpa [rlSwitchIn, valid] using kept.percent
    · simp [rlSwitchIn, valid, waits] at mark
    · rw [none]
      exact some
    · simp [alive] at killed
  | true =>
    obtain ⟨j, s, books, -⟩ := kept.books valid
    have last := books.off cpu
    have into : w.rl.rlSwitchIn w.now = { w.rl with sliceStart := w.now, onCpu := true } := by
      simp [rlSwitchIn, valid]
    simp only [if_true, into]
    have taken : Books p { w with rl := { w.rl with sliceStart := w.now, onCpu := true } } j s :=
      { books with slice := fun _ => by rw [last]; rfl, off := fun absurd => by simp at absurd }
    refine taken.kept kept.percent (fun mark => ?_) kept.free (fun killed => ?_)
    · simp [waits] at mark
    · simp [alive] at killed

theorem Kept.switchOut (small : p ≤ 100) (kept : Kept p w) : Kept p (w.step .switchOut) := by
  rw [Watch.step]
  cases cpu : w.rl.onCpu with
  | false =>
    have same : w.rl.rlSwitchOut w.now = w.rl := by simp [rlSwitchOut, cpu]
    rw [same]
    exact kept
  | true => ?_
  obtain ⟨valid, waits, alive⟩ := kept.running cpu
  obtain ⟨j, s, books, -⟩ := kept.books valid
  obtain ⟨i, after, mark, -⟩ := books.switchOut small cpu (fun absurd => by simp [waits] at absurd)
  refine after.kept (by simpa using kept.percent) (fun marked => ?_) (fun _ => kept.free waits)
    (fun _ => ?_)
  · simp [mark, waits] at marked
  · simp [rlSwitchOut, cpu]

/-- A tick while the process waits: it is released exactly if a window has ended. -/
theorem Kept.tickWaiting (some : 1 ≤ p) (kept : Kept p w) (mark : w.rl.throttled = true)
    (fromUser : Bool) :
    Kept p (w.step (.tick fromUser)) ∧
      ((w.step (.tick fromUser)).rl.throttled = false ↔
        w.window (w.time + 1) ≠ w.window w.time) := by
  have valid : w.rl.winValid = true := by
    by_contra none
    simp [(kept.idle (by simpa using none)).2.1] at mark
  obtain ⟨j, s, books, waits⟩ := kept.books valid
  obtain ⟨cpu, early⟩ := waits mark
  have begun := books.begun
  have last := books.off cpu
  have before : w.window w.time = j := by
    rw [Watch.window]
    omega
  have next : Books p { w with time := w.time + 1 } j (w.time + 1) := by
    refine books.tickOff cpu ?_
    rw [books.start, Ticks.toNat_sub (by omega) (by omega)]
    omega
  have ticked : w.step (.tick fromUser)
      = { w with rl := w.rl.rlRoll (.ofNat (w.time + 1)), time := w.time + 1 } := by
    simp [Watch.step, mark, rlTickWindow, valid, cpu]
  rw [ticked]
  -- The window ends with this tick, or the mark stays.
  by_cases ends : w.time + 1 = w.anchor + 100 * j + 100
  · obtain ⟨after, released⟩ := next.release cpu ends
    have now : w.window (w.time + 1) = j + 1 := by
      rw [Watch.window]
      omega
    refine ⟨after.kept (by simpa using kept.percent) (fun marked => ?_) (fun _ _ => ?_)
      (fun _ => by simp [cpu]), iff_of_true released (by omega)⟩
    · cases marked.symm.trans released
    · have fresh := next.used (j + 1) (by omega)
      simp only [if_neg (show ¬j + 1 = j by omega), overlap] at fresh
      show w.ran (w.window (w.time + 1)) < p
      rw [now]
      omega
  · have same := rlRoll_same w.rl (t := w.time + 1) books.start (by omega) (by omega)
    have now : w.window (w.time + 1) = j := by
      rw [Watch.window]
      omega
    rw [same]
    refine ⟨next.kept kept.percent (fun _ => ⟨cpu, by simp only; omega⟩) (fun free => ?_)
      kept.ended, iff_of_false (by simp [mark]) (by omega)⟩
    simp [mark] at free

/-- A tick while the process neither runs nor waits. -/
theorem Kept.tickOff (some : 1 ≤ p) (kept : Kept p w) (cpu : w.rl.onCpu = false)
    (waits : w.rl.throttled = false) (orderly : w.Orderly (.tick fromUser)) :
    Kept p (w.step (.tick fromUser)) := by
  have ticked : w.step (.tick fromUser) = { w with time := w.time + 1 } := by
    simp [Watch.step, waits, cpu]
  rw [ticked]
  cases valid : w.rl.winValid with
  | false =>
    obtain ⟨-, -, none⟩ := kept.idle valid
    exact ⟨kept.percent, kept.idle, fun absurd => by simp [valid] at absurd,
      fun _ _ => by simp only [none]; exact some, kept.ended⟩
  | true => ?_
  obtain ⟨j, s, books, -⟩ := kept.books valid
  have next := books.tickOff cpu (orderly.1 valid)
  have window := books.window_eq
  refine next.kept kept.percent (fun mark => by simp [waits] at mark) (fun _ alive => ?_) kept.ended
  have free := kept.free waits alive
  by_cases same : w.window (w.time + 1) = w.window w.time
  · show w.ran (w.window (w.time + 1)) < p
    rw [same]
    exact free
  -- A window has begun that the process has not run in.
  have later : w.window w.time < w.window (w.time + 1) := by
    simp only [Watch.window] at same ⊢
    omega
  have fresh := next.used (w.window (w.time + 1)) (by omega)
  simp only [if_neg (show ¬w.window (w.time + 1) = j by omega), overlap] at fresh
  show w.ran (w.window (w.time + 1)) < p
  omega

theorem Books.throttle (books : Books p w j s) (now : UInt32) :
    Books p { w with rl := w.rl.rlThrottle now } j s :=
  { books with }

theorem Books.kill (books : Books p w j s) (killed : Bool) :
    Books p { w with killed := killed } j s :=
  { books with }

/-- A tick looks at a process that runs, once the time has gone on. -/
theorem Books.enforce (small : p ≤ 100) (some : 1 ≤ p) (books : Books p w j s)
    (percent : w.rl.cpuPercent.toNat = p) (cpu : w.rl.onCpu = true)
    (waits : w.rl.throttled = false) (killed : w.rl.rlVerdict w.now = .killCpu → fromUser = true)
    (throttled : w.rl.rlVerdict w.now = .throttle → (w.now - w.rl.winStart).toNat < 100) :
    Kept p { w with
      rl := (enforceCurrent w.rl w.now fromUser).1
      killed := (enforceCurrent w.rl w.now fromUser).2 } := by
  have begun := books.begun
  have past := books.past
  have near := books.near
  cases verdict : w.rl.rlVerdict w.now with
  | killCpu =>
    obtain ⟨i, after, mark, -⟩ :=
      books.switchOut small cpu (fun absurd => by simp [waits] at absurd)
    simp only [enforceCurrent, verdict, killed verdict, if_true]
    refine (after.kill true).kept (by simpa using percent) (fun marked => ?_)
      (fun _ alive => by simp at alive) (fun _ => by simp [rlSwitchOut, cpu])
    simp [mark, waits] at marked
  | throttle =>
    -- The window on record is the current one, so that switching out does not release the process.
    have early := throttled verdict
    rw [books.start, Watch.now, Ticks.toNat_sub (by omega) (by omega)] at early
    obtain ⟨i, after, mark, window⟩ := (books.throttle w.now).switchOut small cpu
      (fun _ => by simp only; omega)
    obtain rfl := window (by simp only; omega)
    simp only [enforceCurrent, verdict]
    refine (after.kill false).kept (by simpa [rlThrottle] using percent) (fun _ => ?_)
      (fun free => ?_) (fun absurd => by simp at absurd)
    · exact ⟨by simp [rlSwitchOut, rlThrottle, cpu], by simp only; omega⟩
    · exact absurd (free.symm.trans mark) Bool.false_ne_true
  | ok =>
    simp only [enforceCurrent, verdict]
    have less := verdict_ok small some books percent waits verdict
    exact (books.kill false).kept percent (fun mark => by simp [waits] at mark) (fun _ _ => less)
      (fun absurd => by simp at absurd)

/-- A tick while the process runs. -/
theorem Kept.tickOn (small : p ≤ 100) (some : 1 ≤ p) (kept : Kept p w) (cpu : w.rl.onCpu = true)
    (orderly : w.Orderly (.tick fromUser)) : Kept p (w.step (.tick fromUser)) := by
  obtain ⟨valid, waits, alive⟩ := kept.running cpu
  obtain ⟨j, s, books, -⟩ := kept.books valid
  obtain ⟨near, killed, throttled⟩ := orderly
  have next := books.tickOn cpu (kept.free waits alive) (near valid)
  have looks : w.rl.rlNeedsTick = true := by
    simp [rlNeedsTick, percent_ne_zero kept.percent some]
  have enforced := next.enforce small some kept.percent cpu waits (killed cpu) (throttled cpu)
  simp only [Watch.step, waits, cpu, looks, alive, Bool.false_eq_true, if_false, if_true,
    Bool.and_self, Bool.false_or]
  exact enforced

/-- One event keeps the account of the window. -/
theorem Kept.step (small : p ≤ 100) (some : 1 ≤ p) (kept : Kept p w) {event : Event}
    (orderly : w.Orderly event) : Kept p (w.step event) := by
  cases event with
  | switchIn => exact kept.switchIn some
  | switchOut => exact kept.switchOut small
  | tick fromUser => ?_
  cases cpu : w.rl.onCpu with
  | true => exact kept.tickOn small some cpu orderly
  | false =>
    cases waits : w.rl.throttled with
    | true => exact (kept.tickWaiting some waits fromUser).1
    | false => exact kept.tickOff some cpu waits orderly

theorem Kept.run (small : p ≤ 100) (some : 1 ≤ p) (kept : Kept p w) {events : List Event}
    (orderly : w.OrderlyRun events) : Kept p (w.run events) := by
  induction events generalizing w with
  | nil => exact kept
  | cons event rest ih => exact ih (kept.step small some orderly.1) orderly.2

end

/-- A process that has just been created, with a cap, at some time. -/
def Watch.created (p : UInt32) (time : Nat) : Watch where
  rl := { rlReset with
    maxVmPages := rl.maxVmPages, cpuTimeTicks := rl.cpuTimeTicks, maxProcs := rl.maxProcs
    quotaRoot := rl.quotaRoot, cpuPercent := p }
  time := time

theorem Watch.created_kept {p : UInt32} (some : 1 ≤ p.toNat) (time : Nat) :
    Kept p.toNat (Watch.created rl p time) where
  percent := rfl
  idle _ := ⟨rfl, rfl, fun _ => rfl⟩
  books valid := by cases valid
  free _ _ := some
  ended killed := by cases killed

/-- On any orderly schedule, a process with a cap runs in no window for more ticks than its budget;
and while it waits, it is released by the first tick after the window. -/
theorem cpu_cap_kept (rl : RlimitState) (p : UInt32) (time : Nat) (events : List Event)
    (some : 1 ≤ p.toNat) (small : p.toNat ≤ 100)
    (orderly : (Watch.created rl p time).OrderlyRun events) :
    let w := (Watch.created rl p time).run events
    (∀ i, w.ran i ≤ w.rl.rlBudget.toNat) ∧
      (w.rl.throttled = true → ∀ fromUser,
        (w.step (.tick fromUser)).rl.throttled = false ↔
          w.window (w.time + 1) ≠ w.window w.time) := by
  have kept := (Watch.created_kept rl some time).run small some orderly
  refine ⟨fun i => ?_, fun mark fromUser => (kept.tickWaiting some mark fromUser).2⟩
  rw [budget_eq small kept.percent some]
  cases valid : ((Watch.created rl p time).run events).rl.winValid with
  | false =>
    rw [(kept.idle valid).2.2 i]
    exact Nat.zero_le _
  | true =>
    obtain ⟨j, s, books, -⟩ := kept.books valid
    exact books.capped i

theorem cpu_cap_kept_one :
    let w := (Watch.created {} 1 0).run [.switchIn, .tick true]
    w.rl.throttled = true ∧ w.ran 0 = 1 ∧ w.ran 0 ≤ w.rl.rlBudget.toNat ∧
      ((w.step (.tick true)).rl.throttled = false ↔ w.window (w.time + 1) ≠ w.window w.time) := by
  have orderly : (Watch.created {} 1 0).OrderlyRun [.switchIn, .tick true] :=
    ⟨trivial, ⟨by decide, by decide, by decide⟩, trivial⟩
  have kept := cpu_cap_kept {} 1 0 [.switchIn, .tick true] (by decide) (by decide) orderly
  exact ⟨by decide, by decide, kept.1 0, kept.2 (by decide) true⟩

/-- A process taken just before a window ends is marked when it has used its share of the next, and
released in the same breath by being switched out: it runs for a second tick on a budget of one. -/
theorem throttle_lost :
    let w := (Watch.created {} 1 0).run
      ([.switchIn, .switchOut] ++ List.replicate 99 (.tick true) ++
        [.switchIn, .tick true, .tick true, .switchIn, .tick true])
    w.rl.rlBudget.toNat = 1 ∧ w.ran 1 = 2 := by
  decide +kernel

end NovaOs.Limits
