import NovaOs.Limits.Window

/-! The CPU time on record, against the time a process has run. -/

namespace NovaOs.Limits

/-- Whether a window is seen to be over so many ticks after its start, the ticks being taken as a
signed word. -/
def SeenOver (elapsed : Nat) : Prop :=
  100 ≤ elapsed % 2 ^ 32 ∧ elapsed % 2 ^ 32 < 2 ^ 31

instance decidableSeenOver (elapsed : Nat) : Decidable (SeenOver elapsed) :=
  inferInstanceAs (Decidable (_ ∧ _))

/-- The window on record is the one a time is in, what is used of it lies in it, and the process
does not wait. -/
def RlimitState.Current (rl : RlimitState) (now spent : UInt32) : Prop :=
  (now - rl.winStart).toNat < 100 ∧
    rl.winUsed.toNat = min spent.toNat (now - rl.winStart).toNat ∧ rl.throttled = false

theorem elapsed_toNat {start : UInt32} {e : Nat} :
    (start + .ofNat e - start).toNat = e % 2 ^ 32 := by
  rw [UInt32.add_comm, UInt32.add_sub_cancel, UInt32.toNat_ofNat']

theorem seenOver_iff (start : UInt32) (e : Nat) :
    SeenOver e ↔ ¬Ticks.diff (start + .ofNat e) start < rlWindowTicks.toNat := by
  rw [Ticks.diff_toNat, elapsed_toNat, SeenOver, show rlWindowTicks.toNat = 100 from rfl]
  split <;> omega

/-- What a charge adds to a window that has just begun lies in it. -/
theorem clipped_toNat {now begun win : UInt32} (inside : (now - win).toNat < 100)
    (spent : 0 < Ticks.diff now begun) :
    let first := if Ticks.diff begun win < 0 then win else begun
    (if 0 < Ticks.diff now first then 0 + (now - first) else 0).toNat
      = min (now - begun).toNat (now - win).toNat := by
  intro first
  have bounds := And.intro begun.toNat_lt (And.intro win.toNat_lt now.toNat_lt)
  by_cases before : Ticks.diff begun win < 0
  · rw [show first = win from if_pos before, UInt32.zero_add, apply_ite UInt32.toNat,
      Ticks.diff_toNat, if_pos (show (now - win).toNat < 2 ^ 31 by omega), UInt32.toNat_zero]
    simp only [Ticks.diff_toNat, UInt32.toNat_sub] at before inside spent ⊢
    split at before <;> split at spent <;> split <;> omega
  · rw [show first = begun from if_neg before, if_pos spent, UInt32.zero_add]
    simp only [Ticks.diff_toNat, UInt32.toNat_sub] at before inside spent ⊢
    split at before <;> split at spent <;> omega

/-- A window that is seen to be over is left, by a check and by a charge of some ticks. -/
theorem current_of_seenOver {rl : RlimitState} (begun : UInt32) {e : Nat}
    (valid : rl.winValid = true) (ended : SeenOver e) :
    let now := rl.winStart + .ofNat e
    (rl.rlRoll now).Current now 0 ∧
      (0 < Ticks.diff now begun → (rl.rlCharge begun now).Current now (now - begun)) := by
  intro now
  have inside : (now - (rl.winStart
      + (now - rl.winStart) / rlWindowTicks * rlWindowTicks)).toNat < 100 := by
    rw [UInt32.toNat_sub, UInt32.toNat_add, UInt32.toNat_mul, UInt32.toNat_div, elapsed_toNat,
      UInt32.toNat_add, UInt32.toNat_ofNat', show rlWindowTicks.toNat = 100 from rfl]
    omega
  have passed := (seenOver_iff rl.winStart e).1 ended
  obtain ⟨waited, rolled⟩ := rlRoll_over rl passed
  obtain ⟨also, moved⟩ := rlRoll_over { rl with cpuTicks := rl.cpuTicks + (now - begun) } passed
  refine ⟨rolled ▸ ⟨inside, rfl, rfl⟩, fun spent => ?_⟩
  rw [rlCharge_rolled rl valid spent moved]
  exact ⟨inside, clipped_toNat inside spent, rfl⟩

/-- A charge that is of no ticks, or of a window that is not seen to be over, leaves the window. -/
theorem rlCharge_stays {rl : RlimitState} {begun : UInt32} {e : Nat} (valid : rl.winValid = true)
    (stays : ¬(SeenOver e ∧ 0 < Ticks.diff (rl.winStart + .ofNat e) begun)) :
    let charged := rl.rlCharge begun (rl.winStart + .ofNat e)
    charged.winStart = rl.winStart ∧ charged.throttled = rl.throttled := by
  by_cases spent : 0 < Ticks.diff (rl.winStart + .ofNat e) begun
  · have early := not_not.1 (mt (seenOver_iff rl.winStart e).2 fun ended => stays ⟨ended, spent⟩)
    rw [rlCharge_rolled rl valid spent (if_pos early)]
    exact ⟨rfl, rfl⟩
  · rw [RlimitState.rlCharge, if_pos (Int.not_lt.1 spent)]
    exact ⟨rfl, rfl⟩

/-- A check of the window moves it to the current one and releases the process exactly if the window
is seen to be over, and a charge exactly if moreover it is of at least one tick and less than half a
round of the clock. -/
theorem window_rolls {rl : RlimitState} {begun : UInt32} {e : Nat} (valid : rl.winValid = true) :
    let now := rl.winStart + .ofNat e
    let checked := rl.rlTickWindow now
    let charged := rl.rlCharge begun now
    (if SeenOver e then checked.Current now 0 else checked = rl) ∧
      (if SeenOver e ∧ 0 < Ticks.diff now begun then charged.Current now (now - begun)
        else charged.winStart = rl.winStart ∧ charged.throttled = rl.throttled) ∧
      (rl.throttled = true → (checked.Current now 0 ↔ SeenOver e) ∧
        (charged.Current now (now - begun) ↔ SeenOver e ∧ 0 < Ticks.diff now begun)) := by
  intro now checked charged
  have check : checked = rl.rlRoll now := by
    simp only [checked, RlimitState.rlTickWindow, valid, Bool.not_true, Bool.false_eq_true,
      if_false]
  have stays (seen : ¬SeenOver e) : checked = rl :=
    check.trans (if_pos (not_not.1 (mt (seenOver_iff rl.winStart e).2 seen)))
  have moves (ended : SeenOver e) := current_of_seenOver begun valid ended
  refine ⟨?_, ?_, fun waits => ⟨⟨fun current => ?_, fun ended => check ▸ (moves ended).1⟩,
    fun current => ?_, fun ended => (moves ended.1).2 ended.2⟩⟩
  · split
    · exact check ▸ (moves (by assumption)).1
    · exact stays (by assumption)
  · split
    · rename_i ended
      exact (moves ended.1).2 ended.2
    · exact rlCharge_stays valid (by assumption)
  -- A process that waits has not been released if nothing has moved.
  · by_contra seen
    exact absurd ((stays seen ▸ current).2.2) (by simp [waits])
  · by_contra seen
    have released := current.2.2
    rw [(rlCharge_stays valid seen).2, waits] at released
    cases released

theorem window_rolls_sample :
    let rl : RlimitState := { winValid := true, winUsed := 100, throttled := true }
    (rl.rlTickWindow 250).Current 250 0 ∧ (rl.rlCharge 240 250).Current 250 10 := by
  have rolls :=
    (@window_rolls { winValid := true, winUsed := 100, throttled := true } 240 250 rfl).2.2
    rfl
  exact ⟨rolls.1.2 ⟨by decide, by decide⟩, rolls.2.2 ⟨⟨by decide, by decide⟩, by decide⟩⟩

/-- Half a round of the clock after its window a process still waits. One that has run for 40 ticks
and slept for half a round still has these on record, and the next 5 are on record nowhere. One that
comes and goes within tick 250 keeps the window of tick 0. -/
theorem window_stuck :
    let waiting : RlimitState := { winValid := true, winUsed := 100, throttled := true }
    let ran := (rlReset.rlSwitchIn 0).rlSwitchOut 40
    let slept := ran.rlSwitchIn 0x80000000
    let passed := (ran.rlSwitchIn 250).rlSwitchOut 250
    waiting.rlTickWindow 0x80000000 = waiting ∧ (slept.rlSwitchOut (0x80000000 + 5)).winStart = 0 ∧
      (slept.rlSwitchOut (0x80000000 + 5)).winUsed = 40 ∧ passed.winStart = 0 ∧
      passed.winUsed = 40 := by
  decide

end NovaOs.Limits
