import NovaOs.Update.Steps

/-!
Runs of the update mechanism, with the kernel that was confirmed last as part of the history: while
an update is tested, the fallback slot holds that kernel, and three boots without a confirmation
bring it back.
-/

namespace NovaOs.Update

open Slice Sha256 Pkg

inductive Op where
  | apply (pkg : Bytes)
  | boot
  | confirm
  | rollback

/-- An operation, and what lies in memory behind the buffer of the configuration meanwhile. -/
structure Turn where
  op : Op
  beyond : Vector UInt8 8

/-- A machine, and the kernel that was confirmed healthy last. -/
structure History where
  machine : Machine
  healthy : Option Bytes

namespace History

/-- The kernel in the active slot. -/
def running (h : History) : Option Bytes := h.machine.files.kernel h.machine.control.active

/-- The kernel in the fallback slot. -/
def fallback (h : History) : Option Bytes := h.machine.files.kernel h.machine.control.fallback

def Testing (h : History) : Prop := h.machine.control.state = novaSlotStateTesting

/-- A confirmation is about the kernel in the active slot. -/
def step (h : History) (turn : Turn) : Except Panic History :=
  match turn.op with
  | .apply pkg => do
    let (machine, _) ← h.machine.applyPackage pkg turn.beyond
    return { h with machine }
  | .boot => return { h with machine := h.machine.boot turn.beyond }
  | .confirm =>
    let machine := (h.machine.confirmHealthy turn.beyond).1
    return { machine, healthy := machine.files.kernel machine.control.active }
  | .rollback => return { h with machine := (h.machine.rollback turn.beyond).1 }

def run (turns : List Turn) (h : History) : Except Panic History := turns.foldlM step h

/-- A machine without configuration after its first boot. Its kernel, in slot A, counts as
healthy. -/
def start (kernel : Bytes) (other : Option Bytes) (beyond : Vector UInt8 8) : History where
  machine := Machine.boot ⟨⟨none, some kernel, other⟩, .new⟩ beyond
  healthy := some kernel

/-- An operation that neither confirms a kernel nor puts another one in place. -/
def Waits (turn : Turn) : Prop :=
  match turn.op with
  | .apply pkg => ¬ Accepted pkg
  | .boot | .rollback => True
  | .confirm => False

end History

namespace Control

variable {c : Control}

theorem booted_idle (idle : c.state ≠ novaSlotStateTesting) : c.booted = c := if_neg idle

/-- A boot uses up an attempt, or it makes the fallback active. -/
theorem booted_testing (testing : c.state = novaSlotStateTesting) :
    (1 < c.attempts.toNat ∧ c.booted = { c with attempts := c.attempts - 1 }
        ∧ (c.attempts - 1).toNat = c.attempts.toNat - 1)
      ∨ (c.attempts.toNat ≤ 1 ∧ c.booted = c.rolledBack) := by
  rw [booted, if_pos testing]
  by_cases more : 1 < c.attempts
  · have more' : 1 < c.attempts.toNat := UInt8.lt_iff_toNat_lt.mp more
    refine .inl ⟨more', if_pos more, ?_⟩
    exact UInt8.toNat_sub_of_le _ _ (UInt8.le_iff_toNat_le.mpr more'.le)
  · refine .inr ⟨?_, if_neg more⟩
    exact Nat.le_of_not_lt fun less => more (UInt8.lt_iff_toNat_lt.mpr less)

end Control

/-- Every fresh count of attempts is within bounds. -/
theorem fresh_attempts :
    1 ≤ defaultMaxBootAttempts.toNat ∧ defaultMaxBootAttempts.toNat ≤ 3 := by decide

/-- What decides which kernels run: the control bytes, both kernels, and the one confirmed last. -/
structure View where
  control : Control
  slotA : Option Bytes
  slotB : Option Bytes
  healthy : Option Bytes

namespace View

def kernel (v : View) (slot : UInt8) : Option Bytes :=
  if slot = novaBootSlotB then v.slotB else v.slotA

def running (v : View) : Option Bytes := v.kernel v.control.active

def fallback (v : View) : Option Bytes := v.kernel v.control.fallback

def Testing (v : View) : Prop := v.control.state = novaSlotStateTesting

/-- Only the control bytes change. -/
def turned (v : View) (control : Control) : View := { v with control }

/-- The active kernel counts as healthy. -/
def confirmed (v : View) : View :=
  { v with control := v.control.confirmed, healthy := v.kernel v.control.confirmed.active }

/-- A kernel goes into the slot that is not active. -/
def installed (v : View) (payload : Bytes) : View :=
  if Machine.target v.control.active = novaBootSlotB then
    { v with control := v.control.applied, slotB := some payload }
  else { v with control := v.control.applied, slotA := some payload }

/-- The invariant of careful runs. -/
structure Keeps (v : View) : Prop where
  active : Machine.IsSlot v.control.active
  fallbackSlot : Machine.IsSlot v.control.fallback
  some_attempt : 1 ≤ v.control.attempts.toNat
  few_attempts : v.control.attempts.toNat ≤ 3
  held : ∃ slot, Machine.IsSlot slot ∧ v.kernel slot = v.healthy
  good : v.Testing → v.fallback = v.healthy

/-- The kernel that was confirmed last is back, and nothing is tested. -/
structure Replaced (v : View) : Prop where
  idle : ¬ v.Testing
  running : v.running = v.healthy
  fallback : v.fallback = v.healthy

/-- A tested kernel is at most so many boots away from being replaced, or it has been. -/
def Within (n : Nat) (v : View) : Prop :=
  v.Replaced ∨ (v.Testing ∧ v.control.attempts.toNat ≤ n)

variable {v : View} {n : Nat}

theorem rolledBack_idle : ¬ (v.turned v.control.rolledBack).Testing :=
  (by decide : novaSlotStateRolledBack ≠ novaSlotStateTesting)

theorem Keeps.rollback (keeps : v.Keeps) : (v.turned v.control.rolledBack).Keeps where
  active := keeps.fallbackSlot
  fallbackSlot := keeps.fallbackSlot
  some_attempt := fresh_attempts.1
  few_attempts := fresh_attempts.2
  held := keeps.held
  good testing := absurd testing rolledBack_idle

/-- Both slots of the configuration are the fallback from here on. -/
theorem Within.rollback (close : v.Within n) (keeps : v.Keeps) (m : Nat) :
    (v.turned v.control.rolledBack).Within m := by
  have good : v.fallback = v.healthy :=
    close.elim (fun done => done.fallback) fun testing => keeps.good testing.1
  exact .inl ⟨rolledBack_idle, good, good⟩

theorem Keeps.boot (keeps : v.Keeps) : (v.turned v.control.booted).Keeps := by
  by_cases testing : v.Testing
  · obtain ⟨more, booted, less⟩ | ⟨-, booted⟩ := Control.booted_testing testing
    · -- One attempt fewer, and all else as it was.
      rw [booted]
      have few := keeps.few_attempts
      refine ⟨keeps.active, keeps.fallbackSlot, ?_, ?_, keeps.held, fun _ => keeps.good testing⟩
      · simp only [turned, less]
        omega
      · simp only [turned, less]
        omega
    · rw [booted]
      exact keeps.rollback
  · rw [Control.booted_idle testing]
    exact keeps

/-- A boot brings the replacement nearer, unless it has come. -/
theorem Within.boot (close : v.Within n) (keeps : v.Keeps) :
    (v.turned v.control.booted).Within (n - 1) := by
  rcases close with done | ⟨testing, few⟩
  · rw [Control.booted_idle done.idle]
    exact .inl done
  obtain ⟨-, booted, less⟩ | ⟨-, booted⟩ := Control.booted_testing testing
  · rw [booted]
    refine .inr ⟨testing, ?_⟩
    simp only [turned, less]
    omega
  · rw [booted]
    exact Within.rollback (.inr ⟨testing, few⟩) keeps _

/-- After a confirmation the active kernel is the healthy one, and nothing is tested. -/
theorem Keeps.confirm (keeps : v.Keeps) : v.confirmed.Keeps := by
  have slots : Machine.IsSlot v.control.confirmed.active ∧
    Machine.IsSlot v.control.confirmed.fallback
      ∧ 1 ≤ v.control.confirmed.attempts.toNat ∧ v.control.confirmed.attempts.toNat ≤ 3
      ∧ v.control.confirmed.state ≠ novaSlotStateTesting := by
    rw [Control.confirmed]
    split
    · exact ⟨keeps.active, keeps.fallbackSlot, fresh_attempts.1, fresh_attempts.2,
        (by decide : novaSlotStateNormal ≠ novaSlotStateTesting)⟩
    · rename_i idle
      exact ⟨keeps.active, keeps.fallbackSlot, keeps.some_attempt, keeps.few_attempts, idle⟩
  obtain ⟨active, fallbackSlot, some_attempt, few_attempts, idle⟩ := slots
  exact ⟨active, fallbackSlot, some_attempt, few_attempts, ⟨_, active, rfl⟩,
    fun testing => absurd testing idle⟩

/-- The active slot is not the one that a package goes into. -/
theorem installed_running (is : Machine.IsSlot v.control.active) (payload : Bytes) :
    (v.installed payload).control = v.control.applied ∧
      (v.installed payload).healthy = v.healthy ∧
      (v.installed payload).kernel v.control.active = v.running := by
  unfold running installed
  rcases is with isA | isB
  · simp only [isA]
    exact ⟨rfl, rfl, rfl⟩
  · simp only [isB]
    exact ⟨rfl, rfl, rfl⟩

/-- The active slot, with the healthy kernel, becomes the fallback. -/
theorem Keeps.install (keeps : v.Keeps) (good : v.running = v.healthy) (payload : Bytes) :
    (v.installed payload).Keeps := by
  obtain ⟨control, healthy, kept⟩ := installed_running keeps.active payload
  have held := (kept.trans good).trans healthy.symm
  refine ⟨?_, ?_, ?_, ?_, ⟨_, keeps.active, held⟩, fun _ => ?_⟩
  · rw [control]
    exact Machine.target_isSlot
  · rw [control]
    exact keeps.active
  · rw [control]
    exact fresh_attempts.1
  · rw [control]
    exact fresh_attempts.2
  · rw [fallback, control]
    exact held

end View

namespace History

def view (h : History) : View where
  control := h.machine.control
  slotA := h.machine.files.slotA
  slotB := h.machine.files.slotB
  healthy := h.healthy

section Comes

variable {h : History} (loaded : h.machine.Loaded) (beyond : Vector UInt8 8)
variable {pkg : Bytes}

include loaded

end Comes

variable {h : History}

variable {turns : List Turn}

end History

end NovaOs.Update
