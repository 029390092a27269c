import NovaOs.Update.Model

/-!
What each operation of the update mechanism does to the slots: one equation per operation, over the
control bytes of the configuration and the kernels on disk.
-/

namespace NovaOs.Update

open Slice Sha256 Pkg

namespace Control

/-- The slots and their state on a machine without configuration. -/
def initial : Control := ⟨novaBootSlotA, novaBootSlotA, novaSlotStateNormal, defaultMaxBootAttempts⟩

/-- The fallback becomes active. -/
def rolledBack (c : Control) : Control :=
  ⟨c.fallback, c.fallback, novaSlotStateRolledBack, defaultMaxBootAttempts⟩

/-- A boot of a tested kernel uses up an attempt, the last of which rolls back. -/
def booted (c : Control) : Control :=
  if c.state = novaSlotStateTesting then
    if 1 < c.attempts then { c with attempts := c.attempts - 1 } else c.rolledBack
  else c

def confirmed (c : Control) : Control :=
  if c.state = novaSlotStateTesting then
    { c with state := novaSlotStateNormal, attempts := defaultMaxBootAttempts }
  else c

def applied (c : Control) : Control :=
  ⟨Machine.target c.active, c.active, novaSlotStateTesting, defaultMaxBootAttempts⟩

end Control

namespace Machine

/-- What decides which kernel a loaded machine runs. -/
def control (m : Machine) : Control := m.state.config.control

/-- The configuration is in memory, and one with the same control bytes is on disk. -/
def Loaded (m : Machine) : Prop :=
  m.state.initialized = true ∧ m.state.config.Sound ∧ ∃ cfg : BootSlotConfig,
    m.files.bootslot = some cfg.saved ∧ cfg.Sound ∧ cfg.control = m.control

variable {m : Machine} (beyond : Vector UInt8 8)

/-- The two slots. -/
def IsSlot (slot : UInt8) : Prop := slot = novaBootSlotA ∨ slot = novaBootSlotB

theorem target_isSlot {slot : UInt8} : IsSlot (target slot) := by
  unfold target
  split
  · exact .inr rfl
  · exact .inl rfl

end Machine

/-- A package that passes the verification. -/
def Accepted (pkg : Bytes) : Prop := ∃ package, verifyUpdatePackage pkg = .ok (.ok package)

namespace Machine

variable {m : Machine} (beyond : Vector UInt8 8)

end Machine

end NovaOs.Update
