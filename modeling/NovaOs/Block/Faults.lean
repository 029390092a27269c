import NovaOs.Block.Device

/-! Transfers that may fail: what reaches the disk, and how many outcomes are used up. -/

namespace NovaOs

namespace Device

/-- A device gone on from another: so many outcomes are used up, and these writes have landed. -/
structure After (dev : Device) (used : Nat) (writes : List (Nat × Sector)) (after : Device) :
    Prop where
  disk : after.disk = applyWrites writes dev.disk
  activeDevice : after.activeDevice = dev.activeDevice
  partitionOffset : after.partitionOffset = dev.partitionOffset
  faults : ∀ i, after.faults i = dev.faults (used + i)

namespace After

variable {dev mid after : Device} {used more : Nat} {first second writes : List (Nat × Sector)}

theorem refl (dev : Device) : dev.After 0 [] dev where
  disk := rfl
  activeDevice := rfl
  partitionOffset := rfl
  faults := fun i => by rw [Nat.zero_add]

theorem trans (earlier : dev.After used first mid) (later : mid.After more second after) :
    dev.After (used + more) (first ++ second) after where
  disk := by rw [later.disk, earlier.disk, applyWrites_append]
  activeDevice := later.activeDevice.trans earlier.activeDevice
  partitionOffset := later.partitionOffset.trans earlier.partitionOffset
  faults := fun i => by rw [later.faults, earlier.faults, Nat.add_assoc]

theorem targetLba (gone : dev.After used writes after) (lba : UInt32) :
    after.targetLba lba = dev.targetLba lba := by
  rw [Device.targetLba, Device.targetLba, gone.partitionOffset]

end After

variable (dev : Device)

/-- A transfer uses one outcome up. -/
theorem tick_after : dev.After 1 [] dev.tick where
  disk := rfl
  activeDevice := rfl
  partitionOffset := rfl
  faults := fun i => by rw [tick, Nat.add_comm]

/-- A sector is read or it is not, and the disk stays as it is. -/
theorem readSector_after (addr : Nat) :
    ∃ after, dev.readSector addr = (if dev.faults 0 then none else some (dev.disk addr), after)
      ∧ dev.After 1 [] after := by
  refine ⟨dev.tick, ?_, dev.tick_after⟩
  rw [readSector]
  split
  · rfl
  · rfl

/-- A sector is written whole or not at all. -/
theorem writeSector_after (addr : Nat) (sector : Sector) :
    ∃ after, dev.writeSector addr sector = (!dev.faults 0, after)
      ∧ dev.After 1 (if dev.faults 0 then [] else [(addr, sector)]) after := by
  rw [writeSector]
  split
  · rename_i fault
    exact ⟨dev.tick, by rw [fault]; rfl, dev.tick_after⟩
  rename_i fine
  have fine : dev.faults 0 = false := by simpa using fine
  refine ⟨{ dev.tick with
    disk := Function.update dev.disk addr sector
    issued := dev.issued ++ [(addr, sector)] }, by rw [fine]; rfl, ?_⟩
  exact ⟨rfl, rfl, rfl, dev.tick_after.faults⟩

/-- A run of sectors that was read is what the disk holds. -/
theorem dispatchRead_some {dev after : Device} {addr count : Nat} {sectors : List Sector}
    (read : dev.dispatchRead addr count = (some sectors, after)) :
    sectors = ((List.range count).map fun i => dev.disk (addr + i)) ∧ dev.After count [] after := by
  induction count generalizing dev addr sectors with
  | zero =>
    cases read
    exact ⟨rfl, .refl _⟩
  | succ count ih =>
    obtain ⟨mid, one, gone⟩ := dev.readSector_after addr
    rw [dispatchRead, one] at read
    cases fault : dev.faults 0 with
    | true =>
      rw [fault] at read
      cases read
    | false => ?_
    rw [fault] at read
    -- The rest is read from a device with the same disk.
    rcases tail : mid.dispatchRead (addr + 1) count with ⟨result, last⟩
    cases result with
    | none => simp [tail] at read
    | some rest => ?_
    simp only [tail, Bool.false_eq_true, if_false, Prod.mk.injEq, Option.some.injEq] at read
    obtain ⟨rfl, rfl⟩ := read
    obtain ⟨rfl, gone'⟩ := ih tail
    refine ⟨?_, by simpa only [Nat.add_comm 1, List.append_nil] using gone.trans gone'⟩
    rw [List.range_succ_eq_map]
    simp [gone.disk, Function.comp_def, Nat.add_assoc, Nat.add_comm 1]

/-- A read changes nothing on the disk, whether it succeeds or not. -/
theorem dispatchRead_after (addr count : Nat) :
    ∃ used, dev.After used [] (dev.dispatchRead addr count).2 := by
  induction count generalizing dev addr with
  | zero => exact ⟨0, .refl dev⟩
  | succ count ih =>
    obtain ⟨mid, one, gone⟩ := dev.readSector_after addr
    rw [dispatchRead, one]
    cases fault : dev.faults 0 with
    | true => exact ⟨1, gone⟩
    | false => ?_
    obtain ⟨used, gone'⟩ := ih mid (addr + 1)
    simp only [Bool.false_eq_true, if_false]
    rcases tail : mid.dispatchRead (addr + 1) count with ⟨result, last⟩
    rw [tail] at gone'
    have both : dev.After (1 + used) [] last := gone.trans gone'
    cases result with
    | none | some rest => exact ⟨1 + used, both⟩

/-- A run of writes lands as far as it goes; one that succeeds lands whole. -/
theorem dispatchWrite_after (addr : Nat) (sectors : List Sector) :
    ∃ used count, dev.After used ((consecutive addr sectors).take count)
        (dev.dispatchWrite addr sectors).2
      ∧ ((dev.dispatchWrite addr sectors).1 = true →
        used = sectors.length ∧
          (consecutive addr sectors).take count = consecutive addr sectors) := by
  induction sectors generalizing dev addr with
  | nil => exact ⟨0, 0, .refl dev, fun _ => ⟨rfl, rfl⟩⟩
  | cons sector rest ih =>
    obtain ⟨mid, one, gone⟩ := dev.writeSector_after addr sector
    rw [dispatchWrite, one]
    cases fault : dev.faults 0 with
    | true =>
      rw [fault] at gone
      exact ⟨1, 0, gone, Bool.noConfusion⟩
    | false => ?_
    rw [fault] at gone
    obtain ⟨used, count, gone', whole⟩ := ih mid (addr + 1)
    refine ⟨1 + used, count + 1, gone.trans gone', fun success => ?_⟩
    obtain ⟨all, landed⟩ := whole success
    rw [consecutive, List.take_succ_cons, landed, all, List.length_cons, Nat.add_comm]
    exact ⟨rfl, rfl⟩

/-- Writing one sector takes one outcome. -/
theorem dispatchWrite_singleton (addr : Nat) (sector : Sector) :
    ∃ after, dev.dispatchWrite addr [sector] = (!dev.faults 0, after)
      ∧ dev.After 1 (if dev.faults 0 then [] else [(addr, sector)]) after := by
  obtain ⟨after, one, gone⟩ := dev.writeSector_after addr sector
  refine ⟨after, ?_, gone⟩
  rw [dispatchWrite, one]
  cases dev.faults 0
  · rfl
  · rfl

end Device

end NovaOs
