import NovaOs.Shm.Accounting

/-! A call that fails leaves no trace, however far it had come. -/

namespace NovaOs

namespace ShmSystem

/-- Whether a call answers with an error. -/
def refused (system : ShmSystem) : ShmOp → Bool
  | .spawn _ | .processExit _ => false
  | .create pid size flags => !(system.shm.create system.hal pid size flags).1.isOk
  | .grant caller handle target rights =>
    !(system.shm.grant system.hal caller handle target rights).1.isOk
  | .map pid handle want => !(system.shm.map system.hal pid handle want).1.isOk
  | .unmap pid addr => !(system.shm.unmap system.hal pid addr).1.isOk
  | .destroy pid handle => !(system.shm.destroy system.hal pid handle).1.isOk
  -- A fork fails when the page tables cannot be copied or the records have no room.
  | .fork parent child =>
    match system.hal.shareAddressSpace parent child with
    | (false, _) => true
    | (true, _) => !(system.shm.fork parent child).1.isOk

/-- Nothing that the table, its frames or a page table shows has changed. -/
structure Untouched (before after : ShmSystem) : Prop where
  shm : after.shm = before.shm
  allocated : after.hal.allocated = before.hal.allocated
  pageTable : after.hal.pageTable = before.hal.pageTable

namespace Untouched

variable {shm : Shm} {hal : Hal}

theorem refl (system : ShmSystem) : Untouched system system := ⟨rfl, rfl, rfl⟩

/-- A creation that fails has given back every frame it took. -/
theorem create (accounted : Accounted ⟨shm, hal⟩) {pid : Pid} {size : Nat} {flags : UInt32}
    (failed : (shm.create hal pid size flags).1.isOk = false) :
    Untouched ⟨shm, hal⟩
      ⟨(shm.create hal pid size flags).2.1, (shm.create hal pid size flags).2.2⟩ := by
  obtain ⟨errno, same⟩ | ⟨slot, pages, free, -, -, -, ⟨short, errno, same⟩ | ⟨-, handle, same⟩⟩ :=
    shm.create_cases hal pid size flags
  · rw [same]
    exact refl _
  · -- The frames ran out on the way: what was taken is the same before and after.
    obtain ⟨frames, back⟩ := accounted.consistent.frames.createFailed free short
    obtain ⟨-, tables, -⟩ := Shm.takeFrames_frame shm hal slot 0 pages
    rw [same]
    rw [back] at frames
    exact ⟨back, frames.held.unique accounted.consistent.frames.held, tables⟩
  · rw [same] at failed
    cases failed

/-- A mapping that fails has taken out every page it entered. -/
theorem map (accounted : Accounted ⟨shm, hal⟩) {pid : Pid} {handle want : UInt32}
    (failed : (shm.map hal pid handle want).1.isOk = false) :
    Untouched ⟨shm, hal⟩
      ⟨(shm.map hal pid handle want).2.1, (shm.map hal pid handle want).2.2⟩ := by
  obtain ⟨errno, same⟩ | ⟨slot, free, addr, -, -, -, -, -, -, gap,
      ⟨short, errno, same⟩ | ⟨-, placed, same⟩⟩ := shm.map_cases hal pid handle want
  · rw [same]
    exact refl _
  · obtain ⟨allocated, -, -⟩ := Shm.mapPages_frame hal pid addr (shm.frames slot)
      (want &&& rightWrite != 0) 0 (shm.objects slot).pages
    rw [same]
    exact ⟨rfl, allocated, accounted.consistent.mapFailed gap short⟩
  · rw [same] at failed
    cases failed

/-- A fork that fails takes the child's page table away again, which was empty before. -/
theorem fork (accounted : Accounted ⟨shm, hal⟩) {parent child : Pid}
    (unborn : hal.live child = false) (failed : refused ⟨shm, hal⟩ (.fork parent child) = true) :
    Untouched ⟨shm, hal⟩ (ShmSystem.fork ⟨shm, hal⟩ parent child) := by
  have empty := (accounted.unborn unborn).2
  simp only [refused, ShmSystem.fork, Hal.shareAddressSpace] at failed ⊢
  cases full : hal.mapFaults 0 with
  | true =>
    simp only [if_true]
    exact ⟨rfl, rfl, rfl⟩
  | false => ?_
  simp only [full, Bool.false_eq_true, if_false] at failed ⊢
  generalize records : shm.fork parent child = outcome at failed
  obtain ⟨_ | _, after⟩ := outcome
  · have same : after = shm := by
      simp only [Shm.fork] at records
      split at records
      · cases records
        rfl
      · split at records
        · cases records
          rfl
        · cases records
    refine ⟨same, rfl, ?_⟩
    simp only [Hal.endProcess, Function.update_idem, ← empty, Function.update_eq_self]
  · cases failed

/-- So does every call that fails. -/
theorem step {system : ShmSystem} (accounted : Accounted system) {op : ShmOp}
    (failed : system.refused op = true) : Untouched system (system.step op) := by
  obtain ⟨shm, hal⟩ := system
  cases op with
  | spawn pid | processExit pid => cases failed
  | create pid size flags =>
    simp only [ShmSystem.step]
    split
    · exact create accounted (by simpa [refused] using failed)
    · exact refl _
  | grant caller handle target rights =>
    simp only [ShmSystem.step]
    split
    · obtain ⟨errno, same⟩ | ⟨slot, grants, -, -, -, -, -, same⟩ :=
        shm.grant_cases hal caller handle target rights
      · rw [same]
        exact refl _
      · simp [refused, same, Except.isOk, Except.toBool] at failed
    · exact refl _
  | map pid handle want =>
    simp only [ShmSystem.step]
    split
    · exact map accounted (by simpa [refused] using failed)
    · exact refl _
  | unmap pid addr =>
    simp only [ShmSystem.step]
    split
    · obtain ⟨errno, same⟩ | ⟨index, -, -, -, same⟩ := shm.unmap_cases hal pid addr
      · rw [same]
        exact refl _
      · simp [refused, same, Except.isOk, Except.toBool] at failed
    · exact refl _
  | destroy pid handle =>
    simp only [ShmSystem.step]
    split
    · obtain ⟨errno, same⟩ | ⟨slot, -, -, same⟩ := shm.destroy_cases hal pid handle
      · rw [same]
        exact refl _
      · simp [refused, same, Except.isOk, Except.toBool] at failed
    · exact refl _
  | fork parent child =>
    simp only [ShmSystem.step]
    split
    · rename_i usable
      simp only [Bool.and_eq_true, Bool.not_eq_true'] at usable
      exact fork accounted usable.2 failed
    · exact refl _

end Untouched

/-- After any history, a call that answers with an error, at whichever frame or page it failed,
leaves the tables, the frames that are out and every page table as they were. -/
theorem failure_untouched (hal : Hal) (ops : List ShmOp) (op : ShmOp)
    (failed : ((boot hal).run ops).refused op = true) :
    Untouched ((boot hal).run ops) (((boot hal).run ops).step op) :=
  .step ((Accounted.boot hal).run ops) failed

/-- One running process and one frame. -/
def scarceHal : Hal where
  allocated := fun _ => false
  misfreed := false
  zeroed := fun _ => false
  pageTable := fun _ _ => none
  live := fun pid => pid == 1
  supply := fun n => if n == 0 then some 4096 else none
  mapFaults := fun _ => false

/-- The second page of a new object finds no frame. -/
theorem failure_untouched_second_frame :
    Untouched ((boot scarceHal).run []) (((boot scarceHal).run []).step (.create 1 8192 0)) :=
  failure_untouched scarceHal [] (.create 1 8192 0) (by decide)

end ShmSystem

end NovaOs
