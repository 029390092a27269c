import NovaOs.Shm.Lifecycle

/-! Whatever processes do, in whatever order, memory stays accounted for. -/

namespace NovaOs

open Function

namespace ShmSystem.Accounted

variable {shm : Shm} {hal : Hal} {system : ShmSystem}

/-- A process that goes leaves no record, no page and no object that only it could reach. -/
theorem processExit (accounted : Accounted ⟨shm, hal⟩) (pid : Pid) :
    Accounted ⟨(shm.processExit hal pid).1, (shm.processExit hal pid).2.endProcess pid⟩ := by
  have ⟨consistent, _, owners⟩ := accounted
  obtain ⟨agree, exited, reaped, pages, live⟩ := consistent.processExit pid
  simp only at agree exited reaped pages live
  generalize shm.processExit hal pid = final at agree exited reaped pages live
  refine ⟨⟨agree.books, agree.frames.congr rfl (fun _ => ⟨rfl, rfl⟩) rfl rfl, ?_⟩, reaped, ?_⟩
  · simp only [Hal.endProcess, pages]
    exact agree.backed
  intro i used
  simp only [exited.maps i] at used ⊢
  split at used
  · cases used
  rename_i foreign
  -- A record that is left belongs to someone else, who is still running.
  have other : (shm.maps i).pid ≠ pid := by
    intro same
    simp [MapRec.belongs, used, same] at foreign
  rw [if_neg foreign]
  simp only [Hal.endProcess, live, update_of_ne other]
  exact owners i used

/-- A pid that is not in use has no records and no pages. -/
theorem unborn (accounted : Accounted ⟨shm, hal⟩) {pid : Pid} (dead : hal.live pid = false) :
    (∀ i, MapRec.belongs pid (shm.maps i) = false) ∧ hal.pageTable pid = fun _ => none := by
  have absent : ∀ i, MapRec.belongs pid (shm.maps i) = false := by
    intro i
    by_contra mine
    simp only [MapRec.belongs, Bool.not_eq_false, Bool.and_eq_true, beq_iff_eq] at mine
    have running := accounted.owners i mine.1
    simp only [mine.2, dead] at running
    cases running
  refine ⟨absent, ?_⟩
  funext vaddr
  cases entry : hal.pageTable pid vaddr with
  | none => rfl
  | some page =>
    obtain ⟨i, used, mine, _⟩ := (accounted.consistent.backed pid vaddr page.1 page.2).mp entry
    have stranger := absent i
    simp only at used mine
    simp [MapRec.belongs, used, mine] at stranger

/-- A fork that fails undoes itself, and one that succeeds doubles the parent's mappings. -/
theorem fork (accounted : Accounted ⟨shm, hal⟩) {parent child : Pid}
    (running : hal.live parent = true) (dead : hal.live child = false) :
    Accounted (ShmSystem.fork ⟨shm, hal⟩ parent child) := by
  have ⟨⟨books, frames, backed⟩, reaped, owners⟩ := accounted
  obtain ⟨unborn, empty⟩ := accounted.unborn dead
  simp only at books frames backed reaped owners
  have fresh : child ≠ parent := by
    intro same
    rw [same, running] at dead
    cases dead
  simp only [ShmSystem.fork, Hal.shareAddressSpace]
  by_cases full : hal.mapFaults 0 = true
  · simp only [full, if_true]
    exact ⟨⟨books, frames.congr rfl (fun _ => ⟨rfl, rfl⟩) rfl rfl, backed⟩, reaped, owners⟩
  rw [Bool.not_eq_true] at full
  simp only [full, Bool.false_eq_true, if_false]
  rcases Shm.fork_cases books fresh unborn with ⟨errno, same⟩ | ⟨after, same, forked⟩
  · -- The copied page table goes again, and the child's was empty before.
    simp only [same]
    refine ⟨⟨books, frames.congr rfl (fun _ => ⟨rfl, rfl⟩) rfl rfl, ?_⟩, reaped, ?_⟩
    · simp only [Hal.endProcess, update_idem, ← empty, update_eq_self]
      exact backed
    · simp only [Hal.endProcess, ← dead, update_eq_self]
      exact owners
  simp only [same]
  refine ⟨⟨forked.books, ?_, backed.fork unborn forked⟩, ?_, ?_⟩
  · refine frames.congr forked.frames ?_ rfl rfl
    intro slot
    rw [forked.objects slot]
    exact ⟨rfl, rfl⟩
  · intro slot used dying
    have grown := forked.grown slot
    simp only at used dying ⊢
    rw [forked.objects slot] at used dying
    have before := reaped slot used dying
    omega
  · intro i used
    simp only [Hal.startProcess] at used ⊢
    cases before : (shm.maps i).inUse with
    | true =>
      rw [forked.old i before]
      by_cases here : (shm.maps i).pid = child
      · rw [here, update_self]
      · rw [update_of_ne here]
        exact owners i before
    | false =>
      obtain ⟨source, _, _, copy⟩ := forked.new i used before
      rw [copy, update_self]

/-- One operation keeps everything accounted for. -/
theorem step (accounted : Accounted system) (op : ShmOp) : Accounted (system.step op) := by
  have same : system = ⟨system.shm, system.hal⟩ := rfl
  rw [same] at accounted
  cases op with
  | spawn pid =>
    simp only [ShmSystem.step]
    split
    · exact accounted
    have ⟨⟨books, frames, backed⟩, reaped, owners⟩ := accounted
    refine ⟨⟨books, frames.congr rfl (fun _ => ⟨rfl, rfl⟩) rfl rfl, backed⟩, reaped, ?_⟩
    intro i used
    have running := owners i used
    simp only [Hal.startProcess] at running ⊢
    by_cases here : (system.shm.maps i).pid = pid
    · rw [here, update_self]
    · rw [update_of_ne here]
      exact running
  | create pid size flags =>
    simp only [ShmSystem.step]
    split
    · exact accounted.create pid size flags
    · exact accounted
  | grant caller handle target rights =>
    simp only [ShmSystem.step]
    split
    · exact accounted.grant caller handle target rights
    · exact accounted
  | map pid handle want =>
    simp only [ShmSystem.step]
    split
    · rename_i running
      exact accounted.map pid running handle want
    · exact accounted
  | unmap pid addr =>
    simp only [ShmSystem.step]
    split
    · exact accounted.unmap pid addr
    · exact accounted
  | destroy pid handle =>
    simp only [ShmSystem.step]
    split
    · exact accounted.destroy pid handle
    · exact accounted
  | processExit pid =>
    simp only [ShmSystem.step]
    split
    · exact accounted.processExit pid
    · exact accounted
  | fork parent child =>
    simp only [ShmSystem.step]
    split
    · rename_i usable
      simp only [Bool.and_eq_true, Bool.not_eq_true'] at usable
      exact accounted.fork usable.1 usable.2
    · exact accounted

/-- So does any history of operations. -/
theorem run (accounted : Accounted system) (ops : List ShmOp) : Accounted (system.run ops) := by
  induction ops generalizing system with
  | nil => exact accounted
  | cons op rest ih => exact ih (accounted.step op)

end ShmSystem.Accounted

/--
After any history of operations, whatever allocations and mappings failed on the way, the
kernel's own check passes, the frames that are out are those of objects in use, each once,
and every page table holds the pages of its process's records.
-/
theorem shm_accounted (hal : Hal) (ops : List ShmOp) :
    ((ShmSystem.boot hal).run ops).shm.checkCounts = .ok () ∧
    (∀ i, (((ShmSystem.boot hal).run ops).shm.maps i).inUse = true →
      shmVirtBase ≤ (((ShmSystem.boot hal).run ops).shm.maps i).addr ∧
        (((ShmSystem.boot hal).run ops).shm.maps i).spanEnd ≤ shmVirtEnd) ∧
    (∀ first second, ((ShmSystem.boot hal).run ops).shm.Owned first →
      ((ShmSystem.boot hal).run ops).shm.Owned second →
      ((ShmSystem.boot hal).run ops).shm.frameAt first
        = ((ShmSystem.boot hal).run ops).shm.frameAt second → first = second) ∧
    (∀ frame, ((ShmSystem.boot hal).run ops).hal.allocated frame = true ↔
      ∃ place, ((ShmSystem.boot hal).run ops).shm.Owned place ∧
        ((ShmSystem.boot hal).run ops).shm.frameAt place = frame) ∧
    ((ShmSystem.boot hal).run ops).hal.misfreed = false ∧
    (∀ pid vaddr frame writable,
      ((ShmSystem.boot hal).run ops).hal.pageTable pid vaddr = some (frame, writable) ↔
        ((ShmSystem.boot hal).run ops).shm.Maps pid vaddr frame writable) := by
  have ⟨⟨books, frames, backed⟩, reaped, _⟩ := (ShmSystem.Accounted.boot hal).run ops
  refine ⟨books.checkCounts reaped, ?_, ?_, frames.held.exact, frames.sound, backed⟩
  · intro i used
    exact (books.placed i used).2
  · intro first second ownedFirst ownedSecond same
    exact frames.held.apart ownedFirst ownedSecond same

/-- Whatever processes do, those with a page on a given frame have mapped one object. -/
theorem frame_one_object (hal : Hal) (ops : List ShmOp) (frame : Frame) :
    let sys := (ShmSystem.boot hal).run ops
    ∃ obj, ∀ pid vaddr write, sys.hal.pageTable pid vaddr = some (frame, write) →
      ∃ i, (sys.shm.maps i).inUse = true ∧ (sys.shm.maps i).pid = pid ∧
        (sys.shm.maps i).obj = obj := by
  intro sys
  have ⟨⟨books, frames, backed⟩, _, _⟩ := (ShmSystem.Accounted.boot hal).run ops
  by_contra! apart
  -- Pages of two objects would be two places of one frame.
  obtain ⟨_, _, _, entry, _⟩ := apart ⟨0, by decide⟩
  obtain ⟨i, used, _, p, fits, _, same, _⟩ := (backed ..).mp entry
  have ⟨live, pages⟩ := books.named i used
  obtain ⟨_, _, _, entry, other⟩ := apart (sys.shm.maps i).obj
  obtain ⟨j, used', mine, q, fits', _, same', _⟩ := (backed ..).mp entry
  have ⟨live', pages'⟩ := books.named j used'
  have one := @frames.held.apart (_, p) (_, q) ⟨live, pages ▸ fits⟩ ⟨live', pages' ▸ fits'⟩
    (same.symm.trans same')
  exact other j used' mine (congrArg Prod.fst one).symm

/--
After any history of operations, placement gives the lowest address at which the pages and a guard
page fit, and none only where there is no such address.
-/
theorem findGap_first_fit (hal : Hal) (ops : List ShmOp) (pid : Pid) (pages : Nat) :
    (∀ addr, ((ShmSystem.boot hal).run ops).shm.findGap pid (pages + 1) shmVirtBase shmVirtEnd
        = some addr
      ↔ ((ShmSystem.boot hal).run ops).shm.Room pid pages addr
        ∧ ∀ lower, ((ShmSystem.boot hal).run ops).shm.Room pid pages lower → addr ≤ lower)
    ∧ (((ShmSystem.boot hal).run ops).shm.findGap pid (pages + 1) shmVirtBase shmVirtEnd = none
      ↔ ∀ addr, ¬ ((ShmSystem.boot hal).run ops).shm.Room pid pages addr) := by
  have books := ((ShmSystem.Accounted.boot hal).run ops).consistent.books
  generalize ((ShmSystem.boot hal).run ops).shm = shm at books ⊢
  have room : ∀ {addr}, shm.findGap pid (pages + 1) shmVirtBase shmVirtEnd = some addr →
      shm.Room pid pages addr := by
    intro addr found
    obtain ⟨aligned, low, high, clear⟩ := books.findGap found
    exact ⟨aligned, low, high, clear⟩
  have least : ∀ {addr}, shm.findGap pid (pages + 1) shmVirtBase shmVirtEnd = some addr →
      ∀ lower, shm.Room pid pages lower → addr ≤ lower := by
    intro addr found lower fits
    obtain ⟨other, found', below⟩ := books.findGap_least fits
    rw [found] at found'
    cases found'
    exact below
  refine ⟨fun addr => ⟨fun found => ⟨room found, least found⟩, ?_⟩, ?_, ?_⟩
  · -- Two lowest addresses are the same one.
    intro ⟨fits, lowest⟩
    obtain ⟨other, found, below⟩ := books.findGap_least fits
    have above := lowest other (room found)
    rw [found, Nat.le_antisymm below above]
  · intro missing addr fits
    obtain ⟨other, found, -⟩ := books.findGap_least fits
    rw [missing] at found
    cases found
  · intro nowhere
    cases found : shm.findGap pid (pages + 1) shmVirtBase shmVirtEnd with
    | none => rfl
    | some addr => exact absurd (room found) (nowhere addr)

end NovaOs
