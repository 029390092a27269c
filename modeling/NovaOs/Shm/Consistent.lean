import NovaOs.Shm.Steps

/-! The table, the frames and the page tables agree, and single calls keep them in agreement. -/

namespace NovaOs

namespace Shm

variable {shm : Shm} {hal : Hal} {slot : Fin maxObjects} {tables : PageTables}

/-- What freeing an object leaves alone. -/
theorem freeObject_frame (shm : Shm) (hal : Hal) (slot : Fin maxObjects) :
    (shm.freeObject hal slot).1.maps = shm.maps ∧
      (shm.freeObject hal slot).1.objects = Function.update shm.objects slot
        { emptyObj with gen := nextGen (shm.objects slot).gen } ∧
      (∀ other, other ≠ slot → (shm.freeObject hal slot).1.frames other = shm.frames other) ∧
      (shm.freeObject hal slot).2.pageTable = hal.pageTable ∧
      (shm.freeObject hal slot).2.live = hal.live := by
  obtain ⟨⟨frames, same⟩, tables, live⟩ :=
    freeFrames_frame shm hal slot 0 (shm.objects slot).pages
  refine ⟨?_, ?_, ?_, tables, live⟩
  · simp only [freeObject, setObject, same, withFrames]
  · simp only [freeObject, setObject, same, withFrames]
  · intro other elsewhere
    simp only [freeObject, setObject, same, withFrames, Function.update_of_ne elsewhere]

/-- Table, frames and page tables agree; objects may still be waiting to be freed. -/
structure Consistent (shm : Shm) (hal : Hal) (tables : PageTables) : Prop where
  books : shm.Books
  frames : shm.FramesExact hal
  backed : shm.Backed tables

/-- Freeing an object that nothing maps keeps everything in agreement. -/
theorem Consistent.freeObject (consistent : Consistent shm hal tables)
    (used : (shm.objects slot).inUse = true) (unmapped : (shm.objects slot).mapCount = 0) :
    Consistent (shm.freeObject hal slot).1 (shm.freeObject hal slot).2 tables := by
  obtain ⟨maps, objects, frames, _, _⟩ := freeObject_frame shm hal slot
  refine ⟨?_, consistent.frames.freeObject used, ?_⟩
  · have size : (shm.objects slot).size = (shm.objects slot).pages := by
      simp [ShmObject.size, used]
    -- The object's pages are part of the total, so taking them off does not go below zero.
    have within : (shm.objects slot).pages ≤ shm.totalPages := by
      rw [consistent.books.total, ← size]
      exact Table.le_sum ShmObject.size shm.objects slot
    have replaced : Books { shm.setObject slot
          { emptyObj with gen := nextGen (shm.objects slot).gen } with
        totalPages := shm.totalPages - (shm.objects slot).pages } := by
      apply consistent.books.replaceObject unmapped rfl
      · simp [emptyObj]
      · have empty : ShmObject.size { emptyObj with gen := nextGen (shm.objects slot).gen } = 0 :=
          rfl
        rw [size, empty]
        omega
    refine replaced.congr ?_ ?_ ?_
    · exact maps
    · obtain ⟨⟨lists, same⟩, _⟩ := freeFrames_frame shm hal slot 0 (shm.objects slot).pages
      simp only [Shm.freeObject, same, withFrames]
    · intro other
      rw [objects]
      exact ⟨rfl, rfl, rfl⟩
  · refine consistent.backed.congr maps ?_
    intro i usedI
    exact frames _ (consistent.books.unnamed unmapped usedI)

/-- Freeing what nothing can reach any more keeps everything in agreement. -/
theorem Consistent.reap (consistent : Consistent shm hal tables)
    (used : (shm.objects slot).inUse = true) :
    Consistent (shm.reap hal slot).1 (shm.reap hal slot).2 tables := by
  rw [Shm.reap]
  split
  · rename_i idle
    simp only [Bool.and_eq_true, beq_iff_eq] at idle
    exact consistent.freeObject used idle.2
  · exact consistent

/-- What freeing unreachable objects leaves alone, and that it leaves none in the slot. -/
theorem reap_frame (shm : Shm) (hal : Hal) (slot : Fin maxObjects) :
    (shm.reap hal slot).1.maps = shm.maps ∧
      (shm.reap hal slot).2.pageTable = hal.pageTable ∧ (shm.reap hal slot).2.live = hal.live ∧
      (∀ other, other ≠ slot → (shm.reap hal slot).1.objects other = shm.objects other) ∧
      (((shm.reap hal slot).1.objects slot).inUse = true →
        (shm.reap hal slot).1.objects slot = shm.objects slot ∧
          ((shm.objects slot).dying = true → (shm.objects slot).mapCount ≠ 0)) := by
  rw [reap]
  split
  · obtain ⟨maps, objects, _, tables, live⟩ := freeObject_frame shm hal slot
    refine ⟨maps, tables, live, ?_, ?_⟩
    · intro other elsewhere
      rw [objects, Function.update_of_ne elsewhere]
    · rw [objects, Function.update_self]
      simp [emptyObj]
  · rename_i busy
    refine ⟨rfl, rfl, rfl, fun _ _ => rfl, fun _ => ⟨rfl, ?_⟩⟩
    intro dying unmapped
    simp [dying, unmapped] at busy

/-- Pages that could not all be entered are all taken out again, and none was there before. -/
theorem Consistent.mapFailed (consistent : Consistent shm hal hal.pageTable) {pid : Pid}
    {pages addr : Nat} {frames : Nat → Frame} {writable : Bool}
    (gap : shm.findGap pid (pages + 1) shmVirtBase shmVirtEnd = some addr)
    (failed : (mapPages hal pid addr frames writable 0 pages).1 = false) :
    (mapPages hal pid addr frames writable 0 pages).2.pageTable = hal.pageTable := by
  obtain ⟨-, -, -, apart⟩ := consistent.books.findGap gap
  have clear : ∀ p, 0 ≤ p → p < 0 + pages → hal.pageTable pid (addr + p * pageSize) = none :=
    fun p _ within => consistent.backed.clear apart (by omega)
  funext other vaddr
  refine (mapPages_false clear failed).2 other vaddr ?_
  rintro ⟨_, p, _, below, _⟩
  exact absurd below (Nat.not_lt_zero p)

end Shm

/-- Everything agrees between two calls: nothing waits to be freed, and only the living map. -/
structure ShmSystem.Accounted (system : ShmSystem) : Prop where
  consistent : Shm.Consistent system.shm system.hal system.hal.pageTable
  reaped : system.shm.Reaped
  owners : ∀ i, (system.shm.maps i).inUse = true →
    system.hal.live (system.shm.maps i).pid = true

namespace ShmSystem.Accounted

variable {shm : Shm} {hal : Hal} {slot : Fin maxObjects}

/-- An empty system is in agreement. -/
theorem boot (hal : Hal) : Accounted (.boot hal) where
  consistent := by
    refine ⟨Shm.Books.new, ⟨⟨?_, ?_⟩, rfl, fun _ _ => rfl⟩, ?_⟩
    · intro first _ owned
      cases owned.1
    · intro frame
      simp [ShmSystem.boot, Shm.Owned, Shm.new, emptyObj]
    · intro pid vaddr frame writable
      simp [ShmSystem.boot, Shm.Maps, Shm.new, emptyMap]
  reaped := by
    intro slot used
    cases used
  owners := by
    intro i used
    cases used

/-- A new object is in agreement with its frames, and a failed one leaves no trace. -/
theorem create (accounted : Accounted ⟨shm, hal⟩) (pid : Pid) (size : Nat) (flags : UInt32) :
    Accounted ⟨(shm.create hal pid size flags).2.1, (shm.create hal pid size flags).2.2⟩ := by
  have ⟨⟨books, frames, backed⟩, reaped, owners⟩ := accounted
  simp only at books frames backed reaped owners
  rcases Shm.create_cases shm hal pid size flags with
    ⟨errno, same⟩ | ⟨slot, pages, free, positive, fits, _, failed | took⟩
  · rw [same]
    exact accounted
  · obtain ⟨out, errno, same⟩ := failed
    obtain ⟨exact, back⟩ := frames.createFailed free out
    obtain ⟨_, tables, live⟩ := Shm.takeFrames_frame shm hal slot 0 pages
    rw [same]
    simp only [back] at exact ⊢
    refine ⟨⟨books, exact, ?_⟩, reaped, ?_⟩
    · simpa only [tables] using backed
    · simpa only [live] using owners
  obtain ⟨got, handle, same⟩ := took
  obtain ⟨⟨lists, shape⟩, tables, live⟩ := Shm.takeFrames_frame shm hal slot 0 pages
  have exact : Shm.FramesExact
      { (shm.takeFrames hal slot 0 pages).2.1.setObject slot (shm.createdObject slot pid pages)
        with totalPages := shm.totalPages + pages } (shm.takeFrames hal slot 0 pages).2.2 :=
    frames.create free rfl got
  rw [same]
  simp only
  rw [shape] at exact ⊢
  have unmapped := books.mapCount_of_free free
  refine ⟨⟨?_, exact, ?_⟩, ?_, ?_⟩
  · have replaced : Shm.Books { shm.setObject slot (shm.createdObject slot pid pages) with
        totalPages := shm.totalPages + pages } := by
      apply books.replaceObject unmapped rfl
      · intro _
        exact ⟨positive, fits⟩
      · simp [ShmObject.size, free, Shm.createdObject]
    exact replaced.congr rfl rfl fun _ => ⟨rfl, rfl, rfl⟩
  · -- No record names the slot, whose frames are the only ones that changed.
    simp only [tables]
    refine backed.congr rfl ?_
    intro i used
    simp only [Shm.setObject, Shm.withFrames, Function.update_of_ne (books.unnamed unmapped used)]
  · intro other
    by_cases here : other = slot
    · subst here
      simp [Shm.setObject, Shm.createdObject, emptyObj]
    · simpa [Shm.setObject, Shm.withFrames, here] using reaped other
  · simp only [live]
    exact owners

/-- A change that only concerns who may do what keeps the agreement. -/
theorem changeObject (accounted : Accounted ⟨shm, hal⟩) {grants : List Grant} :
    Accounted ⟨shm.setObject slot { shm.objects slot with grants := grants }, hal⟩ := by
  have ⟨⟨books, frames, backed⟩, reaped, owners⟩ := accounted
  have same : ∀ other, ((shm.setObject slot { shm.objects slot with grants := grants }).objects
      other) = { shm.objects other with
        grants := if other = slot then grants else (shm.objects other).grants } := by
    intro other
    by_cases here : other = slot
    · subst here
      simp [Shm.setObject]
    · simp [Shm.setObject, here]
  refine ⟨⟨?_, ?_, backed.congr rfl fun _ _ => rfl⟩, ?_, owners⟩
  · exact books.congr rfl rfl fun other => by simp only [same other, and_self]
  · exact frames.congr rfl (fun other => by simp only [same other, and_self]) rfl rfl
  · intro other
    simp only [same other]
    exact reaped other

theorem grant (accounted : Accounted ⟨shm, hal⟩) (caller : Pid) (handle : UInt32) (target : Pid)
    (rights : UInt32) : Accounted ⟨(shm.grant hal caller handle target rights).2, hal⟩ := by
  rcases Shm.grant_cases shm hal caller handle target rights with
    ⟨errno, same⟩ | ⟨slot, grants, _, _, _, _, _, same⟩
  · rw [same]
    exact accounted
  · rw [same]
    exact accounted.changeObject

/-- A new mapping is entered whole, and a failed one leaves no trace. -/
theorem map (accounted : Accounted ⟨shm, hal⟩) (pid : Pid) (living : hal.live pid = true)
    (handle want : UInt32) :
    Accounted ⟨(shm.map hal pid handle want).2.1, (shm.map hal pid handle want).2.2⟩ := by
  have ⟨⟨books, frames, backed⟩, reaped, owners⟩ := accounted
  simp only at books frames backed reaped owners
  rcases Shm.map_cases shm hal pid handle want with ⟨errno, same⟩ |
    ⟨slot, free, addr, found, _, _, _, few, unused, gap, ⟨failed, errno, same⟩ | ⟨done, size, same⟩⟩
  · rw [same]
    exact accounted
  · have tables := accounted.consistent.mapFailed gap failed
    obtain ⟨allocated, misfreed, live⟩ := Shm.mapPages_frame hal pid addr (shm.frames slot)
      (want &&& rightWrite != 0) 0 (shm.objects slot).pages
    rw [same]
    refine ⟨⟨books, frames.congr rfl (fun _ => ⟨rfl, rfl⟩) allocated misfreed, ?_⟩, reaped, ?_⟩
    · simpa only [tables] using backed
    · simpa only [live] using owners
  obtain ⟨aligned, low, high, apart⟩ := books.findGap gap
  obtain ⟨hit, miss⟩ := Shm.mapPages_true done
  obtain ⟨allocated, misfreed, live⟩ := Shm.mapPages_frame hal pid addr (shm.frames slot)
    (want &&& rightWrite != 0) 0 (shm.objects slot).pages
  have span : (shm.mappedRecord slot pid addr want).spanEnd
      = addr + ((shm.objects slot).pages + 1) * pageSize := rfl
  have used := (Shm.lookup_ok found).1
  rw [same]
  refine ⟨⟨?_, ?_, ?_⟩, ?_, ?_⟩
  · exact books.addMap unused rfl ⟨used, rfl⟩ ⟨aligned, low, high⟩ apart few
  · refine frames.congr rfl ?_ allocated misfreed
    intro other
    exact Shm.update_mapCount shm.objects slot other
  · refine backed.addMap unused rfl rfl rfl apart ?_ ?_
    · intro p within
      exact hit p (Nat.zero_le p) (by rw [Nat.zero_add]; exact within)
    · intro other vaddr elsewhere
      exact miss other vaddr (by rwa [Nat.zero_add])
  · intro other
    by_cases here : other = slot
    · subst here
      simp [Shm.withRecord, Shm.setObject, Shm.mappedRecord]
    · simpa [Shm.withRecord, Shm.setObject, Shm.setMap, Shm.mappedRecord, here] using reaped other
  · intro i
    simp only [live]
    by_cases here : i = free
    · subst here
      simpa [Shm.withRecord, Shm.setObject, Shm.setMap, Shm.mappedRecord] using living
    · simpa [Shm.withRecord, Shm.setObject, Shm.setMap, here] using owners i

/-- Freeing what a call made unreachable ends with nothing left over. -/
theorem reap (consistent : Shm.Consistent shm hal hal.pageTable)
    (used : (shm.objects slot).inUse = true)
    (others : ∀ other, other ≠ slot → (shm.objects other).inUse = true →
      (shm.objects other).dying = true → (shm.objects other).mapCount ≠ 0)
    (owners : ∀ i, (shm.maps i).inUse = true → hal.live (shm.maps i).pid = true) :
    Accounted ⟨(shm.reap hal slot).1, (shm.reap hal slot).2⟩ := by
  obtain ⟨maps, pages, live, objects, here⟩ := Shm.reap_frame shm hal slot
  refine ⟨?_, ?_, ?_⟩
  · simp only [pages]
    exact consistent.reap used
  · intro other inUse
    by_cases at_ : other = slot
    · subst at_
      obtain ⟨same, reachable⟩ := here inUse
      simp only [same]
      exact reachable
    · simp only [objects other at_] at inUse ⊢
      exact others other at_ inUse
  · simp only [maps, live]
    exact owners

/-- Forgetting a mapping takes its pages out, and its object with it if it was the last. -/
theorem unmap (accounted : Accounted ⟨shm, hal⟩) (pid : Pid) (addr : Nat) :
    Accounted ⟨(shm.unmap hal pid addr).2.1, (shm.unmap hal pid addr).2.2⟩ := by
  have ⟨⟨books, frames, backed⟩, reaped, owners⟩ := accounted
  simp only at books frames backed reaped owners
  rcases Shm.unmap_cases shm hal pid addr with ⟨errno, same⟩ | ⟨index, used, mine, _, same⟩
  · rw [same]
    exact accounted
  rw [same]
  obtain ⟨tables, shape⟩ :=
    Shm.unmapPages_frame hal pid (shm.maps index).addr 0 (shm.maps index).pages
  have named := (books.named index used).1
  apply reap
  · refine ⟨books.dropMap used, ?_, backed.dropMap books used rfl rfl ?_ ?_⟩
    · rw [shape]
      exact frames.congr rfl (fun other => Shm.update_mapCount shm.objects _ other) rfl rfl
    · intro p within
      rw [mine]
      exact Shm.unmapPages_hit (Nat.zero_le p) (by omega)
    · intro other vaddr elsewhere
      rw [mine] at elsewhere
      exact Shm.unmapPages_miss (by rwa [Nat.zero_add])
  · exact (Shm.update_mapCount shm.objects _ _).1.trans named
  · intro other elsewhere
    simpa [Shm.dropMap, Shm.setObject, Shm.setMap, elsewhere] using reaped other
  · intro i
    rw [shape]
    by_cases here : i = index
    · subst here
      simp [Shm.dropMap, Shm.setObject, Shm.setMap, emptyMap]
    · simpa [Shm.dropMap, Shm.setObject, Shm.setMap, here] using owners i

/-- A destroyed object is freed at once if nothing maps it. -/
theorem destroy (accounted : Accounted ⟨shm, hal⟩) (pid : Pid) (handle : UInt32) :
    Accounted ⟨(shm.destroy hal pid handle).2.1, (shm.destroy hal pid handle).2.2⟩ := by
  have ⟨⟨books, frames, backed⟩, reaped, owners⟩ := accounted
  simp only at books frames backed reaped owners
  rcases Shm.destroy_cases shm hal pid handle with ⟨errno, same⟩ | ⟨slot, found, _, same⟩
  · rw [same]
    exact accounted
  rw [same]
  have marked : ∀ other, (shm.setObject slot { shm.objects slot with dying := true }).objects other
      = { shm.objects other with
          dying := if other = slot then true else (shm.objects other).dying } := by
    intro other
    by_cases here : other = slot
    · subst here
      simp [Shm.setObject]
    · simp [Shm.setObject, here]
  apply reap
  · refine ⟨?_, ?_, backed.congr rfl fun _ _ => rfl⟩
    · exact books.congr rfl rfl fun other => by simp only [marked other, and_self]
    · exact frames.congr rfl (fun other => by simp only [marked other, and_self]) rfl rfl
  · simp only [marked slot]
    exact (Shm.lookup_ok found).1
  · intro other elsewhere
    simp only [marked other, if_neg elsewhere]
    exact reaped other
  · exact owners

end ShmSystem.Accounted

end NovaOs
