import NovaOs.Shm.Placement
import NovaOs.Shm.PageTables
import NovaOs.Shm.System

/-! What each operation on the table can do, said once for every later argument. -/

namespace NovaOs

namespace Shm

variable {shm : Shm} {hal : Hal}

/-- A handle that resolves names a live object. -/
theorem lookup_ok {handle : UInt32} {slot : Fin maxObjects}
    (found : shm.lookup handle = .ok slot) :
    (shm.objects slot).inUse = true ∧ (shm.objects slot).dying = false := by
  simp only [lookup] at found
  split at found
  · cases found
  split at found
  · cases found
  rename_i live
  cases found
  simp only [Bool.or_eq_true, Bool.not_eq_true', not_or, Bool.not_eq_false,
    Bool.not_eq_true] at live
  exact live.1

/-- The object that `create` puts in a slot. -/
def createdObject (shm : Shm) (slot : Fin maxObjects) (pid : Pid) (pages : Nat) : ShmObject :=
  { emptyObj with
    inUse := true
    gen := if (shm.objects slot).gen == 0 then 1 else (shm.objects slot).gen
    owner := pid
    pages := pages }

/-- Creation is refused, runs out of frames, or puts a new object in a free slot. -/
theorem create_cases (shm : Shm) (hal : Hal) (pid : Pid) (size : Nat) (flags : UInt32) :
    (∃ errno, shm.create hal pid size flags = (.error errno, shm, hal)) ∨
    ∃ slot pages, (shm.objects slot).inUse = false ∧ 0 < pages ∧ pages ≤ maxPagesPerObject ∧
      Table.first? (fun object => !object.inUse) shm.objects = some slot ∧
      (((takeFrames shm hal slot 0 pages).1 = false ∧
        ∃ errno, shm.create hal pid size flags
          = (.error errno, (takeFrames shm hal slot 0 pages).2)) ∨
      ((takeFrames shm hal slot 0 pages).1 = true ∧
        ∃ handle, shm.create hal pid size flags
          = (.ok handle, { (takeFrames shm hal slot 0 pages).2.1.setObject slot
                (shm.createdObject slot pid pages) with
              totalPages := shm.totalPages + pages },
            (takeFrames shm hal slot 0 pages).2.2))) := by
  simp only [create]
  split
  · exact .inl ⟨_, rfl⟩
  rename_i accepted
  simp only [Bool.or_eq_true, decide_eq_true_eq, beq_iff_eq, not_or, Nat.not_lt] at accepted
  have bounds : 0 < (size + pageSize - 1) / pageSize ∧
      (size + pageSize - 1) / pageSize ≤ maxPagesPerObject := by
    simp only [pageSize, maxPagesPerObject] at accepted ⊢
    omega
  generalize (size + pageSize - 1) / pageSize = pages at bounds ⊢
  split
  · exact .inl ⟨_, rfl⟩
  rename_i slot found
  have free : (shm.objects slot).inUse = false := by
    simpa using Table.first?_eq_some found
  split
  · exact .inl ⟨_, rfl⟩
  split
  · exact .inl ⟨_, rfl⟩
  right
  refine ⟨slot, pages, free, bounds.1, bounds.2, found, ?_⟩
  obtain ⟨⟨frames, same⟩, _⟩ := takeFrames_frame shm hal slot 0 pages
  split
  · rename_i result
    rw [result]
    exact .inl ⟨rfl, _, rfl⟩
  rename_i result
  rw [result] at same ⊢
  simp only at same
  subst same
  exact .inr ⟨rfl, _, rfl⟩

/-- The access list after a successful grant. -/
def Granted (grants after : List Grant) (target : Pid) (rights : UInt32) : Prop :=
  (rights = 0 ∧ after = revoke target grants) ∨
  (rights ≠ 0 ∧ (replaceFirst (fun grant => grant.rights != 0 && grant.pid == target)
      (fun grant => { grant with rights := rights }) grants = some after ∨
    replaceFirst (fun grant => grant.rights != 0 && grant.pid == target)
        (fun grant => { grant with rights := rights }) grants = none ∧
      replaceFirst (fun grant => grant.rights == 0)
        (fun _ => { pid := target, rights := rights }) grants = some after))

/-- A grant is refused, or its owner changes the access list of a live object. -/
theorem grant_cases (shm : Shm) (hal : Hal) (caller : Pid) (handle : UInt32) (target : Pid)
    (rights : UInt32) :
    (∃ errno, shm.grant hal caller handle target rights = (.error errno, shm)) ∨
    ∃ slot grants, shm.lookup handle = .ok slot ∧ (shm.objects slot).owner = caller ∧
      target ≠ caller ∧ (rights = 0 ∨ hal.live target = true) ∧
      Granted (shm.objects slot).grants grants target rights ∧
      shm.grant hal caller handle target rights
        = (.ok (), shm.setObject slot { shm.objects slot with grants := grants }) := by
  simp only [grant]
  split
  · exact .inl ⟨_, rfl⟩
  rename_i slot found
  split
  · exact .inl ⟨_, rfl⟩
  rename_i owner
  simp only [bne_iff_ne, ne_eq, not_not] at owner
  split
  · exact .inl ⟨_, rfl⟩
  rename_i accepted
  simp only [Bool.or_eq_true, beq_iff_eq, not_or] at accepted
  split
  · rename_i none_
    simp only [beq_iff_eq] at none_
    exact .inr ⟨slot, _, found, owner, accepted.1, Or.inl none_, Or.inl ⟨none_, rfl⟩, rfl⟩
  rename_i some_
  simp only [beq_iff_eq] at some_
  split
  · exact .inl ⟨_, rfl⟩
  rename_i live
  simp only [Hal.pidIsLive, Bool.not_eq_true', Bool.not_eq_false] at live
  split
  · rename_i grants changed
    exact .inr ⟨slot, grants, found, owner, accepted.1, Or.inr live,
      Or.inr ⟨some_, Or.inl changed⟩, rfl⟩
  rename_i absent
  split
  · rename_i grants added
    exact .inr ⟨slot, grants, found, owner, accepted.1, Or.inr live,
      Or.inr ⟨some_, Or.inr ⟨absent, added⟩⟩, rfl⟩
  · exact .inl ⟨_, rfl⟩

/-- The record that `map` makes. -/
def mappedRecord (shm : Shm) (slot : Fin maxObjects) (pid : Pid) (addr : Nat) (want : UInt32) :
    MapRec where
  inUse := true
  pid := pid
  addr := addr
  pages := (shm.objects slot).pages
  obj := slot
  rights := want

/-- The table with one more record and its object counted up. -/
def withRecord (shm : Shm) (free : Fin maxMapRecords) (record : MapRec) : Shm :=
  (shm.setMap free record).setObject record.obj
    { shm.objects record.obj with mapCount := (shm.objects record.obj).mapCount + 1 }

/-- Mapping is refused, fails on the way, or enters a record that the caller has the rights for. -/
theorem map_cases (shm : Shm) (hal : Hal) (pid : Pid) (handle want : UInt32) :
    (∃ errno, shm.map hal pid handle want = (.error errno, shm, hal)) ∨
    ∃ slot free addr, shm.lookup handle = .ok slot ∧
      (want = rightRead ∨ want = rightRead ||| rightWrite) ∧
      want &&& ~~~(shm.rightsOf slot pid) = 0 ∧
      (∀ i, (shm.maps i).inUse = true → (shm.maps i).pid = pid → (shm.maps i).obj ≠ slot) ∧
      Table.count (MapRec.belongs pid) shm.maps < maxMapsPerProc ∧
      (shm.maps free).inUse = false ∧
      shm.findGap pid ((shm.objects slot).pages + 1) shmVirtBase shmVirtEnd = some addr ∧
      (((mapPages hal pid addr (shm.frames slot) (want &&& rightWrite != 0) 0
          (shm.objects slot).pages).1 = false ∧
        ∃ errno, shm.map hal pid handle want = (.error errno, shm,
          (mapPages hal pid addr (shm.frames slot) (want &&& rightWrite != 0) 0
            (shm.objects slot).pages).2)) ∨
      ((mapPages hal pid addr (shm.frames slot) (want &&& rightWrite != 0) 0
          (shm.objects slot).pages).1 = true ∧
        ∃ placed, shm.map hal pid handle want = (.ok placed,
          shm.withRecord free (shm.mappedRecord slot pid addr want),
          (mapPages hal pid addr (shm.frames slot) (want &&& rightWrite != 0) 0
            (shm.objects slot).pages).2))) := by
  simp only [map, mapIn]
  split
  · exact .inl ⟨_, rfl⟩
  rename_i slot found
  split
  · exact .inl ⟨_, rfl⟩
  rename_i kind
  have kinds : want = rightRead ∨ want = rightRead ||| rightWrite := by
    simp only [Bool.and_eq_true, bne_iff_ne, ne_eq, not_and, not_not] at kind
    by_cases read : want = rightRead
    · exact .inl read
    · exact .inr (kind read)
  split
  · exact .inl ⟨_, rfl⟩
  rename_i allowed
  simp only [bne_iff_ne, ne_eq, not_not] at allowed
  split
  · exact .inl ⟨_, rfl⟩
  rename_i absent
  have once : ∀ i, (shm.maps i).inUse = true → (shm.maps i).pid = pid →
      (shm.maps i).obj ≠ slot := by
    intro i used mine here
    rw [Bool.not_eq_true, Option.isSome_eq_false_iff, Option.isNone_iff_eq_none] at absent
    have miss := Table.first?_eq_none absent i
    simp [used, mine, here] at miss
  split
  · exact .inl ⟨_, rfl⟩
  rename_i room
  have few : Table.count (MapRec.belongs pid) shm.maps < maxMapsPerProc :=
    Nat.not_le.mp room
  split
  · exact .inl ⟨_, rfl⟩
  rename_i free unused
  have empty : (shm.maps free).inUse = false := by
    simpa using Table.first?_eq_some unused
  split
  · exact .inl ⟨_, rfl⟩
  rename_i addr gap
  right
  refine ⟨slot, free, addr, found, kinds, allowed, once, few, empty, gap, ?_⟩
  split
  · rename_i result
    rw [result]
    exact .inl ⟨rfl, _, rfl⟩
  · rename_i result
    rw [result]
    exact .inr ⟨rfl, _, rfl⟩

/-- Unmapping is refused, or forgets one record of the caller with its pages. -/
theorem unmap_cases (shm : Shm) (hal : Hal) (pid : Pid) (addr : Nat) :
    (∃ errno, shm.unmap hal pid addr = (.error errno, shm, hal)) ∨
    ∃ index, (shm.maps index).inUse = true ∧ (shm.maps index).pid = pid ∧
      (shm.maps index).addr = addr ∧
      shm.unmap hal pid addr = (.ok (),
        (shm.dropMap index).reap
          (unmapPages hal pid (shm.maps index).addr 0 (shm.maps index).pages)
          (shm.maps index).obj) := by
  simp only [unmap]
  split
  · exact .inl ⟨_, rfl⟩
  · rename_i index found
    have passed := Table.first?_eq_some found
    simp only [Bool.and_eq_true, beq_iff_eq] at passed
    exact .inr ⟨index, passed.1, passed.2.1, passed.2.2, rfl⟩

/-- Destruction is refused, or its owner marks the object and frees it if nothing maps it. -/
theorem destroy_cases (shm : Shm) (hal : Hal) (pid : Pid) (handle : UInt32) :
    (∃ errno, shm.destroy hal pid handle = (.error errno, shm, hal)) ∨
    ∃ slot, shm.lookup handle = .ok slot ∧ (shm.objects slot).owner = pid ∧
      shm.destroy hal pid handle = (.ok (),
        (shm.setObject slot { shm.objects slot with dying := true }).reap hal slot) := by
  simp only [destroy]
  split
  · exact .inl ⟨_, rfl⟩
  rename_i slot found
  split
  · exact .inl ⟨_, rfl⟩
  · rename_i owner
    simp only [bne_iff_ne, ne_eq, not_not] at owner
    exact .inr ⟨slot, found, owner, rfl⟩

end Shm

end NovaOs
