import NovaOs.Shm.Authority

/-! Every mapping goes back to its object's owner, along grants and forks. -/

namespace NovaOs

open Function ShmSystem List

/-- What the table knows about rights is what happened. -/
structure Traced (shm : Shm) (log : List ShmEvent) : Prop where
  records : ∀ i, (shm.maps i).inUse = true →
    Authorised log (shm.maps i).pid (shm.maps i).obj (shm.maps i).rights
  owner : ∀ slot, (shm.objects slot).inUse = true → (shm.objects slot).dying = false →
    ownerNow slot log = some (shm.objects slot).owner
  grants : ∀ slot, (shm.objects slot).inUse = true → (shm.objects slot).dying = false →
    ∀ grant ∈ (shm.objects slot).grants, grant.rights ≠ 0 →
      grantedNow grant.pid slot log = grant.rights
  -- No process has two entries in one access list, or two mappings of one object.
  single : ∀ slot, (shm.objects slot).inUse = true → (shm.objects slot).dying = false →
    Shm.Single (shm.objects slot).grants
  alone : ∀ i j, i ≠ j → (shm.maps i).inUse = true → (shm.maps j).inUse = true →
    (shm.maps i).pid = (shm.maps j).pid → (shm.maps i).obj ≠ (shm.maps j).obj

namespace Traced

variable {shm after : Shm} {hal : Hal} {log : List ShmEvent} {slot : Fin maxObjects} {pid : Pid}

section

variable (traced : Traced shm log)

include traced

/-- Losing records or objects takes no right from anyone else. -/
theorem keep (maps : ∀ i, (after.maps i).inUse = true → after.maps i = shm.maps i)
    (objects : ∀ slot, (after.objects slot).inUse = true → (after.objects slot).dying = false →
      (shm.objects slot).inUse = true ∧ (shm.objects slot).dying = false ∧
        (after.objects slot).owner = (shm.objects slot).owner ∧
        (after.objects slot).grants = (shm.objects slot).grants) : Traced after log where
  records := by
    intro i used
    have same := maps i used
    rw [same] at used ⊢
    exact traced.records i used
  owner := by
    intro slot used living
    obtain ⟨used, living, owner, _⟩ := objects slot used living
    rw [owner]
    exact traced.owner slot used living
  grants := by
    intro slot used living
    obtain ⟨used, living, _, grants⟩ := objects slot used living
    rw [grants]
    exact traced.grants slot used living
  single := by
    intro slot used living
    obtain ⟨used, living, _, grants⟩ := objects slot used living
    rw [grants]
    exact traced.single slot used living
  alone := by
    intro i j differ usedI usedJ
    have sameI := maps i usedI
    have sameJ := maps j usedJ
    rw [sameI] at usedI ⊢
    rw [sameJ] at usedJ ⊢
    exact traced.alone i j differ usedI usedJ

/-- An event that ends no mapping and changes no right leaves everything as traced. -/
theorem note {event : ShmEvent}
    (records : ∀ i, (shm.maps i).inUse = true → event ≠ .exited (shm.maps i).pid ∧
      event ≠ .unmapped (shm.maps i).pid (shm.maps i).obj ∧
      ∀ owner, event ≠ .created owner (shm.maps i).obj)
    (owner : ∀ slot, ownerNow slot (event :: log) = ownerNow slot log)
    (grants : ∀ pid slot, grantedNow pid slot (event :: log) = grantedNow pid slot log) :
    Traced shm (event :: log) where
  records := by
    intro i used
    obtain ⟨running, held, same⟩ := records i used
    exact .kept (traced.records i used) running held same
  owner := by
    intro slot used living
    rw [owner]
    exact traced.owner slot used living
  grants := by
    intro slot used living grant member
    rw [grants]
    exact traced.grants slot used living grant member
  single := traced.single
  alone := traced.alone

/-- The rights the table finds for a process are the owner's or those granted to it. -/
theorem rightsOf {want : UInt32} (used : (shm.objects slot).inUse = true)
    (living : (shm.objects slot).dying = false)
    (kinds : want = rightRead ∨ want = rightRead ||| rightWrite)
    (allowed : want &&& ~~~(shm.rightsOf slot pid) = 0) :
    ownerNow slot log = some pid ∨ Allows (grantedNow pid slot log) want := by
  simp only [Shm.rightsOf] at allowed
  by_cases mine : (shm.objects slot).owner = pid
  · left
    rw [traced.owner slot used living, mine]
  right
  have other : ((shm.objects slot).owner == pid) = false := by simpa using mine
  simp only [other, Bool.false_eq_true, if_false] at allowed
  split at allowed
  · rename_i grant found
    have member := mem_of_find?_eq_some found
    have passed := List.find?_some found
    simp only [Bool.and_eq_true, bne_iff_ne, beq_iff_eq] at passed
    have given := traced.grants slot used living grant member passed.1
    rw [passed.2] at given
    rw [given]
    exact allows_of_covered kinds allowed
  -- Without a grant there are no rights, and none is not what was asked for.
  have nothing : want = 0 := by simpa using allowed
  subst nothing
  cases kinds with
  | inl reads => exact absurd reads (by decide)
  | inr both => exact absurd both (by decide)

/-- A new object has an owner and no grants. -/
theorem create (books : shm.Books) {pages : Nat} (free : (shm.objects slot).inUse = false)
    (maps : after.maps = shm.maps)
    (objects : after.objects
      = update shm.objects slot (shm.createdObject slot pid pages)) :
    Traced after (.created pid slot :: log) where
  records := by
    intro i
    rw [maps]
    intro used
    refine .kept (traced.records i used) (by simp) (by simp) ?_
    intro owner same
    cases same
    have live := (books.named i used).1
    rw [free] at live
    cases live
  owner := by
    intro other
    rw [objects]
    by_cases here : other = slot
    · subst here
      simp [ownerNow, Shm.createdObject]
    · simpa [ownerNow, here, Ne.symm here] using traced.owner other
  grants := by
    intro other
    rw [objects]
    by_cases here : other = slot
    · subst here
      simp [Shm.createdObject, emptyObj, emptyGrant]
    · simpa [grantedNow, here, Ne.symm here] using traced.grants other
  single := by
    intro other
    rw [objects]
    by_cases here : other = slot
    · subst here
      intro _ _
      simp [Shm.createdObject, emptyObj, Shm.Single, pairwise_replicate, emptyGrant]
    · simpa [here] using traced.single other
  alone := by
    rw [maps]
    exact traced.alone

/-- A grant of the owner is what its target now has. -/
theorem grant {target : Pid} {rights : UInt32} {grants : List Grant}
    (used : (shm.objects slot).inUse = true) (living : (shm.objects slot).dying = false)
    (granted : Shm.Granted (shm.objects slot).grants grants target rights) :
    Traced (shm.setObject slot { shm.objects slot with grants := grants })
      (.granted (shm.objects slot).owner slot target rights :: log) where
  records := by
    intro i inUse
    exact .kept (traced.records i inUse) (by simp) (by simp) (by simp)
  owner := by
    intro other
    by_cases here : other = slot
    · subst here
      simpa [ownerNow, Shm.setObject] using traced.owner other
    · simpa [ownerNow, Shm.setObject, here] using traced.owner other
  grants := by
    intro other
    by_cases here : other = slot
    · subst here
      simp only [Shm.setObject, update_self]
      intro _ _ grant member some_
      have owner := traced.owner other used living
      rcases (granted.single (traced.single other used living)).2 grant member some_ with
        ⟨theirs, given⟩ | ⟨others, old⟩
      · simp [grantedNow, theirs, given, owner]
      · simpa [grantedNow, Ne.symm others] using
          traced.grants other used living grant old some_
    · simpa [grantedNow, Shm.setObject, here, Ne.symm here] using traced.grants other
  single := by
    intro other
    by_cases here : other = slot
    · subst here
      simp only [Shm.setObject, update_self]
      intro _ _
      exact (granted.single (traced.single other used living)).1
    · simpa [Shm.setObject, here] using traced.single other
  alone := traced.alone

/-- A record made with the rights for it is authorised from the start. -/
theorem map {free : Fin maxMapRecords} {addr : Nat} {want : UInt32}
    (may : ownerNow slot log = some pid ∨ Allows (grantedNow pid slot log) want)
    (unused : (shm.maps free).inUse = false)
    (once : ∀ i, (shm.maps i).inUse = true → (shm.maps i).pid = pid → (shm.maps i).obj ≠ slot) :
    Traced (shm.withRecord free (shm.mappedRecord slot pid addr want))
      (.mapped pid slot want :: log) := by
  have noted : Traced shm (.mapped pid slot want :: log) :=
    traced.note (fun _ _ => ⟨by simp, by simp, by simp⟩) (fun _ => rfl) (fun _ _ => rfl)
  have objects : ∀ other, (shm.withRecord free (shm.mappedRecord slot pid addr want)).objects other
      = { shm.objects other with mapCount :=
          ((shm.withRecord free
            (shm.mappedRecord slot pid addr want)).objects other).mapCount } := by
    intro other
    by_cases here : other = slot
    · subst here
      simp [Shm.withRecord, Shm.setObject, Shm.mappedRecord]
    · simp [Shm.withRecord, Shm.setObject, Shm.setMap, Shm.mappedRecord, here]
  refine ⟨?_, ?_, ?_, ?_, ?_⟩
  · intro i
    by_cases here : i = free
    · subst here
      simp only [Shm.withRecord, Shm.setObject, Shm.setMap, update_self]
      intro _
      exact .mapped may
    · simpa [Shm.withRecord, Shm.setObject, Shm.setMap, here] using noted.records i
  · intro other
    rw [objects other]
    exact noted.owner other
  · intro other
    rw [objects other]
    exact noted.grants other
  · intro other
    rw [objects other]
    exact noted.single other
  · intro i j differ
    simp only [Shm.withRecord, Shm.setObject, Shm.setMap]
    by_cases first : i = free
    · subst first
      simp only [update_self, update_of_ne (Ne.symm differ)]
      intro _ usedJ same
      exact (once j usedJ same.symm).symm
    by_cases second : j = free
    · subst second
      simp only [update_self, update_of_ne first]
      intro usedI _ same
      exact once i usedI same
    · simp only [update_of_ne first, update_of_ne second]
      exact noted.alone i j differ

/-- A forgotten record was the only one of its process and object. -/
theorem unmap {index : Fin maxMapRecords} (used : (shm.maps index).inUse = true) :
    Traced (shm.dropMap index)
      (.unmapped (shm.maps index).pid (shm.maps index).obj :: log) := by
  have others : ∀ i, ((shm.dropMap index).maps i).inUse = true →
      i ≠ index ∧ (shm.dropMap index).maps i = shm.maps i := by
    intro i usedI
    have elsewhere : i ≠ index := by
      intro same
      subst same
      simp [Shm.dropMap, Shm.setObject, Shm.setMap, emptyMap] at usedI
    exact ⟨elsewhere, update_of_ne elsewhere _ _⟩
  have objects : ∀ slot, ∃ count,
      (shm.dropMap index).objects slot = { shm.objects slot with mapCount := count } := by
    intro slot
    by_cases here : slot = (shm.maps index).obj
    · subst here
      exact ⟨_, update_self ..⟩
    · exact ⟨(shm.objects slot).mapCount, update_of_ne here _ _⟩
  refine (traced.keep (fun i usedI => (others i usedI).2) ?_).note ?_ (fun _ => rfl)
    (fun _ _ => rfl)
  · intro slot
    obtain ⟨count, same⟩ := objects slot
    rw [same]
    exact fun usedS living => ⟨usedS, living, rfl, rfl⟩
  · intro i usedI
    obtain ⟨elsewhere, same⟩ := others i usedI
    rw [same] at usedI ⊢
    refine ⟨by simp, ?_, by simp⟩
    intro equal
    simp only [ShmEvent.unmapped.injEq] at equal
    exact traced.alone i index elsewhere usedI used equal.1.symm equal.2.symm

/-- When a process goes, its mappings, its objects and the grants to it go with it. -/
theorem processExit (exited : Shm.Exited pid shm after) : Traced after (.exited pid :: log) := by
  have kept : ∀ i, (after.maps i).inUse = true →
      after.maps i = shm.maps i ∧ (shm.maps i).pid ≠ pid := by
    intro i used
    rw [exited.maps i] at used ⊢
    split at used
    · cases used
    · rename_i foreign
      rw [if_neg foreign]
      refine ⟨rfl, fun same => foreign ?_⟩
      simp [MapRec.belongs, used, same]
  -- An object that still takes mappings was not the process's own.
  have live : ∀ slot, (after.objects slot).inUse = true → (after.objects slot).dying = false →
      (shm.objects slot).inUse = true ∧ (shm.objects slot).dying = false ∧
        (shm.objects slot).owner ≠ pid ∧
        (after.objects slot).owner = (shm.objects slot).owner ∧
        (after.objects slot).grants = Shm.revoke pid (shm.objects slot).grants := by
    intro slot used living
    obtain ⟨was, shape⟩ := exited.objects slot used
    rw [shape] at living ⊢
    simp only [Bool.or_eq_false_iff, beq_eq_false_iff_ne] at living
    exact ⟨was, living.1, living.2, rfl, rfl⟩
  refine ⟨?_, ?_, ?_, ?_, ?_⟩
  · intro i used
    obtain ⟨same, other⟩ := kept i used
    rw [same] at used ⊢
    exact .kept (traced.records i used) (by simpa using other.symm) (by simp) (by simp)
  · intro slot used living
    obtain ⟨was, alive, other, owner, _⟩ := live slot used living
    rw [ownerNow, traced.owner slot was alive, if_neg (by simpa using other), owner]
  · intro slot used living grant member some_
    obtain ⟨was, alive, _, _, grants⟩ := live slot used living
    rw [grants] at member
    obtain ⟨old, other⟩ := Shm.mem_revoke member some_
    rw [grantedNow, if_neg other.symm]
    exact traced.grants slot was alive grant old some_
  · intro slot used living
    obtain ⟨was, alive, _, _, grants⟩ := live slot used living
    rw [grants]
    exact (traced.single slot was alive).revoke pid
  · intro i j differ usedI usedJ
    have sameI := (kept i usedI).1
    have sameJ := (kept j usedJ).1
    rw [sameI] at usedI ⊢
    rw [sameJ] at usedJ ⊢
    exact traced.alone i j differ usedI usedJ

/-- A child's mappings are its parent's. -/
theorem fork {parent child : Pid} (unborn : ∀ i, MapRec.belongs child (shm.maps i) = false)
    (forked : Shm.Inheriting parent child shm [] after) :
    Traced after (.forked parent child :: log) := by
  have noted : Traced shm (.forked parent child :: log) :=
    traced.note (fun _ _ => ⟨by simp, by simp, by simp⟩) (fun _ => rfl) (fun _ _ => rfl)
  refine ⟨?_, ?_, ?_, ?_, ?_⟩
  · intro i used
    cases before : (shm.maps i).inUse with
    | true =>
      rw [forked.old i before]
      exact noted.records i before
    | false => ?_
    obtain ⟨source, _, belongs, copy⟩ := forked.new i used before
    simp only [MapRec.belongs, Bool.and_eq_true, beq_iff_eq] at belongs
    have origin := traced.records source belongs.1
    rw [belongs.2] at origin
    rw [copy]
    exact .inherited origin
  · intro slot
    rw [forked.objects slot]
    exact noted.owner slot
  · intro slot
    rw [forked.objects slot]
    exact noted.grants slot
  · intro slot
    rw [forked.objects slot]
    exact noted.single slot
  · -- Copies of different records name different objects, and no record is copied twice.
    have stranger : ∀ i, (shm.maps i).inUse = true → (shm.maps i).pid ≠ child := by
      intro i used same
      have absent := unborn i
      simp [MapRec.belongs, used, same] at absent
    intro i j differ usedI usedJ same
    have apart := forked.books.apart i j differ usedI usedJ same
    cases beforeI : (shm.maps i).inUse with
    | true =>
      rw [forked.old i beforeI] at same ⊢
      cases beforeJ : (shm.maps j).inUse with
      | true =>
        rw [forked.old j beforeJ] at same ⊢
        exact traced.alone i j differ beforeI beforeJ same
      | false =>
        obtain ⟨_, _, _, copy⟩ := forked.new j usedJ beforeJ
        rw [copy] at same
        exact absurd same (stranger i beforeI)
    | false =>
      obtain ⟨sourceI, _, belongsI, copyI⟩ := forked.new i usedI beforeI
      rw [copyI] at same apart ⊢
      cases beforeJ : (shm.maps j).inUse with
      | true =>
        rw [forked.old j beforeJ] at same
        exact absurd same.symm (stranger j beforeJ)
      | false => ?_
      obtain ⟨sourceJ, _, belongsJ, copyJ⟩ := forked.new j usedJ beforeJ
      rw [copyJ] at apart ⊢
      simp only [MapRec.belongs, Bool.and_eq_true, beq_iff_eq] at belongsI belongsJ
      have sources : sourceI ≠ sourceJ := by
        intro equal
        subst equal
        simp only [MapRec.spanEnd, pageSize] at apart
        omega
      exact traced.alone sourceI sourceJ sources belongsI.1 belongsJ.1
        (belongsI.2.trans belongsJ.2.symm)

/-- Freeing an object that nothing reaches takes no rights from anyone. -/
theorem reap (hal : Hal) (slot : Fin maxObjects) : Traced (shm.reap hal slot).1 log := by
  obtain ⟨maps, _, _, others, here⟩ := Shm.reap_frame shm hal slot
  refine traced.keep (fun i _ => by rw [maps]) ?_
  intro other used living
  have same : (shm.reap hal slot).1.objects other = shm.objects other := by
    by_cases at_ : other = slot
    · rw [at_] at used ⊢
      exact (here used).1
    · exact others other at_
  rw [same] at used living ⊢
  exact ⟨used, living, rfl, rfl⟩

/-- An object that is being destroyed takes no new mappings. -/
theorem destroy (slot : Fin maxObjects) :
    Traced (shm.setObject slot { shm.objects slot with dying := true }) log := by
  refine traced.keep (fun _ _ => rfl) ?_
  intro other
  by_cases here : other = slot
  · subst here
    simp [Shm.setObject]
  · have same : (shm.setObject slot { shm.objects slot with dying := true }).objects other
        = shm.objects other := update_of_ne here _ _
    rw [same]
    exact fun used living => ⟨used, living, rfl, rfl⟩

end

/-- Nothing is mapped when the system starts. -/
theorem new : Traced .new [] where
  records := by
    intro i used
    cases used
  owner := by
    intro slot used
    cases used
  grants := by
    intro slot used
    cases used
  single := by
    intro slot used
    cases used
  alone := by
    intro i j _ used
    cases used

/-- One operation and its event keep the table true to what happened. -/
theorem step {system : ShmSystem} (accounted : system.Accounted)
    (traced : Traced system.shm log) (op : ShmOp) :
    Traced (system.step op).shm ((system.event op).toList ++ log) := by
  have books := accounted.consistent.books
  cases op with
  | spawn pid =>
    simp only [ShmSystem.step, event, Option.toList_none, nil_append]
    split <;> exact traced
  | create pid size flags =>
    simp only [ShmSystem.step, event]
    split
    · rcases Shm.create_cases system.shm system.hal pid size flags with
        ⟨errno, same⟩
          | ⟨slot, pages, free, _, _, first, ⟨failed, errno, same⟩ | ⟨took, handle, same⟩⟩
      · simp only [same]
        exact traced
      · obtain ⟨_, back⟩ := accounted.consistent.frames.createFailed free failed
        simp only [same, back]
        exact traced
      · obtain ⟨⟨frames, shape⟩, _⟩ := Shm.takeFrames_frame system.shm system.hal slot 0 pages
        simp only [same, first, shape, Option.toList_some, singleton_append]
        exact traced.create books free rfl rfl
    · exact traced
  | grant caller handle target rights =>
    simp only [ShmSystem.step, event]
    split
    · rcases Shm.grant_cases system.shm system.hal caller handle target rights with
        ⟨errno, same⟩ | ⟨slot, grants, found, owner, _, _, granted, same⟩
      · simp only [same]
        exact traced
      · simp only [same, found, Option.toList_some, singleton_append]
        obtain ⟨used, living⟩ := Shm.lookup_ok found
        rw [← owner]
        exact traced.grant used living granted
    · exact traced
  | map pid handle want =>
    simp only [ShmSystem.step, event]
    split
    · rcases Shm.map_cases system.shm system.hal pid handle want with ⟨errno, same⟩ |
        ⟨slot, free, addr, found, kinds, allowed, once, _, unused, _,
          ⟨_, errno, same⟩ | ⟨_, size, same⟩⟩
      · simp only [same]
        exact traced
      · simp only [same]
        exact traced
      · simp only [same, found, Option.toList_some, singleton_append]
        obtain ⟨used, living⟩ := Shm.lookup_ok found
        exact traced.map (traced.rightsOf used living kinds allowed) unused once
    · exact traced
  | unmap pid addr =>
    simp only [ShmSystem.step, event]
    split
    · simp only [Shm.unmap]
      split
      · rename_i missing
        simp only [missing]
        exact traced
      rename_i index found
      have passed := Table.first?_eq_some found
      simp only [Bool.and_eq_true, beq_iff_eq] at passed
      have dropped := traced.unmap passed.1
      rw [passed.2.1] at dropped
      simp only [found, Option.toList_some, singleton_append]
      exact dropped.reap _ _
    · exact traced
  | destroy pid handle =>
    simp only [ShmSystem.step, event]
    split
    · rcases Shm.destroy_cases system.shm system.hal pid handle with
        ⟨errno, same⟩ | ⟨slot, _, _, same⟩
      · simp only [same]
        exact traced
      · simp only [same]
        exact (traced.destroy slot).reap _ _
    · exact traced
  | processExit pid =>
    simp only [ShmSystem.step, event]
    split
    · obtain ⟨_, exited, _⟩ := accounted.consistent.processExit pid
      simp only [Option.toList_some, singleton_append]
      exact traced.processExit exited
    · exact traced
  | fork parent child =>
    simp only [ShmSystem.step, event]
    split
    · rename_i usable
      simp only [Bool.and_eq_true, Bool.not_eq_true'] at usable
      simp only [usable.1, usable.2, ShmSystem.fork, Hal.shareAddressSpace]
      by_cases full : system.hal.mapFaults 0 = true
      · simp only [full]
        exact traced
      rw [Bool.not_eq_true] at full
      simp only [full]
      have fresh : child ≠ parent := by
        intro same
        rw [same, usable.1] at usable
        cases usable.2
      have unborn := (accounted.unborn usable.2).1
      rcases Shm.fork_cases books fresh unborn with ⟨errno, same⟩ | ⟨after, same, forked⟩
      · simp only [same]
        exact traced
      · simp only [same]
        exact traced.fork unborn forked
    · rename_i unusable
      rw [Bool.not_eq_true] at unusable
      simp only [unusable, Bool.false_and]
      exact traced

end Traced

/-- The table stays true to what happened through any history, and noting it changes nothing. -/
theorem Traced.run {state : ShmSystem × List ShmEvent} (accounted : state.1.Accounted)
    (traced : Traced state.1.shm state.2) (ops : List ShmOp) :
    (ops.foldl record state).1 = state.1.run ops ∧
      Traced (state.1.run ops).shm (ops.foldl record state).2 := by
  induction ops generalizing state with
  | nil => exact ⟨rfl, traced⟩
  | cons op rest ih => exact ih (accounted.step op) (traced.step accounted op)

/--
After any history of operations, whoever has a page of an object came by it rightfully: it
mapped the object as its owner or under a standing grant to itself, or is descended from a
process that did, and only a mapping for writing makes a page writable.
-/
theorem mappings_authorised (hal : Hal) (ops : List ShmOp) :
    (∀ i, (((ShmSystem.boot hal).run ops).shm.maps i).inUse = true →
      Authorised ((ShmSystem.boot hal).trace ops).2
        (((ShmSystem.boot hal).run ops).shm.maps i).pid
        (((ShmSystem.boot hal).run ops).shm.maps i).obj
        (((ShmSystem.boot hal).run ops).shm.maps i).rights) ∧
    ∀ pid vaddr frame writable,
      ((ShmSystem.boot hal).run ops).hal.pageTable pid vaddr = some (frame, writable) →
        ∃ place rights, ((ShmSystem.boot hal).run ops).shm.Owned place ∧
          ((ShmSystem.boot hal).run ops).shm.frameAt place = frame ∧
          Authorised ((ShmSystem.boot hal).trace ops).2 pid place.1 rights ∧
          (writable = true → rights &&& rightWrite ≠ 0) := by
  have accounted := (Accounted.boot hal).run ops
  have traced := (@Traced.run (boot hal, []) (.boot hal) .new ops).2
  refine ⟨traced.records, ?_⟩
  intro pid vaddr frame writable entry
  obtain ⟨i, used, mine, page, inside, _, frameIs, writableIs⟩ :=
    (accounted.consistent.backed pid vaddr frame writable).mp entry
  obtain ⟨objectUsed, pages⟩ := accounted.consistent.books.named i used
  refine ⟨(_, page), _, ⟨objectUsed, pages ▸ inside⟩, frameIs.symm, mine ▸ traced.records i used,
    ?_⟩
  intro writes
  rw [writes] at writableIs
  simpa using writableIs.symm

end NovaOs
