import NovaOs.Shm.Consistent

/-! Processes that exit or fork take their mappings with them, record by record. -/

namespace NovaOs

open Function List

namespace Shm

variable {shm : Shm} {hal : Hal} {pid parent child : Pid} {tables : PageTables} {start : Shm}
  {rest : List (Fin maxMapRecords)} {index : Fin maxMapRecords}
variable {after : Shm} {free : Fin maxMapRecords}

/-- What forgetting a process's records does to the table. -/
structure Dropped (pid : Pid) (indices : List (Fin maxMapRecords)) (shm after : Shm) : Prop where
  frames : after.frames = shm.frames
  objects : ∀ slot, after.objects slot
    = { shm.objects slot with mapCount := (after.objects slot).mapCount }
  maps : ∀ i, after.maps i
    = if i ∈ indices ∧ MapRec.belongs pid (shm.maps i) = true then emptyMap else shm.maps i
  books : shm.Books → after.Books

/-- Forgetting one record is a step of forgetting them all. -/
theorem dropMapOf_dropped (pid : Pid) (shm : Shm) (index : Fin maxMapRecords) :
    Dropped pid [index] shm (dropMapOf pid shm index) := by
  rw [dropMapOf]
  split
  · rename_i mine
    have belongs : MapRec.belongs pid (shm.maps index) = true := mine
    simp only [Bool.and_eq_true] at mine
    refine ⟨rfl, ?_, ?_, fun books => books.dropMap mine.1⟩
    · intro slot
      by_cases here : slot = (shm.maps index).obj
      · subst here
        simp [dropMap, setObject, setMap]
      · simp [dropMap, setObject, setMap, here]
    · intro i
      by_cases here : i = index
      · subst here
        simp [dropMap, setObject, setMap, belongs]
      · simp [dropMap, setObject, setMap, here]
  · rename_i foreign
    have stranger : ¬ MapRec.belongs pid (shm.maps index) = true := foreign
    refine ⟨rfl, fun _ => rfl, ?_, id⟩
    intro i
    rw [if_neg]
    intro both
    rw [mem_singleton.mp both.1] at both
    exact stranger both.2

/-- Forgetting all records of a process clears exactly these. -/
theorem foldl_dropMapOf (pid : Pid) (indices : List (Fin maxMapRecords)) (shm : Shm) :
    Dropped pid indices shm (indices.foldl (dropMapOf pid) shm) := by
  induction indices generalizing shm with
  | nil => exact ⟨rfl, fun _ => rfl, fun i => by simp, id⟩
  | cons index rest ih =>
    have first := dropMapOf_dropped pid shm index
    have later := ih (dropMapOf pid shm index)
    refine ⟨later.frames.trans first.frames, ?_, ?_, fun books => later.books (first.books books)⟩
    · intro slot
      rw [foldl_cons, later.objects slot, first.objects slot]
    intro i
    rw [foldl_cons, later.maps i, first.maps i]
    -- A record cleared here does not belong to the process any more.
    by_cases here : i = index
    · subst here
      by_cases mine : MapRec.belongs pid (shm.maps i) = true
      · simp [mine]
      · simp [mine]
    · simp [here]

/-- What freeing unreachable objects one slot after another does. -/
theorem foldl_reapInUse (slots : List (Fin maxObjects)) (state : Shm × Hal)
    (consistent : Consistent state.1 state.2 tables) :
    Consistent (slots.foldl reapInUse state).1 (slots.foldl reapInUse state).2 tables ∧
      (slots.foldl reapInUse state).1.maps = state.1.maps ∧
      (slots.foldl reapInUse state).2.pageTable = state.2.pageTable ∧
      (slots.foldl reapInUse state).2.live = state.2.live ∧
      ∀ slot, ((slots.foldl reapInUse state).1.objects slot).inUse = true →
        (slots.foldl reapInUse state).1.objects slot = state.1.objects slot ∧
        (slot ∈ slots → (state.1.objects slot).dying = true →
          (state.1.objects slot).mapCount ≠ 0) := by
  induction slots generalizing state with
  | nil => exact ⟨consistent, rfl, rfl, rfl, fun _ _ => ⟨rfl, fun member => by simp at member⟩⟩
  | cons first rest ih =>
    rw [foldl_cons]
    by_cases used : (state.1.objects first).inUse = true
    · have step : reapInUse state first = state.1.reap state.2 first := by
        rw [reapInUse, if_pos used]
      obtain ⟨maps, pages, live, others, here⟩ := reap_frame state.1 state.2 first
      rw [step]
      obtain ⟨agree, maps', pages', live', kept⟩ :=
        ih (state.1.reap state.2 first) (consistent.reap used)
      refine ⟨agree, maps'.trans maps, pages'.trans pages, live'.trans live, ?_⟩
      intro slot inUse
      obtain ⟨same, reaped⟩ := kept slot inUse
      by_cases at_ : slot = first
      · subst at_
        rw [same] at inUse
        obtain ⟨same', reachable⟩ := here inUse
        exact ⟨same.trans same', fun _ => reachable⟩
      · rw [others slot at_] at same reaped
        refine ⟨same, fun member => reaped ?_⟩
        exact (mem_cons.mp member).resolve_left at_
    · have step : reapInUse state first = state := by rw [reapInUse, if_neg used]
      rw [step]
      obtain ⟨agree, maps, pages, live, kept⟩ := ih state consistent
      refine ⟨agree, maps, pages, live, ?_⟩
      intro slot inUse
      obtain ⟨same, reaped⟩ := kept slot inUse
      refine ⟨same, fun member => ?_⟩
      rcases mem_cons.mp member with rfl | member
      · rw [same] at inUse
        exact absurd inUse used
      · exact reaped member

/-- A table that lost a process's records agrees with page tables that lost the process. -/
theorem Backed.dropProcess (backed : Backed shm tables) (frames : after.frames = shm.frames)
    (maps : ∀ i, after.maps i
      = if MapRec.belongs pid (shm.maps i) = true then emptyMap else shm.maps i) :
    Backed after (update tables pid fun _ => none) := by
  have kept : ∀ i, (after.maps i).inUse = true →
      after.maps i = shm.maps i ∧ (shm.maps i).pid ≠ pid := by
    intro i used
    rw [maps i] at used ⊢
    split at used
    · cases used
    · rename_i foreign
      rw [if_neg foreign]
      refine ⟨rfl, fun same => foreign ?_⟩
      simp [MapRec.belongs, used, same]
  intro other vaddr frame writable
  by_cases here : other = pid
  · subst here
    rw [update_self]
    constructor
    · intro entry
      cases entry
    · intro mapped
      obtain ⟨i, used, mine, _⟩ := mapped
      obtain ⟨same, foreign⟩ := kept i used
      rw [same] at mine
      exact absurd mine foreign
  · rw [update_of_ne here, backed other vaddr frame writable, Maps, Maps, frames]
    constructor
    · intro mapped
      obtain ⟨i, used, mine, rest⟩ := mapped
      have foreign : ¬ MapRec.belongs pid (shm.maps i) = true := by
        intro belongs
        simp only [MapRec.belongs, Bool.and_eq_true, beq_iff_eq] at belongs
        exact here (mine.symm.trans belongs.2)
      have same : after.maps i = shm.maps i := by rw [maps i, if_neg foreign]
      refine ⟨i, ?_⟩
      rw [same]
      exact ⟨used, mine, rest⟩
    · intro mapped
      obtain ⟨i, used, rest⟩ := mapped
      have same := (kept i used).1
      rw [same] at used rest
      exact ⟨i, used, rest⟩

/-- What is left of the table when a process has gone. -/
structure Exited (pid : Pid) (shm after : Shm) : Prop where
  maps : ∀ i, after.maps i
    = if MapRec.belongs pid (shm.maps i) = true then emptyMap else shm.maps i
  -- An object that is still in use was not freed on the way.
  objects : ∀ slot, (after.objects slot).inUse = true →
    (shm.objects slot).inUse = true ∧ after.objects slot = { shm.objects slot with
      dying := (shm.objects slot).dying || (shm.objects slot).owner == pid
      mapCount := (after.objects slot).mapCount
      grants := revoke pid (shm.objects slot).grants }

/-- An exit leaves the table in agreement with page tables that lost the process. -/
theorem Consistent.processExit (consistent : Consistent shm hal tables) (pid : Pid) :
    Consistent (shm.processExit hal pid).1 (shm.processExit hal pid).2
        (update tables pid fun _ => none) ∧
      Exited pid shm (shm.processExit hal pid).1 ∧ (shm.processExit hal pid).1.Reaped ∧
      (shm.processExit hal pid).2.pageTable = hal.pageTable ∧
      (shm.processExit hal pid).2.live = hal.live := by
  have ⟨books, frames, backed⟩ := consistent
  have dropped := foldl_dropMapOf pid (finRange maxMapRecords) (shm.orphan pid)
  rw [Shm.processExit]
  generalize (finRange maxMapRecords).foldl (dropMapOf pid) (shm.orphan pid) = after
    at dropped ⊢
  -- Marking and forgetting grants change neither sizes nor counts.
  have marked : ∀ slot, (shm.orphan pid).objects slot = { shm.objects slot with
      dying := (shm.objects slot).dying
        || ((shm.objects slot).inUse && (shm.objects slot).owner == pid) } := by
    intro slot
    simp only [orphan]
    split
    · rename_i theirs
      rw [theirs, Bool.or_true]
    · rename_i others
      rw [Bool.not_eq_true] at others
      rw [others, Bool.or_false]
  have forgot : ∀ slot, (after.forgetGrants pid).objects slot = { after.objects slot with
      grants := if (after.objects slot).inUse = true then revoke pid (after.objects slot).grants
        else (after.objects slot).grants } := by
    intro slot
    simp only [forgetGrants]
    split <;> rfl
  have maps : ∀ i, (after.forgetGrants pid).maps i
      = if MapRec.belongs pid (shm.maps i) = true then emptyMap else shm.maps i := by
    intro i
    have now := dropped.maps i
    simp only [mem_finRange, true_and] at now
    exact now
  have lists : (after.forgetGrants pid).frames = shm.frames := dropped.frames
  have cleared : Consistent (after.forgetGrants pid) hal
      (update tables pid fun _ => none) := by
    refine ⟨?_, ?_, backed.dropProcess lists maps⟩
    · refine (dropped.books (books.congr rfl rfl fun slot => ?_)).congr rfl rfl fun slot => ?_
      · simp only [marked slot, and_self]
      · simp only [forgot slot, and_self]
    · refine frames.congr lists ?_ rfl rfl
      intro slot
      rw [forgot slot, dropped.objects slot, marked slot]
      exact ⟨rfl, rfl⟩
  obtain ⟨agree, sameMaps, pages, live, kept⟩ :=
    foldl_reapInUse (finRange maxObjects) (after.forgetGrants pid, hal) cleared
  refine ⟨agree, ⟨?_, ?_⟩, ?_, pages, live⟩
  · intro i
    rw [sameMaps]
    exact maps i
  · intro slot used
    obtain ⟨same, _⟩ := kept slot used
    obtain ⟨count, shape⟩ : ∃ count, after.objects slot
        = { (shm.orphan pid).objects slot with mapCount := count } := ⟨_, dropped.objects slot⟩
    simp only [same, forgot slot, shape, marked slot] at used ⊢
    simp [used]
  · intro slot used
    obtain ⟨same, reachable⟩ := kept slot used
    rw [same]
    exact reachable (mem_finRange slot)

/-- How far a fork has come: the records still to copy, and what has been copied. -/
structure Inheriting (parent child : Pid) (start : Shm) (rest : List (Fin maxMapRecords))
    (shm : Shm) : Prop where
  books : shm.Books
  frames : shm.frames = start.frames
  objects : ∀ slot, shm.objects slot
    = { start.objects slot with mapCount := (shm.objects slot).mapCount }
  grown : ∀ slot, (start.objects slot).mapCount ≤ (shm.objects slot).mapCount
  -- Records that were there stay, and every new one copies a record of the parent.
  old : ∀ i, (start.maps i).inUse = true → shm.maps i = start.maps i
  new : ∀ j, (shm.maps j).inUse = true → (start.maps j).inUse = false →
    ∃ i, i ∉ rest ∧ MapRec.belongs parent (start.maps i) = true ∧
      shm.maps j = { start.maps i with pid := child }
  copied : ∀ i, i ∉ rest → MapRec.belongs parent (start.maps i) = true →
    ∃ j, shm.maps j = { start.maps i with pid := child }
  -- There is room for what is left, in the table and in the child's share of it.
  room : rest.countP (fun i => MapRec.belongs parent (start.maps i))
    ≤ Table.count (fun record => !record.inUse) shm.maps
  few : Table.count (MapRec.belongs child) shm.maps
    + rest.countP (fun i => MapRec.belongs parent (start.maps i)) ≤ maxMapsPerProc

/-- A record of the parent is the same record throughout a fork. -/
theorem Inheriting.belongs_eq (state : Inheriting parent child start rest shm)
    (fresh : child ≠ parent) (i : Fin maxMapRecords) :
    MapRec.belongs parent (shm.maps i) = MapRec.belongs parent (start.maps i) := by
  cases used : (start.maps i).inUse with
  | true => rw [state.old i used]
  | false => ?_
  have before : MapRec.belongs parent (start.maps i) = false := by simp [MapRec.belongs, used]
  rw [before]
  cases now : (shm.maps i).inUse with
  | false => simp [MapRec.belongs, now]
  | true =>
    obtain ⟨_, _, _, copy⟩ := state.new i now used
    simp [MapRec.belongs, copy, fresh]

/-- Copying one record of the parent is one step of a fork. -/
theorem Inheriting.copy (unborn : ∀ i, MapRec.belongs child (start.maps i) = false)
    (once : index ∉ rest) (state : Inheriting parent child start (index :: rest) shm)
    (mine : MapRec.belongs parent (start.maps index) = true)
    (unused : (shm.maps free).inUse = false) :
    Inheriting parent child start rest
      (shm.withRecord free { start.maps index with pid := child }) := by
  have used : (start.maps index).inUse = true ∧ (start.maps index).pid = parent := by
    simpa [MapRec.belongs] using mine
  have record := state.old index used.1
  have usedNow : (shm.maps index).inUse = true := by rw [record]; exact used.1
  have room := state.room
  have few := state.few
  rw [countP_cons, if_pos mine] at room few
  have slot : (shm.maps index).obj = (start.maps index).obj := by rw [record]
  have named := state.books.named index usedNow
  have placed := state.books.placed index usedNow
  rw [record] at named placed
  have vacant : (start.maps free).inUse = false := by
    cases before : (start.maps free).inUse with
    | false => rfl
    | true =>
      rw [state.old free before, before] at unused
      cases unused
  -- A record of the child copies another record of the parent, which lies apart from this one.
  have apart : ∀ i, (shm.maps i).inUse = true → (shm.maps i).pid = child →
      (start.maps index).spanEnd ≤ (shm.maps i).addr ∨
        (shm.maps i).spanEnd ≤ (start.maps index).addr := by
    intro i inUse theirs
    cases before : (start.maps i).inUse with
    | true =>
      have stranger := unborn i
      rw [state.old i before] at theirs
      simp [MapRec.belongs, before, theirs] at stranger
    | false => ?_
    obtain ⟨source, past, belongs, copy⟩ := state.new i inUse before
    have differ : index ≠ source := by
      intro same
      subst same
      exact past mem_cons_self
    have sourceUsed : (start.maps source).inUse = true ∧ (start.maps source).pid = parent := by
      simpa [MapRec.belongs] using belongs
    have gap := state.books.apart index source differ usedNow
      (by rw [state.old source sourceUsed.1]; exact sourceUsed.1)
      (by rw [record, state.old source sourceUsed.1, used.2, sourceUsed.2])
    rw [record, state.old source sourceUsed.1] at gap
    rw [copy]
    exact gap
  refine ⟨?_, state.frames, ?_, ?_, ?_, ?_, ?_, ?_, ?_⟩
  · have below : Table.count (MapRec.belongs child) shm.maps < maxMapsPerProc := by omega
    exact state.books.addMap unused used.1 named placed apart below
  · intro other
    by_cases here : other = (start.maps index).obj
    · subst here
      simp only [withRecord, setObject, update_self]
      rw [state.objects]
    · simpa [withRecord, setObject, setMap, here] using state.objects other
  · intro other
    have grown := state.grown other
    by_cases here : other = (start.maps index).obj
    · subst here
      simp only [withRecord, setObject, update_self]
      omega
    · simpa [withRecord, setObject, setMap, here] using grown
  · intro i before
    have elsewhere : i ≠ free := by
      intro same
      rw [same, vacant] at before
      cases before
    simpa [withRecord, setObject, setMap, elsewhere] using state.old i before
  · intro j inUse before
    by_cases here : j = free
    · subst here
      exact ⟨index, once, mine, by simp [withRecord, setObject, setMap]⟩
    have now : (shm.withRecord free { start.maps index with pid := child }).maps j
        = shm.maps j := by simp [withRecord, setObject, setMap, here]
    rw [now] at inUse ⊢
    obtain ⟨i, past, belongs, copy⟩ := state.new j inUse before
    exact ⟨i, fun member => past (mem_cons_of_mem _ member), belongs, copy⟩
  · intro i past belongs
    by_cases here : i = index
    · subst here
      exact ⟨free, by simp [withRecord, setObject, setMap]⟩
    obtain ⟨j, copy⟩ := state.copied i (by simp [here, past]) belongs
    have elsewhere : j ≠ free := by
      intro same
      rw [same] at copy
      simp only [MapRec.belongs, Bool.and_eq_true] at belongs
      rw [copy] at unused
      simp [belongs.1] at unused
    exact ⟨j, by simp [withRecord, setObject, setMap, elsewhere, copy]⟩
  · have moved : Table.count (fun record => !record.inUse)
          (update shm.maps free { start.maps index with pid := child }) + 1
        = Table.count (fun record => !record.inUse) shm.maps := by
      simpa [unused, used.1] using Table.count_update (fun record => !record.inUse) shm.maps free
        { start.maps index with pid := child }
    show _ ≤ Table.count (fun record => !record.inUse)
      (update shm.maps free { start.maps index with pid := child })
    omega
  · have moved : Table.count (MapRec.belongs child)
          (update shm.maps free { start.maps index with pid := child })
        = Table.count (MapRec.belongs child) shm.maps + 1 := by
      simpa [MapRec.belongs, unused, used.1] using Table.count_update (MapRec.belongs child)
        shm.maps free { start.maps index with pid := child }
    show Table.count (MapRec.belongs child)
      (update shm.maps free { start.maps index with pid := child }) + _ ≤ _
    omega

/-- Any other record is passed over. -/
theorem inheritMap_skip (foreign : MapRec.belongs parent (shm.maps index) = false) :
    inheritMap parent child shm index = shm := by
  have current : ((shm.maps index).inUse && (shm.maps index).pid == parent) = false := foreign
  simp only [inheritMap, current, Bool.false_eq_true, if_false]

/-- Copying one record, or passing over one that is not the parent's, is one step of a fork. -/
theorem Inheriting.step (fresh : child ≠ parent)
    (unborn : ∀ i, MapRec.belongs child (start.maps i) = false) (once : index ∉ rest)
    (state : Inheriting parent child start (index :: rest) shm) :
    Inheriting parent child start rest (inheritMap parent child shm index) := by
  have same := state.belongs_eq fresh index
  have room := state.room
  have few := state.few
  rw [countP_cons] at room few
  cases mine : MapRec.belongs parent (start.maps index) with
  | true =>
    have used : (start.maps index).inUse = true := by
      simp only [MapRec.belongs, Bool.and_eq_true] at mine
      exact mine.1
    rw [if_pos mine] at room
    -- Some slot is still free, so the search finds one.
    cases slot : Table.first? (fun record => !record.inUse) shm.maps with
    | none =>
      have full := Table.count_eq_zero.mpr (Table.first?_eq_none slot)
      omega
    | some free =>
      have unused : (shm.maps free).inUse = false := by simpa using Table.first?_eq_some slot
      have current : ((shm.maps index).inUse && (shm.maps index).pid == parent) = true :=
        same.trans mine
      simp only [inheritMap, current, slot, if_true]
      rw [state.old index used]
      exact state.copy unborn once mine unused
  | false =>
    rw [inheritMap_skip (same.trans mine)]
    rw [if_neg (by simp [mine])] at room few
    refine ⟨state.books, state.frames, state.objects, state.grown, state.old, ?_, ?_, room, few⟩
    · intro j inUse before
      obtain ⟨i, past, belongs, copy⟩ := state.new j inUse before
      exact ⟨i, fun member => past (mem_cons_of_mem _ member), belongs, copy⟩
    intro i past belongs
    apply state.copied i ?_ belongs
    intro member
    rcases mem_cons.mp member with here | member
    · rw [here, mine] at belongs
      cases belongs
    · exact past member

/-- Walking the whole table completes a fork. -/
theorem Inheriting.run (fresh : child ≠ parent)
    (unborn : ∀ i, MapRec.belongs child (start.maps i) = false) (once : rest.Nodup)
    (state : Inheriting parent child start rest shm) :
    Inheriting parent child start [] (rest.foldl (inheritMap parent child) shm) := by
  induction rest generalizing shm with
  | nil => exact state
  | cons index rest ih =>
    obtain ⟨absent, once⟩ := nodup_cons.mp once
    exact ih once (state.step fresh unborn absent)

/-- A fork is refused and changes nothing, or copies every record of the parent. -/
theorem fork_cases (books : shm.Books) (fresh : child ≠ parent)
    (unborn : ∀ i, MapRec.belongs child (shm.maps i) = false) :
    (∃ errno, shm.fork parent child = (.error errno, shm)) ∨
    ∃ after, shm.fork parent child = (.ok (), after) ∧
      Inheriting parent child shm [] after := by
  simp only [fork]
  split
  · exact .inl ⟨_, rfl⟩
  split
  · exact .inl ⟨_, rfl⟩
  rename_i _ room
  right
  refine ⟨_, rfl, ?_⟩
  refine Inheriting.run fresh unborn (nodup_finRange _) ?_
  refine ⟨books, rfl, fun _ => rfl, fun _ => Nat.le_refl _, fun _ _ => rfl, ?_, ?_, ?_, ?_⟩
  · intro j used unused
    rw [used] at unused
    cases unused
  · intro i past
    exact absurd (mem_finRange i) past
  · exact Nat.not_lt.mp room
  · rw [Table.count_eq_zero.mpr unborn, Nat.zero_add]
    exact books.few parent

/-- The child's page table, a copy of the parent's, is exact for the copied records. -/
theorem Backed.fork (backed : Backed shm tables)
    (unborn : ∀ i, MapRec.belongs child (shm.maps i) = false)
    (forked : Inheriting parent child shm [] after) :
    Backed after (update tables child (tables parent)) := by
  -- Records of the child are copies, and all other records are old ones.
  have copy : ∀ j, (after.maps j).inUse = true → (after.maps j).pid = child →
      ∃ i, MapRec.belongs parent (shm.maps i) = true ∧
        after.maps j = { shm.maps i with pid := child } := by
    intro j used theirs
    cases before : (shm.maps j).inUse with
    | true =>
      have stranger := unborn j
      rw [forked.old j before] at theirs
      simp [MapRec.belongs, before, theirs] at stranger
    | false =>
      obtain ⟨i, _, belongs, same⟩ := forked.new j used before
      exact ⟨i, belongs, same⟩
  have kept : ∀ j, (after.maps j).inUse = true → (after.maps j).pid ≠ child →
      (shm.maps j).inUse = true := by
    intro j used theirs
    cases before : (shm.maps j).inUse with
    | true => rfl
    | false =>
      obtain ⟨i, _, _, same⟩ := forked.new j used before
      rw [same] at theirs
      exact absurd rfl theirs
  intro other vaddr frame writable
  by_cases here : other = child
  · subst here
    rw [update_self, backed parent vaddr frame writable, Maps, Maps, forked.frames]
    constructor
    · intro mapped
      obtain ⟨i, used, mine, rest⟩ := mapped
      obtain ⟨j, same⟩ := forked.copied i (by simp) (by simp [MapRec.belongs, used, mine])
      refine ⟨j, ?_⟩
      rw [same]
      exact ⟨used, rfl, rest⟩
    · intro mapped
      obtain ⟨j, used, mine, rest⟩ := mapped
      obtain ⟨i, belongs, same⟩ := copy j used mine
      rw [same] at rest
      simp only [MapRec.belongs, Bool.and_eq_true, beq_iff_eq] at belongs
      exact ⟨i, belongs.1, belongs.2, rest⟩
  · rw [update_of_ne here, backed other vaddr frame writable, Maps, Maps, forked.frames]
    constructor
    · intro mapped
      obtain ⟨i, used, rest⟩ := mapped
      refine ⟨i, ?_⟩
      rw [forked.old i used]
      exact ⟨used, rest⟩
    · intro mapped
      obtain ⟨j, used, mine, rest⟩ := mapped
      have before := kept j used (fun same => here (mine.symm.trans same))
      rw [forked.old j before] at mine rest
      exact ⟨j, before, mine, rest⟩

end Shm

end NovaOs
