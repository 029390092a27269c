import NovaOs.Shm.Model
import Mathlib.Tactic.Linarith

/-! The table's own books: counts, sizes and placement agree with the mapping records. -/

namespace NovaOs

open Function MapRec Table

/-- Whether a record maps the object in a slot. -/
def MapRec.refers (slot : Fin maxObjects) (record : MapRec) : Bool :=
  record.inUse && record.obj == slot

/-- Whether a record belongs to a process. -/
def MapRec.belongs (pid : Pid) (record : MapRec) : Bool := record.inUse && record.pid == pid

/-- The pages an object slot takes up. -/
def ShmObject.size (object : ShmObject) : Nat := if object.inUse then object.pages else 0

namespace Shm

/-- The books balance; objects may still be waiting to be freed. -/
structure Books (shm : Shm) : Prop where
  sized : ∀ slot, (shm.objects slot).inUse = true →
    0 < (shm.objects slot).pages ∧ (shm.objects slot).pages ≤ maxPagesPerObject
  counted : ∀ slot, Table.count (MapRec.refers slot) shm.maps = (shm.objects slot).mapCount
  total : shm.totalPages = Table.sum ShmObject.size shm.objects
  named : ∀ i, (shm.maps i).inUse = true →
    (shm.objects (shm.maps i).obj).inUse = true ∧
      (shm.maps i).pages = (shm.objects (shm.maps i).obj).pages
  placed : ∀ i, (shm.maps i).inUse = true →
    (shm.maps i).addr % pageSize = 0 ∧ shmVirtBase ≤ (shm.maps i).addr ∧
      (shm.maps i).spanEnd ≤ shmVirtEnd
  apart : ∀ i j, i ≠ j → (shm.maps i).inUse = true → (shm.maps j).inUse = true →
    (shm.maps i).pid = (shm.maps j).pid →
      (shm.maps i).spanEnd ≤ (shm.maps j).addr ∨ (shm.maps j).spanEnd ≤ (shm.maps i).addr
  few : ∀ pid, Table.count (MapRec.belongs pid) shm.maps ≤ maxMapsPerProc

/-- No object is left over that nothing can reach. -/
def Reaped (shm : Shm) : Prop :=
  ∀ slot, (shm.objects slot).inUse = true → (shm.objects slot).dying = true →
    (shm.objects slot).mapCount ≠ 0

/-- An empty table is in order. -/
theorem Books.new : Books .new where
  sized := by
    intro slot used
    cases used
  counted := by
    intro slot
    exact count_eq_zero.mpr fun _ => rfl
  total := by
    rw [sum_eq]
    simp [Shm.new, ShmObject.size, emptyObj]
  named := by
    intro i used
    cases used
  placed := by
    intro i used
    cases used
  apart := by
    intro i j _ used
    cases used
  few := by
    intro pid
    rw [count_eq_zero.mpr fun _ => rfl]
    exact Nat.zero_le _

variable {shm : Shm}

/-- A free slot has no mappings. -/
theorem Books.mapCount_of_free (books : Books shm) {slot : Fin maxObjects}
    (free : (shm.objects slot).inUse = false) : (shm.objects slot).mapCount = 0 := by
  rw [← books.counted slot, count_eq_zero]
  intro i
  by_contra refers
  simp only [MapRec.refers, Bool.not_eq_false, Bool.and_eq_true, beq_iff_eq] at refers
  have used := (books.named i refers.1).1
  rw [refers.2, free] at used
  cases used

/-- An object without mappings is named by no record. -/
theorem Books.unnamed (books : Books shm) {slot : Fin maxObjects}
    (unreferenced : (shm.objects slot).mapCount = 0) {i : Fin maxMapRecords}
    (used : (shm.maps i).inUse = true) : (shm.maps i).obj ≠ slot := by
  intro here
  have refers : refers slot (shm.maps i) = true := by simp [refers, here, used]
  have some := count_pos refers
  rw [books.counted slot, unreferenced] at some
  exact Nat.lt_irrefl 0 some

section Checks

/-- A fold whose every step succeeds is the fold of the successes. -/
theorem foldlM_ok {α β : Type} {step : β → α → Except String β} {next : β → α → β}
    (items : List α) (start : β) (ok : ∀ acc, ∀ item ∈ items, step acc item = .ok (next acc item)) :
    items.foldlM step start = .ok (items.foldl next start) := by
  induction items generalizing start with
  | nil => rfl
  | cons item rest ih =>
    rw [List.foldlM_cons, ok start item (by simp)]
    exact ih _ fun acc later member => ok acc later (by simp [member])

/-- Adding weights up along a list is adding their sum. -/
theorem foldl_add {α : Type} (weight : α → Nat) (items : List α) (start : Nat) :
    items.foldl (fun acc item => acc + weight item) start = start + (items.map weight).sum := by
  induction items generalizing start with
  | nil => rfl
  | cons item rest ih =>
    rw [List.foldl_cons, ih, List.map_cons, List.sum_cons]
    omega

/-- Balanced books pass every check on objects. -/
theorem Books.checkObject (books : Books shm) (reaped : Reaped shm) (total : Nat)
    (slot : Fin maxObjects) :
    shm.checkObject total slot = .ok (total + (shm.objects slot).size) := by
  have counted : count (fun record => record.inUse && record.obj == slot) shm.maps
      = (shm.objects slot).mapCount := books.counted slot
  simp only [Shm.checkObject, ShmObject.size, counted, bne_self_eq_false]
  cases used : (shm.objects slot).inUse with
  | false => simp [books.mapCount_of_free used]
  | true => ?_
  have sized := books.sized slot used
  have nonzero : ((shm.objects slot).pages == 0) = false := by
    simp only [beq_eq_false_iff_ne]
    omega
  have fits : ¬ maxPagesPerObject < (shm.objects slot).pages := Nat.not_lt.mpr sized.2
  have reachable : ((shm.objects slot).dying && (shm.objects slot).mapCount == 0) = false := by
    cases dying : (shm.objects slot).dying with
    | false => rfl
    | true => simpa using reaped slot used dying
  simp [nonzero, fits, reachable]

/-- Balanced books pass every check between two records of one process. -/
theorem Books.checkNeighbour (books : Books shm) {index : Fin maxMapRecords}
    (used : (shm.maps index).inUse = true) (mine : Nat) (other : Fin maxMapRecords) :
    shm.checkNeighbour index mine other
      = .ok (mine + if belongs (shm.maps index).pid (shm.maps other) then 1 else 0) := by
  cases near : belongs (shm.maps index).pid (shm.maps other) with
  | false =>
    have stranger : ((shm.maps other).inUse && (shm.maps other).pid == (shm.maps index).pid)
        = false := near
    simp only [Shm.checkNeighbour, stranger, Bool.false_eq_true, if_false, Nat.add_zero]
  | true => ?_
  have sibling : ((shm.maps other).inUse && (shm.maps other).pid == (shm.maps index).pid)
      = true := near
  simp only [Shm.checkNeighbour, sibling, if_true]
  simp only [Bool.and_eq_true, beq_iff_eq] at sibling
  by_cases same : other = index
  · simp [same]
  have apart := books.apart other index same sibling.1 used sibling.2
  have clear : ((decide ((shm.maps index).addr < (shm.maps other).spanEnd)
      && decide ((shm.maps other).addr < (shm.maps index).spanEnd))) = false := by
    rw [Bool.and_eq_false_iff]
    simp only [decide_eq_false_iff_not]
    omega
  simp [clear]

/-- Balanced books pass every check on records. -/
theorem Books.checkMap (books : Books shm) (index : Fin maxMapRecords) :
    shm.checkMap index = .ok () := by
  rw [Shm.checkMap]
  cases used : (shm.maps index).inUse with
  | false => rfl
  | true => ?_
  have live := (books.named index used).1
  obtain ⟨aligned, low, high⟩ := books.placed index used
  have end_ : ¬ shmVirtEnd < (shm.maps index).addr + (shm.maps index).pages * pageSize := by
    simp only [spanEnd, pageSize] at high ⊢
    omega
  have mine := foldlM_ok (List.finRange maxMapRecords) 0
    fun acc other _ => books.checkNeighbour used acc other
  rw [foldl_add] at mine
  have few := books.few (shm.maps index).pid
  rw [count_eq_sum, sum] at few
  simp only [Bool.not_true, Bool.false_eq_true, if_false, live, aligned, bne_self_eq_false,
    Bool.false_or, decide_eq_false (Nat.not_lt.mpr low), decide_eq_false end_, mine]
  have within : ¬ maxMapsPerProc < 0 + ((List.finRange maxMapRecords).map fun other =>
      if belongs (shm.maps index).pid (shm.maps other) = true then 1 else 0).sum := by
    rw [Nat.zero_add]
    exact Nat.not_lt.mpr few
  simp only [Bind.bind, Except.bind, if_neg within]
  rfl

/-- Balanced books with nothing left over pass the kernel's own check. -/
theorem Books.checkCounts (books : Books shm) (reaped : Reaped shm) : shm.checkCounts = .ok () := by
  have objects := foldlM_ok (List.finRange maxObjects) 0
    fun acc slot _ => books.checkObject reaped acc slot
  rw [foldl_add, Nat.zero_add] at objects
  have total : ((List.finRange maxObjects).map fun slot => (shm.objects slot).size).sum
      = shm.totalPages := books.total.symm
  have records : (List.finRange maxMapRecords).forM shm.checkMap = .ok () := by
    induction List.finRange maxMapRecords with
    | nil => rfl
    | cons index rest ih =>
      rw [List.forM_eq_forM, List.forM_cons, books.checkMap index]
      exact ih
  simp only [Shm.checkCounts, objects, total, bne_self_eq_false, Bool.false_eq_true, if_false,
    Bind.bind, Except.bind, records]

end Checks

section Updates

/-- The books look at no more of an object than whether it is in use, its size and its count. -/
theorem Books.congr (books : Books shm) {after : Shm} (maps : after.maps = shm.maps)
    (total : after.totalPages = shm.totalPages)
    (objects : ∀ slot, (after.objects slot).inUse = (shm.objects slot).inUse ∧
      (after.objects slot).pages = (shm.objects slot).pages ∧
      (after.objects slot).mapCount = (shm.objects slot).mapCount) : Books after where
  sized := by
    intro slot
    rw [(objects slot).1, (objects slot).2.1]
    exact books.sized slot
  counted := by
    intro slot
    rw [maps, (objects slot).2.2]
    exact books.counted slot
  total := by
    rw [total, books.total, sum_eq, sum_eq]
    apply Finset.sum_congr rfl
    intro slot _
    rw [ShmObject.size, ShmObject.size, (objects slot).1, (objects slot).2.1]
  named := by
    intro i
    rw [maps, (objects _).1, (objects _).2.1]
    exact books.named i
  placed := by
    rw [maps]
    exact books.placed
  apart := by
    rw [maps]
    exact books.apart
  few := by
    rw [maps]
    exact books.few

/-- Counting mappings changes neither the use nor the size of an object. -/
theorem update_mapCount (objects : Fin maxObjects → ShmObject) (slot other : Fin maxObjects)
    {count : Nat} :
    (update objects slot { objects slot with mapCount := count } other).inUse
        = (objects other).inUse ∧
      (update objects slot { objects slot with mapCount := count } other).pages
        = (objects other).pages := by
  by_cases here : other = slot
  · subst here
    simp
  · simp [update_of_ne here]

/-- Nor does it change the sum of the sizes. -/
theorem sum_update_mapCount (objects : Fin maxObjects → ShmObject) (slot : Fin maxObjects)
    {count : Nat} :
    sum ShmObject.size
        (update objects slot { objects slot with mapCount := count })
      = sum ShmObject.size objects := by
  have moved := sum_update ShmObject.size objects slot
    { objects slot with mapCount := count }
  simp only [ShmObject.size] at moved
  exact Nat.add_right_cancel moved

/-- A record takes the place of another: the books stay in order when the mappings of the one
object concerned are counted anew, and a record in use is placed clear of its process's others. -/
theorem Books.putMap (books : Books shm) {index : Fin maxMapRecords} {record : MapRec}
    {slot : Fin maxObjects} {mapped : Nat}
    (counted : ∀ other, (if other = slot then mapped else (shm.objects other).mapCount)
        + (if refers other (shm.maps index) then 1 else 0)
      = (shm.objects other).mapCount + if refers other record then 1 else 0)
    (named : record.inUse = true → (shm.objects record.obj).inUse = true ∧
      record.pages = (shm.objects record.obj).pages)
    (placed : record.inUse = true → record.addr % pageSize = 0 ∧ shmVirtBase ≤ record.addr ∧
      record.spanEnd ≤ shmVirtEnd)
    (apart : ∀ i, record.inUse = true → (shm.maps i).inUse = true →
      (shm.maps i).pid = record.pid →
        record.spanEnd ≤ (shm.maps i).addr ∨ (shm.maps i).spanEnd ≤ record.addr)
    (few : ∀ pid, belongs pid record = true → count (belongs pid) shm.maps < maxMapsPerProc) :
    Books ((shm.setMap index record).setObject slot
      { shm.objects slot with mapCount := mapped }) where
  sized := by
    intro other
    simp only [setObject, setMap, update_mapCount]
    exact books.sized other
  counted := by
    intro other
    have moved := count_update (refers other) shm.maps index record
    rw [books.counted other, ← counted other] at moved
    simp only [setObject, setMap, update_apply, apply_ite ShmObject.mapCount]
    exact Nat.add_right_cancel moved
  total := by
    simp only [setObject, setMap, sum_update_mapCount]
    exact books.total
  named := by
    intro i
    simp only [setObject, setMap, update_mapCount]
    by_cases here : i = index
    · subst here
      simpa using named
    · simpa [update_of_ne here] using books.named i
  placed := by
    intro i
    by_cases here : i = index
    · subst here
      simpa [setObject, setMap] using placed
    · simpa [setObject, setMap, update_of_ne here] using books.placed i
  apart := by
    intro i j differ
    simp only [setObject, setMap]
    by_cases first : i = index
    · subst first
      simp only [update_self, update_of_ne (Ne.symm differ)]
      intro used usedJ same
      exact apart j used usedJ same.symm
    by_cases second : j = index
    · subst second
      simp only [update_self, update_of_ne first]
      intro usedI used same
      exact (apart i used usedI same).symm
    · simp only [update_of_ne first, update_of_ne second]
      exact books.apart i j differ
  few := by
    intro pid
    have moved := count_update (belongs pid) shm.maps index record
    have before := books.few pid
    simp only [setObject, setMap]
    by_cases mine : belongs pid record = true
    · have room := few pid mine
      rw [if_pos mine] at moved
      omega
    · rw [if_neg mine] at moved
      omega

/-- A new record keeps the books in order when it is placed clear of its process's others. -/
theorem Books.addMap (books : Books shm) {free : Fin maxMapRecords} {record : MapRec}
    (unused : (shm.maps free).inUse = false) (used : record.inUse = true)
    (named : (shm.objects record.obj).inUse = true ∧
      record.pages = (shm.objects record.obj).pages)
    (placed : record.addr % pageSize = 0 ∧ shmVirtBase ≤ record.addr ∧
      record.spanEnd ≤ shmVirtEnd)
    (apart : ∀ i, (shm.maps i).inUse = true → (shm.maps i).pid = record.pid →
      record.spanEnd ≤ (shm.maps i).addr ∨ (shm.maps i).spanEnd ≤ record.addr)
    (few : count (belongs record.pid) shm.maps < maxMapsPerProc) :
    Books ((shm.setMap free record).setObject record.obj
      { shm.objects record.obj with mapCount := (shm.objects record.obj).mapCount + 1 }) := by
  refine books.putMap ?_ (fun _ => named) (fun _ => placed) (fun i _ => apart i) ?_
  · intro other
    by_cases here : other = record.obj
    · simp [refers, unused, used, here]
    · simp [refers, unused, here, Ne.symm here]
  · intro pid mine
    simp only [belongs, Bool.and_eq_true, beq_iff_eq] at mine
    rwa [← mine.2]

/-- Forgetting a record keeps the books in order. -/
theorem Books.dropMap (books : Books shm) {index : Fin maxMapRecords}
    (used : (shm.maps index).inUse = true) : Books (shm.dropMap index) := by
  refine books.putMap ?_ nofun nofun (fun _ => nofun) fun _ => nofun
  intro other
  by_cases here : other = (shm.maps index).obj
  · have old : refers other (shm.maps index) = true := by simp [refers, used, here]
    have some := count_pos old
    rw [books.counted] at some
    subst here
    simp only [old, if_true]
    exact Nat.sub_add_cancel some
  · simp [refers, emptyMap, here, Ne.symm here]

/-- Whatever an unreferenced slot is replaced by, the records do not notice. -/
theorem Books.replaceObject (books : Books shm) {slot : Fin maxObjects} {object : ShmObject}
    (unreferenced : (shm.objects slot).mapCount = 0) (fresh : object.mapCount = 0)
    (sized : object.inUse = true → 0 < object.pages ∧ object.pages ≤ maxPagesPerObject)
    {total : Nat} (balance : total + (shm.objects slot).size = shm.totalPages + object.size) :
    Books { shm.setObject slot object with totalPages := total } where
  sized := by
    intro other
    by_cases here : other = slot
    · subst here
      simpa [setObject] using sized
    · simpa [setObject, update_of_ne here] using books.sized other
  counted := by
    intro other
    rw [show ({ shm.setObject slot object with totalPages := total } : Shm).maps
      = shm.maps from rfl, books.counted other]
    by_cases here : other = slot
    · subst here
      simp [setObject, unreferenced, fresh]
    · simp [setObject, update_of_ne here]
  total := by
    have moved := sum_update ShmObject.size shm.objects slot object
    have before := books.total
    simp only [setObject]
    omega
  named := by
    intro i used
    have live := books.named i used
    have elsewhere := books.unnamed unreferenced used
    simpa [setObject, update_of_ne elsewhere] using live
  placed := books.placed
  apart := books.apart
  few := books.few

end Updates

end Shm

end NovaOs
