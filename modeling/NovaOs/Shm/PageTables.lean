import NovaOs.Shm.Frames

/-! Every page table holds exactly the pages of its process's mapping records. -/

namespace NovaOs

open Function

variable {hal : Hal} {pid other : Pid} {addr vaddr : Nat}

theorem Hal.setPage_self (entry : Option (Frame × Bool)) :
    (hal.setPage pid vaddr entry).pageTable pid vaddr = entry := by
  simp [setPage]

theorem Hal.setPage_of_ne {at_ : Nat} (elsewhere : ¬(other = pid ∧ vaddr = at_))
    (entry : Option (Frame × Bool)) :
    (hal.setPage pid at_ entry).pageTable other vaddr = hal.pageTable other vaddr := by
  simp only [setPage]
  by_cases here : other = pid
  · subst here
    rw [update_self, update_of_ne fun same => elsewhere ⟨rfl, same⟩]
  · rw [update_of_ne here]

namespace Shm

variable {page count p : Nat}

/-- Taking pages out changes one page table and nothing else. -/
theorem unmapPages_frame (hal : Hal) (pid : Pid) (addr page count : Nat) :
    ∃ tables, unmapPages hal pid addr page count = { hal with pageTable := tables } := by
  induction count generalizing hal page with
  | zero => exact ⟨hal.pageTable, rfl⟩
  | succ count ih =>
    obtain ⟨tables, same⟩ := ih (hal.unmapPage pid (addr + page * pageSize)) (page + 1)
    exact ⟨tables, same⟩

/-- The places of a run of pages in the table of a process. -/
def Spans (pid : Pid) (addr first last : Nat) (other : Pid) (vaddr : Nat) : Prop :=
  other = pid ∧ ∃ p, first ≤ p ∧ p < last ∧ vaddr = addr + p * pageSize

/-- The run goes from its first page over the others. -/
theorem Spans.cons {first last : Nat}
    (place : first < last ∧ other = pid ∧ vaddr = addr + first * pageSize ∨
      Spans pid addr (first + 1) last other vaddr) : Spans pid addr first last other vaddr := by
  rcases place with ⟨some, mine, same⟩ | ⟨mine, p, low, high, same⟩
  · exact ⟨mine, first, Nat.le_refl first, some, same⟩
  · exact ⟨mine, p, by omega, high, same⟩

/-- Pages not taken out stay as they are. -/
theorem unmapPages_miss (elsewhere : ¬Spans pid addr page (page + count) other vaddr) :
    (unmapPages hal pid addr page count).pageTable other vaddr = hal.pageTable other vaddr := by
  induction count generalizing hal page with
  | zero => rfl
  | succ count ih =>
    rw [← Nat.succ_add_eq_add_succ] at elsewhere
    rw [unmapPages, ih fun place => elsewhere (.cons (.inr place)), Hal.unmapPage,
      Hal.setPage_of_ne fun place => elsewhere (.cons (.inl ⟨by omega, place⟩))]

/-- Pages taken out are gone. -/
theorem unmapPages_hit (low : page ≤ p) (high : p < page + count) :
    (unmapPages hal pid addr page count).pageTable pid (addr + p * pageSize) = none := by
  induction count generalizing hal page with
  | zero => omega
  | succ count ih =>
    rw [unmapPages]
    by_cases first : p = page
    · subst first
      -- The later pages lie further on, so the first one stays out.
      rw [unmapPages_miss, Hal.unmapPage, Hal.setPage_self]
      rintro ⟨_, q, later, _, same⟩
      simp only [pageSize] at same
      omega
    · exact ih (by omega) (by omega)

section Enter

variable {frames : Nat → Frame} {writable : Bool} {page count : Nat}

/-- Entering a page succeeds and sets its entry, or fails and sets nothing. -/
theorem mapPage_cases (hal : Hal) (pid : Pid) (vaddr : Nat) (frame : Frame) (writable : Bool) :
    (∃ later, hal.mapPage pid vaddr frame writable = (true, later) ∧
      later.pageTable = (hal.setPage pid vaddr (some (frame, writable))).pageTable) ∨
    ∃ later, hal.mapPage pid vaddr frame writable = (false, later) ∧
      later.pageTable = hal.pageTable := by
  rw [Hal.mapPage]
  split
  · exact .inr ⟨_, rfl, rfl⟩
  · exact .inl ⟨_, rfl, rfl⟩

/-- Entering pages leaves the frames and the processes alone. -/
theorem mapPages_frame (hal : Hal) (pid : Pid) (addr : Nat) (frames : Nat → Frame)
    (writable : Bool) (page count : Nat) :
    (mapPages hal pid addr frames writable page count).2.allocated = hal.allocated ∧
      (mapPages hal pid addr frames writable page count).2.misfreed = hal.misfreed ∧
      (mapPages hal pid addr frames writable page count).2.live = hal.live := by
  induction count generalizing hal page with
  | zero => exact ⟨rfl, rfl, rfl⟩
  | succ count ih =>
    have entered : ∀ later ok, hal.mapPage pid (addr + page * pageSize) (frames page) writable
        = (ok, later) → later.allocated = hal.allocated ∧ later.misfreed = hal.misfreed ∧
          later.live = hal.live := by
      intro later ok result
      rw [Hal.mapPage] at result
      split at result <;> cases result <;> exact ⟨rfl, rfl, rfl⟩
    rw [mapPages]
    split
    · rename_i later result
      obtain ⟨allocated, misfreed, live⟩ := entered later true result
      obtain ⟨allocated', misfreed', live'⟩ := ih later (page + 1)
      exact ⟨allocated'.trans allocated, misfreed'.trans misfreed, live'.trans live⟩
    · rename_i later result
      obtain ⟨tables, same⟩ := unmapPages_frame later pid addr 0 page
      simp only [same]
      exact entered later false result

/-- When all pages could be entered, these are the entries and no other changed. -/
theorem mapPages_true (done : (mapPages hal pid addr frames writable page count).1 = true) :
    (∀ p, page ≤ p → p < page + count →
      (mapPages hal pid addr frames writable page count).2.pageTable pid (addr + p * pageSize)
        = some (frames p, writable)) ∧
    ∀ other vaddr, ¬Spans pid addr page (page + count) other vaddr →
      (mapPages hal pid addr frames writable page count).2.pageTable other vaddr
        = hal.pageTable other vaddr := by
  induction count generalizing hal page with
  | zero =>
    refine ⟨?_, fun _ _ _ => rfl⟩
    intro p low high
    omega
  | succ count ih =>
    rw [mapPages] at done ⊢
    obtain ⟨later, result, tables⟩ | ⟨later, result, _⟩ :=
      mapPage_cases hal pid (addr + page * pageSize) (frames page) writable
    · simp only [result] at done ⊢
      obtain ⟨hit, miss⟩ := ih done
      constructor
      · intro p low high
        by_cases first : p = page
        · subst first
          rw [miss pid _ ?_, tables, Hal.setPage_self]
          rintro ⟨_, q, later, _, same⟩
          simp only [pageSize] at same
          omega
        · exact hit p (by omega) (by omega)
      · intro other vaddr elsewhere
        rw [← Nat.succ_add_eq_add_succ] at elsewhere
        rw [miss other vaddr fun place => elsewhere (.cons (.inr place)), tables,
          Hal.setPage_of_ne fun place => elsewhere (.cons (.inl ⟨by omega, place⟩))]
    · simp only [result] at done
      cases done

/-- When a page could not be entered, those entered before it are gone and no other changed. -/
theorem mapPages_false
    (clear : ∀ p, page ≤ p → p < page + count → hal.pageTable pid (addr + p * pageSize) = none)
    (failed : (mapPages hal pid addr frames writable page count).1 = false) :
    (∀ p < page, (mapPages hal pid addr frames writable page count).2.pageTable pid
        (addr + p * pageSize) = none) ∧
    ∀ other vaddr, ¬Spans pid addr 0 page other vaddr →
      (mapPages hal pid addr frames writable page count).2.pageTable other vaddr
        = hal.pageTable other vaddr := by
  induction count generalizing hal page with
  | zero => cases failed
  | succ count ih =>
    rw [mapPages] at failed ⊢
    obtain ⟨later, result, tables⟩ | ⟨later, result, tables⟩ :=
      mapPage_cases hal pid (addr + page * pageSize) (frames page) writable
    · simp only [result] at failed ⊢
      obtain ⟨gone, miss⟩ := ih (by
        intro p low high
        rw [tables, Hal.setPage_of_ne (by simp only [pageSize]; omega)]
        exact clear p (by omega) (by omega)) failed
      constructor
      · intro p below
        exact gone p (by omega)
      intro other vaddr elsewhere
      -- The page entered here is taken out again, and it was not there before either.
      by_cases here : other = pid ∧ vaddr = addr + page * pageSize
      · obtain ⟨rfl, rfl⟩ := here
        rw [gone page (by omega), clear page (Nat.le_refl page) (by omega)]
      rw [miss other vaddr ?_, tables, Hal.setPage_of_ne here]
      rintro ⟨mine, p, low, below, same⟩
      by_cases last : p = page
      · exact here ⟨mine, last ▸ same⟩
      · exact elsewhere ⟨mine, p, low, by omega, same⟩
    · simp only [result]
      constructor
      · intro p below
        exact unmapPages_hit (Nat.zero_le p) (by omega)
      · intro other vaddr elsewhere
        rw [unmapPages_miss (by rwa [Nat.zero_add]), tables]

end Enter

/-- The page a record puts at an address: its frame, and whether it may be written. -/
def Maps (shm : Shm) (pid : Pid) (vaddr : Nat) (frame : Frame) (writable : Bool) : Prop :=
  ∃ i, (shm.maps i).inUse = true ∧ (shm.maps i).pid = pid ∧
    ∃ page < (shm.maps i).pages, vaddr = (shm.maps i).addr + page * pageSize ∧
      frame = shm.frames (shm.maps i).obj page ∧
      writable = ((shm.maps i).rights &&& rightWrite != 0)

/-- The page tables hold the pages of the records and no others. -/
def Backed (shm : Shm) (tables : PageTables) : Prop :=
  ∀ pid vaddr frame writable,
    tables pid vaddr = some (frame, writable) ↔ shm.Maps pid vaddr frame writable

variable {shm after : Shm} {tables moved : PageTables}

/-- Records and the frames behind them are all that page tables depend on. -/
theorem Backed.congr (backed : Backed shm tables) (maps : after.maps = shm.maps)
    (frames : ∀ i, (shm.maps i).inUse = true →
      after.frames (shm.maps i).obj = shm.frames (shm.maps i).obj) : Backed after tables := by
  intro pid vaddr frame writable
  rw [backed pid vaddr frame writable, Maps, Maps, maps]
  constructor
  · intro mapped
    obtain ⟨i, used, mine, page, within, place, same, allowed⟩ := mapped
    exact ⟨i, used, mine, page, within, place, by rw [frames i used, same], allowed⟩
  · intro mapped
    obtain ⟨i, used, mine, page, within, place, same, allowed⟩ := mapped
    exact ⟨i, used, mine, page, within, place, by rw [same, frames i used], allowed⟩

/-- Room that is clear of a process's records has no pages in it yet. -/
theorem Backed.clear (backed : Backed shm tables) {pages : Nat}
    (apart : ∀ i, (shm.maps i).inUse = true → (shm.maps i).pid = pid →
      addr + (pages + 1) * pageSize ≤ (shm.maps i).addr ∨ (shm.maps i).spanEnd ≤ addr)
    (within : p < pages) : tables pid (addr + p * pageSize) = none := by
  cases entry : tables pid (addr + p * pageSize) with
  | none => rfl
  | some page => ?_
  obtain ⟨frame, writable⟩ := page
  obtain ⟨i, used, mine, q, inside, same, _⟩ := (backed _ _ _ _).mp entry
  have gap := apart i used mine
  simp only [MapRec.spanEnd, pageSize] at gap same
  omega

/-- The page one record puts at an address. -/
def Shows (shm : Shm) (record : MapRec) (pid : Pid) (vaddr : Nat) (frame : Frame)
    (writable : Bool) : Prop :=
  record.inUse = true ∧ record.pid = pid ∧ ∃ page < record.pages,
    vaddr = record.addr + page * pageSize ∧ frame = shm.frames record.obj page ∧
      writable = (record.rights &&& rightWrite != 0)

theorem Shows.spans {record : MapRec} {frame : Frame} {writable : Bool}
    (shows : shm.Shows record pid vaddr frame writable) :
    Spans record.pid record.addr 0 record.pages pid vaddr := by
  obtain ⟨_, rfl, p, within, same, _⟩ := shows
  exact ⟨rfl, p, Nat.zero_le p, within, same⟩

/-- The pages there are once a record has taken the place of another. -/
theorem maps_update {index : Fin maxMapRecords} {record : MapRec} {frame : Frame} {writable : Bool}
    (maps : after.maps = update shm.maps index record) (frames : after.frames = shm.frames) :
    after.Maps pid vaddr frame writable ↔ shm.Shows record pid vaddr frame writable ∨
      ∃ i ≠ index, shm.Shows (shm.maps i) pid vaddr frame writable := by
  rw [Maps, maps, frames]
  exact exists_update_iff shm.maps fun _ record => shm.Shows record pid vaddr frame writable

/-- Entering the pages of a new record keeps the page tables exact. -/
theorem Backed.addMap (backed : Backed shm tables) {free : Fin maxMapRecords} {record : MapRec}
    (unused : (shm.maps free).inUse = false) (used : record.inUse = true)
    (maps : after.maps = update shm.maps free record)
    (frames : after.frames = shm.frames)
    (apart : ∀ i, (shm.maps i).inUse = true → (shm.maps i).pid = record.pid →
      record.spanEnd ≤ (shm.maps i).addr ∨ (shm.maps i).spanEnd ≤ record.addr)
    (hit : ∀ p < record.pages, moved record.pid (record.addr + p * pageSize)
      = some (shm.frames record.obj p, record.rights &&& rightWrite != 0))
    (miss : ∀ other vaddr, ¬Spans record.pid record.addr 0 record.pages other vaddr →
      moved other vaddr = tables other vaddr) : Backed after moved := by
  intro pid vaddr frame writable
  -- The place taken showed nothing before.
  have before : shm.Maps pid vaddr frame writable ↔
      ∃ i ≠ free, shm.Shows (shm.maps i) pid vaddr frame writable := by
    refine ⟨fun ⟨i, shows⟩ => ⟨i, ?_, shows⟩, fun ⟨i, _, shows⟩ => ⟨i, shows⟩⟩
    rintro rfl
    cases unused.symm.trans shows.1
  rw [maps_update maps frames, ← before, ← backed pid vaddr frame writable]
  by_cases here : Spans record.pid record.addr 0 record.pages pid vaddr
  · obtain ⟨rfl, p, _, within, rfl⟩ := here
    rw [hit p within, backed.clear apart within]
    constructor
    · rintro ⟨⟩
      exact .inl ⟨used, rfl, p, within, rfl, rfl, rfl⟩
    · rintro (⟨_, _, q, _, place, rfl, rfl⟩ | ⟨⟨⟩⟩)
      simp only [pageSize] at place
      obtain rfl : p = q := by omega
      rfl
  · rw [miss pid vaddr here]
    exact ⟨.inr, fun shows => shows.resolve_left fun new => here new.spans⟩

/-- Taking the pages of a record out with it keeps the page tables exact. -/
theorem Backed.dropMap (backed : Backed shm tables) (books : Books shm) {index : Fin maxMapRecords}
    (used : (shm.maps index).inUse = true)
    (maps : after.maps = update shm.maps index emptyMap)
    (frames : after.frames = shm.frames)
    (hit : ∀ p < (shm.maps index).pages,
      moved (shm.maps index).pid ((shm.maps index).addr + p * pageSize) = none)
    (miss : ∀ other vaddr,
      ¬Spans (shm.maps index).pid (shm.maps index).addr 0 (shm.maps index).pages other vaddr →
      moved other vaddr = tables other vaddr) : Backed after moved := by
  intro pid vaddr frame writable
  rw [maps_update maps frames]
  by_cases here : Spans (shm.maps index).pid (shm.maps index).addr 0 (shm.maps index).pages
      pid vaddr
  · obtain ⟨rfl, p, _, within, rfl⟩ := here
    rw [hit p within]
    refine iff_of_false nofun ?_
    rintro (⟨⟨⟩, _⟩ | ⟨i, kept, usedI, mine, q, inside, place, _⟩)
    -- Two records of one process never put a page at the same address.
    have apart := books.apart index i (Ne.symm kept) used usedI mine.symm
    simp only [MapRec.spanEnd, pageSize] at apart place
    omega
  · rw [miss pid vaddr here, backed pid vaddr frame writable]
    constructor
    · rintro ⟨i, shows⟩
      exact .inr ⟨i, fun same => here (same ▸ Shows.spans shows), shows⟩
    · rintro (⟨⟨⟩, _⟩ | ⟨i, _, shows⟩)
      exact ⟨i, shows⟩

end Shm

end NovaOs
