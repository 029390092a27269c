import NovaOs.Shm.Books
import NovaOs.Lib.Ownership

/-! The frames that are out are those of objects in use, one object and one page each. -/

namespace NovaOs

open Function

namespace Shm

variable {page count : Nat}

/-- The pages that belong to objects in use. -/
def Owned (shm : Shm) (place : Fin maxObjects × Nat) : Prop :=
  (shm.objects place.1).inUse = true ∧ place.2 < (shm.objects place.1).pages

/-- The frame the table keeps for a page. -/
def frameAt (shm : Shm) (place : Fin maxObjects × Nat) : Frame := shm.frames place.1 place.2

/-- Every frame that is out belongs to one page of one object, and none was given back twice. -/
structure FramesExact (shm : Shm) (hal : Hal) : Prop where
  held : ExactlyHeld shm.Owned shm.frameAt hal.allocated
  sound : hal.misfreed = false
  -- Pages that belong to no object keep no frame.
  blank : ∀ place, ¬ shm.Owned place → shm.frameAt place = 0

variable {shm : Shm} {hal : Hal} {slot : Fin maxObjects}

theorem frameAt_setFrame_self (shm : Shm) (slot : Fin maxObjects) (page : Nat) (frame : Frame) :
    (shm.setFrame slot page frame).frameAt (slot, page) = frame := by
  simp [frameAt, setFrame]

theorem frameAt_setFrame_of_ne {place : Fin maxObjects × Nat} (elsewhere : place ≠ (slot, page))
    (frame : Frame) : (shm.setFrame slot page frame).frameAt place = shm.frameAt place := by
  simp only [frameAt, setFrame]
  by_cases here : place.1 = slot
  · have apart : place.2 ≠ page := fun same => elsewhere (Prod.ext here same)
    rw [here, update_self, update_of_ne apart]
  · rw [update_of_ne here]

/-- The table with another list of frames for one object. -/
def withFrames (shm : Shm) (slot : Fin maxObjects) (frames : Nat → Frame) : Shm :=
  { shm with frames := Function.update shm.frames slot frames }

theorem withFrames_self (shm : Shm) (slot : Fin maxObjects) :
    shm.withFrames slot (shm.frames slot) = shm := by
  simp [withFrames]

theorem setFrame_withFrames (slot : Fin maxObjects) {frame : Frame} (frames : Nat → Frame) :
    (shm.setFrame slot page frame).withFrames slot frames = shm.withFrames slot frames := by
  simp [withFrames, setFrame]

/-- Giving frames back changes one object's frames and nothing else. -/
theorem freeFrames_frame (shm : Shm) (hal : Hal) (slot : Fin maxObjects) (page count : Nat) :
    (∃ frames, (freeFrames shm hal slot page count).1 = shm.withFrames slot frames) ∧
      (freeFrames shm hal slot page count).2.pageTable = hal.pageTable ∧
      (freeFrames shm hal slot page count).2.live = hal.live := by
  induction count generalizing shm hal page with
  | zero => exact ⟨⟨shm.frames slot, (withFrames_self shm slot).symm⟩, rfl, rfl⟩
  | succ count ih =>
    obtain ⟨⟨frames, same⟩, tables, live⟩ :=
      ih (shm.setFrame slot page 0) (hal.freeFrame (shm.frames slot page)) (page + 1)
    rw [setFrame_withFrames] at same
    exact ⟨⟨frames, same⟩, tables, live⟩

/-- The pages given back keep no frame, and the others keep theirs. -/
theorem frameAt_freeFrames (slot : Fin maxObjects) (place : Fin maxObjects × Nat) :
    (freeFrames shm hal slot page count).1.frameAt place
      = if place.1 = slot ∧ page ≤ place.2 ∧ place.2 < page + count then 0
        else shm.frameAt place := by
  induction count generalizing shm hal page with
  | zero =>
    rw [if_neg (by omega)]
    rfl
  | succ count ih =>
    rw [freeFrames, ih]
    by_cases here : place = (slot, page)
    · subst here
      rw [if_neg (by simp), frameAt_setFrame_self, if_pos (by simp)]
    rw [frameAt_setFrame_of_ne here]
    have apart : ¬ (place.1 = slot ∧ place.2 = page) := fun same =>
      here (Prod.ext same.1 same.2)
    by_cases inside : place.1 = slot ∧ page ≤ place.2 ∧ place.2 < page + (count + 1)
    · rw [if_pos inside, if_pos (by omega)]
    · rw [if_neg inside, if_neg (by omega)]

/-- Giving held frames back leaves exactly the rest out. -/
theorem freeFrames_held {held after : Fin maxObjects × Nat → Prop}
    (holds : ExactlyHeld held shm.frameAt hal.allocated) (sound : hal.misfreed = false)
    (owned : ∀ p, page ≤ p → p < page + count → held (slot, p))
    (lost : ∀ place, after place ↔ held place ∧
      ¬ (place.1 = slot ∧ page ≤ place.2 ∧ place.2 < page + count)) :
    ExactlyHeld after (freeFrames shm hal slot page count).1.frameAt
        (freeFrames shm hal slot page count).2.allocated ∧
      (freeFrames shm hal slot page count).2.misfreed = false := by
  induction count generalizing shm hal page held with
  | zero =>
    refine ⟨holds.congr ?_ (fun _ _ => rfl), sound⟩
    intro place
    rw [lost]
    exact and_iff_left (by omega)
  | succ count ih =>
    have here := owned page (Nat.le_refl page) (by omega)
    have out : hal.allocated (shm.frames slot page) = true :=
      (holds.exact _).mpr ⟨(slot, page), here, rfl⟩
    have released : ExactlyHeld (fun place => held place ∧ place ≠ (slot, page))
        (shm.setFrame slot page 0).frameAt
        (update hal.allocated (shm.frames slot page) false) :=
      holds.release here (fun _ => Iff.rfl)
        (fun _ remains => frameAt_setFrame_of_ne remains.2 0)
    rw [freeFrames]
    apply ih released
    · simp [Hal.freeFrame, sound, out]
    · intro p low high
      refine ⟨owned p (by omega) (by omega), ?_⟩
      intro same
      cases same
      omega
    · intro place
      rw [lost]
      constructor
      · intro remains
        refine ⟨⟨remains.1, ?_⟩, by omega⟩
        intro same
        subst same
        exact remains.2 ⟨rfl, Nat.le_refl page, by omega⟩
      · intro remains
        have apart : ¬ (place.1 = slot ∧ place.2 = page) := fun same =>
          remains.1.2 (Prod.ext same.1 same.2)
        exact ⟨remains.1.1, by omega⟩

/-- Taking frames changes one object's frames and nothing else. -/
theorem takeFrames_frame (shm : Shm) (hal : Hal) (slot : Fin maxObjects) (page count : Nat) :
    (∃ frames, (takeFrames shm hal slot page count).2.1 = shm.withFrames slot frames) ∧
      (takeFrames shm hal slot page count).2.2.pageTable = hal.pageTable ∧
      (takeFrames shm hal slot page count).2.2.live = hal.live := by
  induction count generalizing shm hal page with
  | zero => exact ⟨⟨shm.frames slot, (withFrames_self shm slot).symm⟩, rfl, rfl⟩
  | succ count ih =>
    rw [takeFrames]
    -- Either answer of the allocator leaves the page tables and the processes alone.
    have answer : hal.allocFrame.2.pageTable = hal.pageTable ∧
        hal.allocFrame.2.live = hal.live := by
      rw [Hal.allocFrame]
      split
      · exact ⟨rfl, rfl⟩
      · split <;> exact ⟨rfl, rfl⟩
    split
    · rename_i frame later given
      rw [given] at answer
      obtain ⟨⟨frames, same⟩, tables, live⟩ :=
        ih (shm.setFrame slot page frame) (later.zeroFrame frame) (page + 1)
      rw [setFrame_withFrames] at same
      exact ⟨⟨frames, same⟩, tables.trans answer.1, live.trans answer.2⟩
    · rename_i later refused
      rw [refused] at answer
      obtain ⟨⟨frames, same⟩, tables, live⟩ := freeFrames_frame shm later slot 0 page
      exact ⟨⟨frames, same⟩, tables.trans answer.1, live.trans answer.2⟩

/-- A frame that is given was not out, and nothing else about the frames changes. -/
theorem allocFrame_cases (hal : Hal) :
    (∃ frame, hal.allocFrame.1 = some frame ∧ hal.allocated frame = false ∧
      hal.allocFrame.2.allocated = update hal.allocated frame true ∧
      hal.allocFrame.2.misfreed = hal.misfreed) ∨
    (hal.allocFrame.1 = none ∧ hal.allocFrame.2.allocated = hal.allocated ∧
      hal.allocFrame.2.misfreed = hal.misfreed) := by
  rw [Hal.allocFrame]
  split
  · exact .inr ⟨rfl, rfl, rfl⟩
  rename_i frame _
  split
  · exact .inr ⟨rfl, rfl, rfl⟩
  · rename_i usable
    simp only [Bool.or_eq_true, not_or, Bool.not_eq_true] at usable
    exact .inl ⟨frame, rfl, usable.2, rfl, rfl⟩

/--
Taking frames puts one behind every page asked for, or leaves the frames as they were.

`base` is what was held before the object got its first frame.
-/
theorem takeFrames_held {base : Fin maxObjects × Nat → Prop} (others : ∀ p, ¬ base (slot, p))
    (holds : ExactlyHeld (fun place => base place ∨ place.1 = slot ∧ place.2 < page)
      shm.frameAt hal.allocated) (sound : hal.misfreed = false)
    (blank : ∀ p, page ≤ p → shm.frameAt (slot, p) = 0) :
    (takeFrames shm hal slot page count).2.2.misfreed = false ∧
    (((takeFrames shm hal slot page count).1 = true ∧
      ExactlyHeld (fun place => base place ∨ place.1 = slot ∧ place.2 < page + count)
        (takeFrames shm hal slot page count).2.1.frameAt
        (takeFrames shm hal slot page count).2.2.allocated ∧
      ∀ p, page + count ≤ p → (takeFrames shm hal slot page count).2.1.frameAt (slot, p) = 0) ∨
    ((takeFrames shm hal slot page count).1 = false ∧
      ExactlyHeld base (takeFrames shm hal slot page count).2.1.frameAt
        (takeFrames shm hal slot page count).2.2.allocated ∧
      ∀ p, (takeFrames shm hal slot page count).2.1.frameAt (slot, p) = 0)) := by
  induction count generalizing shm hal page with
  | zero => exact ⟨sound, Or.inl ⟨rfl, holds, blank⟩⟩
  | succ count ih =>
    rw [takeFrames]
    obtain ⟨frame, given, fresh, out, sound'⟩ | ⟨refused, out, sound'⟩ := allocFrame_cases hal
    · -- The new frame goes behind the next page, and the loop goes on from there.
      generalize hal.allocFrame = answer at given out sound' ⊢
      obtain ⟨_, later⟩ := answer
      simp only at given out sound'
      subst given
      have grown : ExactlyHeld (fun place => base place ∨ place.1 = slot ∧ place.2 < page + 1)
          (shm.setFrame slot page frame).frameAt (later.zeroFrame frame).allocated := by
        rw [show (later.zeroFrame frame).allocated = later.allocated from rfl, out]
        refine holds.acquire fresh ?_ (frameAt_setFrame_self shm slot page frame) ?_
        · intro other
          constructor
          · intro holding
            rcases holding with old | ⟨here, below⟩
            · exact .inl (Or.inl old)
            · by_cases last : other.2 = page
              · exact .inr (Prod.ext here last)
              · exact .inl (Or.inr ⟨here, by omega⟩)
          · intro holding
            rcases holding with (old | ⟨here, below⟩) | rfl
            · exact .inl old
            · exact .inr ⟨here, by omega⟩
            · exact .inr ⟨rfl, Nat.lt_succ_self page⟩
        · intro other holding
          apply frameAt_setFrame_of_ne
          intro same
          subst same
          rcases holding with old | ⟨_, below⟩
          · exact others page old
          · exact Nat.lt_irrefl page below
      have step := ih grown (sound'.trans sound) (by
        intro p beyond
        rw [frameAt_setFrame_of_ne (fun same => by cases same; omega)]
        exact blank p (by omega))
      have along : page + 1 + count = page + (count + 1) := by omega
      rw [along] at step
      exact step
    · -- The allocator has run out, and everything taken so far goes back.
      generalize hal.allocFrame = answer at refused out sound' ⊢
      obtain ⟨_, later⟩ := answer
      simp only at refused out sound'
      subst refused
      rw [← out] at holds
      have back : ExactlyHeld base (freeFrames shm later slot 0 page).1.frameAt
            (freeFrames shm later slot 0 page).2.allocated ∧
          (freeFrames shm later slot 0 page).2.misfreed = false :=
        freeFrames_held holds (sound'.trans sound) (fun p _ below => Or.inr ⟨rfl, by omega⟩) (by
          intro place
          constructor
          · intro old
            refine ⟨Or.inl old, ?_⟩
            intro here
            exact others place.2 (here.1 ▸ old)
          · intro remains
            rcases remains.1 with old | ⟨here, below⟩
            · exact old
            · exact absurd ⟨here, Nat.zero_le _, by omega⟩ remains.2)
      refine ⟨back.2, Or.inr ⟨rfl, back.1, ?_⟩⟩
      intro p
      rw [frameAt_freeFrames]
      split
      · rfl
      · exact blank p (by simp at *; omega)

/-- The frames look at no more of the table than which pages are in use. -/
theorem FramesExact.congr (exact : FramesExact shm hal) {after : Shm} {later : Hal}
    (frames : after.frames = shm.frames)
    (objects : ∀ slot, (after.objects slot).inUse = (shm.objects slot).inUse ∧
      (after.objects slot).pages = (shm.objects slot).pages)
    (allocated : later.allocated = hal.allocated) (misfreed : later.misfreed = hal.misfreed) :
    FramesExact after later := by
  have owned : ∀ place, after.Owned place ↔ shm.Owned place := by
    intro place
    rw [Owned, Owned, (objects place.1).1, (objects place.1).2]
  have same : ∀ place, after.frameAt place = shm.frameAt place := by
    intro place
    rw [frameAt, frameAt, frames]
  constructor
  · rw [allocated]
    exact exact.held.congr owned fun place _ => same place
  · rw [misfreed]
    exact exact.sound
  · intro place free
    rw [same]
    exact exact.blank place (fun used => free ((owned place).mpr used))

/-- An object that gets its frames becomes in use with exactly these. -/
theorem FramesExact.create (exact : FramesExact shm hal) {object : ShmObject}
    (free : (shm.objects slot).inUse = false) (used : object.inUse = true) {total : Nat}
    (took : (takeFrames shm hal slot 0 object.pages).1 = true) :
    FramesExact
      { (takeFrames shm hal slot 0 object.pages).2.1.setObject slot object with
        totalPages := total }
      (takeFrames shm hal slot 0 object.pages).2.2 := by
  have foreign : ∀ p, ¬ shm.Owned (slot, p) := by
    intro p owned
    simp [Owned, free] at owned
  obtain ⟨sound, outcome⟩ := @takeFrames_held 0 object.pages shm hal slot shm.Owned foreign
    (by simpa using exact.held) exact.sound (fun p _ => exact.blank (slot, p) (foreign p))
  obtain ⟨⟨frames, same⟩, _⟩ := takeFrames_frame shm hal slot 0 object.pages
  rcases outcome with ⟨_, held, blank⟩ | ⟨failed, _⟩
  · have objects : (takeFrames shm hal slot 0 object.pages).2.1.objects = shm.objects := by
      rw [same, withFrames]
    have owned : ∀ place, ({ (takeFrames shm hal slot 0 object.pages).2.1.setObject slot object
          with totalPages := total } : Shm).Owned place
        ↔ shm.Owned place ∨ place.1 = slot ∧ place.2 < 0 + object.pages := by
      intro place
      simp only [Owned, setObject, objects]
      by_cases here : place.1 = slot
      · simp [here, used, free]
      · simp [here]
    refine ⟨held.congr owned (fun _ _ => rfl), sound, ?_⟩
    intro place unowned
    have absent := fun holding => unowned ((owned place).mpr holding)
    by_cases here : place.1 = slot
    · have beyond : 0 + object.pages ≤ place.2 := by
        by_contra below
        exact absent (Or.inr ⟨here, by omega⟩)
      subst here
      exact blank place.2 beyond
    · have kept : (takeFrames shm hal slot 0 object.pages).2.1.frameAt place
          = shm.frameAt place := by
        simp only [same, frameAt, withFrames, update_of_ne here]
      exact kept.trans (exact.blank place fun owned => absent (Or.inl owned))
  · rw [took] at failed
    cases failed

/-- An object that gets too few frames leaves the frames as they were. -/
theorem FramesExact.createFailed (exact : FramesExact shm hal)
    (free : (shm.objects slot).inUse = false)
    (failed : (takeFrames shm hal slot 0 count).1 = false) :
    FramesExact (takeFrames shm hal slot 0 count).2.1 (takeFrames shm hal slot 0 count).2.2 ∧
      (takeFrames shm hal slot 0 count).2.1 = shm := by
  have foreign : ∀ p, ¬ shm.Owned (slot, p) := by
    intro p owned
    simp [Owned, free] at owned
  obtain ⟨sound, outcome⟩ := @takeFrames_held 0 count shm hal slot shm.Owned foreign
    (by simpa using exact.held) exact.sound (fun p _ => exact.blank (slot, p) (foreign p))
  obtain ⟨⟨frames, same⟩, _⟩ := takeFrames_frame shm hal slot 0 count
  rcases outcome with ⟨took, _⟩ | ⟨_, held, blank⟩
  · rw [failed] at took
    cases took
  have back : (takeFrames shm hal slot 0 count).2.1 = shm := by
    have empty : shm.frames slot = frames := by
      funext page
      have now := blank page
      rw [same] at now
      simp only [frameAt, withFrames, update_self] at now
      exact (exact.blank (slot, page) (foreign page)).trans now.symm
    rw [same, ← empty, withFrames_self]
  refine ⟨?_, back⟩
  rw [back] at held ⊢
  exact ⟨held, sound, exact.blank⟩

/-- Freeing an object takes back exactly its frames. -/
theorem FramesExact.freeObject (exact : FramesExact shm hal)
    (used : (shm.objects slot).inUse = true) :
    FramesExact (shm.freeObject hal slot).1 (shm.freeObject hal slot).2 := by
  obtain ⟨⟨frames, same⟩, _⟩ := freeFrames_frame shm hal slot 0 (shm.objects slot).pages
  have objects : (shm.freeObject hal slot).1.objects
      = update shm.objects slot
          { emptyObj with gen := nextGen (shm.objects slot).gen } := by
    simp only [Shm.freeObject, setObject, same, withFrames]
  have owned : ∀ place, (shm.freeObject hal slot).1.Owned place ↔ shm.Owned place ∧
      ¬ (place.1 = slot ∧ 0 ≤ place.2 ∧ place.2 < 0 + (shm.objects slot).pages) := by
    intro place
    rw [Owned, Owned, objects]
    by_cases here : place.1 = slot
    · subst here
      simp [emptyObj, used]
    · simp [here]
  obtain ⟨held, sound⟩ := freeFrames_held exact.held exact.sound
    (fun p _ below => ⟨used, by simpa using below⟩) owned
  refine ⟨held, sound, ?_⟩
  intro place unowned
  have kept : (shm.freeObject hal slot).1.frameAt place
      = (freeFrames shm hal slot 0 (shm.objects slot).pages).1.frameAt place := rfl
  rw [kept, frameAt_freeFrames]
  split
  · rfl
  · rename_i outside
    exact exact.blank place fun holding => unowned ((owned place).mpr ⟨holding, outside⟩)

end Shm

end NovaOs
