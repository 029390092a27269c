import Mathlib.Logic.Function.Basic

/-! Resources given out and taken back, each with exactly one place that holds it. -/

namespace NovaOs

variable {Place Resource : Type}

/-- The resources that are out are those held, each at one place. -/
structure ExactlyHeld (held : Place → Prop) (resource : Place → Resource)
    (out : Resource → Bool) : Prop where
  apart : ∀ {first second}, held first → held second →
    resource first = resource second → first = second
  exact : ∀ item, out item = true ↔ ∃ place, held place ∧ resource place = item

namespace ExactlyHeld

variable {held after : Place → Prop} {resource moved : Place → Resource} {out : Resource → Bool}

/-- Only what the held places hold matters. -/
theorem congr (holds : ExactlyHeld held resource out) (same : ∀ place, after place ↔ held place)
    (kept : ∀ place, held place → moved place = resource place) :
    ExactlyHeld after moved out where
  apart := by
    intro first second holdsFirst holdsSecond equal
    rw [same] at holdsFirst holdsSecond
    rw [kept _ holdsFirst, kept _ holdsSecond] at equal
    exact holds.apart holdsFirst holdsSecond equal
  exact := by
    intro item
    rw [holds.exact item]
    constructor
    · intro found
      obtain ⟨place, holding, named⟩ := found
      exact ⟨place, (same place).mpr holding, (kept place holding).trans named⟩
    · intro found
      obtain ⟨place, holding, named⟩ := found
      have holding := (same place).mp holding
      exact ⟨place, holding, (kept place holding).symm.trans named⟩

/-- What is out is told by what is held. -/
theorem unique {other : Resource → Bool} (holds : ExactlyHeld held resource out)
    (holds' : ExactlyHeld held resource other) : out = other := by
  funext item
  exact Bool.eq_iff_iff.mpr ((holds.exact item).trans (holds'.exact item).symm)

variable [DecidableEq Resource]

/-- A resource that is not out can be put in a new place. -/
theorem acquire (holds : ExactlyHeld held resource out) {place : Place} {item : Resource}
    (fresh : out item = false) (gained : ∀ other, after other ↔ held other ∨ other = place)
    (put : moved place = item) (kept : ∀ other, held other → moved other = resource other) :
    ExactlyHeld after moved (Function.update out item true) where
  apart := by
    -- Nothing that was held before can be the resource that was not out.
    have foreign : ∀ other, held other → moved other ≠ item := by
      intro other holding equal
      have given := (holds.exact item).mpr ⟨other, holding, (kept other holding).symm.trans equal⟩
      rw [fresh] at given
      cases given
    intro first second holdsFirst holdsSecond equal
    rcases (gained first).mp holdsFirst with oldFirst | rfl
    · rcases (gained second).mp holdsSecond with oldSecond | rfl
      · rw [kept _ oldFirst, kept _ oldSecond] at equal
        exact holds.apart oldFirst oldSecond equal
      · exact absurd (equal.trans put) (foreign first oldFirst)
    · rcases (gained second).mp holdsSecond with oldSecond | rfl
      · exact absurd (equal.symm.trans put) (foreign second oldSecond)
      · rfl
  exact := by
    intro other
    by_cases here : other = item
    · subst here
      simp only [Function.update_self, true_iff]
      exact ⟨place, (gained place).mpr (Or.inr rfl), put⟩
    rw [Function.update_of_ne here, holds.exact other]
    constructor
    · intro found
      obtain ⟨at_, holding, named⟩ := found
      exact ⟨at_, (gained at_).mpr (Or.inl holding), (kept at_ holding).trans named⟩
    · intro found
      obtain ⟨at_, holding, named⟩ := found
      rcases (gained at_).mp holding with old | rfl
      · exact ⟨at_, old, (kept at_ old).symm.trans named⟩
      · exact absurd (named.symm.trans put) here

/-- A held resource can be taken back. -/
theorem release (holds : ExactlyHeld held resource out) {place : Place} (holding : held place)
    (lost : ∀ other, after other ↔ held other ∧ other ≠ place)
    (kept : ∀ other, after other → moved other = resource other) :
    ExactlyHeld after moved (Function.update out (resource place) false) where
  apart := by
    intro first second holdsFirst holdsSecond equal
    rw [kept _ holdsFirst, kept _ holdsSecond] at equal
    exact holds.apart ((lost first).mp holdsFirst).1 ((lost second).mp holdsSecond).1 equal
  exact := by
    intro item
    by_cases here : item = resource place
    · subst here
      simp only [Function.update_self, Bool.false_eq_true, false_iff]
      intro found
      obtain ⟨other, remains, named⟩ := found
      have was := (lost other).mp remains
      rw [kept other remains] at named
      exact was.2 (holds.apart was.1 holding named)
    rw [Function.update_of_ne here, holds.exact item]
    constructor
    · intro found
      obtain ⟨other, held, named⟩ := found
      have elsewhere : other ≠ place := by
        intro same
        subst same
        exact here named.symm
      have remains := (lost other).mpr ⟨held, elsewhere⟩
      exact ⟨other, remains, (kept other remains).trans named⟩
    · intro found
      obtain ⟨other, remains, named⟩ := found
      exact ⟨other, ((lost other).mp remains).1, (kept other remains).symm.trans named⟩

end ExactlyHeld

end NovaOs
