import Mathlib.Data.List.Infix
import NovaOs.Mac.Policy

/-! The pattern matcher against the language of its patterns. -/

namespace NovaOs.Confine

variable {pat text : List UInt8}

open List

/-- The names a pattern stands for. -/
def Speaks : List UInt8 → List UInt8 → Prop
  | [], text => text = []
  | c :: pat, text =>
    -- A star takes any number of bytes, a question mark any one, a letter itself in either case.
    if c = 42 then ∃ k, Speaks pat (text.drop k)
    else ∃ d rest, text = d :: rest ∧ (c = 63 ∨ foldCase c = foldCase d) ∧ Speaks pat rest

namespace Speaks

variable {pat text : List UInt8}

theorem star_iff : Speaks (42 :: pat) text ↔ ∃ k, Speaks pat (text.drop k) := by
  simp [Speaks]

theorem byte_iff {c : UInt8} (plain : c ≠ 42) :
    Speaks (c :: pat) text ↔
      ∃ d rest, text = d :: rest ∧ (c = 63 ∨ foldCase c = foldCase d) ∧ Speaks pat rest := by
  simp [Speaks, plain]

/-- Only stars stand for the empty name. -/
theorem nil_iff : Speaks pat [] ↔ pat.all (· == 42) = true := by
  induction pat with
  | nil => simp [Speaks]
  | cons c pat ih =>
    by_cases star : c = 42
    · subst star
      rw [star_iff]
      simp [ih]
    · rw [byte_iff star]
      simp [star]

/-- A star may take more. -/
theorem star_drop {k : Nat} (speaks : Speaks (42 :: pat) (text.drop k)) :
    Speaks (42 :: pat) text := by
  rw [star_iff] at speaks ⊢
  obtain ⟨j, rest⟩ := speaks
  rw [drop_drop] at rest
  exact ⟨k + j, rest⟩

/-- Bytes that are not stars take one byte each. -/
theorem segment {front : List UInt8} (plain : ∀ c ∈ front, c ≠ 42)
    (speaks : Speaks (front ++ pat) text) : Speaks pat (text.drop front.length) := by
  induction front generalizing text with
  | nil => exact speaks
  | cons c front ih =>
    rw [cons_append, byte_iff (plain c mem_cons_self)] at speaks
    obtain ⟨d, rest, rfl, _, speaks⟩ := speaks
    exact ih (fun c member => plain c (mem_cons_of_mem _ member)) speaks

end Speaks

/-- Where the loop of the matcher stands: since its last star it has compared byte by byte. -/
structure Aligned (pat : List UInt8) (p t : Nat) (star : Option Nat) (mark : Nat) : Prop where
  behind : ∀ s, star = some s → s < p ∧ p ≤ pat.length ∧ mark ≤ t ∧ p - (s + 1) = t - mark
  plain : ∀ s, star = some s → ∀ i, s < i → i < p → pat[i]? ≠ some 42

/-- If the last star had taken more, the rest of the pattern would fit further behind. -/
theorem Aligned.retry {p t s mark k : Nat} (aligned : Aligned pat p t (some s) mark)
    (more : mark ≤ k) (speaks : Speaks (pat.drop (s + 1)) (text.drop k)) :
    Speaks (pat.drop p) ((text.drop t).drop (k - mark)) := by
  obtain ⟨ahead, within, marked, even⟩ := aligned.behind s rfl
  -- The pattern behind the star begins with the bytes that were compared since.
  have split := take_append_drop (p - (s + 1)) (pat.drop (s + 1))
  rw [drop_drop, show s + 1 + (p - (s + 1)) = p by omega] at split
  have width : ((pat.drop (s + 1)).take (p - (s + 1))).length = t - mark := by
    rw [length_take, length_drop]
    omega
  have plain : ∀ c ∈ (pat.drop (s + 1)).take (p - (s + 1)), c ≠ 42 := by
    rintro c member rfl
    obtain ⟨i, below, found⟩ := mem_iff_getElem.mp member
    rw [width] at below
    refine aligned.plain s rfl (s + 1 + i) (by omega) (by omega) ?_
    rw [← found, getElem_take, getElem_drop, getElem?_eq_getElem]
  rw [← split] at speaks
  have later := Speaks.segment plain speaks
  rw [width, drop_drop] at later
  rwa [drop_drop, show t + (k - mark) = k + (t - mark) by omega]

/-- A byte that is not a star fits the next byte of the text, and the rests fit each other. -/
theorem Speaks.compare {p t : Nat} (inside : t < text.length) (notStar : pat[p]? ≠ some 42) :
    Speaks (pat.drop p) (text.drop t) ↔
      (p < pat.length ∧ (pat[p]? = some 63 ∨ (pat[p]?).map foldCase = (text[t]?).map foldCase)) ∧
        Speaks (pat.drop (p + 1)) (text.drop (t + 1)) := by
  have next : text.drop t = text[t] :: text.drop (t + 1) := drop_eq_getElem_cons inside
  by_cases within : p < pat.length
  · have front : pat.drop p = pat[p] :: pat.drop (p + 1) := drop_eq_getElem_cons within
    rw [getElem?_eq_getElem within] at notStar
    rw [front, next, Speaks.byte_iff (by simpa using notStar), getElem?_eq_getElem within,
      getElem?_eq_getElem inside]
    simp only [within, true_and, Option.some.injEq, Option.map_some]
    constructor
    · rintro ⟨d, rest, same, fits, later⟩
      obtain ⟨rfl, rfl⟩ := cons.inj same
      exact ⟨fits, later⟩
    · rintro ⟨fits, later⟩
      exact ⟨_, _, rfl, fits, later⟩
  · -- Nothing of the pattern is left, but there is text.
    have ended : pat.drop p = [] := drop_of_length_le (Nat.not_lt.mp within)
    rw [ended, next]
    simp only [Speaks, within, false_and, iff_false]
    exact cons_ne_nil _ _

/-- The loop finds a match from where it stands, or from where the last star takes more. -/
theorem globLoop_iff (pat text : List UInt8) (p t : Nat) (star : Option Nat) (mark : Nat)
    (behind : mark ≤ t) (aligned : Aligned pat p t star mark) :
    globLoop pat text p t star mark behind = true ↔
      Speaks (pat.drop p) (text.drop t) ∨
        ∃ s, star = some s ∧ ∃ k, mark < k ∧ Speaks (pat.drop (s + 1)) (text.drop k) := by
  induction p, t, star, mark, behind using globLoop.induct pat text with
  | case1 p t star mark behind inside isStar ih =>
    have within : p < pat.length := (List.getElem?_eq_some_iff.mp isStar).1
    have front : pat.drop p = 42 :: pat.drop (p + 1) := by
      rw [drop_eq_getElem_cons within, (List.getElem?_eq_some_iff.mp isStar).2]
    have fresh : Aligned pat (p + 1) t (some p) t := by
      refine ⟨?_, ?_⟩
      · rintro s ⟨⟩
        omega
      · rintro s ⟨⟩ i above below
        omega
    rw [globLoop.eq_def, dif_pos inside, dif_pos isStar, ih fresh, front]
    constructor
    · rintro (here | ⟨s, ⟨⟩, k, more, later⟩)
      · exact .inl (Speaks.star_iff.mpr ⟨0, here⟩)
      · refine .inl (Speaks.star_iff.mpr ⟨k - t, ?_⟩)
        rwa [drop_drop, show t + (k - t) = k by omega]
    · -- What an earlier star could still do, this one can do as well.
      have enough : Speaks (42 :: pat.drop (p + 1)) (text.drop t) →
          Speaks (pat.drop (p + 1)) (text.drop t) ∨ ∃ s, some p = some s ∧
            ∃ k, t < k ∧ Speaks (pat.drop (s + 1)) (text.drop k) := by
        intro speaks
        obtain ⟨k, later⟩ := Speaks.star_iff.mp speaks
        rw [drop_drop] at later
        rcases Nat.eq_zero_or_pos k with rfl | positive
        · exact .inl later
        · exact .inr ⟨p, rfl, t + k, by omega, later⟩
      rintro (here | ⟨s, rfl, k, more, later⟩)
      · exact enough here
      · have further := aligned.retry (Nat.le_of_lt more) later
        rw [front] at further
        exact enough (Speaks.star_drop further)
  | case2 p t star mark behind inside notStar fits ih =>
    have stepped : Aligned pat (p + 1) (t + 1) star mark := by
      refine ⟨?_, ?_⟩
      · intro s starred
        have before := aligned.behind s starred
        omega
      · intro s starred i above below
        by_cases same : i = p
        · rwa [same]
        · exact aligned.plain s starred i above (by omega)
    rw [globLoop.eq_def, dif_pos inside, dif_neg notStar, dif_pos fits, ih stepped,
      Speaks.compare inside notStar]
    simp only [fits, true_and]
  | case3 p t mark behind inside notStar misfit s ih =>
    obtain ⟨ahead, within, _, _⟩ := aligned.behind s rfl
    have restarted : Aligned pat (s + 1) (mark + 1) (some s) (mark + 1) := by
      refine ⟨?_, ?_⟩
      · rintro s ⟨⟩
        omega
      · rintro s ⟨⟩ i above below
        omega
    rw [globLoop.eq_def, dif_pos inside, dif_neg notStar, dif_neg misfit]
    simp only [ih restarted, Speaks.compare inside notStar, misfit, false_and, false_or]
    constructor
    · rintro (here | ⟨s, ⟨⟩, k, more, later⟩)
      · exact ⟨s, rfl, mark + 1, Nat.lt_succ_self _, here⟩
      · exact ⟨s, rfl, k, by omega, later⟩
    · rintro ⟨s, ⟨⟩, k, more, later⟩
      by_cases next : k = mark + 1
      · exact .inl (next ▸ later)
      · exact .inr ⟨s, rfl, k, by omega, later⟩
  | case4 p t mark behind inside notStar misfit =>
    rw [globLoop.eq_def, dif_pos inside, dif_neg notStar, dif_neg misfit]
    simp [Speaks.compare inside notStar, misfit]
  | case5 p t star mark behind outside =>
    have ended : text.drop t = [] := drop_of_length_le (Nat.not_lt.mp outside)
    rw [globLoop.eq_def, dif_neg outside, ended, Speaks.nil_iff]
    refine ⟨.inl, ?_⟩
    rintro (here | ⟨s, rfl, k, more, later⟩)
    · exact here
    · have further := aligned.retry (Nat.le_of_lt more) later
      rw [ended, drop_nil] at further
      exact Speaks.nil_iff.mp further

/-- The matcher accepts exactly the names its pattern stands for. -/
theorem globMatch_iff (pat text : List UInt8) : globMatch pat text = true ↔ Speaks pat text := by
  rw [globMatch, globLoop_iff pat text 0 0 none 0 _ ⟨nofun, nofun⟩]
  simp

/-- The recursive definition of the patterns: a star tries every rest of the name. -/
def inLanguage : List UInt8 → List UInt8 → Bool
  | [], text => text.isEmpty
  | c :: pat, text =>
    if c == 42 then text.tails.any (inLanguage pat)
    else
      match text with
      | [] => false
      | d :: rest => (c == 63 || foldCase c == foldCase d) && inLanguage pat rest

theorem speaks_iff_inLanguage (pat text : List UInt8) :
    Speaks pat text ↔ inLanguage pat text = true := by
  -- A star leaves any rest of the text to the pattern behind it, so the text stays quantified over.
  induction pat generalizing text with
  | nil => simp [Speaks, inLanguage]
  | cons c pat ih =>
    by_cases star : c = 42
    · subst star
      have tries : inLanguage (42 :: pat) text = text.tails.any (inLanguage pat) := by
        cases text <;> rfl
      rw [Speaks.star_iff, tries, any_eq_true]
      constructor
      · rintro ⟨k, rest⟩
        exact ⟨text.drop k, (mem_tails _ _).mpr (drop_suffix k text), (ih _).mp rest⟩
      · rintro ⟨rest, suffix, accepted⟩
        -- A rest of the text is the text without as many bytes as it is shorter by.
        have dropped := suffix_iff_eq_drop.mp ((mem_tails _ _).mp suffix)
        exact ⟨text.length - rest.length, (ih _).mpr (dropped ▸ accepted)⟩
    · rw [Speaks.byte_iff star]
      cases text with
      | nil => simp [inLanguage, star]
      | cons d rest => simp [inLanguage, star, ih]

/-- The matcher's one place to fall back to is enough: it decides what trying everything decides. -/
theorem glob_match_recursive (pat text : List UInt8) :
    globMatch pat text = inLanguage pat text := by
  rw [Bool.eq_iff_iff, globMatch_iff, speaks_iff_inLanguage]

end NovaOs.Confine
