import NovaOs.Lib.Table
import Mathlib.Data.List.Perm.Basic
import Mathlib.Data.List.Pairwise

/-! Queues read selectively, and such queues kept as stamped entries of a table. -/

namespace NovaOs

open Function List

/-- A queue with its history: what it took in, what was taken out again, and what still waits.
Nothing is lost or doubled on the way, and waiting never changes the order. -/
structure Fifo (α : Type) where
  accepted : List α
  consumed : List α
  waiting : List α
  kept : (consumed ++ waiting).Perm accepted
  ordered : waiting.Sublist accepted

namespace Fifo

variable {α : Type}

def empty : Fifo α where
  accepted := []
  consumed := []
  waiting := []
  kept := List.Perm.refl []
  ordered := List.Sublist.refl []

/-- One more value, behind all that wait. -/
def accept (queue : Fifo α) (value : α) : Fifo α where
  accepted := queue.accepted ++ [value]
  consumed := queue.consumed
  waiting := queue.waiting ++ [value]
  kept := by
    rw [← List.append_assoc]
    exact queue.kept.append_right [value]
  ordered := queue.ordered.append_right [value]

/-- The value that has waited longest among those a reader asks for. -/
def oldest (queue : Fifo α) (wanted : α → Bool) : Option α :=
  queue.waiting.find? wanted

/-- Taking a value out of a list moves it to the front and changes nothing else. -/
theorem perm_find_eraseP (wanted : α → Bool) (values : List α) :
    ((values.find? wanted).toList ++ values.eraseP wanted).Perm values := by
  cases found : values.find? wanted with
  | none =>
    have absent : ∀ value ∈ values, ¬ wanted value = true := by simpa using found
    rw [eraseP_of_forall_not absent]
    exact Perm.refl values
  | some value => ?_
  obtain ⟨passes, before, after, rfl, fail⟩ := find?_eq_some_iff_append.mp found
  have skipped : ∀ other ∈ before, ¬ wanted other = true := by simpa using fail
  rw [eraseP_append_right _ skipped, eraseP_cons_of_pos passes]
  rw [Option.toList_some, singleton_append]
  exact perm_middle.symm

/-- Takes out the value that has waited longest among those asked for. -/
def take (queue : Fifo α) (wanted : α → Bool) : Fifo α where
  accepted := queue.accepted
  consumed := queue.consumed ++ (queue.oldest wanted).toList
  waiting := queue.waiting.eraseP wanted
  kept := by
    rw [List.append_assoc]
    exact ((perm_find_eraseP wanted queue.waiting).append_left queue.consumed).trans queue.kept
  ordered := List.eraseP_sublist.trans queue.ordered

end Fifo

namespace Table

variable {n : Nat} {α : Type}

/-- The better of the slot held so far and the next one: it has to pass and to beat the other. -/
def lower (stamp : α → Nat) (p : α → Bool) (table : Fin n → α) (best : Option (Fin n))
    (i : Fin n) : Option (Fin n) :=
  if p (table i) && best.all (fun b => stamp (table i) < stamp (table b)) then some i else best

/-- The entry with the lowest stamp among those that pass a test, the first of them on a tie. -/
def lowest? (stamp : α → Nat) (p : α → Bool) (table : Fin n → α) : Option (Fin n) :=
  (List.finRange n).foldl (lower stamp p table) none

/-- What a search that has come past some of the slots may hold. -/
structure Lowest (stamp : α → Nat) (p : α → Bool) (table : Fin n → α) (seen : List (Fin n))
    (best : Option (Fin n)) : Prop where
  missed : best = none → ∀ i ∈ seen, p (table i) = false
  passes : ∀ b, best = some b → p (table b) = true
  least : ∀ b, best = some b → ∀ i ∈ seen, p (table i) = true → stamp (table b) ≤ stamp (table i)

theorem Lowest.foldl {stamp : α → Nat} {p : α → Bool} {table : Fin n → α}
    {seen : List (Fin n)} {best : Option (Fin n)} (low : Lowest stamp p table seen best)
    (rest : List (Fin n)) :
    Lowest stamp p table (seen ++ rest) (rest.foldl (lower stamp p table) best) := by
  -- One slot at a time: it is taken exactly when it passes and beats what is held.
  induction rest generalizing seen best with
  | nil => simpa using low
  | cons i rest ih =>
    rw [foldl_cons, append_cons]
    apply ih
    unfold lower
    split
    · rename_i taken
      obtain ⟨passes, beats⟩ := Bool.and_eq_true_iff.mp taken
      refine ⟨nofun, ?_, ?_⟩
      · rintro b ⟨⟩
        exact passes
      rintro b ⟨⟩ j member passing
      rcases mem_append.mp member with earlier | last
      · cases held : best with
        | none => simp [low.missed held j earlier] at passing
        | some b =>
          have below : stamp (table i) < stamp (table b) := by simpa [held] using beats
          exact (below.trans_le (low.least b held j earlier passing)).le
      · obtain rfl := mem_singleton.mp last
        exact le_rfl
    · rename_i skipped
      refine ⟨?_, low.passes, ?_⟩
      · intro none j member
        rcases mem_append.mp member with earlier | last
        · exact low.missed none j earlier
        · obtain rfl := mem_singleton.mp last
          simpa [none] using skipped
      · intro b held j member passing
        rcases mem_append.mp member with earlier | last
        · exact low.least b held j earlier passing
        · obtain rfl := mem_singleton.mp last
          simpa [held, passing] using skipped

theorem lowest?_spec (stamp : α → Nat) (p : α → Bool) (table : Fin n → α) :
    Lowest stamp p table (finRange n) (lowest? stamp p table) := by
  have start : Lowest stamp p table [] none := ⟨fun _ => nofun, nofun, nofun⟩
  exact start.foldl (finRange n)

/-- The slots in use, from the lowest stamp to the highest. -/
structure Queued (used : α → Bool) (stamp : α → Nat) (table : Fin n → α)
    (order : List (Fin n)) : Prop where
  mem : ∀ i, i ∈ order ↔ used (table i) = true
  rising : order.Pairwise fun i j => stamp (table i) < stamp (table j)

namespace Queued

variable {used : α → Bool} {stamp : α → Nat} {table : Fin n → α} {order : List (Fin n)}
variable {i : Fin n} {entry : α}

variable (queued : Queued used stamp table order)

include queued

theorem nodup : order.Nodup :=
  queued.rising.imp fun below same => absurd (same ▸ below) (lt_irrefl _)

/-- Searching by stamp is searching the queue from its front. -/
theorem lowest?_eq (p : α → Bool) :
    lowest? stamp (fun entry => used entry && p entry) table
      = order.find? fun i => p (table i) := by
  have low := lowest?_spec stamp (fun entry => used entry && p entry) table
  cases found : order.find? fun i => p (table i) with
  | none =>
    have failing : ∀ i ∈ order, p (table i) = false := by simpa using found
    cases picked : lowest? stamp (fun entry => used entry && p entry) table with
    | none => rfl
    | some b =>
      obtain ⟨inUse, passes⟩ := Bool.and_eq_true_iff.mp (low.passes b picked)
      simp [failing b ((queued.mem b).mpr inUse)] at passes
  | some i => ?_
  obtain ⟨passes, before, after, split, fail⟩ := find?_eq_some_iff_append.mp found
  have inUse : used (table i) = true :=
    (queued.mem i).mp (split ▸ mem_append_right before mem_cons_self)
  have both : (used (table i) && p (table i)) = true := by rw [inUse, passes, Bool.true_and]
  cases picked : lowest? stamp (fun entry => used entry && p entry) table with
  | none => simp [low.missed picked i (mem_finRange i)] at both
  | some b => ?_
  obtain ⟨inUseToo, passesToo⟩ := Bool.and_eq_true_iff.mp (low.passes b picked)
  have member : b ∈ before ++ i :: after := split ▸ (queued.mem b).mpr inUseToo
  -- Nothing before the slot passes, and everything behind it has a higher stamp.
  rcases mem_append.mp member with earlier | later
  · have failing : p (table b) = false := by simpa using fail b earlier
    simp [failing] at passesToo
  rcases mem_cons.mp later with rfl | behind
  · rfl
  · have rising := (pairwise_append.mp (split ▸ queued.rising)).2.1
    have above := (pairwise_cons.mp rising).1 b behind
    have atMost := low.least b picked i (mem_finRange i) both
    omega

/-- A free slot filled under a stamp above all others joins at the end. -/
theorem push (free : used (table i) = false) (inUse : used entry = true)
    (above : ∀ j, used (table j) = true → stamp (table j) < stamp entry) :
    Queued used stamp (update table i entry) (order ++ [i]) := by
  have outside : i ∉ order := by simp [queued.mem, free]
  have apart : ∀ j ∈ order, j ≠ i := fun j member same => outside (same ▸ member)
  refine ⟨?_, ?_⟩
  · intro j
    by_cases same : j = i
    · subst same
      simp [inUse]
    · simp [same, queued.mem]
  · rw [pairwise_append]
    refine ⟨queued.rising.imp_of_mem ?_, pairwise_singleton _ _, ?_⟩
    · intro a b left right below
      rwa [update_of_ne (apart a left), update_of_ne (apart b right)]
    · intro a left b right
      obtain rfl := mem_singleton.mp right
      rw [update_self, update_of_ne (apart a left)]
      exact above a ((queued.mem a).mp left)

/-- A slot no longer in use leaves the queue, the others keep their order. -/
theorem pop {p : Fin n → Bool} (found : order.find? p = some i) (free : used entry = false) :
    Queued used stamp (update table i entry) (order.eraseP p) := by
  obtain ⟨passes, before, after, rfl, fail⟩ := find?_eq_some_iff_append.mp found
  have skipped : ∀ j ∈ before, ¬ p j = true := by simpa using fail
  rw [eraseP_append_right _ skipped, eraseP_cons_of_pos passes]
  have apart := nodup_middle.mp queued.nodup
  have outside : i ∉ before ++ after := (nodup_cons.mp apart).1
  refine ⟨?_, ?_⟩
  · intro j
    by_cases same : j = i
    · subst same
      simpa [free] using outside
    · have others := queued.mem j
      simpa [same] using others
  · have rising : (before ++ after).Pairwise fun i j => stamp (table i) < stamp (table j) :=
      queued.rising.sublist (Sublist.append_left (sublist_cons_self i after) before)
    refine rising.imp_of_mem ?_
    intro a b left right below
    have leftApart : a ≠ i := fun same => outside (same ▸ left)
    have rightApart : b ≠ i := fun same => outside (same ▸ right)
    rwa [update_of_ne leftApart, update_of_ne rightApart]

theorem length_eq_count : order.length = count used table := by
  rw [count, countP_eq_length_filter]
  apply Perm.length_eq
  rw [perm_ext_iff_of_nodup queued.nodup ((nodup_finRange n).filter _)]
  intro i
  simp [queued.mem]

end Queued

end Table

end NovaOs
