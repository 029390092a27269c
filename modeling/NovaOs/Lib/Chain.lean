import Mathlib.Data.List.Basic
import Mathlib.Data.List.Nodup

/-! Chains of nodes linked through a table, each naming the one that follows it. -/

namespace NovaOs

variable {α : Type}

/-- Following the links from a node visits exactly the nodes listed, and then stops. -/
def Trail (next : α → α) (stop : α → Prop) : α → List α → Prop
  | node, [] => stop node
  | node, first :: rest => node = first ∧ ¬ stop node ∧ Trail next stop (next node) rest

instance decidableTrail (next : α → α) (stop : α → Prop) [DecidableEq α] [DecidablePred stop]
    (start : α)
    (nodes : List α) : Decidable (Trail next stop start nodes) :=
  match nodes with
  | [] => inferInstanceAs (Decidable (stop start))
  | first :: rest =>
    have := decidableTrail next stop (next start) rest
    inferInstanceAs (Decidable (start = first ∧ ¬ stop start ∧ Trail next stop (next start) rest))

namespace Trail

variable {next after : α → α} {stop : α → Prop} {start : α} {nodes : List α}

/-- A node starts at most one trail. -/
theorem unique {others : List α} (one : Trail next stop start nodes)
    (two : Trail next stop start others) : nodes = others := by
  induction nodes generalizing start others with
  | nil =>
    cases others with
    | nil => rfl
    | cons first rest => exact absurd one two.2.1
  | cons first rest ih =>
    obtain ⟨rfl, going, onward⟩ := one
    cases others with
    | nil => exact absurd two going
    | cons second later =>
      obtain ⟨rfl, _, further⟩ := two
      rw [ih onward further]

/-- Behind any node on it, the rest of a trail is a trail. -/
theorem behind (trail : Trail next stop start nodes) {node : α} (member : node ∈ nodes) :
    ∃ earlier later, nodes = earlier ++ node :: later ∧ Trail next stop (next node) later := by
  induction nodes generalizing start with
  | nil => cases member
  | cons first rest ih =>
    obtain ⟨rfl, going, onward⟩ := trail
    rcases List.mem_cons.mp member with rfl | member
    · exact ⟨[], rest, rfl, onward⟩
    · obtain ⟨earlier, later, rfl, further⟩ := ih onward member
      exact ⟨start :: earlier, later, rfl, further⟩

/-- A trail that ends visits no node twice. -/
theorem nodup (trail : Trail next stop start nodes) : nodes.Nodup := by
  induction nodes generalizing start with
  | nil => exact List.nodup_nil
  | cons first rest ih =>
    obtain ⟨rfl, going, onward⟩ := trail
    refine List.nodup_cons.mpr ⟨?_, ih onward⟩
    -- A second visit would have the same rest behind it, and that rest is longer than itself.
    intro member
    obtain ⟨earlier, later, split, again⟩ := onward.behind member
    have same := again.unique onward
    have longer := congrArg List.length split
    rw [same] at longer
    simp only [List.length_cons, List.length_append] at longer
    omega

/-- The link of a node on a trail leads to a node on it, or stops. -/
theorem next_mem (trail : Trail next stop start nodes) {node : α} (member : node ∈ nodes) :
    next node ∈ nodes ∨ stop (next node) := by
  obtain ⟨earlier, later, rfl, onward⟩ := trail.behind member
  cases later with
  | nil => exact .inr onward
  | cons second rest => exact .inl (by simp [onward.1])

/-- Links changed elsewhere leave a trail as it is. -/
theorem congr (trail : Trail next stop start nodes)
    (same : ∀ node ∈ nodes, after node = next node) : Trail after stop start nodes := by
  induction nodes generalizing start with
  | nil => exact trail
  | cons first rest ih =>
    obtain ⟨rfl, going, onward⟩ := trail
    refine ⟨rfl, going, ?_⟩
    rw [same start (by simp)]
    exact ih onward fun node member => same node (by simp [member])

/-- Linking the last node onward hangs another trail behind it. -/
theorem extend {earlier later : List α} {last : α}
    (trail : Trail next stop start (earlier ++ [last]))
    (same : ∀ node ∈ earlier, after node = next node)
    (onward : Trail after stop (after last) later) :
    Trail after stop start (earlier ++ last :: later) := by
  induction earlier generalizing start with
  | nil =>
    obtain ⟨rfl, going, _⟩ := trail
    exact ⟨rfl, going, onward⟩
  | cons first rest ih =>
    obtain ⟨rfl, going, further⟩ := trail
    refine ⟨rfl, going, ?_⟩
    rw [same start (by simp)]
    exact ih further fun node member => same node (by simp [member])

end Trail

end NovaOs
