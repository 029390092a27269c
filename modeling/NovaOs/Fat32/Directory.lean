import NovaOs.Fat32.Alloc
import NovaOs.Fat32.Dirent

/-! The root directory as a list of places for entries, and what going through it finds. -/

namespace NovaOs.Fat

open List

variable {g : Geometry}

/-- A place for a directory entry: a cluster, and the entry's number there. -/
abbrev Loc := UInt32 × Nat

/-- The places in one directory cluster. -/
def locsIn (g : Geometry) (cluster : UInt32) : List Loc :=
  (List.range g.layout.entriesPerCluster).map fun i => (cluster, i)

/-- The places in a directory, in the order they are gone through. -/
def locs (g : Geometry) (root : List UInt32) : List Loc := root.flatMap (locsIn g)

/-- The entry in a place. -/
def Vol.entry (v : Vol) (loc : Loc) : Bytes := direntAt (v.data loc.1) loc.2

/-- A place from which on the directory has no entries. -/
def Vol.Ended (v : Vol) (loc : Loc) : Prop := (v.entry loc).getD 0 0 = 0

/-- A place that holds a file's entry. -/
def Vol.Live (v : Vol) (loc : Loc) : Prop :=
  (v.entry loc).getD 0 0 ≠ 0 ∧ inUse (v.entry loc) = true

instance (v : Vol) (loc : Loc) : Decidable (v.Ended loc) := inferInstanceAs (Decidable (_ = _))

instance (v : Vol) (loc : Loc) : Decidable (v.Live loc) := inferInstanceAs (Decidable (_ ∧ _))

theorem mem_locs {root : List UInt32} {loc : Loc} :
    loc ∈ locs g root ↔ loc.1 ∈ root ∧ loc.2 < g.layout.entriesPerCluster := by
  obtain ⟨cluster, i⟩ := loc
  simp only [locs, locsIn, mem_flatMap, mem_map, mem_range, Prod.mk.injEq]
  constructor
  · rintro ⟨_, member, _, inside, rfl, rfl⟩
    exact ⟨member, inside⟩
  · rintro ⟨member, inside⟩
    exact ⟨cluster, member, i, inside, rfl, rfl⟩

theorem locs_append {first second : List UInt32} :
    locs g (first ++ second) = locs g first ++ locs g second := by
  simp [locs]

section Walking

variable {α : Type} (visit : UInt32 → Nat → Bytes → Visit α)

/-- What looking at places one after another decides. -/
def firstHit (v : Vol) : List Loc → Visit α
  | [] => .skip
  | loc :: rest =>
    match visit loc.1 loc.2 (v.entry loc) with
    | .skip => firstHit v rest
    | decided => decided

variable {visit} {v : Vol}

theorem firstHit_append {first second : List Loc} :
    firstHit visit v (first ++ second)
      = match firstHit visit v first with
        | .skip => firstHit visit v second
        | decided => decided := by
  induction first with
  | nil => rfl
  | cons loc rest ih =>
    simp only [cons_append, firstHit]
    cases visit loc.1 loc.2 (v.entry loc) with
    | skip => exact ih
    | stop | found result => rfl

variable {places : List Loc}

/-- Whatever is decided is decided at the first place that is not skipped. -/
theorem firstHit_decided {decided : Visit α} (some_decision : decided ≠ .skip)
    (hit : firstHit visit v places = decided) :
    ∃ before loc behind, places = before ++ loc :: behind ∧
      visit loc.1 loc.2 (v.entry loc) = decided ∧
      ∀ earlier ∈ before, visit earlier.1 earlier.2 (v.entry earlier) = .skip := by
  induction places with
  | nil => exact absurd hit.symm some_decision
  | cons loc rest ih =>
    cases here : visit loc.1 loc.2 (v.entry loc) with
    | skip =>
      simp only [firstHit, here] at hit
      obtain ⟨before, found, behind, rfl, decision, skipped⟩ := ih hit
      refine ⟨loc :: before, found, behind, rfl, decision, ?_⟩
      intro earlier member
      rcases mem_cons.mp member with rfl | member
      · exact here
      · exact skipped earlier member
    | stop | found result =>
      simp only [firstHit, here] at hit
      exact ⟨[], loc, rest, rfl, by rw [here, hit], by simp⟩

theorem firstHit_skip (none : firstHit visit v places = .skip) :
    ∀ loc ∈ places, visit loc.1 loc.2 (v.entry loc) = .skip := by
  induction places with
  | nil => simp
  | cons first rest ih =>
    simp only [firstHit] at none
    intro loc member
    cases here : visit first.1 first.2 (v.entry first) with
    | skip =>
      simp only [here] at none
      rcases mem_cons.mp member with rfl | member
      · exact here
      · exact ih none loc member
    | stop | found result => simp [here] at none

/-- Going through one cluster is looking at its places. -/
theorem visitDirents_eq (cluster : UInt32) (i left : Nat) :
    visitDirents (visit cluster) (v.data cluster) i left
      = firstHit visit v ((List.range' i left).map fun k => (cluster, k)) := by
  induction left generalizing i with
  | zero => rfl
  | succ left ih =>
    simp only [visitDirents, List.range'_succ, map_cons, firstHit, Vol.entry]
    cases visit cluster i (direntAt (v.data cluster) i) with
    | skip => exact ih (i + 1)
    | stop | found result => rfl

/-- How a walk along a chain ends, by what its places decide. -/
def walkEnd (last : UInt32) (chain : List UInt32) : Visit α → Walk α
  | .found result => .found result
  | .stop => .ended
  | .skip => .full (chain.getLastD last)

variable {g : Geometry} {fs : Fs}

/-- A walk along a chain looks at the chain's places, unless it runs out of fuel. -/
theorem walkChain_cases (visit : UInt32 → Nat → Bytes → Visit α) (ready : Ready g fs)
    {cluster : UInt32} {chain : List UInt32} (trail : (fs.vol g).Chain cluster chain)
    (valid : ∀ c ∈ chain, g.Valid c) (fuel : Nat) (last : UInt32) :
    walkChain visit fuel fs cluster last
        = some (walkEnd last chain (firstHit visit (fs.vol g) (locs g chain)), fs) ∨
      fuel ≤ chain.length ∧ walkChain visit fuel fs cluster last = none := by
  induction chain generalizing cluster last fuel with
  | nil =>
    cases fuel with
    | zero => exact .inr ⟨Nat.le_refl _, rfl⟩
    | succ fuel =>
      left
      have ended : ¬ cluster < endOfChain := fun going => not_ends.mpr going trail
      simp only [walkChain, if_neg ended]
      rfl
  | cons first rest ih =>
    obtain ⟨rfl, going, onward⟩ := trail
    cases fuel with
    | zero => exact .inr ⟨Nat.zero_le _, rfl⟩
    | succ fuel => ?_
    have here := valid cluster (by simp)
    have places : locs g (cluster :: rest) = locsIn g cluster ++ locs g rest := by simp [locs]
    rw [places, firstHit_append]
    have look : visitDirents (visit cluster) ((fs.vol g).data cluster) 0
        fs.layout.entriesPerCluster = firstHit visit (fs.vol g) (locsIn g cluster) := by
      rw [visitDirents_eq, ready.layout, locsIn, range_eq_range']
    simp only [walkChain, here.lt_endOfChain, if_true, readCluster_eq ready here, look]
    cases firstHit visit (fs.vol g) (locsIn g cluster) with
    | found result | stop => exact .inl rfl
    | skip => ?_
    simp only [fatNextCluster_eq ready here.entry]
    rcases ih onward (fun c member => valid c (by simp [member])) fuel cluster with
      run | ⟨low, run⟩
    · left
      rw [run]
      cases firstHit visit (fs.vol g) (locs g rest) with
      | found result | stop => rfl
      | skip => simp only [walkEnd, getLastD_cons]
    · exact .inr ⟨by simpa using low, run⟩

end Walking

/-- Behind a place where the directory ends, it has ended. -/
def Tidy (v : Vol) (places : List Loc) : Prop := places.Pairwise fun a b => v.Ended a → v.Ended b

section Searching

variable {α : Type} {v : Vol} {places : List Loc} {wantName : Bytes}
  {result : UInt32 → Nat → Bytes → α}

/-- A search for a name finds a file's entry with that name. -/
theorem search_found {outcome : α}
    (hit : firstHit (visitName wantName result) v places = .found outcome) :
    ∃ loc ∈ places, v.Live loc ∧ direntName (v.entry loc) = wantName ∧
      outcome = result loc.1 loc.2 (v.entry loc) := by
  obtain ⟨before, loc, behind, rfl, decision, _⟩ := firstHit_decided (by simp) hit
  refine ⟨loc, by simp, ?_⟩
  unfold visitName at decision
  split at decision
  · cases decision
  rename_i going
  split at decision
  · rename_i match_
    simp only [Bool.and_eq_true, beq_iff_eq] at match_
    cases decision
    exact ⟨⟨by simpa using going, match_.1⟩, match_.2, rfl⟩
  · cases decision

/-- A search that finds nothing leaves no file's entry with that name. -/
theorem search_missed (tidy : Tidy v places)
    (miss : ∀ outcome, firstHit (visitName wantName result) v places ≠ .found outcome) :
    ∀ loc ∈ places, v.Live loc → direntName (v.entry loc) ≠ wantName := by
  -- Where nothing was decided at a place, it is not a file with that name.
  have skipped : ∀ loc : Loc, visitName wantName result loc.1 loc.2 (v.entry loc) = .skip →
      v.Live loc → direntName (v.entry loc) ≠ wantName := by
    intro loc skip live same
    rw [visitName, if_neg (by simpa using live.1), if_pos (by simp [live.2, same])] at skip
    cases skip
  cases hit : firstHit (visitName wantName result) v places with
  | found outcome => exact absurd hit (miss outcome)
  | skip =>
    intro loc member
    exact skipped loc (firstHit_skip hit loc member)
  | stop => ?_
  obtain ⟨before, last, behind, rfl, decision, earlier⟩ := firstHit_decided (by simp) hit
  have ended : v.Ended last := by
    unfold visitName at decision
    split at decision
    · rename_i zero
      exact eq_of_beq zero
    · split at decision <;> cases decision
  intro loc member live
  rcases mem_append.mp member with member | member
  · exact skipped loc (earlier loc member) live
  -- From the end on, no place holds a file.
  rcases mem_cons.mp member with rfl | member
  · exact absurd ended live.1
  · have later := (pairwise_cons.mp (pairwise_append.mp tidy).2.1).1 loc member
    exact absurd (later ended) live.1

/-- The first place that may be overwritten has only used ones before it. -/
theorem freeSlot_found {loc : Loc} (hit : firstHit visitFree v places = .found loc) :
    ∃ before behind, places = before ++ loc :: behind ∧ ¬ v.Live loc ∧
      ∀ earlier ∈ before, ¬ v.Ended earlier := by
  obtain ⟨before, found, behind, rfl, decision, skipped⟩ := firstHit_decided (by simp) hit
  unfold visitFree at decision
  split at decision
  · rename_i free
    cases decision
    refine ⟨before, behind, rfl, ?_, ?_⟩
    · rintro ⟨going, used⟩
      simp only [Bool.or_eq_true, beq_iff_eq] at free
      rcases free with zero | deleted
      · exact going zero
      · have unused : inUse (v.entry found) = false := by
          rw [inUse, deleted]
          rfl
        exact absurd used (by simp [unused])
    · intro earlier member ended
      have skip := skipped earlier member
      rw [visitFree, if_pos (by simpa using .inl ended)] at skip
      cases skip
  · cases decision

theorem freeSlot_full (full : firstHit visitFree v places = .skip) :
    ∀ loc ∈ places, ¬ v.Ended loc := by
  intro loc member ended
  have skip := firstHit_skip full loc member
  rw [visitFree, if_pos (by simpa using .inl ended)] at skip
  cases skip

end Searching

end NovaOs.Fat
