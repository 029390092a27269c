import NovaOs.Fat32.Directory

/-! The chains of a volume and the files they hold, and what each change makes of them. -/

namespace NovaOs.Fat

open Function List

/-- Blank clusters end the directory at every one of their places. -/
theorem ended_of_blank {v : Vol} {cluster : UInt32} {width : Nat}
    (blank : v.data cluster = replicate width 0) (i : Nat) : v.Ended (cluster, i) := by
  simp only [Vol.Ended, Vol.entry, blank, direntAt, drop_replicate, take_replicate,
    getD_eq_getElem?_getD, getElem?_replicate]
  split <;> rfl

/-- The bytes of the file an entry describes, along the clusters it goes through. -/
def Vol.content (v : Vol) (entry : Bytes) (chain : List UInt32) : Bytes :=
  (chain.flatMap v.data).take (direntSizeField entry).toNat

/-- An entry owns the chain that starts at its first cluster; cluster zero starts none. -/
structure Owned (g : Geometry) (v : Vol) (entry : Bytes) (chain : List UInt32) : Prop where
  trail : direntCluster entry = 0 ∧ chain = [] ∨ v.Chain (direntCluster entry) chain
  valid : ∀ c ∈ chain, g.Valid c

/-- A volume whose directory and files have chains that end and share no cluster. -/
structure Chained (g : Geometry) (v : Vol) (root : List UInt32) (chain : Loc → List UInt32) :
    Prop where
  root_trail : v.Chain g.layout.rootCluster root
  root_some : root ≠ []
  root_valid : ∀ c ∈ root, g.Valid c
  tidy : Tidy v (locs g root)
  owned : ∀ loc ∈ locs g root, v.Live loc → Owned g v (v.entry loc) (chain loc)
  apart_root : ∀ loc ∈ locs g root, v.Live loc → ∀ c ∈ chain loc, c ∉ root
  apart : ∀ a ∈ locs g root, ∀ b ∈ locs g root, v.Live a → v.Live b → a ≠ b →
    ∀ c ∈ chain a, c ∉ chain b
  reserved : Reserved g v

namespace Chained

variable {g : Geometry} {v after : Vol} {root : List UInt32} {chain : Loc → List UInt32}
  {loc : Loc} {before behind : List Loc} {c : UInt32} {entry : Bytes} {clusters : List UInt32}
  {places : List Loc}

theorem root_used (chained : Chained g v root chain) (member : c ∈ root) : v.fat c ≠ 0 :=
  chained.root_trail.fat_ne_zero chained.root_valid member

theorem chain_used (chained : Chained g v root chain) (place : loc ∈ locs g root)
    (live : v.Live loc) (member : c ∈ chain loc) : v.fat c ≠ 0 := by
  have owned := chained.owned loc place live
  rcases owned.trail with ⟨_, empty⟩ | trail
  · rw [empty] at member
    cases member
  · exact trail.fat_ne_zero owned.valid member

theorem entry_congr (same : after.data loc.1 = v.data loc.1) : after.entry loc = v.entry loc := by
  rw [Vol.entry, Vol.entry, same]

theorem owned_congr (owned : Owned g v entry clusters)
    (same : ∀ c ∈ clusters, after.fat c = v.fat c) : Owned g after entry clusters where
  trail := owned.trail.imp id fun trail => trail.congr same
  valid := owned.valid

/-- Changes to clusters that are free, and only to those, leave everything as it is. -/
theorem frame (chained : Chained g v root chain)
    (fat : ∀ c, v.fat c ≠ 0 → after.fat c = v.fat c)
    (data : ∀ c, v.fat c ≠ 0 → after.data c = v.data c) (reserved : Reserved g after) :
    Chained g after root chain := by
  have entry : ∀ loc ∈ locs g root, after.entry loc = v.entry loc := fun loc place =>
    entry_congr (data _ (chained.root_used (mem_locs.mp place).1))
  have live : ∀ loc ∈ locs g root, after.Live loc ↔ v.Live loc := fun loc place => by
    rw [Vol.Live, Vol.Live, entry loc place]
  have ended : ∀ loc ∈ locs g root, after.Ended loc ↔ v.Ended loc := fun loc place => by
    rw [Vol.Ended, Vol.Ended, entry loc place]
  refine ⟨?_, chained.root_some, chained.root_valid, ?_, ?_, ?_, ?_, reserved⟩
  · exact chained.root_trail.congr fun c member => fat c (chained.root_used member)
  · refine chained.tidy.imp_of_mem ?_
    intro a b placeA placeB order endA
    exact (ended b placeB).mpr (order ((ended a placeA).mp endA))
  · intro loc place alive
    have before := (live loc place).mp alive
    rw [entry loc place]
    exact owned_congr (chained.owned loc place before) fun c member =>
      fat c (chained.chain_used place before member)
  · intro loc place alive
    exact chained.apart_root loc place ((live loc place).mp alive)
  · intro a placeA b placeB liveA liveB
    exact chained.apart a placeA b placeB ((live a placeA).mp liveA) ((live b placeB).mp liveB)

theorem locs_nodup (once : root.Nodup) : (locs g root).Nodup := by
  apply nodup_flatMap.mpr
  constructor
  · intro c _
    exact nodup_range.map fun i j same => (Prod.mk.inj same).2
  -- Places in two clusters differ in the cluster.
  refine once.imp ?_
  intro a b apart loc inA inB
  obtain ⟨i, _, rfl⟩ := mem_map.mp inA
  obtain ⟨j, _, same⟩ := mem_map.mp inB
  exact apart (Prod.mk.inj same).1.symm

/-- A place on the way, with the places before and behind it all different from it. -/
theorem apart_of_split (once : places.Nodup) (split : places = before ++ loc :: behind) :
    loc ∉ before ∧ loc ∉ behind := by
  rw [split] at once
  obtain ⟨_, rest, cross⟩ := nodup_append.mp once
  exact ⟨fun member => cross loc member loc (by simp) rfl, (nodup_cons.mp rest).1⟩

/-- Replacing an entry behind used ones by one that does not end the directory keeps it tidy. -/
theorem tidy_replace (tidy : Tidy v places) (once : places.Nodup)
    (split : places = before ++ loc :: behind) (earlier : ∀ a ∈ before, ¬ v.Ended a)
    (going : ¬ after.Ended loc)
    (others : ∀ other ∈ places, other ≠ loc → after.entry other = v.entry other) :
    Tidy after places := by
  obtain ⟨notBefore, notBehind⟩ := apart_of_split once split
  have same : ∀ other ∈ places, other ≠ loc → (after.Ended other ↔ v.Ended other) := by
    intro other place apart
    rw [Vol.Ended, Vol.Ended, others other place apart]
  subst split
  obtain ⟨_, orderRest, _⟩ := pairwise_append.mp tidy
  have inBefore : ∀ a ∈ before, ¬ after.Ended a := fun a member ended =>
    earlier a member ((same a (by simp [member]) fun h => notBefore (h ▸ member)).mp ended)
  refine pairwise_append.mpr ⟨?_, pairwise_cons.mpr ⟨?_, ?_⟩, ?_⟩
  · exact pairwise_of_forall_mem_list fun a memA b _ ended => absurd ended (inBefore a memA)
  · exact fun b _ ended => absurd ended going
  · refine (pairwise_cons.mp orderRest).2.imp_of_mem ?_
    intro a b memA memB order ended
    have apartA : a ≠ loc := fun h => notBehind (h ▸ memA)
    have apartB : b ≠ loc := fun h => notBehind (h ▸ memB)
    exact (same b (by simp [memB]) apartB).mpr (order ((same a (by simp [memA]) apartA).mp ended))
  · exact fun a memA b _ ended => absurd ended (inBefore a memA)

/-- A new entry behind used ones, with clusters no chain has, adds its chain. -/
theorem place (chained : Chained g v root chain) (split : locs g root = before ++ loc :: behind)
    (earlier : ∀ a ∈ before, ¬ v.Ended a) (here : after.entry loc = entry)
    (alive : after.Live loc)
    (others : ∀ other ∈ locs g root, other ≠ loc → after.entry other = v.entry other)
    (fat : after.fat = v.fat) (owned : Owned g v entry clusters)
    (fresh_root : ∀ c ∈ clusters, c ∉ root)
    (fresh : ∀ other ∈ locs g root, v.Live other → ∀ c ∈ clusters, c ∉ chain other) :
    Chained g after root (update chain loc clusters) := by
  have once := locs_nodup (g := g) chained.root_trail.nodup
  have live : ∀ other ∈ locs g root, other ≠ loc → (after.Live other ↔ v.Live other) := by
    intro other placed apart
    rw [Vol.Live, Vol.Live, others other placed apart]
  refine ⟨?_, chained.root_some, chained.root_valid, ?_, ?_, ?_, ?_, ?_⟩
  · rw [Vol.Chain, fat]
    exact chained.root_trail
  · exact tidy_replace chained.tidy once split earlier alive.1 others
  · intro other placed alive'
    by_cases is : other = loc
    · rw [is, here, update_self]
      exact owned_congr owned fun c _ => by rw [fat]
    · rw [others other placed is, update_of_ne is]
      exact owned_congr (chained.owned other placed ((live other placed is).mp alive'))
        fun c _ => by
        rw [fat]
  · intro other placed alive'
    by_cases is : other = loc
    · rw [is, update_self]
      exact fresh_root
    · rw [update_of_ne is]
      exact chained.apart_root other placed ((live other placed is).mp alive')
  · intro a placeA b placeB liveA liveB apart c
    by_cases isA : a = loc
    · have isB : b ≠ loc := fun h => apart (isA.trans h.symm)
      rw [isA, update_self, update_of_ne isB]
      exact fresh b placeB ((live b placeB isB).mp liveB) c
    by_cases isB : b = loc
    · rw [isB, update_self, update_of_ne isA]
      intro member inNew
      exact fresh a placeA ((live a placeA isA).mp liveA) c inNew member
    · rw [update_of_ne isA, update_of_ne isB]
      exact chained.apart a placeA b placeB ((live a placeA isA).mp liveA)
        ((live b placeB isB).mp liveB) apart c
  · intro c low high zero
    rw [fat] at zero
    exact chained.reserved c low high zero

/-- An entry marked deleted takes its chain away, whatever becomes of the links of that chain. -/
theorem remove (chained : Chained g v root chain) (placed : loc ∈ locs g root) (was : v.Live loc)
    (gone : ¬ after.Live loc) (going : ¬ after.Ended loc)
    (others : ∀ other ∈ locs g root, other ≠ loc → after.entry other = v.entry other)
    (fat : ∀ c, c ∉ chain loc → after.fat c = v.fat c) (reserved : Reserved g after) :
    Chained g after root chain := by
  have once := locs_nodup (g := g) chained.root_trail.nodup
  have live : ∀ other ∈ locs g root, other ≠ loc → (after.Live other ↔ v.Live other) := by
    intro other placed' apart
    rw [Vol.Live, Vol.Live, others other placed' apart]
  -- What is live now is another entry that was live.
  have back : ∀ other ∈ locs g root, after.Live other → other ≠ loc ∧ v.Live other := by
    intro other placed' alive
    have apart : other ≠ loc := by
      rintro rfl
      exact gone alive
    exact ⟨apart, (live other placed' apart).mp alive⟩
  obtain ⟨before, behind, split⟩ := append_of_mem placed
  have earlier : ∀ a ∈ before, ¬ v.Ended a := by
    intro a member ended
    have tidy := chained.tidy
    rw [split] at tidy
    exact was.1 ((pairwise_append.mp tidy).2.2 a member loc (by simp) ended)
  refine ⟨?_, chained.root_some, chained.root_valid, ?_, ?_, ?_, ?_, reserved⟩
  · exact chained.root_trail.congr fun c member => fat c fun inChain =>
      chained.apart_root loc placed was c inChain member
  · exact tidy_replace chained.tidy once split earlier going others
  · intro other placed' alive
    obtain ⟨is, old⟩ := back other placed' alive
    rw [others other placed' is]
    exact owned_congr (chained.owned other placed' old) fun c member =>
      fat c (chained.apart other placed' loc placed old was is c member)
  · intro other placed' alive
    exact chained.apart_root other placed' (back other placed' alive).2
  · intro a placeA b placeB liveA liveB
    exact chained.apart a placeA b placeB (back a placeA liveA).2 (back b placeB liveB).2

/-- A cluster of blank entries behind a full directory changes no other chain. -/
theorem grow (chained : Chained g v root chain) {earlier : List UInt32} {last new : UInt32}
    (split : root = earlier ++ [last]) (full : ∀ loc ∈ locs g root, ¬ v.Ended loc)
    (valid : g.Valid new) (zero : v.fat new = 0)
    (fat : ∀ c, c ≠ last → v.fat c ≠ 0 → after.fat c = v.fat c) (link : after.fat last = new)
    (ends : Ends (after.fat new)) (data : ∀ c, v.fat c ≠ 0 → after.data c = v.data c)
    (blank : ∀ i < g.layout.entriesPerCluster, after.Ended (new, i))
    (reserved : Reserved g after) : Chained g after (root ++ [new]) chain := by
  have once := chained.root_trail.nodup
  have lastIn : last ∈ root := by simp [split]
  -- The places of the new cluster hold nothing.
  have nothing : ∀ loc ∈ locs g [new], after.Ended loc := by
    rintro ⟨cluster, i⟩ member
    obtain ⟨same, inside⟩ := mem_locs.mp member
    obtain rfl : cluster = new := mem_singleton.mp same
    exact blank i inside
  have places : ∀ loc ∈ locs g (root ++ [new]), loc ∈ locs g root ∨ after.Ended loc := by
    intro loc member
    rw [locs_append] at member
    rcases mem_append.mp member with old | fresh
    · exact .inl old
    · exact .inr (nothing loc fresh)
  have entry : ∀ loc ∈ locs g root, after.entry loc = v.entry loc := fun loc place =>
    entry_congr (data _ (chained.root_used (mem_locs.mp place).1))
  have live : ∀ loc ∈ locs g (root ++ [new]), after.Live loc →
      loc ∈ locs g root ∧ v.Live loc := by
    intro loc member alive
    rcases places loc member with old | ended
    · rw [Vol.Live, entry loc old] at alive
      exact ⟨old, alive⟩
    · exact absurd ended alive.1
  have notLast : ∀ loc ∈ locs g root, v.Live loc → ∀ c ∈ chain loc, c ≠ last :=
    fun loc place alive c member same => chained.apart_root loc place alive c member (same ▸ lastIn)
  have notNew : ∀ c, v.fat c ≠ 0 → c ≠ new := by
    rintro c used rfl
    exact used zero
  refine ⟨?_, by simp, ?_, ?_, ?_, ?_, ?_, reserved⟩
  · rw [split, append_assoc]
    have trail := chained.root_trail
    rw [split] at trail once
    apply Trail.extend trail
    · intro c member
      have inRoot : c ∈ root := by simp [split, member]
      have apart : c ≠ last := by
        rintro rfl
        exact (nodup_append.mp once).2.2 c member c (by simp) rfl
      exact fat c apart (chained.root_used inRoot)
    · rw [link]
      exact ⟨rfl, valid.not_ends, ends⟩
  · intro c member
    rcases mem_append.mp member with old | fresh
    · exact chained.root_valid c old
    · rw [mem_singleton.mp fresh]
      exact valid
  · rw [Tidy, locs_append]
    refine pairwise_append.mpr ⟨?_, ?_, ?_⟩
    · refine pairwise_of_forall_mem_list fun a memA b _ ended => ?_
      rw [Vol.Ended, entry a memA] at ended
      exact absurd ended (full a memA)
    · exact pairwise_of_forall_mem_list fun a _ b memB _ => nothing b memB
    · intro a memA b _ ended
      rw [Vol.Ended, entry a memA] at ended
      exact absurd ended (full a memA)
  · intro loc place alive
    obtain ⟨old, before⟩ := live loc place alive
    rw [entry loc old]
    exact owned_congr (chained.owned loc old before) fun c member =>
      fat c (notLast loc old before c member) (chained.chain_used old before member)
  · intro loc place alive c member
    obtain ⟨old, before⟩ := live loc place alive
    have apart := notNew c (chained.chain_used old before member)
    simpa [apart] using chained.apart_root loc old before c member
  · intro a placeA b placeB liveA liveB
    obtain ⟨oldA, aliveA⟩ := live a placeA liveA
    obtain ⟨oldB, aliveB⟩ := live b placeB liveB
    exact chained.apart a oldA b oldB aliveA aliveB

end Chained

/-- How a volume with one more file differs from the one before. -/
structure Added (g : Geometry) (v after : Vol) (root root' : List UInt32)
    (chain chain' : Loc → List UInt32) (loc : Loc) : Prop where
  place : loc ∈ locs g root'
  live : after.Live loc
  grown : root ⊆ root'
  old : ∀ other ∈ locs g root', other ≠ loc → after.Live other →
    other ∈ locs g root ∧ v.Live other
  keeps : ∀ other ∈ locs g root, v.Live other →
    other ≠ loc ∧ after.entry other = v.entry other ∧ chain' other = chain other
  data : ∀ other ∈ locs g root, v.Live other → ∀ c ∈ chain other, after.data c = v.data c
  -- A cluster that is now on no chain has the link it had.
  rest : ∀ c, c ∉ root' → (∀ other ∈ locs g root', after.Live other → c ∉ chain' other) →
    after.fat c = v.fat c

/-- How a volume with one file less differs from the one before. -/
structure Removed (g : Geometry) (v after : Vol) (root : List UInt32) (chain : Loc → List UInt32)
    (loc : Loc) : Prop where
  place : loc ∈ locs g root
  was : v.Live loc
  live : ∀ other ∈ locs g root, after.Live other ↔ other ≠ loc ∧ v.Live other
  entry : ∀ other, other ≠ loc → after.entry other = v.entry other
  data : ∀ c, c ∉ root → after.data c = v.data c
  fat : ∀ c, c ∉ chain loc → after.fat c = v.fat c

/-- A well-formed volume and the files it holds, each under the name of its entry. -/
structure Holds (g : Geometry) (v : Vol) (root : List UInt32) (chain : Loc → List UInt32)
    (files : Bytes → Option Bytes) : Prop extends Chained g v root chain where
  unique : ∀ a ∈ locs g root, ∀ b ∈ locs g root, v.Live a → v.Live b →
    direntName (v.entry a) = direntName (v.entry b) → a = b
  sized : ∀ loc ∈ locs g root, v.Live loc →
    (direntSizeField (v.entry loc)).toNat ≤ (chain loc).length * g.layout.clusterBytes
  stored : ∀ loc ∈ locs g root, v.Live loc →
    files (direntName (v.entry loc)) = some (v.content (v.entry loc) (chain loc))
  named : ∀ name content, files name = some content →
    ∃ loc ∈ locs g root, v.Live loc ∧ direntName (v.entry loc) = name

namespace Holds

variable {g : Geometry} {v after : Vol} {root root' : List UInt32}
  {chain chain' : Loc → List UInt32} {files : Bytes → Option Bytes} {loc : Loc}

theorem content_congr {entry : Bytes} {clusters : List UInt32}
    (same : ∀ c ∈ clusters, after.data c = v.data c) :
    after.content entry clusters = v.content entry clusters := by
  rw [Vol.content, Vol.content, flatMap_congr same]

/-- A directory of one blank cluster holds no file. -/
theorem blank (valid : g.Valid g.layout.rootCluster) (last : Ends (v.fat g.layout.rootCluster))
    {width : Nat} (blank : v.data g.layout.rootCluster = replicate width 0)
    (reserved : Reserved g v) :
    Holds g v [g.layout.rootCluster] (fun _ => []) fun _ => none := by
  have ended : ∀ loc ∈ locs g [g.layout.rootCluster], v.Ended loc := by
    intro loc member
    have here : loc.1 = g.layout.rootCluster := mem_singleton.mp (mem_locs.mp member).1
    have stops := ended_of_blank blank loc.2
    rwa [← here] at stops
  have nothing : ∀ loc ∈ locs g [g.layout.rootCluster], ¬ v.Live loc :=
    fun loc member live => live.1 (ended loc member)
  exact {
    root_trail := ⟨rfl, valid.not_ends, last⟩
    root_some := by simp
    root_valid := fun c member => mem_singleton.mp member ▸ valid
    tidy := pairwise_of_forall_mem_list fun _ _ b member _ => ended b member
    unique := fun a placeA _ _ liveA => absurd liveA (nothing a placeA)
    owned := fun a placeA liveA => absurd liveA (nothing a placeA)
    apart_root := fun a placeA liveA => absurd liveA (nothing a placeA)
    apart := fun a placeA _ _ liveA => absurd liveA (nothing a placeA)
    sized := fun a placeA liveA => absurd liveA (nothing a placeA)
    stored := fun a placeA liveA => absurd liveA (nothing a placeA)
    named := fun _ _ found => by cases found
    reserved := reserved }

/-- One more file is one more entry in the map. -/
theorem added (holds : Holds g v root chain files) (chained : Chained g after root' chain')
    (added : Added g v after root root' chain chain' loc)
    (new : files (direntName (after.entry loc)) = none)
    (size : (direntSizeField (after.entry loc)).toNat
      ≤ (chain' loc).length * g.layout.clusterBytes) :
    Holds g after root' chain' (update files (direntName (after.entry loc))
      (some (after.content (after.entry loc) (chain' loc)))) := by
  -- Every file that was there has another name than the new one.
  have differs : ∀ other ∈ locs g root, v.Live other →
      direntName (v.entry other) ≠ direntName (after.entry loc) := by
    intro other place live same
    have present := holds.stored other place live
    rw [same, new] at present
    cases present
  have kept : ∀ other ∈ locs g root', other ≠ loc → after.Live other →
      other ∈ locs g root ∧ v.Live other ∧ after.entry other = v.entry other ∧
        chain' other = chain other := by
    intro other place apart live
    obtain ⟨placed, alive⟩ := added.old other place apart live
    exact ⟨placed, alive, (added.keeps other placed alive).2⟩
  refine { chained with unique := ?_, sized := ?_, stored := ?_, named := ?_ }
  · intro a placeA b placeB liveA liveB same
    by_cases isA : a = loc
    · by_cases isB : b = loc
      · rw [isA, isB]
      · obtain ⟨placedB, aliveB, entryB, _⟩ := kept b placeB isB liveB
        rw [isA, entryB] at same
        exact absurd same.symm (differs b placedB aliveB)
    obtain ⟨placedA, aliveA, entryA, _⟩ := kept a placeA isA liveA
    by_cases isB : b = loc
    · rw [isB, entryA] at same
      exact absurd same (differs a placedA aliveA)
    · obtain ⟨placedB, aliveB, entryB, _⟩ := kept b placeB isB liveB
      rw [entryA, entryB] at same
      exact holds.unique a placedA b placedB aliveA aliveB same
  · intro other place live
    by_cases is : other = loc
    · rw [is]
      exact size
    · obtain ⟨placed, alive, entry, same⟩ := kept other place is live
      rw [entry, same]
      exact holds.sized other placed alive
  · intro other place live
    by_cases is : other = loc
    · rw [is, update_self]
    · obtain ⟨placed, alive, entry, same⟩ := kept other place is live
      rw [entry, same, update_of_ne (differs other placed alive), holds.stored other placed alive]
      exact congrArg some (content_congr (added.data other placed alive)).symm
  · intro name content found
    by_cases same : name = direntName (after.entry loc)
    · exact ⟨loc, added.place, added.live, same.symm⟩
    rw [update_of_ne same] at found
    obtain ⟨other, placed, alive, called⟩ := holds.named name content found
    obtain ⟨apart, entry, _⟩ := added.keeps other placed alive
    have bounds := mem_locs.mp placed
    refine ⟨other, mem_locs.mpr ⟨added.grown bounds.1, bounds.2⟩, ?_, by rw [entry, called]⟩
    rw [Vol.Live, entry]
    exact alive

/-- One file less is one entry of the map less. -/
theorem removed (holds : Holds g v root chain files) (chained : Chained g after root chain)
    (removed : Removed g v after root chain loc) :
    Holds g after root chain (update files (direntName (v.entry loc)) none) := by
  refine { chained with unique := ?_, sized := ?_, stored := ?_, named := ?_ }
  · intro a placeA b placeB liveA liveB same
    obtain ⟨isA, oldA⟩ := (removed.live a placeA).mp liveA
    obtain ⟨isB, oldB⟩ := (removed.live b placeB).mp liveB
    rw [removed.entry a isA, removed.entry b isB] at same
    exact holds.unique a placeA b placeB oldA oldB same
  · intro other place alive
    obtain ⟨is, old⟩ := (removed.live other place).mp alive
    rw [removed.entry other is]
    exact holds.sized other place old
  · intro other place alive
    obtain ⟨is, old⟩ := (removed.live other place).mp alive
    have differs : direntName (v.entry other) ≠ direntName (v.entry loc) := fun same =>
      is (holds.unique other place loc removed.place old removed.was same)
    rw [removed.entry other is, update_of_ne differs, holds.stored other place old]
    exact congrArg some (content_congr fun c member =>
      removed.data c (holds.apart_root other place old c member)).symm
  · intro name content found
    by_cases same : name = direntName (v.entry loc)
    · rw [same, update_self] at found
      cases found
    rw [update_of_ne same] at found
    obtain ⟨other, place, alive, called⟩ := holds.named name content found
    have is : other ≠ loc := by
      rintro rfl
      exact same called.symm
    exact ⟨other, place, (removed.live other place).mpr ⟨is, alive⟩,
      by rw [removed.entry other is, called]⟩

end Holds

end NovaOs.Fat
