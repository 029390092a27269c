import NovaOs.Config.Text
import NovaOs.Fat32.Success

/-! Chains stay disjoint, and clusters outside all of them stay free unless a delete runs out of
room. -/

namespace NovaOs.Fat

open List

/-- The link of a cluster that must not be used. -/
def badCluster : UInt32 := 0x0FFFFFF7

/-- A volume of disjoint chains with every other cluster marked free or bad. -/
structure Intact (g : Geometry) (v : Vol) (root : List UInt32) (chain : Loc → List UInt32) : Prop
    extends Chained g v root chain where
  covered : ∀ c, g.Valid c → c ∉ root → (∀ loc ∈ locs g root, v.Live loc → c ∉ chain loc) →
    v.fat c = 0 ∨ v.fat c = badCluster

section Chains

variable {g : Geometry} {v after : Vol} {root root' : List UInt32}
  {chain chain' : Loc → List UInt32} {loc : Loc} {clusters : List UInt32}

/-- An entry has one chain. -/
theorem Owned.unique {entry : Bytes} {others : List UInt32} (one : Owned g v entry clusters)
    (two : Owned g v entry others) : clusters = others := by
  -- No chain starts at cluster zero, so an entry is either empty or not.
  have nowhere : ∀ {nodes : List UInt32}, (∀ c ∈ nodes, g.Valid c) → ¬ v.Chain 0 nodes := by
    intro nodes valid trail
    cases nodes with
    | nil => exact absurd (show Ends 0 from trail) (by decide)
    | cons first rest => exact (valid first (by simp)).ne_zero trail.1.symm
  rcases one.trail with ⟨zero, rfl⟩ | trail
  · rcases two.trail with ⟨_, rfl⟩ | trail'
    · rfl
    · exact absurd (zero ▸ trail') (nowhere two.valid)
  · rcases two.trail with ⟨zero, rfl⟩ | trail'
    · exact absurd (zero ▸ trail) (nowhere one.valid)
    · exact trail.unique trail'

/-- A link on a chain is never the mark of a bad cluster. -/
theorem Vol.Chain.fat_ne_bad {first : UInt32} (trail : v.Chain first clusters)
    (valid : ∀ c ∈ clusters, g.Valid c) {c : UInt32} (member : c ∈ clusters) :
    v.fat c ≠ badCluster := by
  intro bad
  rcases trail.next_mem member with next | ends
  · have below := (valid _ next).2
    have small := g.limit_small
    rw [bad, show badCluster.toNat = 0x0FFFFFF7 from rfl] at below
    omega
  · rw [bad] at ends
    exact absurd ends (by decide)

namespace Intact

/-- One more file leaves nothing allocated outside the chains. -/
theorem added (intact : Intact g v root chain) (chained : Chained g after root' chain')
    (added : Added g v after root root' chain chain' loc) : Intact g after root' chain' := by
  refine { chained with covered := ?_ }
  intro c valid notRoot noChain
  rw [added.rest c notRoot noChain]
  refine intact.covered c valid (fun inRoot => notRoot (added.grown inRoot)) ?_
  intro other place live member
  obtain ⟨apart, entry, same⟩ := added.keeps other place live
  have placed : other ∈ locs g root' :=
    mem_locs.mpr ⟨added.grown (mem_locs.mp place).1, (mem_locs.mp place).2⟩
  have alive : after.Live other := by
    rw [Vol.Live, entry]
    exact live
  exact noChain other placed alive (same ▸ member)

/-- One file less leaves nothing allocated outside the chains, if its own chain was freed. -/
theorem removed (intact : Intact g v root chain) (chained : Chained g after root chain)
    (removed : Removed g v after root chain loc) (freed : ∀ c ∈ chain loc, after.fat c = 0) :
    Intact g after root chain := by
  refine { chained with covered := ?_ }
  intro c valid notRoot noChain
  by_cases mine : c ∈ chain loc
  · exact .inl (freed c mine)
  rw [removed.fat c mine]
  refine intact.covered c valid notRoot ?_
  intro other place live member
  by_cases apart : other = loc
  · exact mine (apart ▸ member)
  · exact noChain other place ((removed.live other place).mpr ⟨apart, live⟩) member

/-- A cluster of the removed file that keeps its link is allocated outside every chain. -/
theorem leaked (chained : Chained g v root chain) (kept : Chained g after root chain)
    (removed : Removed g v after root chain loc) {c : UInt32} (member : c ∈ chain loc)
    (link : after.fat c = v.fat c) : ¬ Intact g after root' chain' := by
  intro intact
  have owned := chained.owned loc removed.place removed.was
  obtain rfl : root' = root := intact.root_trail.unique kept.root_trail
  have outside : ∀ other ∈ locs g root', after.Live other → c ∉ chain' other := by
    intro other place live
    obtain ⟨apart, was⟩ := (removed.live other place).mp live
    rw [(intact.owned other place live).unique (kept.owned other place live)]
    exact chained.apart loc removed.place other place removed.was was (Ne.symm apart) c member
  have notRoot := chained.apart_root loc removed.place removed.was c member
  rcases owned.trail with ⟨_, empty⟩ | trail
  · rw [empty] at member
    cases member
  · rcases intact.covered c (owned.valid c member) notRoot outside with zero | bad
    · exact chained.chain_used removed.place removed.was member (link ▸ zero)
    · exact trail.fat_ne_bad owned.valid member (link ▸ bad)

/-- No chain comes back to a cluster it went through. -/
theorem acyclic (intact : Intact g v root chain) :
    root.Nodup ∧ ∀ loc ∈ locs g root, v.Live loc → (chain loc).Nodup := by
  refine ⟨intact.root_trail.nodup, ?_⟩
  intro loc place live
  rcases (intact.owned loc place live).trail with ⟨_, empty⟩ | trail
  · rw [empty]
    exact nodup_nil
  · exact trail.nodup

end Intact

end Chains

/-- A name whose entry reads as a file's, not as deleted or as the end of the directory. -/
def Listed (name : Bytes) : Prop := (toFat83 name).getD 0 0 ≠ 0 ∧ (toFat83 name).getD 0 0 ≠ 0xE5

instance (name : Bytes) : Decidable (Listed name) := inferInstanceAs (Decidable (_ ∧ _))

/-- Every file of a name has a chain that a transaction has room to free. -/
def RoomyFile (g : Geometry) (v : Vol) (name : Bytes) : Prop :=
  ∀ loc clusters, v.Live loc → direntName (v.entry loc) = toFat83 name →
    Owned g v (v.entry loc) clusters → Roomy g clusters

/-- Successful writes of listed names and deletes of roomy files, one after another. -/
inductive Changes (g : Geometry) : Fs → Fs → Prop
  | nil {fs : Fs} : Changes g fs fs
  | write {fs next after : Fs} {fuel : Nat} {name data : Bytes} (listed : Listed name)
      (small : data.length < 2 ^ 32) (run : fat32WriteFile fuel fs name data = some (true, next))
      (rest : Changes g next after) : Changes g fs after
  | delete {fs next after : Fs} {fuel : Nat} {name : Bytes}
      (roomy : RoomyFile g (fs.entered.vol g) name)
      (run : fat32DeleteFile fuel fs name = some (true, next)) (rest : Changes g next after) :
      Changes g fs after

/-- The driver between operations, with its volume intact. -/
structure Sound (g : Geometry) (fs : Fs) : Prop where
  ready : Ready g fs
  idle : fs.js.depth = 0
  intact : ∃ root chain, Intact g (fs.vol g) root chain

section Runs

variable {g : Geometry} {fs next after : Fs} {fuel : Nat} {name : Bytes}

theorem Sound.entered (sound : Sound g fs) : Sound g fs.entered := by
  rw [sound.ready.entered]
  exact sound

theorem Sound.write (sound : Sound g fs.entered) {data : Bytes} (listed : Listed name)
    (small : data.length < 2 ^ 32) (run : fat32WriteFile fuel fs name data = some (true, next)) :
    Sound g next := by
  obtain ⟨ready, idle, root, chain, intact⟩ := sound
  have selected : fat32WriteFile fuel fs.entered name data = some (true, next) := run
  obtain ⟨readyAfter, idleAfter, _, root', chain', loc, chained, added, _⟩ :=
    fat32WriteFile_true ready idle intact.toChained listed small selected
  exact ⟨readyAfter, idleAfter, root', chain', intact.added chained added⟩

/-- A successful delete keeps the volume intact exactly if its file was roomy. -/
theorem Sound.delete (sound : Sound g fs.entered)
    (run : fat32DeleteFile fuel fs name = some (true, next)) :
    Ready g next ∧ next.js.depth = 0 ∧
      ∃ loc clusters, (fs.entered.vol g).Live loc ∧
        direntName ((fs.entered.vol g).entry loc) = toFat83 name ∧
        Owned g (fs.entered.vol g) ((fs.entered.vol g).entry loc) clusters ∧
        ((∃ root chain, Intact g (next.vol g) root chain) ↔ Roomy g clusters) := by
  obtain ⟨ready, idle, root, chain, intact⟩ := sound
  have selected : fat32DeleteFile fuel fs.entered name = some (true, next) := run
  obtain ⟨readyAfter, idleAfter, loc, called, chained, removed, freed⟩ :=
    fat32DeleteFile_true ready idle intact.toChained selected
  refine ⟨readyAfter, idleAfter, loc, chain loc, removed.was, called,
    intact.owned loc removed.place removed.was, ?_, ?_⟩
  · rintro ⟨root', chain', still⟩
    by_contra cramped
    obtain ⟨c, member, link⟩ := freed.leak cramped
    exact Intact.leaked intact.toChained chained removed member link still
  · intro roomy
    exact ⟨root, chain, intact.removed chained removed (freed.all roomy)⟩

theorem Sound.changes (sound : Sound g fs.entered) (run : Changes g fs after) :
    Sound g after.entered := by
  induction run with
  | nil => exact sound
  | write listed small run _ ih => exact ih (sound.write listed small run).entered
  | delete roomy run _ ih =>
    obtain ⟨ready, idle, loc, clusters, live, called, owned, exact_room⟩ := sound.delete run
    have still := exact_room.mpr (roomy loc clusters live called owned)
    exact ih (Sound.entered ⟨ready, idle, still⟩)

/--
Writes of listed names and deletes of roomy files keep disjoint, acyclic chains and leak nothing.

A further delete that succeeds keeps them exactly if its file is roomy.
-/
theorem fat32_chains_intact (start : Sound g fs.entered) (run : Changes g fs after) :
    (∃ root chain, Intact g (after.entered.vol g) root chain ∧ root.Nodup ∧
      (∀ c ∈ root, (after.entered.vol g).fat c ≠ 0) ∧
      ∀ loc ∈ locs g root, (after.entered.vol g).Live loc → (chain loc).Nodup ∧
        ∀ c ∈ chain loc, (after.entered.vol g).fat c ≠ 0) ∧
    ∀ (fuel : Nat) (name : Bytes) (later : Fs),
      fat32DeleteFile fuel after name = some (true, later) →
      ∃ loc clusters, (after.entered.vol g).Live loc ∧
        direntName ((after.entered.vol g).entry loc) = toFat83 name ∧
        Owned g (after.entered.vol g) ((after.entered.vol g).entry loc) clusters ∧
        ((∃ root chain, Intact g (later.vol g) root chain) ↔ Roomy g clusters) := by
  have sound := start.changes run
  obtain ⟨root, chain, intact⟩ := sound.intact
  obtain ⟨once, chainOnce⟩ := intact.acyclic
  constructor
  · exact ⟨root, chain, intact, once, fun c member => intact.root_used member,
      fun loc place live => ⟨chainOnce loc place live,
        fun c member => intact.chain_used place live member⟩⟩
  · intro fuel name later deleted
    exact (sound.delete deleted).2.2

end Runs

section Strewn

/-- A volume of single-sector clusters with two copies of 65 FAT sectors. -/
def strewnGeometry : Geometry where
  layout :=
    { sectorsPerCluster := 1
      fatStartLba := 1
      dataStartLba := 131
      rootCluster := 2
      numFats := 2
      fatSize32 := 65 }
  partitionOffset := 0
  limit := 8320
  limit_low := by decide
  cluster_size := by decide
  copies := by decide
  data_start := by decide
  entries_small := by decide
  limit_entries := by decide
  limit_small := by decide
  addressable := by decide

/-- Its links: the directory's only cluster, and one file with a cluster in each FAT sector. -/
def strewnLink (cluster : Nat) : UInt32 :=
  if cluster = 2 then endOfChain
  else if cluster = 3 then 128
  else if cluster % 128 = 0 ∧ 0 < cluster then
    if cluster = 8192 then endOfChain else UInt32.ofNat (cluster + 128)
  else 0

/-- The clusters of that file. -/
def strewnChain : List UInt32 := 3 :: (List.range 64).map fun i => UInt32.ofNat ((i + 1) * 128)

/-- The driver with that volume, without a journal. -/
def strewnFs : Fs where
  mounted := true
  partitionOffset := 0
  layout := strewnGeometry.layout
  nextFreeClusterHint := 2
  js := .new
  dev :=
    { disk := fun addr =>
        if 1 ≤ addr ∧ addr < 131 then
          Sector.ofBytes ((List.range 128).flatMap fun j =>
            u32Bytes (strewnLink ((addr - 1) % 65 * 128 + j)))
        else if addr = 131 then
          Sector.ofBytes (newDirent (toFat83 (ascii "big")) 3 33280 ++ List.replicate 480 0)
        else zeroSector
      activeDevice := 0
      partitionOffset := 0
      faults := noFaults
      issued := [] }

/-- What is seen of that volume is what is on its disk. -/
theorem strewnFs_view {lba : UInt32} : strewnFs.view lba = strewnFs.dev.disk lba.toNat := by
  have home : strewnFs.dev.targetLba lba = lba.toNat := by
    rw [Device.targetLba, show strewnFs.dev.partitionOffset = 0 from rfl, UInt32.add_zero]
  rw [Fs.view, viewOf_of_empty rfl, home]

theorem strewnLink_masked {cluster : Nat} (inside : cluster < 8320) :
    strewnLink cluster &&& linkMask = strewnLink cluster := by
  apply and_linkMask
  unfold strewnLink
  repeat' split
  all_goals first
    | decide
    | rw [UInt32.toNat_ofNat']
      omega

/-- The links of the volume are the ones its FAT was written from. -/
theorem strewnFs_fat {cluster : UInt32} (inside : cluster.toNat < 8320) :
    (strewnFs.vol strewnGeometry).fat cluster = strewnLink cluster.toNat := by
  have entry : cluster.toNat < strewnGeometry.entries := inside
  have address : (strewnGeometry.layout.fatSector 0 cluster).toNat = 1 + cluster.toNat / 128 := by
    rw [Geometry.fatSector_toNat entry strewnGeometry.copies, Nat.zero_mul, Nat.add_zero]
    rfl
  have within : 1 ≤ 1 + cluster.toNat / 128 ∧ 1 + cluster.toNat / 128 < 131 := by omega
  rw [Fs.vol, volOf_fat entry, strewnFs_view, address, Geometry.entOffset_eq]
  simp only [strewnFs, if_pos within]
  rw [ofBytes_val (by rw [length_words]; rfl),
    getU32Le_words (fun j => strewnLink ((1 + cluster.toNat / 128 - 1) % 65 * 128 + j))
      (Nat.mod_lt _ (by decide)),
    show (1 + cluster.toNat / 128 - 1) % 65 * 128 + cluster.toNat % 128 = cluster.toNat by omega]
  exact strewnLink_masked inside

set_option maxRecDepth 1000

/-- Its directory lists that file and nothing else. -/
theorem strewnFs_listing : ∀ loc ∈ locs strewnGeometry [2],
    (loc = (2, 0) ∧ (strewnFs.vol strewnGeometry).Live loc) ∨
      (strewnFs.vol strewnGeometry).Ended loc := by decide

theorem strewnFs_entry : direntCluster ((strewnFs.vol strewnGeometry).entry (2, 0)) = 3 ∧
    direntName ((strewnFs.vol strewnGeometry).entry (2, 0)) = toFat83 (ascii "big") := by
  decide

theorem strewnChain_valid : ∀ c ∈ strewnChain, strewnGeometry.Valid c := by
  have all : strewnChain.all (fun c => decide (strewnGeometry.Valid c)) = true := by decide
  exact fun c member => of_decide_eq_true (all_eq_true.mp all c member)

/-- A chain of links is a chain of the volume. -/
theorem strewnFs_chain {first : UInt32} {clusters : List UInt32}
    (valid : ∀ c ∈ clusters, strewnGeometry.Valid c)
    (trail : Trail (fun c => strewnLink c.toNat) Ends first clusters) :
    (strewnFs.vol strewnGeometry).Chain first clusters :=
  trail.congr fun c member => strewnFs_fat (valid c member).2

theorem strewnFs_intact :
    Intact strewnGeometry (strewnFs.vol strewnGeometry) [2] fun _ => strewnChain := by
  have only : ∀ loc ∈ locs strewnGeometry [2], (strewnFs.vol strewnGeometry).Live loc →
      loc = (2, 0) := fun loc place live =>
    (strewnFs_listing loc place).elim And.left fun ended => absurd ended live.1
  have rootValid : ∀ c ∈ [(2 : UInt32)], strewnGeometry.Valid c := by
    intro c member
    rw [mem_singleton.mp member]
    decide
  have here : (2, 0) ∈ locs strewnGeometry [2] := by decide
  exact {
    root_trail := strewnFs_chain rootValid (by decide)
    root_some := by simp
    root_valid := rootValid
    tidy := by
      unfold Tidy
      decide
    owned := by
      intro loc place live
      rw [only loc place live]
      refine ⟨.inr ?_, strewnChain_valid⟩
      rw [strewnFs_entry.1]
      exact strewnFs_chain strewnChain_valid (by decide)
    apart_root := by
      intro _ _ _ c member notRoot
      have all : strewnChain.all (fun c => decide (c ≠ 2)) = true := by decide
      exact of_decide_eq_true (all_eq_true.mp all c member) (mem_singleton.mp notRoot)
    apart := fun a placeA b placeB liveA liveB apart =>
      absurd ((only a placeA liveA).trans (only b placeB liveB).symm) apart
    reserved := fun c low high _ => ⟨low, high⟩
    covered := by
      intro c valid notRoot noChain
      have live : (strewnFs.vol strewnGeometry).Live (2, 0) :=
        (strewnFs_listing _ here).elim And.right fun ended => absurd ended (by decide)
      have outside := noChain _ here live
      left
      have inside : c.toNat < 8320 := valid.2
      have low := valid.1
      rw [strewnFs_fat inside, strewnLink, if_neg, if_neg, if_neg]
      · -- A cluster at the start of its FAT sector is one of the file's.
        rintro ⟨multiple, positive⟩
        apply outside
        refine mem_cons_of_mem _ (mem_map.mpr ⟨c.toNat / 128 - 1, ?_, ?_⟩)
        · rw [mem_range]
          omega
        · rw [show (c.toNat / 128 - 1 + 1) * 128 = c.toNat by omega]
          exact UInt32.ofNat_toNat
      · intro third
        exact outside (by rw [show c = 3 from UInt32.toNat_inj.mp third]; decide)
      · intro second
        exact notRoot (by rw [show c = 2 from UInt32.toNat_inj.mp second]; decide) }

theorem strewnFs_sound : Sound strewnGeometry strewnFs.entered where
  ready := .unjournaled rfl rfl rfl rfl rfl rfl
  idle := rfl
  intact := ⟨[2], fun _ => strewnChain, strewnFs_intact⟩

/-- Deleting that file succeeds and leaves clusters allocated that belong to no file. -/
theorem strewn_delete_leaks :
    Sound strewnGeometry strewnFs.entered ∧
      ∃ after, fat32DeleteFile 8320 strewnFs (ascii "big") = some (true, after) ∧
        ∀ root chain, ¬ Intact strewnGeometry (after.vol strewnGeometry) root chain := by
  have here : (2, 0) ∈ locs strewnGeometry [2] := by decide
  have live : (strewnFs.vol strewnGeometry).Live (2, 0) := by decide
  obtain ⟨after, run⟩ := fat32DeleteFile_returns strewnFs_sound.ready strewnFs_sound.idle
    strewnFs_intact.toChained (Nat.le_refl 8320) ⟨(2, 0), here, live, strewnFs_entry.2⟩
  refine ⟨strewnFs_sound, after, run, ?_⟩
  obtain ⟨_, _, loc, _, chained, removed, freed⟩ := fat32DeleteFile_true strewnFs_sound.ready
    strewnFs_sound.idle strewnFs_intact.toChained run
  obtain ⟨c, member, link⟩ := freed.leak (by decide)
  exact fun root chain => Intact.leaked strewnFs_intact.toChained chained removed member link

/-- A small file written to that volume leaves it intact. -/
theorem fat32_chains_intact_strewn :
    ∃ after, Changes strewnGeometry strewnFs after ∧
      ∃ root chain, Intact strewnGeometry (after.entered.vol strewnGeometry) root chain := by
  have ran : (fat32WriteFile 4 strewnFs (ascii "hi") [104, 105]).map Prod.fst = some true := by
    decide
  obtain ⟨⟨ok, after⟩, run, rfl⟩ := Option.map_eq_some_iff.mp ran
  have changes : Changes strewnGeometry strewnFs after :=
    .write (by decide) (by decide) run .nil
  obtain ⟨root, chain, intact, _⟩ := (fat32_chains_intact strewnFs_sound changes).1
  exact ⟨after, changes, root, chain, intact⟩

end Strewn

end NovaOs.Fat
