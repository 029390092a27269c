import NovaOs.Fat32.Volume
import NovaOs.Journal.Refusal

/-! File bytes copied along a chain of clusters, out of the volume and into it. -/

namespace NovaOs.Fat

open List

variable {g : Geometry} {fs after : Fs}

theorem bytesOf_length {sectors : List Sector} :
    (bytesOf sectors).length = sectors.length * sectorSize := by
  induction sectors with
  | nil => simp [bytesOf]
  | cons sector rest ih =>
    have size : sector.val.length = sectorSize := sector.2
    simp only [bytesOf, flatMap_cons, length_append, length_cons] at ih ⊢
    rw [ih, size, Nat.add_one_mul, Nat.add_comm]

/-- Every cluster of a volume is full. -/
theorem vol_data_length {cluster : UInt32} (valid : g.Valid cluster) :
    ((fs.vol g).data cluster).length = g.layout.clusterBytes := by
  rw [Fs.vol, volOf_data valid, bytesOf_length, viewRun_length]
  rfl

theorem clusterBytes_pos (g : Geometry) : 0 < g.layout.clusterBytes := by
  have positive := g.cluster_size.1
  simp only [Layout.clusterBytes, sectorSize]
  omega

section Reading

/-- Reading along a chain copies its bytes, unless it runs out of fuel. -/
theorem readChain_cases (ready : Ready g fs) {cluster : UInt32} {chain : List UInt32}
    (trail : (fs.vol g).Chain cluster chain) (valid : ∀ c ∈ chain, g.Valid c) (fuel remaining : Nat)
    (out : Bytes) :
    readChain fuel fs cluster remaining out
        = some (out ++ (chain.flatMap (fs.vol g).data).take remaining, fs) ∨
      fuel ≤ chain.length ∧ readChain fuel fs cluster remaining out = none := by
  induction chain generalizing cluster fuel remaining out with
  | nil =>
    cases fuel with
    | zero => exact .inr ⟨Nat.le_refl _, rfl⟩
    | succ fuel =>
      left
      have ended : ¬ cluster < endOfChain := fun going => not_ends.mpr going trail
      simp [readChain, ended]
  | cons first rest ih =>
    obtain ⟨rfl, going, onward⟩ := trail
    cases fuel with
    | zero => exact .inr ⟨Nat.zero_le _, rfl⟩
    | succ fuel => ?_
    have here := valid cluster (by simp)
    have full : ((fs.vol g).data cluster).length = g.layout.clusterBytes := vol_data_length here
    by_cases wanted : 0 < remaining
    · simp only [readChain, wanted, here.lt_endOfChain, decide_true, Bool.and_self, if_true,
        readCluster_eq ready here, fatNextCluster_eq ready here.entry, ready.layout]
      -- This cluster's share comes first, and the rest of the chain gives what is left.
      have share : out ++ ((cluster :: rest).flatMap (fs.vol g).data).take remaining
          = out ++ ((fs.vol g).data cluster).take (min remaining g.layout.clusterBytes)
            ++ (rest.flatMap (fs.vol g).data).take
              (remaining - min remaining g.layout.clusterBytes) := by
        rw [flatMap_cons, take_append, full, append_assoc]
        congr 2
        · exact take_eq_take_iff.mpr (by omega)
        · congr 1
          omega
      rcases ih onward (fun c member => valid c (by simp [member])) fuel
          (remaining - min remaining g.layout.clusterBytes)
          (out ++ ((fs.vol g).data cluster).take (min remaining g.layout.clusterBytes)) with
        run | ⟨low, run⟩
      · exact .inl (by rw [run, share])
      · exact .inr ⟨by simpa using low, run⟩
    · left
      have none : remaining = 0 := by omega
      simp [readChain, none]

end Reading

section Writing

variable {cluster : UInt32}

/-- However many of the sectors are taken in, only the table changes. -/
theorem Holding.shadowSectors (js : JournalState) (lba : UInt32) (src : List Sector) :
    Holding js (NovaOs.shadowSectors js lba src).2 := by
  induction src generalizing js lba with
  | nil => exact .refl js
  | cons sector rest ih =>
    rw [NovaOs.shadowSectors]
    cases took : shadowSector js lba sector with
    | none => exact .refl js
    | some next => exact (NovaOs.Holding.shadowSector took).trans (ih next (lba + 1))

/-- Views that differ at most in one cluster's sectors show the same links and other data. -/
theorem volOf_outside {view view' : UInt32 → Sector} (valid : g.Valid cluster)
    (same : ∀ lba, (∀ i < g.spc, lba ≠ g.layout.clusterToLba cluster + UInt32.ofNat i) →
      view' lba = view lba) :
    (volOf g view').fat = (volOf g view).fat ∧
      ∀ other, other ≠ cluster → (volOf g view').data other = (volOf g view).data other := by
  constructor
  · funext other
    by_cases inside : other.toNat < g.entries
    · rw [volOf_fat inside, volOf_fat inside, same]
      intro i small
      exact Geometry.fatSector_ne_sector inside g.copies valid small
    · simp only [volOf, if_neg inside]
  · intro other apart
    by_cases valid' : g.Valid other
    · rw [volOf_data valid', volOf_data valid', viewRun, viewRun]
      congr 1
      apply map_congr_left
      intro j inside
      apply same
      intro i small
      exact Geometry.sector_ne valid' valid apart (mem_range.mp inside) small
    · simp only [volOf, if_neg valid']

/-- Inside a transaction a cluster is written to the table. -/
theorem writeCluster_shadowed (busy : Busy g fs) (cluster : UInt32) (buf : Bytes) :
    fs.writeCluster cluster buf
      = ((shadowSectors fs.js (g.layout.clusterToLba cluster) (sectorsOf buf g.spc)).1,
        { fs with
          js := (shadowSectors fs.js (g.layout.clusterToLba cluster)
            (sectorsOf buf g.spc)).2 }) := by
  have held : (fs.js.depth == 0) = false := by simpa using busy.opened
  simp only [Fs.writeCluster, busy.layout, Fs.writeSectors, rustJournalWriteSectors,
    writeSectorsInternal, held, Bool.false_eq_true, if_false]
  rfl

/-- A write to a cluster touches that cluster only, even when it is cut short. -/
theorem writeCluster_any (busy : Busy g fs) (valid : g.Valid cluster) (buf : Bytes) :
    Within fs (fs.writeCluster cluster buf).2 ∧
      ((fs.writeCluster cluster buf).2.vol g).fat = (fs.vol g).fat ∧
      ∀ other, other ≠ cluster →
        ((fs.writeCluster cluster buf).2.vol g).data other = (fs.vol g).data other := by
  rw [writeCluster_shadowed busy]
  refine ⟨⟨rfl, rfl, rfl, rfl, Holding.shadowSectors _ _ _⟩, volOf_outside valid ?_⟩
  intro lba outside
  -- Addresses that were not written to are held as they were, or not at all.
  have others := (shadowSectors_grows fs.js (g.layout.clusterToLba cluster)
    (sectorsOf buf g.spc)).2 lba (by rw [sectorsOf_length]; exact outside)
  simp only [Fs.view, viewOf, others]

/-- The cluster buffer one step of a write fills. -/
def filled (src : Bytes) (width : Nat) : Bytes :=
  src.take width ++ List.replicate (width - (src.take width).length) 0

theorem filled_length (src : Bytes) (width : Nat) : (filled src width).length = width := by
  simp only [filled, length_append, length_take, length_replicate]
  omega

/-- A file is copied into one cluster after another, up to the last one or to one that is
refused. -/
inductive Copies (g : Geometry) : Fs → List UInt32 → Bytes → Bool → Fs → Prop
  | done {fs : Fs} {src : Bytes} : Copies g fs [] src true fs
  | refused {fs : Fs} {first : UInt32} {rest : List UInt32} {src : Bytes} (busy : Busy g fs)
      (here : g.Valid first) :
      Copies g fs (first :: rest) src false
        (fs.writeCluster first (filled src g.layout.clusterBytes)).2
  | step {fs after : Fs} {first : UInt32} {rest : List UInt32} {src : Bytes} {ok : Bool}
      (busy : Busy g fs) (here : g.Valid first) (once : first ∉ rest)
      (wrote : (fs.writeCluster first (filled src g.layout.clusterBytes)).1 = true)
      (onward : Copies g (fs.writeCluster first (filled src g.layout.clusterBytes)).2 rest
        (src.drop g.layout.clusterBytes) ok after) : Copies g fs (first :: rest) src ok after

/-- Writing along a chain is such a copy, and returns with fuel for all of it. -/
theorem writeChain_copies (busy : Busy g fs) {chain : List UInt32}
    (trail : (fs.vol g).Chain cluster chain) (valid : ∀ c ∈ chain, g.Valid c) (fuel : Nat)
    (src : Bytes) :
    (∀ ok after, writeChain fuel fs cluster src = some (ok, after) →
        Copies g fs chain src ok after) ∧
      (chain.length < fuel → ∃ result, writeChain fuel fs cluster src = some result) := by
  induction chain generalizing fs cluster fuel src with
  | nil =>
    have ended : ¬ cluster < endOfChain := fun going => not_ends.mpr going trail
    cases fuel with
    | zero => exact ⟨fun _ _ run => (by cases run), fun enough => absurd enough (Nat.not_lt_zero _)⟩
    | succ fuel =>
      simp only [writeChain, if_neg ended]
      exact ⟨fun ok after run => (by cases run; exact .done), fun _ => ⟨_, rfl⟩⟩
  | cons first rest ih =>
    cases fuel with
    | zero => exact ⟨fun _ _ run => (by cases run), fun enough => absurd enough (Nat.not_lt_zero _)⟩
    | succ fuel => ?_
    have once : first ∉ rest := (nodup_cons.mp trail.nodup).1
    obtain ⟨rfl, _, onward⟩ := trail
    have here := valid cluster (by simp)
    obtain ⟨within, links, _⟩ := writeCluster_any busy here (filled src g.layout.clusterBytes)
    have busyNext := within.busy busy
    have remaining : ((fs.writeCluster cluster (filled src g.layout.clusterBytes)).2.vol g).Chain
        (((fs.writeCluster cluster (filled src g.layout.clusterBytes)).2.vol g).fat cluster)
        rest := by
      rw [Vol.Chain, links]
      exact onward
    obtain ⟨inv, returns⟩ := ih busyNext remaining
      (fun c member => valid c (by simp [member])) fuel (src.drop g.layout.clusterBytes)
    simp only [writeChain, here.lt_endOfChain, if_true, busy.layout, ← filled.eq_1]
    rcases wrote : fs.writeCluster cluster (filled src g.layout.clusterBytes) with ⟨done, next⟩
    rw [wrote] at busyNext inv returns
    dsimp only at busyNext inv returns
    cases done with
    | false =>
      refine ⟨fun ok after run => ?_, fun _ => ⟨_, rfl⟩⟩
      cases run
      have refused := @Copies.refused g fs cluster rest src busy here
      rwa [wrote] at refused
    | true => ?_
    simp only [fatNextCluster_eq busyNext.ready here.entry, busyNext.layout]
    refine ⟨fun ok after run => .step busy here once (by rw [wrote]) ?_, fun enough => ?_⟩
    · rw [wrote]
      exact inv ok after run
    · exact returns (by simpa using enough)

namespace Copies

variable {chain : List UInt32} {src : Bytes} {ok : Bool}

/-- Nothing but the clusters of the chain is touched. -/
theorem keeps (copies : Copies g fs chain src ok after) :
    Within fs after ∧ (after.vol g).fat = (fs.vol g).fat ∧
      ∀ c, c ∉ chain → (after.vol g).data c = (fs.vol g).data c := by
  induction copies with
  | done => exact ⟨.refl _, rfl, fun _ _ => rfl⟩
  | refused busy here =>
    obtain ⟨within, links, others⟩ := writeCluster_any busy here _
    exact ⟨within, links, fun c outside => others c fun same => outside (by simp [same])⟩
  | step busy here _ _ _ ih =>
    obtain ⟨within, links, others⟩ := writeCluster_any busy here _
    refine ⟨within.trans ih.1, ih.2.1.trans links, fun c outside => ?_⟩
    simp only [mem_cons, not_or] at outside
    rw [ih.2.2 c outside.2, others c outside.1]

/-- A copy that is not refused leaves the whole file in the clusters. -/
theorem bytes (copies : Copies g fs chain src true after)
    (fits : src.length ≤ chain.length * g.layout.clusterBytes) :
    (chain.flatMap (after.vol g).data).take src.length = src := by
  generalize whole : true = ok at copies
  induction copies with
  | @done _ src =>
    have empty : src = [] := length_eq_zero_iff.mp (by simpa using fits)
    simp [empty]
  | refused => cases whole
  | @step fs after first rest src ok busy here once wrote onward ih =>
    have fitsRest : (src.drop g.layout.clusterBytes).length
        ≤ rest.length * g.layout.clusterBytes := by
      rw [length_cons, Nat.add_one_mul] at fits
      rw [length_drop]
      omega
    have copied := ih fitsRest whole
    obtain ⟨_, changed, _⟩ := writeCluster_true busy here
      (filled_length src g.layout.clusterBytes) (Prod.ext wrote rfl)
    -- The first cluster keeps what this step wrote, and the rest follows it.
    have mine : (after.vol g).data first = filled src g.layout.clusterBytes := by
      rw [onward.keeps.2.2 first once, changed, Vol.setData_data, Function.update_self]
    rw [flatMap_cons, mine, filled]
    by_cases short : src.length ≤ g.layout.clusterBytes
    · rw [take_of_length_le short, append_assoc, take_left']
      rfl
    have chunk : (src.take g.layout.clusterBytes).length = g.layout.clusterBytes := by
      rw [length_take]
      omega
    rw [chunk, Nat.sub_self, replicate_zero, append_nil, take_append, chunk,
      take_of_length_le (by omega)]
    rw [length_drop] at copied
    rw [copied, take_append_drop]

end Copies

end Writing

end NovaOs.Fat
