import Mathlib

/-! The pages of an address space, as `kernel/arch/x86/mm/paging.c` lays them out and counts
them. -/

namespace NovaOs.Paging

open List

/-- An entry of a directory or a table: the number of a frame, and the flags kept with it. -/
structure Entry where
  frame : Nat
  present : Bool := false
  write : Bool := false
  user : Bool := false

/-- Physical memory, frame by frame, each read as the 1024 entries of a directory or a table. -/
abbrev Mem := Nat → Nat → Entry

def identityMapTables : Nat := 16

/-- What `build_identity_map` puts into the tables, and into the directory that names their
frames. -/
def pageTables (t e : Nat) : Entry :=
  { frame := t * 1024 + e, present := true, write := true, user := true }

def pageDirectory (tables : Nat → Nat) (d : Nat) : Entry :=
  if d < identityMapTables then
    { frame := tables d, present := true, write := true, user := true }
  else { frame := 0 }

/-- The directory `kernel` is the kernel's as it is by now: drivers add entries of their own to
it. -/
def pagingPdeIsKernelShared (kernel : Nat → Entry) (pde : Entry) (index : Nat) : Bool :=
  if 1024 ≤ index || !pde.present then false
  else if !(kernel index).present then false
  else pde.frame = (kernel index).frame

variable (mem : Mem)

/-- A new address space, in the frame `pd`, is a copy of the kernel's directory. -/
def pagingCreateAddressSpace (kernel pd : Nat) : Mem :=
  fun frame => if frame = pd then mem kernel else mem frame

/-- One turn of the loop of `paging_count_user_pages`, over the entries of a table. -/
def countTable (pde : Entry) (count : Nat) : Nat :=
  if !pde.present then count
  else (List.range 1024).foldl (fun count j =>
    if (mem pde.frame j).present && (mem pde.frame j).user then count + 1 else count) count

def pagingCountUserPages (pd : Nat) : Nat :=
  (List.range 1024).foldl (fun count i => countTable mem (mem pd i) count) 0

/-- The pages of a table that are present and accessible to the user. The entries of directories
have the user bit wherever the kernel makes one, so that of the page decides. -/
def userEntries (table : Nat) : Nat :=
  (List.range 1024).countP fun j => (mem table j).present && (mem table j).user

/-- The user pages in those tables of a directory that are the kernel's, or that are not. -/
def pagesOf (kernel pd : Nat) (shared : Bool) (i : Nat) : Nat :=
  if (mem pd i).present && pagingPdeIsKernelShared (mem kernel) (mem pd i) i == shared then
    userEntries mem (mem pd i).frame
  else 0

/-- The pages of a process itself. -/
def ownPages (kernel pd : Nat) : Nat :=
  ((List.range 1024).map (pagesOf mem kernel pd false)).sum

def sharedPages (kernel pd : Nat) : Nat :=
  ((List.range 1024).map (pagesOf mem kernel pd true)).sum

/-- The directory of the kernel begins with the tables of the identity map. -/
structure Booted (kernel : Nat) (tables : Nat → Nat) : Prop where
  directory : ∀ t < identityMapTables, mem kernel t = pageDirectory tables t
  identity : ∀ t < identityMapTables, ∀ e < 1024, mem (tables t) e = pageTables t e

section

variable {mem : Mem} {kernel pd : Nat} {tables : Nat → Nat}

/-- The loop over a table adds up what is counted in it. -/
theorem foldl_count {p : Nat → Bool} {xs : List Nat} {count : Nat} :
    xs.foldl (fun count j => if p j then count + 1 else count) count = count + xs.countP p := by
  induction xs generalizing count with
  | nil => rfl
  | cons x xs ih =>
    rw [foldl_cons, ih, countP_cons]
    split <;> omega

/-- The loop over a directory counts every table, whosever it is. -/
theorem foldl_countTable (kernel : Nat) (xs : List Nat) (count : Nat) :
    xs.foldl (fun count i => countTable mem (mem pd i) count) count
      = count + ((xs.map (pagesOf mem kernel pd false)).sum
        + (xs.map (pagesOf mem kernel pd true)).sum) := by
  induction xs generalizing count with
  | nil => rfl
  | cons i xs ih =>
    have turn : countTable mem (mem pd i) count
        = count + (pagesOf mem kernel pd false i + pagesOf mem kernel pd true i) := by
      rw [countTable, foldl_count, ← userEntries]
      simp only [pagesOf]
      cases (mem pd i).present <;>
        cases pagingPdeIsKernelShared (mem kernel) (mem pd i) i <;> simp
    rw [foldl_cons, ih, turn, map_cons, map_cons, sum_cons, sum_cons]
    omega

/-- A table of the identity map is shared by an address space that has it, and accessible all
through. -/
theorem Booted.pagesOf (booted : Booted mem kernel tables) {t : Nat} (low : t < identityMapTables)
    (shares : mem pd t = mem kernel t) : pagesOf mem kernel pd true t = 1024 := by
  have named : mem pd t = { frame := tables t, present := true, write := true, user := true } := by
    rw [shares, booted.directory t low, pageDirectory, if_pos low]
  have inside : ¬1024 ≤ t := by
    rw [identityMapTables] at low
    omega
  have all : ∀ j ∈ List.range 1024,
      ((mem (tables t) j).present && (mem (tables t) j).user) = true :=
    fun j inside => by
      rw [booted.identity t low j (mem_range.1 inside)]
      rfl
  simp [Paging.pagesOf, pagingPdeIsKernelShared, ← shares, named, inside, userEntries,
    countP_eq_length.2 all]

/-- The tables of the identity map are among the first that are counted. -/
theorem Booted.le_sum (booted : Booted mem kernel tables)
    (shares : ∀ t < identityMapTables, mem pd t = mem kernel t) (n : Nat) :
    1024 * min n identityMapTables
      ≤ ((List.range n).map (Paging.pagesOf mem kernel pd true)).sum := by
  induction n with
  | zero => exact Nat.zero_le _
  | succ n ih =>
    rw [range_succ, map_append, sum_append, map_singleton, sum_singleton]
    by_cases low : n < identityMapTables
    · rw [booted.pagesOf low (shares n low)]
      omega
    · omega

/-- All the user pages of an address space are counted, the kernel's with the process's own. Every
address space has the identity map's 16384 among them, so the count is never that of its own. -/
theorem user_pages_counted (booted : Booted mem kernel tables)
    (shares : ∀ t < identityMapTables, mem pd t = mem kernel t) :
    pagingCountUserPages mem pd = ownPages mem kernel pd + sharedPages mem kernel pd ∧
      16384 ≤ sharedPages mem kernel pd ∧ pagingCountUserPages mem pd ≠ ownPages mem kernel pd := by
  have counted : pagingCountUserPages mem pd
      = ownPages mem kernel pd + sharedPages mem kernel pd := by
    rw [pagingCountUserPages, foldl_countTable kernel, Nat.zero_add]
    rfl
  have shared : 16384 ≤ sharedPages mem kernel pd := booted.le_sum shares 1024
  exact ⟨counted, shared, by omega⟩

end

/-- The memory after the first address space has been created: the tables in frames `0` to `15`, the
directory of the kernel, in which a driver has mapped a page at 3 GiB, and the new one. -/
def created : Mem :=
  pagingCreateAddressSpace (fun frame i =>
    if frame < identityMapTables then pageTables frame i
    else if frame = 16 then
      if i = 768 then { frame := 17, present := true, write := true, user := true }
      else pageDirectory id i
    else { frame := 0xFD000, present := i == 0, write := true }) 16 18

theorem user_pages_counted_created :
    pagingCountUserPages created 18 = ownPages created 16 18 + sharedPages created 16 18 ∧
      16384 ≤ sharedPages created 16 18 ∧
        pagingCountUserPages created 18 ≠ ownPages created 16 18 := by
  have booted : Booted created 16 id := by
    refine ⟨fun t low => if_neg fun high => absurd low (by rw [high]; decide), fun t low e _ => ?_⟩
    have other : t ≠ 18 := fun high => absurd low (by rw [high]; decide)
    simp [created, pagingCreateAddressSpace, other, low]
  exact user_pages_counted booted fun t low => rfl

/-- A process that has just been created has no page of its own, and 16384 are counted. -/
theorem identity_map_counted :
    pagingCountUserPages created 18 = 16384 ∧ ownPages created 16 18 = 0 := by
  decide +kernel

end NovaOs.Paging
