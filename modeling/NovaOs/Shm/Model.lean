import NovaOs.Lib.Table

/-! The shared-memory table of `kernel/rust/shm.rs`, one function at a time. -/

namespace NovaOs

def pageSize : Nat := 4096

-- The limits of the table, system-wide unless their name says otherwise.
def maxObjects : Nat := 32
def maxPagesPerObject : Nat := 4096
def maxTotalPages : Nat := 6144
def maxObjectsPerOwner : Nat := 8
def maxMapsPerProc : Nat := 8
def maxMapRecords : Nat := 256
def maxGrants : Nat := 8

-- The region every mapping is placed in.
def shmVirtBase : Nat := 0x68000000
def shmVirtEnd : Nat := 0x7C000000

def rightRead : UInt32 := 1
def rightWrite : UInt32 := 2

/-- The errors the table reports. -/
inductive Errno where
  | eperm | esrch | ebadf | enomem | eacces | eexist | einval | enospc
  deriving DecidableEq, Repr

/-- The number each error has outside the kernel. -/
def Errno.code : Errno → Int
  | eperm => 1
  | esrch => 3
  | ebadf => 9
  | enomem => 12
  | eacces => 13
  | eexist => 17
  | einval => 22
  | enospc => 28

abbrev Pid := Int

abbrev Frame := UInt32

/-- Each process's pages in the region: the frame, and whether it may be written. -/
abbrev PageTables := Pid → Nat → Option (Frame × Bool)

/-- What the table reaches outside itself: the frame allocator and the page tables. -/
structure Hal where
  -- Frames given out and not taken back yet, and whether one was ever taken back that was not out.
  allocated : Frame → Bool
  misfreed : Bool
  -- Frames cleared since they were given out.
  zeroed : Frame → Bool
  pageTable : PageTables
  live : Pid → Bool
  -- The allocator's answers and the outcomes of mapping still to come, true for a failure.
  supply : Nat → Option Frame
  mapFaults : Nat → Bool

namespace Hal

variable (hal : Hal)

/-- A frame that is not out, or none. -/
def allocFrame : Option Frame × Hal :=
  let later := { hal with supply := fun n => hal.supply (n + 1) }
  match hal.supply 0 with
  | none => (none, later)
  | some frame =>
    if frame == 0 || hal.allocated frame then (none, later)
    else (some frame, { later with
      allocated := Function.update hal.allocated frame true
      zeroed := Function.update hal.zeroed frame false })

def freeFrame (frame : Frame) : Hal :=
  { hal with
    allocated := Function.update hal.allocated frame false
    misfreed := hal.misfreed || !hal.allocated frame }

def zeroFrame (frame : Frame) : Hal :=
  { hal with zeroed := Function.update hal.zeroed frame true }

/-- Sets one entry of a process's page table. -/
def setPage (pid : Pid) (vaddr : Nat) (entry : Option (Frame × Bool)) : Hal :=
  { hal with
    pageTable := Function.update hal.pageTable pid
      (Function.update (hal.pageTable pid) vaddr entry) }

def mapPage (pid : Pid) (vaddr : Nat) (frame : Frame) (writable : Bool) : Bool × Hal :=
  let later := { hal with mapFaults := fun n => hal.mapFaults (n + 1) }
  if hal.mapFaults 0 then (false, later)
  else (true, later.setPage pid vaddr (some (frame, writable)))

def unmapPage (pid : Pid) (vaddr : Nat) : Hal := hal.setPage pid vaddr none

def pidIsLive (pid : Pid) : Bool := hal.live pid

end Hal

/-- One entry of an object's access list; no rights means the entry is empty. -/
structure Grant where
  pid : Pid
  rights : UInt32
  deriving DecidableEq

/-- A set of frames that processes can share. -/
structure ShmObject where
  inUse : Bool
  -- No new mappings; freed when the last mapping is gone.
  dying : Bool
  -- Moved on each time the slot is freed, so that old handles stop working.
  gen : UInt32
  owner : Pid
  pages : Nat
  mapCount : Nat
  grants : List Grant

/-- One process's mapping of one object. -/
structure MapRec where
  inUse : Bool
  pid : Pid
  addr : Nat
  pages : Nat
  obj : Fin maxObjects
  rights : UInt32

/-- Where a mapping and its guard page end. -/
def MapRec.spanEnd (record : MapRec) : Nat := record.addr + (record.pages + 1) * pageSize

def emptyGrant : Grant := { pid := 0, rights := 0 }

def emptyObj : ShmObject where
  inUse := false
  dying := false
  gen := 0
  owner := 0
  pages := 0
  mapCount := 0
  grants := List.replicate maxGrants emptyGrant

def emptyMap : MapRec where
  inUse := false
  pid := 0
  addr := 0
  pages := 0
  obj := ⟨0, by decide⟩
  rights := 0

/-- The whole table. -/
structure Shm where
  objects : Fin maxObjects → ShmObject
  -- The frames of each object, by page.
  frames : Fin maxObjects → Nat → Frame
  maps : Fin maxMapRecords → MapRec
  totalPages : Nat

/-- What `info` reports to a process allowed to see an object. -/
structure ShmInfo where
  size : Nat
  owner : Pid
  mappings : Nat
  myRights : UInt32

def nextGen (gen : UInt32) : UInt32 :=
  let next := (gen + 1) &&& 0x00FFFFFF
  if next == 0 then 1 else next

namespace Shm

def new : Shm where
  objects := fun _ => emptyObj
  frames := fun _ _ => 0
  maps := fun _ => emptyMap
  totalPages := 0

variable (shm : Shm)

/-- Replaces one object. -/
def setObject (slot : Fin maxObjects) (object : ShmObject) : Shm :=
  { shm with objects := Function.update shm.objects slot object }

/-- Replaces one mapping record. -/
def setMap (slot : Fin maxMapRecords) (record : MapRec) : Shm :=
  { shm with maps := Function.update shm.maps slot record }

/-- Replaces one frame of one object. -/
def setFrame (slot : Fin maxObjects) (page : Nat) (frame : Frame) : Shm :=
  { shm with
    frames := Function.update shm.frames slot (Function.update (shm.frames slot) page frame) }

/-- The handle of the object in a slot, never zero. -/
def handleFor (slot : Fin maxObjects) : UInt32 :=
  ((shm.objects slot).gen <<< 8) ||| (UInt32.ofNat slot.val + 1)

/-- The live object a handle names. -/
def lookup (handle : UInt32) : Except Errno (Fin maxObjects) :=
  let low := (handle &&& 0xFF).toNat
  let gen := handle >>> 8
  if bad : low = 0 ∨ maxObjects < low ∨ gen = 0 then .error .ebadf
  else
    let slot : Fin maxObjects := ⟨low - 1, by omega⟩
    let object := shm.objects slot
    if !object.inUse || object.dying || object.gen != gen then .error .ebadf else .ok slot

/-- What a process may do with an object: everything as its owner, else what was granted. -/
def rightsOf (slot : Fin maxObjects) (pid : Pid) : UInt32 :=
  let object := shm.objects slot
  if object.owner == pid then rightRead ||| rightWrite
  else
    match object.grants.find? fun grant => grant.rights != 0 && grant.pid == pid with
    | some grant => grant.rights
    | none => 0

/-- Gives back `count` frames of an object, from page `page` on. -/
def freeFrames (shm : Shm) (hal : Hal) (slot : Fin maxObjects) : Nat → Nat → Shm × Hal
  | _, 0 => (shm, hal)
  | page, count + 1 =>
    freeFrames (shm.setFrame slot page 0) (hal.freeFrame (shm.frames slot page)) slot (page + 1)
      count

def freeObject (hal : Hal) (slot : Fin maxObjects) : Shm × Hal :=
  let pages := (shm.objects slot).pages
  let (shm, hal) := freeFrames shm hal slot 0 pages
  let gen := nextGen (shm.objects slot).gen
  ({ shm.setObject slot { emptyObj with gen := gen } with
      totalPages := shm.totalPages - pages }, hal)

/-- Takes `count` cleared frames, from page `page` on, or gives all of them back. -/
def takeFrames (shm : Shm) (hal : Hal) (slot : Fin maxObjects) : Nat → Nat → Bool × Shm × Hal
  | _, 0 => (true, shm, hal)
  | page, count + 1 =>
    match hal.allocFrame with
    | (some frame, hal) =>
      takeFrames (shm.setFrame slot page frame) (hal.zeroFrame frame) slot (page + 1) count
    | (none, hal) => (false, freeFrames shm hal slot 0 page)

/-- Creates an object of at least `size` bytes; gives its handle and its real size. -/
def create (hal : Hal) (pid : Pid) (size : Nat) (flags : UInt32) :
    Except Errno (UInt32 × Nat) × Shm × Hal :=
  if flags != 0 || size == 0 || decide (maxPagesPerObject * pageSize < size) then
    (.error .einval, shm, hal)
  else
    let pages := (size + pageSize - 1) / pageSize
    let owned := Table.count
      (fun object => object.inUse && (object.owner == pid && !object.dying)) shm.objects
    match Table.first? (fun object => !object.inUse) shm.objects with
    | none => (.error .enospc, shm, hal)
    | some slot =>
      if maxObjectsPerOwner ≤ owned then (.error .enospc, shm, hal)
      else if maxTotalPages < shm.totalPages + pages then (.error .enomem, shm, hal)
      else
        match takeFrames shm hal slot 0 pages with
        | (false, shm, hal) => (.error .enomem, shm, hal)
        | (true, shm, hal) =>
          let gen := if (shm.objects slot).gen == 0 then 1 else (shm.objects slot).gen
          let shm := { shm.setObject slot
              { emptyObj with inUse := true, gen := gen, owner := pid, pages := pages } with
            totalPages := shm.totalPages + pages }
          (.ok (shm.handleFor slot, pages * pageSize), shm, hal)

/-- Changes the first grant that passes a test, if one does. -/
def replaceFirst (p : Grant → Bool) (change : Grant → Grant) : List Grant → Option (List Grant)
  | [] => none
  | grant :: rest =>
    if p grant then some (change grant :: rest)
    else (replaceFirst p change rest).map (grant :: ·)

/-- Takes every grant to a process out of an access list. -/
def revoke (target : Pid) (grants : List Grant) : List Grant :=
  grants.map fun grant =>
    if grant.rights != 0 && grant.pid == target then emptyGrant else grant

/-- Lets `target` map the object with `rights`; no rights revokes. -/
def grant (shm : Shm) (hal : Hal) (caller : Pid) (handle : UInt32) (target : Pid)
    (rights : UInt32) : Except Errno Unit × Shm :=
  match shm.lookup handle with
  | .error errno => (.error errno, shm)
  | .ok slot =>
    let object := shm.objects slot
    if object.owner != caller then (.error .eperm, shm)
    else if target == caller
        || !(rights == 0 || rights == rightRead || rights == rightRead ||| rightWrite) then
      (.error .einval, shm)
    else if rights == 0 then
      (.ok (), shm.setObject slot { object with grants := revoke target object.grants })
    else if !hal.pidIsLive target then (.error .esrch, shm)
    else
      -- A process has at most one entry: an old one is changed before an empty one is used.
      match replaceFirst (fun grant => grant.rights != 0 && grant.pid == target)
          (fun grant => { grant with rights := rights }) object.grants with
      | some grants => (.ok (), shm.setObject slot { object with grants := grants })
      | none =>
        match replaceFirst (fun grant => grant.rights == 0)
            (fun _ => { pid := target, rights := rights }) object.grants with
        | some grants => (.ok (), shm.setObject slot { object with grants := grants })
        | none => (.error .enospc, shm)

/-- Sorts one span into the spans before it, which are listed from the last one back. -/
def insertSpan (span : Nat × Nat) : List (Nat × Nat) → List (Nat × Nat)
  | [] => [span]
  | last :: before =>
    if span.1 < last.1 then last :: insertSpan span before else span :: last :: before

/-- The spans a process's mappings take up, guard pages included, in ascending order. -/
def spansOf (pid : Pid) : List (Nat × Nat) :=
  let mine := (List.finRange maxMapRecords).filter fun i =>
    (shm.maps i).inUse && (shm.maps i).pid == pid
  let spans := (mine.take maxMapsPerProc).map fun i =>
    ((shm.maps i).addr, (shm.maps i).spanEnd)
  (spans.foldl (fun sorted span => insertSpan span sorted) []).reverse

/-- Walks the spans and stops at the first gap that is wide enough. -/
def scanGap (need finish : Nat) : Nat → List (Nat × Nat) → Option Nat
  | cand, [] => if cand + need ≤ finish then some cand else none
  | cand, (low, high) :: rest =>
    if cand ≤ low ∧ need ≤ low - cand then some cand
    else scanGap need finish (if cand < high then high else cand) rest

/-- First-fit placement of a mapping together with its guard page. -/
def findGap (pid : Pid) (needPages base finish : Nat) : Option Nat :=
  scanGap (needPages * pageSize) finish base (shm.spansOf pid)

/-- Takes `count` pages of a process out of its page table, from page `page` on. -/
def unmapPages (hal : Hal) (pid : Pid) (addr : Nat) : Nat → Nat → Hal
  | _, 0 => hal
  | page, count + 1 =>
    unmapPages (hal.unmapPage pid (addr + page * pageSize)) pid addr (page + 1) count

/-- Enters `count` pages of an object into a page table, or takes all of them out again. -/
def mapPages (hal : Hal) (pid : Pid) (addr : Nat) (frames : Nat → Frame) (writable : Bool) :
    Nat → Nat → Bool × Hal
  | _, 0 => (true, hal)
  | page, count + 1 =>
    match hal.mapPage pid (addr + page * pageSize) (frames page) writable with
    | (true, hal) => mapPages hal pid addr frames writable (page + 1) count
    | (false, hal) => (false, unmapPages hal pid addr 0 page)

def mapIn (hal : Hal) (pid : Pid) (handle want : UInt32) (base finish : Nat) :
    Except Errno (Nat × Nat) × Shm × Hal :=
  match shm.lookup handle with
  | .error errno => (.error errno, shm, hal)
  | .ok slot =>
    -- Writing without reading is refused rather than widened.
    if want != rightRead && want != rightRead ||| rightWrite then (.error .einval, shm, hal)
    else if want &&& ~~~(shm.rightsOf slot pid) != 0 then (.error .eacces, shm, hal)
    else if (Table.first? (fun record => record.inUse && (record.pid == pid && record.obj == slot))
        shm.maps).isSome then (.error .eexist, shm, hal)
    else if maxMapsPerProc ≤ Table.count (fun record => record.inUse && record.pid == pid)
        shm.maps then (.error .enospc, shm, hal)
    else
      match Table.first? (fun record => !record.inUse) shm.maps with
      | none => (.error .enospc, shm, hal)
      | some rec_ =>
        let object := shm.objects slot
        match shm.findGap pid (object.pages + 1) base finish with
        | none => (.error .enomem, shm, hal)
        | some addr =>
          match mapPages hal pid addr (shm.frames slot) (want &&& rightWrite != 0) 0
              object.pages with
          | (false, hal) => (.error .enomem, shm, hal)
          | (true, hal) =>
            let record : MapRec :=
              { inUse := true
                pid := pid
                addr := addr
                pages := object.pages
                obj := slot
                rights := want }
            (.ok (addr, object.pages * pageSize),
              (shm.setMap rec_ record).setObject slot
                { object with mapCount := object.mapCount + 1 }, hal)

/-- Maps an object into a process; gives the address and the size. -/
def map (hal : Hal) (pid : Pid) (handle want : UInt32) : Except Errno (Nat × Nat) × Shm × Hal :=
  shm.mapIn hal pid handle want shmVirtBase shmVirtEnd

/-- Frees an object that nothing can reach any more. -/
def reap (hal : Hal) (slot : Fin maxObjects) : Shm × Hal :=
  if (shm.objects slot).dying && (shm.objects slot).mapCount == 0 then shm.freeObject hal slot
  else (shm, hal)

/-- Forgets a mapping record and counts it off its object. -/
def dropMap (index : Fin maxMapRecords) : Shm :=
  let slot := (shm.maps index).obj
  let object := shm.objects slot
  (shm.setMap index emptyMap).setObject slot { object with mapCount := object.mapCount - 1 }

/-- Removes the mapping of a process that starts at an address. -/
def unmap (hal : Hal) (pid : Pid) (addr : Nat) : Except Errno Unit × Shm × Hal :=
  match Table.first? (fun record => record.inUse && (record.pid == pid && record.addr == addr))
      shm.maps with
  | none => (.error .einval, shm, hal)
  | some index =>
    let record := shm.maps index
    let hal := unmapPages hal pid record.addr 0 record.pages
    let (shm, hal) := (shm.dropMap index).reap hal record.obj
    (.ok (), shm, hal)

/-- Stops a handle from working; the frames live on until the last mapping is gone. -/
def destroy (hal : Hal) (pid : Pid) (handle : UInt32) : Except Errno Unit × Shm × Hal :=
  match shm.lookup handle with
  | .error errno => (.error errno, shm, hal)
  | .ok slot =>
    let object := shm.objects slot
    if object.owner != pid then (.error .eperm, shm, hal)
    else
      let (shm, hal) := (shm.setObject slot { object with dying := true }).reap hal slot
      (.ok (), shm, hal)

def info (pid : Pid) (handle : UInt32) : Except Errno ShmInfo :=
  match shm.lookup handle with
  | .error errno => .error errno
  | .ok slot =>
    let rights := shm.rightsOf slot pid
    let object := shm.objects slot
    if rights == 0 then .error .eacces
    else
      .ok {
        size := object.pages * pageSize
        owner := object.owner
        mappings := object.mapCount
        myRights := rights }

/-- Everything a process owned stops taking new mappings. -/
def orphan (pid : Pid) : Shm :=
  { shm with
    objects := fun slot =>
      let object := shm.objects slot
      if object.inUse && object.owner == pid then { object with dying := true } else object }

/-- Forgets one mapping record if it belongs to a process. -/
def dropMapOf (pid : Pid) (shm : Shm) (index : Fin maxMapRecords) : Shm :=
  if (shm.maps index).inUse && (shm.maps index).pid == pid then shm.dropMap index else shm

/-- Forgets every grant to a process. -/
def forgetGrants (pid : Pid) : Shm :=
  { shm with
    objects := fun slot =>
      let object := shm.objects slot
      if object.inUse then { object with grants := revoke pid object.grants } else object }

/-- Frees the object in a slot if it is in use and nothing can reach it any more. -/
def reapInUse (state : Shm × Hal) (slot : Fin maxObjects) : Shm × Hal :=
  if (state.1.objects slot).inUse then state.1.reap state.2 slot else state

/-- The bookkeeping of a process that exits; its page table is torn down elsewhere. -/
def processExit (hal : Hal) (pid : Pid) : Shm × Hal :=
  let shm := shm.orphan pid
  let shm := (List.finRange maxMapRecords).foldl (dropMapOf pid) shm
  let shm := shm.forgetGrants pid
  (List.finRange maxObjects).foldl reapInUse (shm, hal)

/-- Gives the child a copy of one mapping record if it is the parent's. -/
def inheritMap (parent child : Pid) (shm : Shm) (index : Fin maxMapRecords) : Shm :=
  let record := shm.maps index
  if record.inUse && record.pid == parent then
    let shm :=
      match Table.first? (fun record => !record.inUse) shm.maps with
      | some free => shm.setMap free { record with pid := child }
      | none => shm
    let object := shm.objects record.obj
    shm.setObject record.obj { object with mapCount := object.mapCount + 1 }
  else shm

/-- Records the mappings a forked child inherits, all of them or none. -/
def fork (parent child : Pid) : Except Errno Unit × Shm :=
  let need := Table.count (fun record => record.inUse && record.pid == parent) shm.maps
  let free := Table.count (fun record => !record.inUse) shm.maps
  if (Table.first? (fun record => record.inUse && (record.pid != parent && record.pid == child))
      shm.maps).isSome then (.error .einval, shm)
  else if free < need then (.error .enomem, shm)
  else (.ok (), (List.finRange maxMapRecords).foldl (inheritMap parent child) shm)

/-- Checks one object slot and adds its pages to those of the slots before it. -/
def checkObject (total : Nat) (slot : Fin maxObjects) : Except String Nat :=
  let object := shm.objects slot
  if !object.inUse then
    if object.mapCount != 0 then .error "a free object slot has mappings" else .ok total
  else if object.pages == 0 || decide (maxPagesPerObject < object.pages) then
    .error "an object has an impossible size"
  else if object.dying && object.mapCount == 0 then
    .error "a dying object with no mappings was not freed"
  else if Table.count (fun record => record.inUse && record.obj == slot) shm.maps
      != object.mapCount then
    .error "an object's map_count disagrees with the mapping records"
  else .ok (total + object.pages)

/-- Counts the mappings of a record's process, none of which may overlap it. -/
def checkNeighbour (index : Fin maxMapRecords) (mine : Nat) (other : Fin maxMapRecords) :
    Except String Nat :=
  let record := shm.maps index
  let neighbour := shm.maps other
  if neighbour.inUse && neighbour.pid == record.pid then
    if other != index && (decide (record.addr < neighbour.spanEnd)
        && decide (neighbour.addr < record.spanEnd)) then
      .error "two mappings of one process overlap"
    else .ok (mine + 1)
  else .ok mine

/-- Checks one mapping record. -/
def checkMap (index : Fin maxMapRecords) : Except String Unit :=
  let record := shm.maps index
  if !record.inUse then .ok ()
  else if !(shm.objects record.obj).inUse then .error "a mapping refers to a free object"
  else if record.addr % pageSize != 0 || decide (record.addr < shmVirtBase)
      || decide (shmVirtEnd < record.addr + record.pages * pageSize) then
    .error "a mapping lies outside the shared-memory region"
  else do
    let mine ← (List.finRange maxMapRecords).foldlM (shm.checkNeighbour index) 0
    if maxMapsPerProc < mine then throw "a process holds more mappings than the limit"

/-- The structural checks the kernel can make on the table by itself. -/
def checkCounts : Except String Unit := do
  let total ← (List.finRange maxObjects).foldlM shm.checkObject 0
  if total != shm.totalPages then throw "total_pages disagrees with the sum of the objects"
  (List.finRange maxMapRecords).forM shm.checkMap

/-- Live objects, shared pages and mapping records. -/
def stats : Nat × Nat × Nat :=
  (Table.count (fun object => object.inUse) shm.objects, shm.totalPages,
    Table.count (fun record => record.inUse) shm.maps)

end Shm

end NovaOs
