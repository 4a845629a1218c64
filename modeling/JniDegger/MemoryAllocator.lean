import JniDegger.WordMemory

/-!
# Dobby's memory allocator

Blocks are cut from arenas by moving a cursor, and an arena is a mapping of its own.
The near allocator looks for room within a distance of an address: first in the
arenas there are, then in the gaps between the mappings of the process, where it maps
an arena at a fixed address.

What the system answers is a parameter (`Os`); an operation that aborts gives `none`.
-/

namespace JniDegger.Dobby
open A64

structure MemBlock where
  addr : Address
  size : BitVec 64
  deriving DecidableEq

structure MemoryArena where
  addr : Address
  size : BitVec 64
  cursorAddr : Address
  deriving DecidableEq

/-- A line of `/proc/self/maps`. -/
structure MemRegion where
  start : Address
  size : BitVec 64
  deriving DecidableEq

/-- The bytes of the process, and the arenas of `MemoryAllocator::SharedAllocator()`. -/
structure Memory where
  bytes : Address → BitVec 8
  codeArenas : List MemoryArena
  dataArenas : List MemoryArena

/-- What the system answers during one call of Dobby. -/
structure Os where
  /-- pages are of `2 ^ pageShift` bytes -/
  pageShift : Nat
  /-- `OSMemory::Allocate` of so many bytes, anywhere -/
  allocate : Memory → BitVec 64 → Address
  /-- `OSMemory::Allocate` at a fixed address succeeds -/
  allocateFixed : Memory → Address → BitVec 64 → Bool
  /-- `GetProcessMemoryLayout` -/
  layout : Memory → List MemRegion
  /-- `OSMemory::SetPermission` of the page of this address succeeds -/
  setPermission : Memory → Address → Bool
  /-- where `new ClosureTrampolineEntry` is -/
  trampEntry : Address

def Os.pageSize (os : Os) : BitVec 64 := 1#64 <<< os.pageShift

def alignFloor (address range : BitVec 64) : BitVec 64 := address &&& ~~~(range - 1#64)

def alignCeil (address range : BitVec 64) : BitVec 64 := (address + range - 1#64) &&& ~~~(range - 1#64)

/-! ## Arenas -/

/-- `MemoryArena(addr, size)` -/
def MemoryArena.new (addr : Address) (size : BitVec 64) : MemoryArena := ⟨addr, size, addr⟩

def MemoryArena.allocMemBlock (a : MemoryArena) (size : BitVec 64) :
    Option (MemBlock × MemoryArena) :=
  if a.addr + a.size - a.cursorAddr < size then none
  else some (⟨a.cursorAddr, size⟩, { a with cursorAddr := a.cursorAddr + size })

/-- The first arena with room for the block. -/
def allocFirst (size : BitVec 64) : List MemoryArena → Option (MemBlock × List MemoryArena)
  | [] => none
  | a :: arenas =>
    match a.allocMemBlock size with
    | some (b, a') => some (b, a' :: arenas)
    | none => (allocFirst size arenas).map fun r => (r.1, a :: r.2)

/-- A new mapping is all zeros. -/
def Memory.zeroed (m : Memory) (addr : Address) (size : BitVec 64) : Address → BitVec 8 :=
  fun x => if (x - addr).toNat < size.toNat then 0#8 else m.bytes x

def allocateCodeMemoryArena (os : Os) (m : Memory) (size : BitVec 32) :
    Option (MemoryArena × Memory) :=
  if size.setWidth 64 % os.pageSize ≠ 0#64 then none
  else
    let arenaAddr := os.allocate m (size.setWidth 64)
    let result := MemoryArena.new arenaAddr (size.setWidth 64)
    some (result,
      ⟨m.zeroed arenaAddr (size.setWidth 64), m.codeArenas ++ [result], m.dataArenas⟩)

/-- A block from a code arena just made, which is the last one. -/
def allocInNewArena (os : Os) (m : Memory) (arenaSize size : BitVec 32) :
    Option (MemBlock × Memory) :=
  match allocateCodeMemoryArena os m arenaSize with
  | none => none
  | some (arena, m') =>
    (arena.allocMemBlock (size.setWidth 64)).map fun r =>
      (r.1, { m' with codeArenas := m.codeArenas ++ [r.2] })

def allocateExecBlock (os : Os) (m : Memory) (size : BitVec 32) : Option (MemBlock × Memory) :=
  match allocFirst (size.setWidth 64) m.codeArenas with
  | some (b, arenas) => some (b, { m with codeArenas := arenas })
  | none => allocInNewArena os m ((alignCeil (size.setWidth 64) os.pageSize).setWidth 32) size

/-- Where no data arena has room, the block comes from a new code arena of its size. -/
def allocateDataBlock (os : Os) (m : Memory) (size : BitVec 32) : Option (MemBlock × Memory) :=
  match allocFirst (size.setWidth 64) m.dataArenas with
  | some (b, arenas) => some (b, { m with dataArenas := arenas })
  | none => allocInNewArena os m size size

/-! ## Near blocks -/

def minAddr (a b : Address) : Address := if a < b then a else b

def maxAddr (a b : Address) : Address := if b < a then a else b

/-- The start of the unused memory from `start` to `stop` within the valid addresses, if there
is enough of it, and 0 otherwise. -/
def unusedMem (minValidAddr maxValidAddr : Address) (size : BitVec 32) (start stop : Address) :
    Address :=
  let unusedMemStart := maxAddr start minValidAddr
  let unusedMemEnd := minAddr stop maxValidAddr
  if unusedMemEnd ≤ unusedMemStart then 0
  else if unusedMemEnd - unusedMemStart < size.setWidth 64 then 0
  else unusedMemStart

def allocateFromDefaultArena (minValidAddr maxValidAddr : Address) (size : BitVec 32)
    (arena : MemoryArena) : Address :=
  let unusedMemStart := arena.cursorAddr
  let unusedMemEnd := arena.addr + arena.size
  if unusedMemEnd < minValidAddr ∨ maxValidAddr < unusedMemStart then 0
  else unusedMem minValidAddr maxValidAddr size unusedMemStart unusedMemEnd

def checkHasSufficientMemoryBetweenRegion (minValidAddr maxValidAddr : Address) (size : BitVec 32)
    (region nextRegion : MemRegion) : Address :=
  let unusedMemStart := region.start + region.size
  let unusedMemEnd := nextRegion.start
  if unusedMemEnd < minValidAddr ∨ maxValidAddr < unusedMemStart then 0
  else unusedMem minValidAddr maxValidAddr size (alignFloor unusedMemStart 4) unusedMemEnd

/-- The loop over the code arenas stops at the first with room. -/
def firstWithRoom (room : MemoryArena → Address) : List MemoryArena → Option (Nat × Address)
  | [] => none
  | a :: arenas =>
    if room a ≠ 0 then some (0, room a)
    else (firstWithRoom room arenas).map fun r => (r.1 + 1, r.2)

/-- The loop over the data arenas does not stop: it ends with the last one. -/
def lastWithRoom (room : MemoryArena → Address) (arenas : List MemoryArena) :
    Option (Nat × Address) :=
  match arenas.getLast? with
  | none => none
  | some a => if room a ≠ 0 then some (arenas.length - 1, room a) else none

/-- A placeholder up to the unused memory, and the block. -/
def MemoryArena.skipAndAlloc (a : MemoryArena) (unused : Address) (size : BitVec 32) :
    Option MemBlock × MemoryArena :=
  let skipped := match a.allocMemBlock (unused - a.cursorAddr) with
    | some (_, a') => a'
    | none => a
  match skipped.allocMemBlock (size.setWidth 64) with
  | some (b, a') => (some b, a')
  | none => (none, skipped)

def allocateNearBlockFromDefaultAllocator (m : Memory) (size : BitVec 32) (pos : Address)
    (searchRange : BitVec 64) (executable : Bool) : Option MemBlock × Memory :=
  let room := allocateFromDefaultArena (pos - searchRange) (pos + searchRange) size
  let arenas := if executable then m.codeArenas else m.dataArenas
  match if executable then firstWithRoom room arenas else lastWithRoom room arenas with
  | none => (none, m)
  | some (i, unused) =>
    match arenas[i]? with
    | none => (none, m)
    | some arena =>
      let (block, arena') := arena.skipAndAlloc unused size
      (block, if executable then { m with codeArenas := arenas.set i arena' }
        else { m with dataArenas := arenas.set i arena' })

/-- The first gap with room. -/
def searchGaps (check : MemRegion → MemRegion → Address) : List MemRegion → Address
  | region :: nextRegion :: regions =>
    if check region nextRegion ≠ 0 then check region nextRegion
    else searchGaps check (nextRegion :: regions)
  | _ => 0

/-- The unused memory between two mappings, or 0. -/
def gapFor (os : Os) (m : Memory) (size : BitVec 32) (pos : Address) (searchRange : BitVec 64) :
    Address :=
  searchGaps (checkHasSufficientMemoryBetweenRegion (pos - searchRange) (pos + searchRange) size)
    (os.layout m)

/-- The arena that is mapped for a block in a gap. -/
def gapArena (os : Os) (unused : Address) (size : BitVec 32) : MemoryArena :=
  let firstPageAddr := alignFloor unused os.pageSize
  let endPageAddr := alignFloor (unused + size.setWidth 64) os.pageSize
  .new firstPageAddr (endPageAddr - firstPageAddr + os.pageSize)

def allocateNearBlockFromUnusedRegion (os : Os) (m : Memory) (size : BitVec 32) (pos : Address)
    (searchRange : BitVec 64) (executable : Bool) : Option MemBlock × Memory :=
  let unused := gapFor os m size pos searchRange
  if unused = 0 then (none, m)
  else
    let arena := gapArena os unused size
    if os.allocateFixed m arena.addr arena.size then
      let (block, arena') := arena.skipAndAlloc unused size
      (block, if executable then
          ⟨m.zeroed arena.addr arena.size, m.codeArenas ++ [arena'], m.dataArenas⟩
        else ⟨m.zeroed arena.addr arena.size, m.codeArenas, m.dataArenas ++ [arena']⟩)
    else (none, m)

def allocateNearBlock (os : Os) (m : Memory) (size : BitVec 32) (pos : Address)
    (searchRange : BitVec 64) (executable : Bool) : Option MemBlock × Memory :=
  match allocateNearBlockFromDefaultAllocator m size pos searchRange executable with
  | (some b, m') => (some b, m')
  | (none, m') => allocateNearBlockFromUnusedRegion os m' size pos searchRange executable

end JniDegger.Dobby
