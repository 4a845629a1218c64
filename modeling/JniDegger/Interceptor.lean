import JniDegger.MemoryAllocator
import JniDegger.ClosureTrampoline
import JniDegger.Interleaving

/-!
# Dobby's hooks

`DobbyHook` writes a trampoline over the first instructions of a function, which it
has relocated before, and records them; `DobbyDestroy` writes them back.
`DobbyInstrument` does as `DobbyHook` does, with a closure trampoline in place of
the replacement.  The near branch plugin makes the trampoline a single branch, if
need be over a forwarding trampoline in a near block.

A call that aborts the process gives `none`.
-/

namespace JniDegger.Dobby
open A64 Arm64Assembler Arm64Relocation Arm64Trampoline Interleaving

/-- What an `InstructionInstrumentRouting` adds: the callback, and where the
`ClosureTrampolineEntry` is that refers to the entry. -/
structure InstructionInstrument where
  preHandler : Address
  trampEntry : Address
  deriving DecidableEq

/-- An `InterceptRouting` that has been dispatched. -/
structure InterceptRouting where
  trampolineBuffer : List Word
  trampolineTarget : Address
  instrument : Option InstructionInstrument
  deriving DecidableEq

structure InterceptEntry where
  id : BitVec 32
  routing : InterceptRouting
  patchedAddr : Address
  relocatedAddr : Address
  originInsns : List Word
  deriving DecidableEq

/-- The process with `Interceptor::SharedInstance()`, `near_branch_trampoline` and
`closure_bridge`. -/
structure Process where
  memory : Memory
  entries : List InterceptEntry
  nearBranchTrampoline : Bool
  closureBridge : Address
  /-- `common_closure_bridge_handler` -/
  bridgeHandler : Address

/-! ## The interceptor -/

def find (entries : List InterceptEntry) (addr : Address) : Option InterceptEntry :=
  entries.find? fun e => e.patchedAddr = addr

def remove (entries : List InterceptEntry) (addr : Address) : List InterceptEntry :=
  entries.eraseP fun e => e.patchedAddr = addr

/-! ## Code in memory -/

def codeSize (buffer : List Word) : BitVec 32 := BitVec.ofNat 32 (4 * buffer.length)

def dobbyCodePatch (m : Memory) (address : Address) (buffer : List Word) : Memory :=
  { m with bytes := storeWords m.bytes address buffer }

/-- `FinalizeFromTurboAssembler` of code that has its address. -/
def realize (m : Memory) (realizedAddr : Address) (buffer : List Word) : MemBlock × Memory :=
  (⟨realizedAddr, (codeSize buffer).setWidth 64⟩, dobbyCodePatch m realizedAddr buffer)

/-- `FinalizeFromTurboAssembler` of code that has no address yet. -/
def finalizeFromTurboAssembler (os : Os) (m : Memory) (buffer : List Word) :
    Option (MemBlock × Memory) :=
  (allocateExecBlock os m (codeSize buffer)).map fun r => realize r.2 r.1.addr buffer

/-! ## Trampolines -/

/-- `ARM64_B_XXX_RANGE` -/
def branchRange : Nat := (1 <<< 25) <<< 2

/-- The address of a near block for code, or 0. -/
def allocateNearExecMemory (os : Os) (m : Memory) (size : BitVec 32) (pos : Address) :
    Address × Memory :=
  match allocateNearBlock os m size pos (BitVec.ofNat 64 branchRange) true with
  | (some b, m') => (b.addr, m')
  | (none, m') => (0, m')

/-- A block of three words is asked for first; where ADRP does not reach, another one. -/
def generateFastForwardTrampoline (os : Os) (m : Memory) (src dst : Address) :
    Option MemBlock × Memory :=
  let (trampMem, m₁) := allocateNearExecMemory os m (3 * 4) src
  if trampMem = 0 then (none, m₁)
  else if distance trampMem dst < adrpRange then
    let (code, m₂) := realize m₁ trampMem (adrpBranch trampMem dst).buffer
    (some code, m₂)
  else
    let (trampMem', m₂) := allocateNearExecMemory os m₁ (codeSize (movBranch dst).buffer) src
    if trampMem' = 0 then (none, m₂)
    else
      let (code, m₃) := realize m₂ trampMem' (movBranch dst).buffer
      (some code, m₃)

def generateNearTrampolineBuffer (os : Os) (m : Memory) (src dst : Address) :
    Option (List Word) × Memory :=
  if distance dst src < branchRange then (some (nearBranch (dst - src)), m)
  else
    match generateFastForwardTrampoline os m src dst with
    | (some code, m') => (some (nearBranch (code.addr - src)), m')
    | (none, m') => (none, m')

/-- `InterceptRouting::GenerateTrampolineBuffer` -/
def generateTrampolineBuffer (os : Os) (p : Process) (src dst : Address) : List Word × Memory :=
  if p.nearBranchTrampoline then
    match generateNearTrampolineBuffer os p.memory src dst with
    | (some buffer, m) => (buffer, m)
    | (none, m) => (generateNormalTrampolineBuffer src dst, m)
  else (generateNormalTrampolineBuffer src dst, p.memory)

/-! ## Hooking -/

/-- The relocated code of so many instructions, and the instructions. -/
def generateRelocatedCode (os : Os) (m : Memory) (patchedAddr : Address) (n : Nat) :
    Option (MemBlock × List Word × Memory) :=
  match reloRelocate (loadWords m.bytes patchedAddr n) patchedAddr true with
  | none => none
  | some r =>
    (finalizeFromTurboAssembler os m r.code).map fun g =>
      (g.1, loadWords g.2.bytes patchedAddr n, g.2)

/-- What a call gives back; `originFunc` if it has been set. -/
structure Returned where
  code : Int
  originFunc : Option Address
  deriving DecidableEq

/-- The entry is added after its code has been patched. -/
def install (os : Os) (p : Process) (address target : Address)
    (instrument : Option InstructionInstrument) : Option (Process × InterceptEntry) :=
  let (buffer, m) := generateTrampolineBuffer os p address target
  match generateRelocatedCode os m address buffer.length with
  | none => none
  | some (relocated, originInsns, m') =>
    let entry : InterceptEntry := ⟨BitVec.ofNat 32 p.entries.length, ⟨buffer, target, instrument⟩,
      address, relocated.addr, originInsns⟩
    some ({ p with memory := dobbyCodePatch m' address buffer, entries := p.entries ++ [entry] },
      entry)

def dobbyHook (os : Os) (p : Process) (address replaceFunc : Address) :
    Option (Process × Returned) :=
  if address = 0 then some (p, ⟨-1, none⟩)
  else if os.setPermission p.memory (alignFloor address os.pageSize) = false then
    some (p, ⟨-1, none⟩)
  else
    match find p.entries address with
    | some _ => some (p, ⟨-1, none⟩)
    | none =>
      (install os p address replaceFunc none).map fun r => (r.1, ⟨0, some r.2.relocatedAddr⟩)

def dobbyDestroy (p : Process) (address : Address) : Process × Returned :=
  match find p.entries address with
  | some entry =>
    ({ p with memory := dobbyCodePatch p.memory address entry.originInsns,
              entries := remove p.entries address }, ⟨0, none⟩)
  | none => (p, ⟨-1, none⟩)

/-! ## Instrumenting -/

/-- The bridge is made once. -/
def getClosureBridge (os : Os) (p : Process) : Option Process :=
  if p.closureBridge ≠ 0 then some p
  else
    (finalizeFromTurboAssembler os p.memory (closureBridge p.bridgeHandler).buffer).map fun r =>
      { p with memory := r.2, closureBridge := r.1.addr }

def createClosureTrampoline (os : Os) (p : Process) : Option (MemBlock × Process) :=
  match getClosureBridge os p with
  | none => none
  | some p =>
    (finalizeFromTurboAssembler os p.memory
      (closureTrampoline os.trampEntry p.closureBridge).buffer).map fun r =>
        (r.1, { p with memory := r.2 })

def dobbyInstrument (os : Os) (p : Process) (address preHandler : Address) :
    Option (Process × Returned) :=
  if address = 0 then some (p, ⟨-1, none⟩)
  else if os.setPermission p.memory (alignFloor address os.pageSize) = false then
    some (p, ⟨-1, none⟩)
  else
    match find p.entries address with
    | some _ => some (p, ⟨-1, none⟩)
    | none =>
      match createClosureTrampoline os p with
      | none => none
      | some (closure, p) =>
        (install os p address closure.addr (some ⟨preHandler, os.trampEntry⟩)).map fun r =>
          (r.1, ⟨0, none⟩)

/-- `set_routing_bridge_next_hop` -/
def setRoutingBridgeNextHop (ctx : RegisterContext) (address : Address) : RegisterContext :=
  { ctx with x := Function.update ctx.x tmpReg0 address }

/-- `instrument_forward_handler`; the program's callbacks are a parameter. -/
def instrumentForwardHandler (callback : Address → Address → RegisterContext → RegisterContext)
    (entry : InterceptEntry) (ctx : RegisterContext) : RegisterContext :=
  let ctx := match entry.routing.instrument with
    | none => ctx
    | some i => if i.preHandler ≠ 0 then callback i.preHandler entry.patchedAddr ctx else ctx
  setRoutingBridgeNextHop ctx entry.relocatedAddr

/-- `common_closure_bridge_handler` calls `instrument_routing_dispatch`, with the entry that the
`ClosureTrampolineEntry` refers to. -/
def commonClosureBridgeHandler (callback : Address → Address → RegisterContext → RegisterContext)
    (carryData : InterceptEntry) (ctx : RegisterContext) : RegisterContext :=
  instrumentForwardHandler callback carryData ctx

inductive Call where
  | hook (address replaceFunc : Address)
  | instrument (address preHandler : Address)
  | destroy (address : Address)
  | enableNearBranchTrampoline
  | disableNearBranchTrampoline
  deriving DecidableEq

/-- A call, and what it has given back. -/
def call (os : Os) (p : Process) (c : Call) : Option (Process × List (Call × Returned)) :=
  match c with
  | .hook address replaceFunc => (dobbyHook os p address replaceFunc).map fun r => (r.1, [(c, r.2)])
  | .instrument address preHandler =>
    (dobbyInstrument os p address preHandler).map fun r => (r.1, [(c, r.2)])
  | .destroy address => some ((dobbyDestroy p address).1, [(c, (dobbyDestroy p address).2)])
  | .enableNearBranchTrampoline => some ({ p with nearBranchTrampoline := true }, [])
  | .disableNearBranchTrampoline => some ({ p with nearBranchTrampoline := false }, [])

/-- The process, call after call; each call comes with the answers of the system. -/
def interceptor : System Process (Os × Call) (Call × Returned) := ⟨fun p a => call a.1 p a.2⟩

/-- A process before its first hook. -/
def Process.start (bytes : Address → BitVec 8) (bridgeHandler : Address) : Process :=
  ⟨⟨bytes, [], []⟩, [], false, 0, bridgeHandler⟩

end JniDegger.Dobby
