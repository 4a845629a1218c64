import JniDegger.Arm64Trampoline
import JniDegger.StackFrames

/-!
# Dobby's closure trampolines

An instrumented function jumps to a trampoline of its own, which puts the address of
its `ClosureTrampolineEntry` on the stack and calls the bridge.  The bridge saves the
registers as a `DobbyRegisterContext`, hands it to `common_closure_bridge_handler`,
loads the registers back from it and returns; the trampoline goes on to where X17
points then.

The code is emitted as the source emits it; `Spells` reads it back as instructions
on a frame.
-/

namespace JniDegger.Arm64Assembler
open A64

/-! ## Instructions -/

def sp : Reg := 31#5

namespace Assembler

def sub (a : Assembler) (rd rn : Reg) (imm : BitVec 64) : Assembler :=
  a.emit (0xD1000000 ||| rd.setWidth 32 ||| rn.setWidth 32 <<< 5 ||| leftShift imm 12 10)

/-- `str(rt, MemOperand(rn, offset))`, through `LoadStore`. -/
def str (a : Assembler) (rt rn : Reg) (offset : BitVec 64) : Assembler :=
  a.emit (0xF9000000 ||| leftShift (offset.sshiftRight 3) 12 10 ||| rn.setWidth 32 <<< 5 |||
    rt.setWidth 32)

/-- `LoadStorePair`; the scale is that of the registers. -/
def loadStorePair (a : Assembler) (op addrmodeop : Word) (scale : Nat) (rt rt2 rn : Reg)
    (offset : BitVec 64) : Assembler :=
  a.emit (op ||| addrmodeop ||| leftShift (offset.sshiftRight scale) 7 15 |||
    rt2.setWidth 32 <<< 10 ||| rn.setWidth 32 <<< 5 ||| rt.setWidth 32)

def stp (a : Assembler) (rt rt2 rn : Reg) (offset : BitVec 64) : Assembler :=
  a.loadStorePair 0x80000000 0x29000000 3 rt rt2 rn offset

/-- `stp` of vector registers -/
def stpQ (a : Assembler) (rt rt2 rn : Reg) (offset : BitVec 64) : Assembler :=
  a.loadStorePair 0x84000000 0x29000000 4 rt rt2 rn offset

/-- `ldp`, `PostIndex` -/
def ldp (a : Assembler) (rt rt2 rn : Reg) (offset : BitVec 64) : Assembler :=
  a.loadStorePair 0x80400000 0x28800000 3 rt rt2 rn offset

/-- `ldp` of vector registers, `PostIndex` -/
def ldpQ (a : Assembler) (rt rt2 rn : Reg) (offset : BitVec 64) : Assembler :=
  a.loadStorePair 0x84400000 0x28800000 4 rt rt2 rn offset

def ret (a : Assembler) : Assembler := a.emit 0xD65F03C0

/-- `mov(rd, SP)` -/
def movSp (a : Assembler) (rd : Reg) : Assembler := a.add rd sp 0

def callFunction (a : Assembler) (function : Address) : Assembler :=
  (a.mov tmpReg0 function).blr tmpReg0

/-- `AssemblerPseudoLabel(0)`; these labels are known by their places, too. -/
def pseudoLabel (a : Assembler) : Assembler := a.appendRelocLabel 0

def pseudoBind (a : Assembler) (label : Nat) : Assembler :=
  match a.dataLabels[label]? with
  | none => a
  | some l =>
    let l := { l with pos := a.bufferSize }
    ⟨linkConfusedInstructions a.buffer l, a.dataLabels.set label l⟩

def emitInt64 (a : Assembler) (value : BitVec 64) : Assembler :=
  { a with buffer := a.buffer ++ dataWords value }

end Assembler

end JniDegger.Arm64Assembler

namespace JniDegger.Dobby
open A64 Arm64Assembler Arm64Relocation

/-! ## The code -/

/-- The bridge up to the call. -/
def saveRegisters (a : Assembler) : Assembler :=
  a
    |>.sub sp sp (8 * 16)
    |>.stpQ 6 7 sp (6 * 16)
    |>.stpQ 4 5 sp (4 * 16)
    |>.stpQ 2 3 sp (2 * 16)
    |>.stpQ 0 1 sp (0 * 16)
    |>.sub sp sp (30 * 8)
    |>.stp 29 30 sp (28 * 8)
    |>.stp 27 28 sp (26 * 8)
    |>.stp 25 26 sp (24 * 8)
    |>.stp 23 24 sp (22 * 8)
    |>.stp 21 22 sp (20 * 8)
    |>.stp 19 20 sp (18 * 8)
    |>.stp 17 18 sp (16 * 8)
    |>.stp 15 16 sp (14 * 8)
    |>.stp 13 14 sp (12 * 8)
    |>.stp 11 12 sp (10 * 8)
    |>.stp 9 10 sp (8 * 8)
    |>.stp 7 8 sp (6 * 8)
    |>.stp 5 6 sp (4 * 8)
    |>.stp 3 4 sp (2 * 8)
    |>.stp 1 2 sp (0 * 8)
    |>.sub sp sp (2 * 8)
    |>.str 0 sp 8
    |>.add tmpReg0 sp (2 * 8)
    |>.add tmpReg0 tmpReg0 (2 * 8 + 30 * 8 + 8 * 16)
    |>.sub sp sp (2 * 8)
    |>.str tmpReg0 sp 8
    |>.movSp 0
    |>.ldr 1 sp (784 - 24 * 16)

/-- The bridge behind the call. -/
def restoreRegisters (a : Assembler) : Assembler :=
  a
    |>.add sp sp (2 * 8)
    |>.ldr 0 sp 8
    |>.add sp sp (2 * 8)
    |>.ldp 1 2 sp 16
    |>.ldp 3 4 sp 16
    |>.ldp 5 6 sp 16
    |>.ldp 7 8 sp 16
    |>.ldp 9 10 sp 16
    |>.ldp 11 12 sp 16
    |>.ldp 13 14 sp 16
    |>.ldp 15 16 sp 16
    |>.ldp 17 18 sp 16
    |>.ldp 19 20 sp 16
    |>.ldp 21 22 sp 16
    |>.ldp 23 24 sp 16
    |>.ldp 25 26 sp 16
    |>.ldp 27 28 sp 16
    |>.ldp 29 30 sp 16
    |>.ldpQ 0 1 sp 32
    |>.ldpQ 2 3 sp 32
    |>.ldpQ 4 5 sp 32
    |>.ldpQ 6 7 sp 32
    |>.ret

/-- `get_closure_bridge`, without the full floating-point register pack. -/
def closureBridge (commonClosureBridgeHandler : Address) : Assembler :=
  restoreRegisters ((saveRegisters .new).callFunction commonClosureBridgeHandler)

/-- The code of `CreateClosureTrampoline`; label 0 is `entry_label`, label 1 is
`forward_bridge_label`. -/
def closureTrampoline (trampEntry bridge : Address) : Assembler :=
  Assembler.new.pseudoLabel.pseudoLabel
    |>.sub sp sp (2 * 8)
    |>.str 30 sp 8
    |>.ldrLabel tmpReg0 0
    |>.str tmpReg0 sp 0
    |>.ldrLabel tmpReg0 1
    |>.blr tmpReg0
    |>.ldr 30 sp 8
    |>.add sp sp (2 * 8)
    |>.br tmpReg0
    |>.pseudoBind 0
    |>.emitInt64 trampEntry
    |>.pseudoBind 1
    |>.emitInt64 bridge

/-! ## The register context -/

/-- `DobbyRegisterContext` without its dummies; `fp` and `lr` are X29 and X30.  Of the vector
registers only q0 to q7 are saved. -/
@[ext]
structure RegisterContext where
  sp : Address
  x : Reg → BitVec 64
  q : Reg → BitVec 128

/-- The context at an address; what is not in it reads as 0. -/
def contextAt (mem : Address → BitVec 8) (ctx : Address) : RegisterContext where
  sp := read64 mem (slotAt ctx 1)
  x r := if r = 31#5 then 0 else read64 mem (slotAt ctx (3 + r.toNat))
  q r :=
    if r.toNat < 8 then
      read64 mem (slotAt ctx (35 + 2 * r.toNat)) ++ read64 mem (slotAt ctx (34 + 2 * r.toNat))
    else 0

/-! ## The code read back -/

def saveInsns : List FrameInsn :=
  [.sub 128 31 31, .stpQ 6 31 6 7, .stpQ 4 31 4 5, .stpQ 2 31 2 3, .stpQ 0 31 0 1,
    .sub 240 31 31, .stp 28 31 29 30, .stp 26 31 27 28, .stp 24 31 25 26, .stp 22 31 23 24,
    .stp 20 31 21 22, .stp 18 31 19 20, .stp 16 31 17 18, .stp 14 31 15 16, .stp 12 31 13 14,
    .stp 10 31 11 12, .stp 8 31 9 10, .stp 6 31 7 8, .stp 4 31 5 6, .stp 2 31 3 4, .stp 0 31 1 2,
    .sub 16 31 31, .str 1 31 0, .add 16 31 17, .add 384 17 17, .sub 16 31 31, .str 1 31 17,
    .add 0 31 0, .ldr 50 31 1]

def restoreInsns : List FrameInsn :=
  [.add 16 31 31, .ldr 1 31 0, .add 16 31 31, .ldp 2 31 1 2, .ldp 2 31 3 4, .ldp 2 31 5 6,
    .ldp 2 31 7 8, .ldp 2 31 9 10, .ldp 2 31 11 12, .ldp 2 31 13 14, .ldp 2 31 15 16,
    .ldp 2 31 17 18, .ldp 2 31 19 20, .ldp 2 31 21 22, .ldp 2 31 23 24, .ldp 2 31 25 26,
    .ldp 2 31 27 28, .ldp 2 31 29 30, .ldpQ 2 31 0 1, .ldpQ 2 31 2 3, .ldpQ 2 31 4 5,
    .ldpQ 2 31 6 7]

/-- The words of a part of the code and its instructions. -/
def SpellAll (ws : List Word) (is : List FrameInsn) : Prop :=
  List.Forall₂ (fun w i => Spells w i = true) ws is

instance (ws : List Word) (is : List FrameInsn) : Decidable (SpellAll ws is) :=
  inferInstanceAs (Decidable (List.Forall₂ _ ws is))

theorem save_spelled : SpellAll (saveRegisters .new).buffer saveInsns := by decide +kernel

theorem restore_spelled :
    SpellAll ((restoreRegisters .new).buffer.take 22) restoreInsns ∧
      (restoreRegisters .new).buffer = (restoreRegisters .new).buffer.take 22 ++ [0xD65F03C0#32] := by
  decide +kernel

theorem restoreRegisters_buffer (a : Assembler) :
    (restoreRegisters a).buffer = a.buffer ++ (restoreRegisters .new).buffer := by
  simp only [restoreRegisters, Assembler.add, Assembler.ldr, Assembler.ldp, Assembler.ldpQ,
    Assembler.loadStorePair, Assembler.ret, Assembler.emit, Assembler.new, List.append_assoc,
    List.nil_append]

/-- **The parts of the bridge.** -/
theorem closureBridge_buffer (handler : Address) :
    (closureBridge handler).buffer = (saveRegisters .new).buffer ++
      ((movItems tmpReg0 handler).map Item.blank ++
        blrWord tmpReg0 :: (restoreRegisters .new).buffer) := by
  rw [closureBridge, restoreRegisters_buffer]
  simp only [Assembler.callFunction, Assembler.mov, Assembler.movz, Assembler.movk,
    Assembler.moveWide, Assembler.blr, Assembler.emit, List.append_assoc]
  rfl

/-- The trampoline with its two literals behind it. -/
def trampolineItems : List Item :=
  [.word 0xD10043FF#32, .word 0xF90007FE#32, .load tmpReg0 0, .word 0xF90003F1#32, .load tmpReg0 1,
    .word (blrWord tmpReg0), .word 0xF94007FE#32, .word 0x910043FF#32, .word (brWord tmpReg0)]

theorem closureTrampoline_buffer (trampEntry bridge : Address) :
    (closureTrampoline trampEntry bridge).buffer =
      render trampolineItems [trampEntry, bridge] := rfl

end JniDegger.Dobby
