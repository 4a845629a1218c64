import JniDegger.Arm64Assembler

/-!
# Relocating A64 instructions

`relo_relocate` moves the instructions a trampoline is about to overwrite: each one
that names an address relative to the program counter becomes a few that name the
same address absolutely, with X17 for scratch.

`reloRelocate_eq_render` gives the relocated code: the translations of the
instructions one after the other, and the literals behind them.
-/

namespace JniDegger.Arm64Relocation
open A64 Arm64Assembler

/-! ## Decoding -/

/-- `SignExtend(x, M, 64)` -/
def signExtend (x : BitVec 64) (m : Nat) : BitVec 64 :=
  let signBit := x >>> (m - 1) &&& 1#64
  let signMask := 0#64 - signBit
  x ||| ((signMask >>> m) <<< m)

def decodeImm14Offset (instr : Word) : BitVec 64 :=
  signExtend (bits (instr.setWidth 64) 5 18 <<< 2) (2 + 14)

def decodeImm19Offset (instr : Word) : BitVec 64 :=
  signExtend (bits (instr.setWidth 64) 5 23 <<< 2) (2 + 19)

def decodeImm26Offset (instr : Word) : BitVec 64 :=
  signExtend (bits (instr.setWidth 64) 0 25 <<< 2) (2 + 26)

/-- `decode_immhi_immlo_offset`; the bit fields are those of the source's struct. -/
def decodeImmhiImmloOffset (instr : Word) : BitVec 64 :=
  let immlo := (instr.extractLsb' 29 2).setWidth 64
  let immhi := (instr.extractLsb' 5 19).setWidth 64
  signExtend (immlo + immhi <<< 2) (2 + 19)

def decodeImmhiImmloZero12Offset (instr : Word) : BitVec 64 := decodeImmhiImmloOffset instr <<< 12

/-- `decode_rt`, `decode_rd` -/
def decodeRt (instr : Word) : Reg := (bits (instr.setWidth 64) 0 4).setWidth 5

def instIsBBl (instr : Word) : Bool := instr &&& 0x7C000000 == 0x14000000

def instIsLdrLiteral (instr : Word) : Bool := instr &&& 0x3B000000 == 0x18000000

def instIsAdr (instr : Word) : Bool :=
  instr &&& 0x1F000000 == 0x10000000 && instr &&& 0x9F000000 == 0x10000000

def instIsAdrp (instr : Word) : Bool :=
  instr &&& 0x1F000000 == 0x10000000 && instr &&& 0x9F000000 == 0x90000000

def instIsBCond (instr : Word) : Bool := instr &&& 0xFE000000 == 0x54000000

def instIsCompareB (instr : Word) : Bool := instr &&& 0x7E000000 == 0x34000000

def instIsTestB (instr : Word) : Bool := instr &&& 0x7E000000 == 0x36000000

/-! ## The loop -/

/-- `ldr TMP_REG_0, =label`, through a label that has just been appended. -/
def ldrNewLabel (a : Assembler) : Assembler :=
  a.ldrLabel tmpReg0 (a.dataLabels.length - 1)

/-- A conditional branch: the opposite branch, over a jump through a literal. -/
def skipOrJump (a : Assembler) (branchInstr : Word) (dstVmaddr : Address) : Assembler :=
  (ldrNewLabel ((a.appendRelocLabel dstVmaddr).emit branchInstr)).br tmpReg0

/-- One round of the loop, with the address the instruction comes from; `none` is
`UNIMPLEMENTED`, which aborts. -/
def relocateInst (a : Assembler) (vmaddr : Address) (inst : Word) : Option Assembler :=
  if instIsBBl inst then
    let a := ldrNewLabel (a.appendRelocLabel (vmaddr + decodeImm26Offset inst))
    some (if inst &&& 0xFC000000 = 0x94000000 then a.blr tmpReg0 else a.br tmpReg0)
  else if instIsLdrLiteral inst then
    let rt := decodeRt inst
    let opc := bits (inst.setWidth 64) 30 31
    let a := a.mov tmpReg0 (vmaddr + decodeImm19Offset inst)
    -- `ldr` takes the operation of an X register, also for `W(rt)`
    if opc = 0b00 then some (a.ldr rt tmpReg0 0)
    else if opc = 0b01 then some (a.ldr rt tmpReg0 0)
    else none
  else if instIsAdr inst then
    some (a.mov (decodeRt inst) (vmaddr + decodeImmhiImmloOffset inst))
  else if instIsAdrp inst then
    some (a.mov (decodeRt inst)
      ((vmaddr + decodeImmhiImmloZero12Offset inst) &&& ~~~0xFFF#64))
  else if instIsBCond inst then
    let cond := bits (inst.setWidth 64) 0 3 ^^^ 1#64
    let branchInstr := setBits (setBits inst 0 3 cond) 5 23 (12#64 >>> 2)
    some (skipOrJump a branchInstr (vmaddr + decodeImm19Offset inst))
  else if instIsCompareB inst then
    let op := (inst >>> 24 &&& 1#32) ^^^ 1#32
    let branchInstr := setBits (setBit inst 24 op) 5 23 (12#64 >>> 2)
    some (skipOrJump a branchInstr (vmaddr + decodeImm19Offset inst))
  else if instIsTestB inst then
    let op := (inst >>> 24 &&& 1#32) ^^^ 1#32
    let branchInstr := setBits (setBit inst 24 op) 5 18 (12#64 >>> 2)
    some (skipOrJump a branchInstr (vmaddr + decodeImm14Offset inst))
  else some (a.emit inst)

/-- The loop: the assembler after it, and `relocated_offset_map`, entry by entry. -/
def relocateLoop (a : Assembler) (vmaddr : Address) : List Word → Option (Assembler × List Nat)
  | [] => some (a, [])
  | inst :: insts =>
    match relocateInst a vmaddr inst with
    | none => none
    | some a' => (relocateLoop a' (vmaddr + 4#64) insts).map fun r => (r.1, a.bufferSize :: r.2)

/-- The relocated code with `relocated_offset_map`. -/
structure Relocated where
  code : List Word
  relocatedOffsetMap : List Nat
  deriving DecidableEq

/-- `relo_relocate` of the instructions at `srcVmaddr`. -/
def reloRelocate (insts : List Word) (srcVmaddr : Address) (branch : Bool) : Option Relocated :=
  match relocateLoop .new srcVmaddr insts with
  | none => none
  | some (a, offsets) =>
    let a := if branch then a.literalLdrBranch (srcVmaddr + BitVec.ofNat 64 (4 * insts.length))
      else a
    some ⟨a.relocBind.buffer, offsets⟩

/-! ## The translation, instruction by instruction -/

def moveWideWord (rd : Reg) (imm : BitVec 64) (hw : Nat) (op : Word) : Word :=
  0x12800000 ||| op ||| 0x80000000 ||| leftShift (BitVec.ofNat 64 hw) 2 21 |||
    leftShift imm 16 5 ||| rd.setWidth 32

def movItems (rd : Reg) (imm : BitVec 64) : List Item :=
  [.word (moveWideWord rd (imm &&& 0xffff#64) 0 0x40000000),
    .word (moveWideWord rd (imm >>> 16 &&& 0xffff#64) 1 0x60000000),
    .word (moveWideWord rd (imm >>> 32 &&& 0xffff#64) 2 0x60000000),
    .word (moveWideWord rd (imm >>> 48) 3 0x60000000)]

def brWord (rn : Reg) : Word := 0xD61F0000 ||| rn.setWidth 32 <<< 5

def blrWord (rn : Reg) : Word := 0xD63F0000 ||| rn.setWidth 32 <<< 5

def ldrWord (rt rn : Reg) : Word :=
  0xF9400000 ||| leftShift ((0#64).sshiftRight 3) 12 10 ||| rn.setWidth 32 <<< 5 ||| rt.setWidth 32

/-- What one instruction turns into, with the literals it needs; `k` is its next label. -/
def translate (k : Nat) (vmaddr : Address) (inst : Word) :
    Option (List Item × List (BitVec 64)) :=
  if instIsBBl inst then
    some ([.load tmpReg0 k,
        .word (if inst &&& 0xFC000000 = 0x94000000 then blrWord tmpReg0 else brWord tmpReg0)],
      [vmaddr + decodeImm26Offset inst])
  else if instIsLdrLiteral inst then
    if bits (inst.setWidth 64) 30 31 = 0 ∨ bits (inst.setWidth 64) 30 31 = 1 then
      some (movItems tmpReg0 (vmaddr + decodeImm19Offset inst) ++
        [.word (ldrWord (decodeRt inst) tmpReg0)], [])
    else none
  else if instIsAdr inst then
    some (movItems (decodeRt inst) (vmaddr + decodeImmhiImmloOffset inst), [])
  else if instIsAdrp inst then
    some (movItems (decodeRt inst)
      ((vmaddr + decodeImmhiImmloZero12Offset inst) &&& ~~~0xFFF#64), [])
  else if instIsBCond inst then
    some ([.word (setBits (setBits inst 0 3 (bits (inst.setWidth 64) 0 3 ^^^ 1#64)) 5 23 (12#64 >>> 2)),
      .load tmpReg0 k, .word (brWord tmpReg0)], [vmaddr + decodeImm19Offset inst])
  else if instIsCompareB inst then
    some ([.word (setBits (setBit inst 24 ((inst >>> 24 &&& 1#32) ^^^ 1#32)) 5 23 (12#64 >>> 2)),
      .load tmpReg0 k, .word (brWord tmpReg0)], [vmaddr + decodeImm19Offset inst])
  else if instIsTestB inst then
    some ([.word (setBits (setBit inst 24 ((inst >>> 24 &&& 1#32) ^^^ 1#32)) 5 18 (12#64 >>> 2)),
      .load tmpReg0 k, .word (brWord tmpReg0)], [vmaddr + decodeImm14Offset inst])
  else some ([.word inst], [])

section Emitted

variable {a : Assembler} {items : List Item} {data : List (BitVec 64)}

theorem Assembles.mov (h : Assembles a items data) (rd : Reg) (imm : BitVec 64) :
    Assembles (a.mov rd imm) (items ++ movItems rd imm) data := by
  have := (((h.emit (moveWideWord rd (imm &&& 0xffff#64) 0 0x40000000)).emit
    (moveWideWord rd (imm >>> 16 &&& 0xffff#64) 1 0x60000000)).emit
    (moveWideWord rd (imm >>> 32 &&& 0xffff#64) 2 0x60000000)).emit
    (moveWideWord rd (imm >>> 48) 3 0x60000000)
  simpa [movItems, Assembler.mov, Assembler.movz, Assembler.movk, Assembler.moveWide,
    moveWideWord] using this

theorem Assembles.ldrNewLabel {d : BitVec 64} (h : Assembles a items (data ++ [d])) :
    Assembles (ldrNewLabel a) (items ++ [.load tmpReg0 data.length]) (data ++ [d]) := by
  have hlen : a.dataLabels.length - 1 = data.length := by simp [h.dataLabels]
  rw [Arm64Relocation.ldrNewLabel, hlen]
  exact h.ldrLabel tmpReg0 (by simp)

theorem Assembles.skipOrJump (h : Assembles a items data) (w : Word) (d : BitVec 64) :
    Assembles (skipOrJump a w d)
      (items ++ [.word w, .load tmpReg0 data.length, .word (brWord tmpReg0)]) (data ++ [d]) := by
  have := (Assembles.ldrNewLabel ((h.append d).emit w)).emit (brWord tmpReg0)
  simpa [Arm64Relocation.skipOrJump, Assembler.br, brWord] using this

/-- **One round of the loop emits the translation.** -/
theorem relocateInst_assembles (h : Assembles a items data) (vmaddr : Address) (inst : Word) :
    match relocateInst a vmaddr inst, translate data.length vmaddr inst with
    | some a', some (its, ds) => Assembles a' (items ++ its) (data ++ ds)
    | none, none => True
    | _, _ => False := by
  unfold relocateInst translate
  by_cases hbl : instIsBBl inst = true
  · simp only [hbl, if_true]
    have hload := Assembles.ldrNewLabel (h.append (vmaddr + decodeImm26Offset inst))
    split
    · simpa [Assembler.blr, blrWord] using hload.emit (blrWord tmpReg0)
    · simpa [Assembler.br, brWord] using hload.emit (brWord tmpReg0)
  simp only [hbl, Bool.false_eq_true, if_false]
  by_cases hlit : instIsLdrLiteral inst = true
  · simp only [hlit, if_true]
    have hload := (Assembles.mov h tmpReg0 (vmaddr + decodeImm19Offset inst)).emit
      (ldrWord (decodeRt inst) tmpReg0)
    by_cases h0 : bits (inst.setWidth 64) 30 31 = 0#64
    · simpa [h0, Assembler.ldr, ldrWord] using hload
    · by_cases h1 : bits (inst.setWidth 64) 30 31 = 1#64
      · simpa [h1, Assembler.ldr, ldrWord] using hload
      · simp [h0, h1]
  simp only [hlit, Bool.false_eq_true, if_false]
  by_cases hadr : instIsAdr inst = true
  · simpa [hadr] using Assembles.mov h (decodeRt inst) _
  by_cases hadrp : instIsAdrp inst = true
  · simpa [hadr, hadrp] using Assembles.mov h (decodeRt inst) _
  by_cases hc : instIsBCond inst = true
  · simpa [hadr, hadrp, hc] using Assembles.skipOrJump h _ _
  by_cases hcb : instIsCompareB inst = true
  · simpa [hadr, hadrp, hc, hcb] using Assembles.skipOrJump h _ _
  by_cases htb : instIsTestB inst = true
  · simpa [hadr, hadrp, hc, hcb, htb] using Assembles.skipOrJump h _ _
  · simpa [hadr, hadrp, hc, hcb, htb] using h.emit inst

end Emitted

/-! ## The loop -/

/-- The translations one by one, and all the literals. -/
def translateLoop (k : Nat) (vmaddr : Address) :
    List Word → Option (List (List Item) × List (BitVec 64))
  | [] => some ([], [])
  | inst :: insts =>
    match translate k vmaddr inst with
    | none => none
    | some (its, ds) =>
      (translateLoop (k + ds.length) (vmaddr + 4#64) insts).map fun r => (its :: r.1, ds ++ r.2)

def offsetsFrom (n : Nat) : List (List Item) → List Nat
  | [] => []
  | its :: chunks => 4 * n :: offsetsFrom (n + its.length) chunks

theorem translateLoop_cons {k : Nat} {vmaddr : Address} {inst : Word} {insts : List Word}
    {chunks : List (List Item)} {ds : List (BitVec 64)}
    (h : translateLoop k vmaddr (inst :: insts) = some (chunks, ds)) :
    ∃ its d rest ds', translate k vmaddr inst = some (its, d) ∧
      translateLoop (k + d.length) (vmaddr + 4#64) insts = some (rest, ds') ∧
      chunks = its :: rest ∧ ds = d ++ ds' := by
  rw [translateLoop] at h
  split at h
  · cases h
  · next its d hone =>
    obtain ⟨⟨rest, ds'⟩, hrest, he⟩ := Option.map_eq_some_iff.mp h
    cases he
    exact ⟨its, d, rest, ds', hone, hrest, rfl, rfl⟩

theorem relocateLoop_assembles {a a' : Assembler} {items : List Item} {data : List (BitVec 64)}
    (h : Assembles a items data) {vmaddr : Address} {insts : List Word} {offsets : List Nat}
    (hloop : relocateLoop a vmaddr insts = some (a', offsets)) :
    ∃ chunks ds, translateLoop data.length vmaddr insts = some (chunks, ds) ∧
      Assembles a' (items ++ chunks.flatten) (data ++ ds) ∧
      offsets = offsetsFrom items.length chunks := by
  induction insts generalizing a items data vmaddr offsets with
  | nil =>
    cases hloop
    exact ⟨[], [], rfl, by simpa using h, rfl⟩
  | cons inst insts ih =>
    have hone := relocateInst_assembles h vmaddr inst
    rw [relocateLoop] at hloop
    cases hr : relocateInst a vmaddr inst with
    | none => simp [hr] at hloop
    | some b =>
      cases ht : translate data.length vmaddr inst with
      | none => simp [hr, ht] at hone
      | some r =>
        obtain ⟨its, d⟩ := r
        rw [hr, ht] at hone
        rw [hr] at hloop
        obtain ⟨⟨a'', offs⟩, hrest, he⟩ := Option.map_eq_some_iff.mp hloop
        cases he
        obtain ⟨chunks, ds, hloop', hass, hoffs⟩ := ih hone hrest
        rw [List.length_append] at hloop' hoffs
        have hsize : a.bufferSize = 4 * items.length := by
          rw [Assembler.bufferSize, h.buffer, List.length_map]
        refine ⟨its :: chunks, d ++ ds, by simp [translateLoop, ht, hloop'], ?_, ?_⟩
        · simpa using hass
        · rw [offsetsFrom, hsize, hoffs]

/-- The code that `LiteralLdrBranch` puts at the end. -/
def jumpItems (k : Nat) : List Item := [.load tmpReg0 k, .word (brWord tmpReg0)]

theorem Assembles.literalLdrBranch {a : Assembler} {items : List Item} {data : List (BitVec 64)}
    (h : Assembles a items data) (d : BitVec 64) :
    Assembles (a.literalLdrBranch d) (items ++ jumpItems data.length) (data ++ [d]) := by
  have := (Assembles.ldrNewLabel (h.append d)).emit (brWord tmpReg0)
  simpa [Assembler.literalLdrBranch, Arm64Relocation.ldrNewLabel, Assembler.br, brWord,
    jumpItems] using this

/-- **The relocated code**, when a jump back is asked for. -/
theorem reloRelocate_eq_render {insts : List Word} {src : Address} {r : Relocated}
    (h : reloRelocate insts src true = some r) :
    ∃ chunks ds, translateLoop 0 src insts = some (chunks, ds) ∧
      r.code = render (chunks.flatten ++ jumpItems ds.length)
        (ds ++ [src + BitVec.ofNat 64 (4 * insts.length)]) ∧
      r.relocatedOffsetMap = offsetsFrom 0 chunks := by
  rw [reloRelocate] at h
  split at h
  · cases h
  · next a offsets hloop =>
    cases h
    obtain ⟨chunks, ds, htrans, hass, hoffs⟩ := relocateLoop_assembles Assembles.new hloop
    simp only [List.nil_append] at hass
    exact ⟨chunks, ds, htrans, relocBind_buffer (Assembles.literalLdrBranch hass _), hoffs⟩

end JniDegger.Arm64Relocation
