import JniDegger.Arm64Words
import JniDegger.WordMemory

/-!
# Relocated code does what the original does

An instruction and its translation are compared step by step (`Follows`), for each
class of instruction by a lemma of its own, and `follows_block` chains them: the
translations stand one after the other, and the literals are behind the jump back.

`reloRelocate_follows` holds of any block: the relocated code runs the
instructions `relocatedAs` says.  Two kinds are not what they were: a conditional
branch on "always" is not taken any more, and a literal load into a W register or a
vector register becomes one into the X register of the same number.
`relocated_follows` is the case of a block without these.

X17 is not kept, so the instructions behind the first that uses it for scratch must
not look at it (`ScratchFree`).
-/

namespace JniDegger.Arm64Relocation
open A64 Arm64Assembler

variable {ρ : Type*} {A : Arch ρ} {base : Address} {items : List Item} {data : List (BitVec 64)}
  {c d : Core ρ}

/-! ## Running what the assembler wrote -/

theorem render_item {p : Nat} {it : Item} (h : items[p]? = some it) :
    (render items data)[p]? = some (it.aimed items.length p) := by
  have hp := (List.getElem?_eq_some_iff.mp h).1
  rw [render, List.getElem?_append_left (by simpa using hp), List.getElem?_mapIdx, h]
  rfl

theorem render_literal (items : List Item) {k : Nat} {v : BitVec 64} (h : data[k]? = some v) :
    (render items data)[items.length + 2 * k]? = some (v.setWidth 32) ∧
      (render items data)[items.length + 2 * k + 1]? = some ((v >>> 32).setWidth 32) := by
  have hpool : ∀ j, (render items data)[items.length + j]? = (data.flatMap dataWords)[j]? := by
    intro j
    rw [render, List.getElem?_append_right (by simp), List.length_mapIdx,
      Nat.add_sub_cancel_left]
  rw [Nat.add_assoc, hpool, hpool]
  clear hpool
  induction data generalizing k with
  | nil => simp at h
  | cons e data ih =>
    cases k with
    | zero =>
      cases h
      exact ⟨rfl, rfl⟩
    | succ k =>
      have htwo : 2 * (k + 1) = 2 * k + 1 + 1 := by omega
      rw [htwo]
      exact ih h

theorem step_word (hmem : Holds c.mem base (render items data)) {p : Nat} {w : Word}
    (h : items[p]? = some (.word w)) :
    step A ⟨c, wordAt base p⟩ = exec A (decode w) ⟨c, wordAt base p⟩ :=
  hmem.step (render_item h)

/-- A load from a label puts its literal into the register. -/
theorem step_load (hmem : Holds c.mem base (render items data))
    (hsmall : items.length + 2 * data.length < 2 ^ 18) {p k : Nat} {rt : Reg} {v : BitVec 64}
    (h : items[p]? = some (.load rt k)) (hv : data[k]? = some v) :
    step A ⟨c, wordAt base p⟩ = some ⟨c.set rt v, wordAt base (p + 1)⟩ := by
  have hp := (List.getElem?_eq_some_iff.mp h).1
  have hk := (List.getElem?_eq_some_iff.mp hv).1
  obtain ⟨hlo, hhi⟩ := render_literal items hv
  have hdist : BitVec.ofNat 64 (4 * items.length + 8 * k) - BitVec.ofNat 64 (4 * p) =
      BitVec.ofNat 64 (4 * (items.length + 2 * k - p)) := by
    rw [BitVec.ofNat_sub_ofNat_of_le _ _ (by omega) (by omega)]
    congr 1
    omega
  have hplace : p + (items.length + 2 * k - p) = items.length + 2 * k := by omega
  rw [hmem.step (render_item h), Item.aimed, decode_aimed, exec]
  simp only [hdist]
  rw [offset_forward (by omega), wordAt_add, hplace, loadLiteral_x, hmem.read64 hlo hhi, halves,
    wordAt_succ, Option.map_some]

theorem halfwords (v : BitVec 64) :
    ((((v &&& 0xffff#64).extractLsb' 0 16).setWidth 64 <<< (16 * 0) &&&
          ~~~(0xFFFF#64 <<< 16) |||
        ((v >>> 16 &&& 0xffff#64).extractLsb' 0 16).setWidth 64 <<< 16) &&&
          ~~~(0xFFFF#64 <<< 32) |||
        ((v >>> 32 &&& 0xffff#64).extractLsb' 0 16).setWidth 64 <<< 32) &&&
          ~~~(0xFFFF#64 <<< 48) |||
        ((v >>> 48).extractLsb' 0 16).setWidth 64 <<< 48 = v := by
  apply BitVec.eq_of_getLsbD_eq
  intro i hi
  interval_cases i <;> simp

/-- What the second to fourth move of `Mov` do. -/
theorem step_movk (hmem : Holds c.mem base (render items data)) {p q hw : Nat} {rd : Reg}
    {x : BitVec 64} (y : BitVec 64)
    (h : items[p]? = some (.word (moveWideWord rd x hw 0x60000000))) {sh : Nat}
    (hsh : 16 * (BitVec.ofNat 2 hw).toNat = sh) (hq : p + 1 = q) :
    step A ⟨c.set rd y, wordAt base p⟩ = some ⟨c.set rd ((y &&& ~~~(0xFFFF#64 <<< sh)) |||
      (x.extractLsb' 0 16).setWidth 64 <<< sh), wordAt base q⟩ := by
  have hset : Holds (c.set rd y).mem base (render items data) := by
    rw [set_mem]
    exact hmem
  rw [step_word hset h, decode_movkWord, exec]
  simp only [hsh, ← hq, ← wordAt_succ]
  by_cases hrd : rd = 31#5
  · simp [hrd, Core.set]
  · rw [get_set_self c hrd, set_set]

/-- **`Mov` puts the value together.** -/
theorem reaches_mov (hmem : Holds c.mem base (render items data)) {p : Nat} {rd : Reg}
    {imm : BitVec 64} (h : ∀ j it, (movItems rd imm)[j]? = some it → items[p + j]? = some it) :
    Reaches A ⟨c, wordAt base p⟩ ⟨c.set rd imm, wordAt base (p + 4)⟩ := by
  have h0 : step A ⟨c, wordAt base p⟩ = some ⟨c.set rd
      (((imm &&& 0xffff#64).extractLsb' 0 16).setWidth 64 <<< (16 * 0)),
      wordAt base (p + 1)⟩ := by
    rw [step_word (p := p) hmem (h 0 _ rfl), decode_movzWord, ← wordAt_succ]
    rfl
  have h1 := fun y => step_movk (A := A) hmem y (h 1 _ rfl) (rfl : _ = 16) (rfl : _ = p + 2)
  have h2 := fun y => step_movk (A := A) hmem y (h 2 _ rfl) (rfl : _ = 32) (rfl : _ = p + 3)
  have h3 := fun y => step_movk (A := A) hmem y (h 3 _ rfl) (rfl : _ = 48) (rfl : _ = p + 4)
  have hall := Reaches.head h0 (.head (h1 _) (.head (h2 _) (.of_step (h3 _))))
  rwa [halfwords] at hall

theorem reaches_jump (hmem : Holds c.mem base (render items data))
    (hsmall : items.length + 2 * data.length < 2 ^ 18) {p k : Nat} {v : BitVec 64}
    (hload : items[p]? = some (.load tmpReg0 k))
    (hbr : items[p + 1]? = some (.word (brWord tmpReg0))) (hv : data[k]? = some v) :
    Reaches A ⟨c, wordAt base p⟩ ⟨c.set tmpReg0 v, v⟩ := by
  refine .head (step_load hmem hsmall hload hv) (.of_step ?_)
  have hmem' : Holds (c.set tmpReg0 v).mem base (render items data) := by
    rw [set_mem]
    exact hmem
  rw [step_word hmem' hbr, decode_brWord, exec, get_set_self c (by decide)]

theorem reaches_call (hmem : Holds c.mem base (render items data))
    (hsmall : items.length + 2 * data.length < 2 ^ 18) {p k : Nat} {v : BitVec 64}
    (hload : items[p]? = some (.load tmpReg0 k))
    (hblr : items[p + 1]? = some (.word (blrWord tmpReg0))) (hv : data[k]? = some v) :
    Reaches A ⟨c, wordAt base p⟩ ⟨(c.set tmpReg0 v).set 30#5 (wordAt base (p + 2)), v⟩ := by
  refine .head (step_load hmem hsmall hload hv) (.of_step ?_)
  have hmem' : Holds (c.set tmpReg0 v).mem base (render items data) := by
    rw [set_mem]
    exact hmem
  rw [step_word hmem' hblr, decode_blrWord, exec, get_set_self c (by decide), wordAt_succ]

/-! ## One instruction -/

/-- What an instruction is relocated to: a conditional branch that is always taken is turned
into one over the jump, never taken, and every literal load is one of an X register. -/
def relocatedAs : Insn → Insn
  | .branchCond cond imm => if cond = 14#4 ∨ cond = 15#4 then .nop else .branchCond cond imm
  | .loadLiteral _ _ imm rt => .loadLiteral 1#2 false imm rt
  | i => i

def Relocatable : Insn → Prop
  | .branchCond cond _ => cond ≠ 14#4 ∧ cond ≠ 15#4
  | .loadLiteral opc simd _ _ => opc = 1#2 ∧ simd = false
  | _ => True

theorem relocatedAs_of_relocatable {i : Insn} (h : Relocatable i) : relocatedAs i = i := by
  cases i with
  | branchCond cond imm => exact if_neg (not_or.mpr h)
  | loadLiteral opc simd imm rt =>
    obtain ⟨rfl, rfl⟩ := h
    rfl
  | _ => rfl

/-- Whether X17 still is what it would be, after the instruction has been relocated and
has not been left by a branch. -/
def keepsScratch (whole : Bool) : Insn → Bool
  | .loadLiteral _ _ _ rt => rt == tmpReg0
  | _ => whole

/-- From word `p` the relocated code does what instruction `i` did at `vmaddr`, and if that
went on to the next instruction, the relocated code goes on to word `q`.  A call returns to
word `q`. -/
def Follows (A : Arch ρ) (base : Address) (p q : Nat) (whole : Bool) (vmaddr : Address) (i : Insn)
    (c d c' : Core ρ) (pc' : Address) : Prop :=
  if i.leaves c then
    ∃ d', Reaches A ⟨d, wordAt base p⟩ ⟨d', pc'⟩ ∧
      Agree tmpReg0 false (if i.calls then c'.set 30#5 (wordAt base q) else c') d'
  else
    pc' = vmaddr + 4#64 ∧ ∃ d', Reaches A ⟨d, wordAt base p⟩ ⟨d', wordAt base q⟩ ∧
      Agree tmpReg0 (keepsScratch whole i) c' d'

variable {whole : Bool} {vmaddr pc' : Address} {c' : Core ρ} {p k : Nat} {inst : Word}

theorem Follows.leave {q : Nat} {i : Insn} {d' : Core ρ} (hleaves : i.leaves c = true)
    (hreach : Reaches A ⟨d, wordAt base p⟩ ⟨d', pc'⟩)
    (hagree : Agree tmpReg0 false (if i.calls then c'.set 30#5 (wordAt base q) else c') d') :
    Follows A base p q whole vmaddr i c d c' pc' := by
  rw [Follows, if_pos hleaves]
  exact ⟨d', hreach, hagree⟩

theorem Follows.next {q : Nat} {i : Insn} {d' : Core ρ} (hleaves : i.leaves c = false)
    (hpc : pc' = vmaddr + 4#64) (hreach : Reaches A ⟨d, wordAt base p⟩ ⟨d', wordAt base q⟩)
    (hagree : Agree tmpReg0 (keepsScratch whole i) c' d') :
    Follows A base p q whole vmaddr i c d c' pc' := by
  rw [Follows, hleaves, if_neg Bool.false_ne_true]
  exact ⟨hpc, d', hreach, hagree⟩

theorem follows_branch (hagree : Agree tmpReg0 whole c d)
    (hmem : Holds d.mem base (render items data))
    (hsmall : items.length + 2 * data.length < 2 ^ 18) (hb : instIsBBl inst = true)
    (hload : items[p]? = some (.load tmpReg0 k))
    (hreg : items[p + 1]? = some (.word
      (if inst &&& 0xFC000000 = 0x94000000 then blrWord tmpReg0 else brWord tmpReg0)))
    (hv : data[k]? = some (vmaddr + decodeImm26Offset inst))
    (hexec : exec A (decode inst) ⟨c, vmaddr⟩ = some ⟨c', pc'⟩) :
    Follows A base p (p + 2) whole vmaddr (decode inst) c d c' pc' := by
  have hclass : inst &&& 0x7C000000 = 0x14000000 := by simpa [instIsBBl] using hb
  have hlink : inst &&& 0xFC000000 = 0x94000000 ↔ inst.getLsbD 31 = true := by
    constructor
    · intro h
      simpa using bit_of_mask h 31 (by decide)
    · intro h
      apply BitVec.eq_of_getLsbD_eq
      intro i hi
      rw [BitVec.getLsbD_and]
      have hbit := bit_of_mask hclass i
      interval_cases i <;> simp_all
  rw [decode_branch hclass] at hexec ⊢
  rw [decodeImm26Offset_eq] at hv
  cases hl : inst.getLsbD 31
  · rw [if_neg (by rw [hlink, hl]; simp)] at hreg
    rw [hl] at hexec
    cases hexec
    exact .leave rfl (reaches_jump hmem hsmall hload hreg hv) (hagree.clobber _)
  · rw [if_pos (by rw [hlink, hl])] at hreg
    rw [hl] at hexec
    cases hexec
    refine .leave rfl (reaches_call hmem hsmall hload hreg hv) ?_
    simpa [Insn.calls, set_set] using (hagree.clobber _).set 30#5 _

/-- The opposite branch over a jump. -/
theorem follows_skip (hagree : Agree tmpReg0 whole c d)
    (hmem : Holds d.mem base (render items data))
    (hsmall : items.length + 2 * data.length < 2 ^ 18) {w : Word} {i : Insn} {target : Address}
    (hskip : items[p]? = some (.word w)) (hload : items[p + 1]? = some (.load tmpReg0 k))
    (hbr : items[p + 2]? = some (.word (brWord tmpReg0))) (hv : data[k]? = some target)
    (hstep : exec A (decode w) ⟨d, wordAt base p⟩ =
      some ⟨d, if (decode w).met d then wordAt base (p + 3) else wordAt base (p + 1)⟩)
    (hmet : (decode w).met d = !i.met c) (hleaves : i.leaves c = i.met c)
    (hcalls : i.calls = false) (hkeeps : keepsScratch whole i = whole)
    (hexec : c' = c ∧ pc' = if i.met c then target else vmaddr + 4#64) :
    Follows A base p (p + 3) whole vmaddr i c d c' pc' := by
  obtain ⟨rfl, rfl⟩ := hexec
  rw [← step_word (A := A) hmem hskip, hmet] at hstep
  cases hm : i.met c'
  · rw [hm] at hstep
    exact .next (hleaves.trans hm) (by simp) (.of_step hstep) (by rwa [hkeeps])
  · rw [hm] at hstep
    refine .leave (hleaves.trans hm)
      (.head hstep (reaches_jump hmem hsmall hload hbr (by simpa using hv))) ?_
    simpa [hcalls] using hagree.clobber _

theorem offset_three : offset (3 : BitVec 19) = BitVec.ofNat 64 (4 * 3) ∧
    offset (3 : BitVec 14) = BitVec.ofNat 64 (4 * 3) := by
  decide

theorem follows_branchCond (hagree : Agree tmpReg0 whole c d)
    (hmem : Holds d.mem base (render items data))
    (hsmall : items.length + 2 * data.length < 2 ^ 18) (hb : instIsBCond inst = true)
    (hskip : items[p]? = some (.word (oppositeCond inst)))
    (hload : items[p + 1]? = some (.load tmpReg0 k))
    (hbr : items[p + 2]? = some (.word (brWord tmpReg0)))
    (hv : data[k]? = some (vmaddr + decodeImm19Offset inst))
    (hexec : exec A (relocatedAs (decode inst)) ⟨c, vmaddr⟩ = some ⟨c', pc'⟩) :
    Follows A base p (p + 3) whole vmaddr (relocatedAs (decode inst)) c d c' pc' := by
  have hclass : inst &&& 0xFE000000 = 0x54000000 := by simpa [instIsBCond] using hb
  cases h24 : inst.getLsbD 24
  · have hcond : inst &&& 0xFF000000 = 0x54000000 := by
      apply BitVec.eq_of_getLsbD_eq
      intro i hi
      rw [BitVec.getLsbD_and]
      have hbit := bit_of_mask hclass i
      interval_cases i <;> simp_all
    have hstep : exec A (decode (oppositeCond inst)) ⟨d, wordAt base p⟩ = some ⟨d,
        if (decode (oppositeCond inst)).met d then wordAt base (p + 3)
        else wordAt base (p + 1)⟩ := by
      rw [decode_oppositeCond hcond, exec, offset_three.1, wordAt_add, wordAt_succ]
    rw [decode_branchCond hcond, relocatedAs] at hexec ⊢
    by_cases halways : inst.extractLsb' 0 4 = 14#4 ∨ inst.extractLsb' 0 4 = 15#4
    · rw [if_pos halways] at hexec ⊢
      cases hexec
      have hmet : (decode (oppositeCond inst)).met d = true := by
        rw [decode_oppositeCond hcond]
        exact holds_opposite_always d.flags halways
      rw [hmet, ← step_word hmem hskip] at hstep
      exact .next rfl rfl (.of_step hstep) hagree
    · rw [if_neg halways] at hexec ⊢
      rw [decodeImm19Offset_eq] at hv
      refine follows_skip hagree hmem hsmall hskip hload hbr hv hstep ?_ rfl rfl rfl ?_
      · rw [decode_oppositeCond hcond]
        simp only [Insn.met, hagree.flags]
        exact holds_opposite c.flags (not_or.mp halways).1 (not_or.mp halways).2
      · cases hexec
        exact ⟨rfl, rfl⟩
  · have hcond : inst &&& 0xFF000000 = 0x55000000 := by
      apply BitVec.eq_of_getLsbD_eq
      intro i hi
      rw [BitVec.getLsbD_and]
      have hbit := bit_of_mask hclass i
      interval_cases i <;> simp_all
    rw [decode_unallocated hcond] at hexec
    cases hexec

theorem follows_compareBranch (hagree : Agree tmpReg0 whole c d)
    (hmem : Holds d.mem base (render items data))
    (hsmall : items.length + 2 * data.length < 2 ^ 18) (hb : instIsCompareB inst = true)
    (hob : whole = true ∨ Oblivious A tmpReg0 (decode inst))
    (hskip : items[p]? = some (.word (oppositeCompare inst)))
    (hload : items[p + 1]? = some (.load tmpReg0 k))
    (hbr : items[p + 2]? = some (.word (brWord tmpReg0)))
    (hv : data[k]? = some (vmaddr + decodeImm19Offset inst))
    (hexec : exec A (decode inst) ⟨c, vmaddr⟩ = some ⟨c', pc'⟩) :
    Follows A base p (p + 3) whole vmaddr (decode inst) c d c' pc' := by
  have hclass : inst &&& 0x7E000000 = 0x34000000 := by simpa [instIsCompareB] using hb
  rw [decode_compareBranch hclass] at hexec hob ⊢
  rw [decodeImm19Offset_eq] at hv
  have hget : d.get (inst.extractLsb' 0 5) = c.get (inst.extractLsb' 0 5) :=
    hagree.get (hob.symm.imp_left fun hn he => hn he.symm)
  refine follows_skip hagree hmem hsmall hskip hload hbr hv ?_ ?_ rfl rfl rfl ?_
  · rw [decode_oppositeCompare hclass, exec, offset_three.1, wordAt_add, wordAt_succ]
  · rw [decode_oppositeCompare hclass]
    simp only [Insn.met, hget]
    cases inst.getLsbD 24 <;> simp
  · cases hexec
    exact ⟨rfl, rfl⟩

theorem follows_testBranch (hagree : Agree tmpReg0 whole c d)
    (hmem : Holds d.mem base (render items data))
    (hsmall : items.length + 2 * data.length < 2 ^ 18) (hb : instIsTestB inst = true)
    (hob : whole = true ∨ Oblivious A tmpReg0 (decode inst))
    (hskip : items[p]? = some (.word (oppositeTest inst)))
    (hload : items[p + 1]? = some (.load tmpReg0 k))
    (hbr : items[p + 2]? = some (.word (brWord tmpReg0)))
    (hv : data[k]? = some (vmaddr + decodeImm14Offset inst))
    (hexec : exec A (decode inst) ⟨c, vmaddr⟩ = some ⟨c', pc'⟩) :
    Follows A base p (p + 3) whole vmaddr (decode inst) c d c' pc' := by
  have hclass : inst &&& 0x7E000000 = 0x36000000 := by simpa [instIsTestB] using hb
  rw [decode_testBranch hclass] at hexec hob ⊢
  rw [decodeImm14Offset_eq] at hv
  have hget : d.get (inst.extractLsb' 0 5) = c.get (inst.extractLsb' 0 5) :=
    hagree.get (hob.symm.imp_left fun hn he => hn he.symm)
  refine follows_skip hagree hmem hsmall hskip hload hbr hv ?_ ?_ rfl rfl rfl ?_
  · rw [decode_oppositeTest hclass, exec, offset_three.2, wordAt_add, wordAt_succ]
  · rw [decode_oppositeTest hclass]
    simp only [Insn.met, hget]
    cases inst.getLsbD 24 <;> simp
  · cases hexec
    exact ⟨rfl, rfl⟩

theorem follows_loadLiteral (hagree : Agree tmpReg0 whole c d)
    (hmem : Holds d.mem base (render items data)) (hb : instIsLdrLiteral inst = true)
    (hmov : ∀ j it, (movItems tmpReg0 (vmaddr + decodeImm19Offset inst))[j]? = some it →
      items[p + j]? = some it)
    (hldr : items[p + 4]? = some (.word (ldrWord (decodeRt inst) tmpReg0)))
    (hexec : exec A (relocatedAs (decode inst)) ⟨c, vmaddr⟩ = some ⟨c', pc'⟩) :
    Follows A base p (p + 5) whole vmaddr (relocatedAs (decode inst)) c d c' pc' := by
  have hclass : inst &&& 0x3B000000 = 0x18000000 := by simpa [instIsLdrLiteral] using hb
  rw [decode_loadLiteral hclass, relocatedAs] at hexec ⊢
  have hv : c' = c.set (decodeRt inst) (read64 c.mem (vmaddr + offset (inst.extractLsb' 5 19))) ∧
      pc' = vmaddr + 4#64 := by
    rw [← decodeRt_eq] at hexec
    cases hexec
    exact ⟨rfl, rfl⟩
  obtain ⟨rfl, rfl⟩ := hv
  rw [decodeImm19Offset_eq] at hmov
  generalize vmaddr + offset (inst.extractLsb' 5 19) = a at hmov
  have hmem' : Holds (d.set tmpReg0 a).mem base (render items data) := by
    rw [set_mem]
    exact hmem
  have hlast : step A ⟨d.set tmpReg0 a, wordAt base (p + 4)⟩ =
      some ⟨(d.set tmpReg0 a).set (decodeRt inst) (read64 c.mem a), wordAt base (p + 5)⟩ := by
    rw [step_word hmem' hldr, decode_ldrWord _ (by decide), exec, get_set_self d (by decide),
      set_mem, hagree.mem, wordAt_succ]
    simp
  refine .next rfl rfl ((reaches_mov hmem hmov).trans (.of_step hlast)) ?_
  rw [keepsScratch, ← decodeRt_eq]
  cases hrt : decodeRt inst == tmpReg0
  · exact (hagree.clobber a).set _ _
  · rw [beq_iff_eq] at hrt
    rw [hrt]
    exact (hagree.clobber a).restore (by decide) _

theorem follows_adr (hagree : Agree tmpReg0 whole c d)
    (hmem : Holds d.mem base (render items data)) {rd : Reg} {v : BitVec 64} {i : Insn}
    (hmov : ∀ j it, (movItems rd v)[j]? = some it → items[p + j]? = some it)
    (hi : i.leaves c = false) (hkeeps : keepsScratch whole i = whole)
    (hexec : c' = c.set rd v ∧ pc' = vmaddr + 4#64) :
    Follows A base p (p + 4) whole vmaddr i c d c' pc' := by
  obtain ⟨rfl, rfl⟩ := hexec
  exact .next hi rfl (reaches_mov hmem hmov) (by rw [hkeeps]; exact hagree.set rd v)

theorem follows_copy (hagree : Agree tmpReg0 whole c d)
    (hmem : Holds d.mem base (render items data)) (hpc : (decode inst).pcRelative = false)
    (hob : whole = true ∨ Oblivious A tmpReg0 (decode inst))
    (hcopy : items[p]? = some (.word inst))
    (hexec : exec A (decode inst) ⟨c, vmaddr⟩ = some ⟨c', pc'⟩) :
    Follows A base p (p + 1) whole vmaddr (decode inst) c d c' pc' := by
  have hstep := step_word (A := A) hmem hcopy
  have hkeeps : keepsScratch whole (decode inst) = whole := by
    cases hi : decode inst <;> simp_all [Insn.pcRelative, keepsScratch]
  cases hleaves : (decode inst).leaves c
  · obtain ⟨hnext, d', hd, hagree'⟩ :=
      exec_agree (q := wordAt base p) hpc hob hagree hleaves hexec
    rw [hd, wordAt_succ] at hstep
    exact .next hleaves hnext (.of_step hstep) (by rwa [hkeeps])
  · cases hi : decode inst with
    | br rn =>
      rw [hi] at hexec hob hstep
      have hget : d.get rn = c.get rn := hagree.get (hob.symm.imp_left fun hn he => hn he.symm)
      cases hexec
      refine .leave rfl (.of_step (hstep.trans ?_)) (by simpa [Insn.calls] using hagree.weaken)
      simp [exec, hget]
    | blr rn =>
      rw [hi] at hexec hob hstep
      have hget : d.get rn = c.get rn := hagree.get (hob.symm.imp_left fun hn he => hn he.symm)
      cases hexec
      refine .leave rfl
        (.of_step (t := ⟨d.set 30#5 (wordAt base (p + 1)), _⟩) (hstep.trans ?_)) ?_
      · simp [exec, hget, wordAt_succ]
      · simpa [Insn.calls, set_set] using hagree.weaken.set 30#5 _
    | _ => simp_all [Insn.pcRelative, Insn.leaves]

/-- **One relocated instruction follows the original.** -/
theorem follows_translate {its : List Item} {ds : List (BitVec 64)}
    (ht : translate k vmaddr inst = some (its, ds))
    (hits : ∀ j it, its[j]? = some it → items[p + j]? = some it)
    (hds : ∀ j v, ds[j]? = some v → data[k + j]? = some v)
    (hagree : Agree tmpReg0 whole c d) (hmem : Holds d.mem base (render items data))
    (hsmall : items.length + 2 * data.length < 2 ^ 18)
    (hob : whole = true ∨ Oblivious A tmpReg0 (relocatedAs (decode inst)))
    (hexec : exec A (relocatedAs (decode inst)) ⟨c, vmaddr⟩ = some ⟨c', pc'⟩) :
    Follows A base p (p + its.length) whole vmaddr (relocatedAs (decode inst)) c d c' pc' := by
  unfold translate at ht
  split at ht
  · next hb =>
    cases ht
    have hsame : relocatedAs (decode inst) = decode inst := relocatedAs_of_relocatable (by
      rw [decode_branch (by simpa [instIsBBl] using hb)]
      trivial)
    rw [hsame] at hexec ⊢
    exact follows_branch hagree hmem hsmall hb (hits 0 _ rfl) (hits 1 _ rfl) (hds 0 _ rfl) hexec
  split at ht
  · next hb =>
    split at ht
    · cases ht
      exact follows_loadLiteral hagree hmem hb
        (fun j it hj => hits j it (List.getElem?_append_left
          (List.getElem?_eq_some_iff.mp hj).1 ▸ hj)) (hits 4 _ rfl) hexec
    · cases ht
  split at ht
  · next hb =>
    cases ht
    simp only [instIsAdr, Bool.and_eq_true, beq_iff_eq] at hb
    have hsame : relocatedAs (decode inst) = decode inst := relocatedAs_of_relocatable (by
      rw [decode_adr hb.2]
      trivial)
    rw [hsame, decode_adr hb.2] at hexec ⊢
    refine follows_adr hagree hmem hits rfl rfl ?_
    rw [decodeRt_eq, decodeImmhiImmloOffset_eq]
    cases hexec
    exact ⟨rfl, rfl⟩
  split at ht
  · next hb =>
    cases ht
    simp only [instIsAdrp, Bool.and_eq_true, beq_iff_eq] at hb
    have hsame : relocatedAs (decode inst) = decode inst := relocatedAs_of_relocatable (by
      rw [decode_adrp hb.2]
      trivial)
    rw [hsame, decode_adrp hb.2] at hexec ⊢
    refine follows_adr hagree hmem hits rfl rfl ?_
    rw [decodeRt_eq, decodeImmhiImmloZero12Offset_eq]
    cases hexec
    exact ⟨rfl, rfl⟩
  split at ht
  · next hb =>
    cases ht
    exact follows_branchCond hagree hmem hsmall hb (hits 0 _ rfl) (hits 1 _ rfl)
      (hits 2 _ rfl) (hds 0 _ rfl) hexec
  split at ht
  · next hb =>
    cases ht
    have hsame : relocatedAs (decode inst) = decode inst := relocatedAs_of_relocatable (by
      rw [decode_compareBranch (by simpa [instIsCompareB] using hb)]
      trivial)
    rw [hsame] at hob hexec ⊢
    exact follows_compareBranch hagree hmem hsmall hb hob (hits 0 _ rfl) (hits 1 _ rfl)
      (hits 2 _ rfl) (hds 0 _ rfl) hexec
  split at ht
  · next hb =>
    cases ht
    have hsame : relocatedAs (decode inst) = decode inst := relocatedAs_of_relocatable (by
      rw [decode_testBranch (by simpa [instIsTestB] using hb)]
      trivial)
    rw [hsame] at hob hexec ⊢
    exact follows_testBranch hagree hmem hsmall hb hob (hits 0 _ rfl) (hits 1 _ rfl)
      (hits 2 _ rfl) (hds 0 _ rfl) hexec
  · next hbl hlit hadr hadrp hc hcb htb =>
    cases ht
    simp only [instIsBBl, instIsLdrLiteral, instIsBCond, instIsCompareB, instIsTestB, beq_iff_eq]
      at hbl hlit hc hcb htb
    have hpage : ∀ key : Word, inst &&& 0x9F000000 = key →
        inst &&& 0x1F000000 = key &&& 0x1F000000 := by
      rintro key rfl
      rw [BitVec.and_assoc]
      rfl
    have hpc : (decode inst).pcRelative = false := by
      refine pcRelative_decode hbl hc hcb htb (fun h => hadr ?_) (fun h => hadrp ?_) hlit
      · simp only [instIsAdr, Bool.and_eq_true, beq_iff_eq]
        exact ⟨hpage _ h, h⟩
      · simp only [instIsAdrp, Bool.and_eq_true, beq_iff_eq]
        exact ⟨hpage _ h, h⟩
    have hsame : relocatedAs (decode inst) = decode inst := relocatedAs_of_relocatable (by
      cases hi : decode inst <;> simp_all [Insn.pcRelative, Relocatable])
    rw [hsame] at hob hexec ⊢
    exact follows_copy hagree hmem hpc hob (hits 0 _ rfl) hexec

/-! ## The whole block -/

/-- How a run leaves a block: after so many instructions, perhaps by a call. -/
structure Left (ρ : Type*) where
  core : Core ρ
  pc : Address
  done : Nat
  called : Bool

/-- The instructions at `vmaddr`, one after the other, until one leaves the block or all
have been run. -/
def runBlock (A : Arch ρ) (vmaddr : Address) : List Insn → Core ρ → Option (Left ρ)
  | [], c => some ⟨c, vmaddr, 0, false⟩
  | i :: is, c =>
    match exec A i ⟨c, vmaddr⟩ with
    | none => none
    | some s =>
      if i.leaves c then some ⟨s.core, s.pc, 1, i.calls⟩
      else (runBlock A (vmaddr + 4#64) is s.core).map fun l => { l with done := l.done + 1 }

def visited (A : Arch ρ) (vmaddr : Address) : List Insn → Core ρ → List (Core ρ)
  | [], c => [c]
  | i :: is, c =>
    c :: match exec A i ⟨c, vmaddr⟩ with
      | none => []
      | some s => if i.leaves c then [] else visited A (vmaddr + 4#64) is s.core

/-- Where X17 has been used for scratch, the instructions do not look at it. -/
def ScratchFree (A : Arch ρ) : Bool → List Insn → Prop
  | _, [] => True
  | whole, i :: is => (whole = true ∨ Oblivious A tmpReg0 i) ∧
      ScratchFree A (keepsScratch whole i) is

def relocatedInsns (insts : List Word) : List Insn := insts.map fun w => relocatedAs (decode w)

theorem relocatedInsns_cons (w : Word) (ws : List Word) :
    relocatedInsns (w :: ws) = relocatedAs (decode w) :: relocatedInsns ws := rfl

theorem relocatedInsns_of_relocatable {insts : List Word}
    (h : ∀ w ∈ insts, Relocatable (decode w)) : relocatedInsns insts = insts.map decode :=
  List.map_congr_left fun w hw => relocatedAs_of_relocatable (h w hw)

theorem follows_block {ws : List Word} {chunks : List (List Item)} {ds : List (BitVec 64)}
    {l : Left ρ} (ht : translateLoop k vmaddr ws = some (chunks, ds))
    (hits : ∀ j it, (chunks.flatten ++ jumpItems (k + ds.length))[j]? = some it →
      items[p + j]? = some it)
    (hds : ∀ j v, (ds ++ [wordAt vmaddr ws.length])[j]? = some v → data[k + j]? = some v)
    (hsmall : items.length + 2 * data.length < 2 ^ 18)
    (hfree : ScratchFree A whole (relocatedInsns ws)) (hagree : Agree tmpReg0 whole c d)
    (hmem : ∀ e ∈ visited A vmaddr (relocatedInsns ws) c, Holds e.mem base (render items data))
    (hrun : runBlock A vmaddr (relocatedInsns ws) c = some l) :
    ∃ d', Reaches A ⟨d, wordAt base p⟩ ⟨d', l.pc⟩ ∧
      Agree tmpReg0 false (if l.called then
        l.core.set 30#5 (wordAt base (p + (chunks.take l.done).flatten.length)) else l.core)
        d' := by
  induction ws generalizing k vmaddr chunks ds p c d whole l with
  | nil =>
    cases ht
    cases hrun
    have hd : Holds d.mem base (render items data) := by
      rw [hagree.mem]
      exact hmem c (by simp [relocatedInsns, visited])
    have hv := hds 0 _ rfl
    rw [List.length_nil, wordAt_zero] at hv
    exact ⟨_, reaches_jump hd hsmall (hits 0 _ rfl) (hits 1 _ rfl) hv, hagree.clobber _⟩
  | cons w ws ih =>
    obtain ⟨its, ds₁, rest, ds₂, hone, hrest, rfl, rfl⟩ := translateLoop_cons ht
    have hd : Holds d.mem base (render items data) := by
      rw [hagree.mem]
      exact hmem c (by simp [relocatedInsns_cons, visited])
    rw [relocatedInsns_cons, runBlock] at hrun
    split at hrun
    · cases hrun
    next s hs =>
    obtain ⟨c', pc'⟩ := s
    have hfollow := follows_translate (p := p) hone
      (fun j it hj => hits j it (by
        rw [List.flatten_cons, List.append_assoc, List.getElem?_append_left
          (List.getElem?_eq_some_iff.mp hj).1, hj]))
      (fun j v hj => hds j v (by
        rw [List.append_assoc, List.getElem?_append_left (List.getElem?_eq_some_iff.mp hj).1, hj]))
      hagree hd hsmall hfree.1 hs
    rw [Follows] at hfollow
    split at hrun
    · next hleaves =>
      rw [if_pos hleaves] at hfollow
      cases hrun
      simpa using hfollow
    · next hstays =>
      rw [if_neg hstays] at hfollow
      obtain ⟨rfl, d', hreach, hagree'⟩ := hfollow
      obtain ⟨l', hl', rfl⟩ := Option.map_eq_some_iff.mp hrun
      have hnext : wordAt (vmaddr + 4#64) ws.length = wordAt vmaddr (ws.length + 1) := by
        rw [← wordAt_zero vmaddr, wordAt_succ, wordAt_wordAt, wordAt_wordAt]
        congr 1
        omega
      obtain ⟨d'', hreach', hagree''⟩ := ih (p := p + its.length) hrest
        (fun j it hj => by
          rw [Nat.add_assoc]
          refine hits _ it ?_
          rw [List.flatten_cons, List.append_assoc, List.getElem?_append_right (by omega),
            Nat.add_sub_cancel_left]
          simpa [Nat.add_assoc] using hj)
        (fun j v hj => by
          rw [Nat.add_assoc]
          refine hds _ v ?_
          rw [List.append_assoc, List.getElem?_append_right (by omega), Nat.add_sub_cancel_left,
            List.length_cons, ← hnext]
          exact hj)
        hfree.2 hagree'
        (fun e he => hmem e (by simp [relocatedInsns_cons, visited, hs, hstays, he])) hl'
      refine ⟨d'', hreach.trans hreach', ?_⟩
      simpa [Nat.add_assoc] using hagree''

/-! ## The relocated code -/

theorem translate_size {its : List Item} {ds : List (BitVec 64)}
    (h : translate k vmaddr inst = some (its, ds)) : its.length + 2 * ds.length ≤ 5 := by
  unfold translate at h
  split_ifs at h <;> cases h <;> simp [movItems]

theorem translateLoop_size {ws : List Word} {chunks : List (List Item)} {ds : List (BitVec 64)}
    (h : translateLoop k vmaddr ws = some (chunks, ds)) :
    chunks.flatten.length + 2 * ds.length ≤ 5 * ws.length ∧ chunks.length = ws.length := by
  induction ws generalizing k vmaddr chunks ds with
  | nil => cases h; simp
  | cons w ws ih =>
    obtain ⟨its, ds₁, rest, ds₂, hone, hrest, rfl, rfl⟩ := translateLoop_cons h
    have hsize := translate_size hone
    obtain ⟨hsize', hlen⟩ := ih hrest
    simp only [List.flatten_cons, List.length_append, List.length_cons, hlen, and_true]
    omega

theorem translateLoop_drop {ws : List Word} {chunks : List (List Item)} {ds : List (BitVec 64)}
    (h : translateLoop k vmaddr ws = some (chunks, ds)) {i : Nat} (hi : i ≤ ws.length) :
    ∃ ds₁ ds₂, ds = ds₁ ++ ds₂ ∧
      translateLoop (k + ds₁.length) (wordAt vmaddr i) (ws.drop i) =
        some (chunks.drop i, ds₂) := by
  induction i generalizing k vmaddr ws chunks ds with
  | zero => exact ⟨[], ds, rfl, by simpa using h⟩
  | succ i ih =>
    cases ws with
    | nil => simp at hi
    | cons w ws =>
      obtain ⟨its, d₁, rest, d₂, hone, hrest, rfl, rfl⟩ := translateLoop_cons h
      obtain ⟨ds₁, ds₂, rfl, hdrop⟩ := ih hrest (by simpa using hi)
      refine ⟨d₁ ++ ds₁, ds₂, by simp, ?_⟩
      have hnext : wordAt (vmaddr + 4#64) i = wordAt vmaddr (i + 1) := by
        rw [← wordAt_zero vmaddr, wordAt_succ, wordAt_wordAt, wordAt_wordAt]
        congr 1
        omega
      rw [List.drop_succ_cons, List.drop_succ_cons, List.length_append, ← Nat.add_assoc, ← hnext]
      exact hdrop

theorem reloRelocate_size {insts : List Word} {src : Address} {r : Relocated}
    (h : reloRelocate insts src true = some r) : r.code.length ≤ 5 * insts.length + 4 := by
  obtain ⟨chunks, ds, htrans, hcode, -⟩ := reloRelocate_eq_render h
  obtain ⟨hsize, -⟩ := translateLoop_size htrans
  rw [hcode, render, List.length_append, List.length_mapIdx, length_literals]
  simp only [List.length_append, List.length_cons, List.length_nil, jumpItems] at hsize ⊢
  omega

/-- The map says where the translation of each instruction is. -/
theorem offsetsFrom_getElem? (n : Nat) (chunks : List (List Item)) (i : Nat) :
    (offsetsFrom n chunks)[i]? =
      if i < chunks.length then some (4 * (n + (chunks.take i).flatten.length)) else none := by
  induction chunks generalizing n i with
  | nil => simp [offsetsFrom]
  | cons its chunks ih =>
    cases i with
    | zero => simp [offsetsFrom]
    | succ i =>
      rw [offsetsFrom, List.getElem?_cons_succ, ih]
      simp [Nat.add_assoc]

/-- Where the translation of instruction `i` begins, and behind the last one the jump back. -/
def startOf (chunks : List (List Item)) (i : Nat) : Nat := (chunks.take i).flatten.length

/-- **What relocated code does.**  There is a place for every instruction, and for the end of
the block, given by `relocated_offset_map`, such that the relocated code, started at the place
of any instruction, leaves for the same address as the instructions do from there, in the same
state but for X17; a call leaves with the place of the next instruction in X30. -/
theorem reloRelocate_follows {insts : List Word} {src : Address} {r : Relocated}
    (h : reloRelocate insts src true = some r) (hlen : insts.length < 2 ^ 15) (A : Arch ρ)
    (base : Address) :
    ∃ place : Nat → Address, place 0 = base ∧
      (∀ (i o : Nat), r.relocatedOffsetMap[i]? = some o → place i = base + BitVec.ofNat 64 o) ∧
      ∀ i ≤ insts.length, ∀ (whole : Bool) (c d : Core ρ) (l : Left ρ),
        ScratchFree A whole (relocatedInsns (insts.drop i)) → Agree tmpReg0 whole c d →
        (∀ e ∈ visited A (wordAt src i) (relocatedInsns (insts.drop i)) c,
          Holds e.mem base r.code) →
        runBlock A (wordAt src i) (relocatedInsns (insts.drop i)) c = some l →
        ∃ d', Reaches A ⟨d, place i⟩ ⟨d', l.pc⟩ ∧
          Agree tmpReg0 false
            (if l.called then l.core.set 30#5 (place (i + l.done)) else l.core) d' := by
  obtain ⟨chunks, ds, htrans, hcode, hmap⟩ := reloRelocate_eq_render h
  obtain ⟨hsize, hchunks⟩ := translateLoop_size htrans
  refine ⟨fun i => wordAt base (startOf chunks i), by simp [startOf], fun i o ho => ?_,
    fun i hi whole c d l hfree hagree hmem hrun => ?_⟩
  · rw [hmap, offsetsFrom_getElem?] at ho
    split at ho
    · cases ho
      rw [Nat.zero_add]
      rfl
    · cases ho
  · obtain ⟨ds₁, ds₂, rfl, hdrop⟩ := translateLoop_drop htrans hi
    rw [Nat.zero_add] at hdrop
    rw [hcode] at hmem
    have hsplit : chunks.flatten = (chunks.take i).flatten ++ (chunks.drop i).flatten := by
      rw [← List.flatten_append, List.take_append_drop]
    have hsmall : (chunks.flatten ++ jumpItems (ds₁ ++ ds₂).length).length +
        2 * (ds₁ ++ ds₂ ++ [src + BitVec.ofNat 64 (4 * insts.length)]).length < 2 ^ 18 := by
      simp only [List.length_append, List.length_cons, List.length_nil, jumpItems] at hsize ⊢
      omega
    obtain ⟨d', hreach, hagree'⟩ := follows_block (p := startOf chunks i) hdrop
      (fun j it hj => by
        rw [hsplit, List.append_assoc, startOf, List.getElem?_append_right (by omega),
          Nat.add_sub_cancel_left, List.length_append]
        exact hj)
      (fun j v hj => by
        rw [List.append_assoc, List.getElem?_append_right (by omega), Nat.add_sub_cancel_left]
        rw [wordAt_wordAt, List.length_drop, Nat.add_sub_cancel' hi] at hj
        exact hj)
      hsmall hfree hagree hmem hrun
    have hplace : startOf chunks i + ((chunks.drop i).take l.done).flatten.length =
        startOf chunks (i + l.done) := by
      rw [startOf, startOf, List.take_add, List.flatten_append, List.length_append]
    rw [hplace] at hagree'
    exact ⟨d', hreach, hagree'⟩

/-- **Relocated code follows the original**, if each instruction is relocated as it is. -/
theorem relocated_follows {insts : List Word} {src : Address} {r : Relocated}
    (h : reloRelocate insts src true = some r) (hlen : insts.length < 2 ^ 15)
    (hrel : ∀ w ∈ insts, Relocatable (decode w)) (A : Arch ρ) (base : Address) :
    ∃ place : Nat → Address, place 0 = base ∧
      (∀ (i o : Nat), r.relocatedOffsetMap[i]? = some o → place i = base + BitVec.ofNat 64 o) ∧
      ∀ i ≤ insts.length, ∀ (whole : Bool) (c d : Core ρ) (l : Left ρ),
        ScratchFree A whole ((insts.drop i).map decode) → Agree tmpReg0 whole c d →
        (∀ e ∈ visited A (wordAt src i) ((insts.drop i).map decode) c, Holds e.mem base r.code) →
        runBlock A (wordAt src i) ((insts.drop i).map decode) c = some l →
        ∃ d', Reaches A ⟨d, place i⟩ ⟨d', l.pc⟩ ∧
          Agree tmpReg0 false
            (if l.called then l.core.set 30#5 (place (i + l.done)) else l.core) d' := by
  have hsame : ∀ i, relocatedInsns (insts.drop i) = (insts.drop i).map decode := fun i =>
    relocatedInsns_of_relocatable fun w hw => hrel w (List.mem_of_mem_drop hw)
  have hfollows := reloRelocate_follows h hlen A base
  simpa only [hsame] using hfollows

def cbzAndCall : List Word := [0xB4000080#32, 0x94000010#32]

def relocatedCbzAndCall : Relocated :=
  ⟨[3036676192#32, 1476395217#32, 3592356384#32, 1476395217#32, 3594453536#32, 1476395217#32,
    3592356384#32, 0x1010#32, 0#32, 0x1044#32, 0#32, 0x1008#32, 0#32], [0, 12]⟩

def plainArch : Arch Unit := ⟨fun _ c => some c, fun _ _ r => r⟩

def beforeCbz : Core Unit :=
  ⟨fun r => if r = 0#5 then 1#64 else 0#64, ⟨false, false, false, false⟩,
    storeWords (fun _ => 0#8) 0x8000#64 relocatedCbzAndCall.code, ()⟩

theorem relocated_follows_cbzAndCall :
    ∃ place : Nat → Address, place 0 = 0x8000#64 ∧ place 1 = 0x800C#64 ∧
      ∃ d', Reaches plainArch ⟨beforeCbz, 0x8000#64⟩ ⟨d', 0x1044#64⟩ ∧
        Agree tmpReg0 false (beforeCbz.set 30#5 (place 2)) d' := by
  have hrelocate : reloRelocate cbzAndCall 0x1000#64 true = some relocatedCbzAndCall := by decide
  have hinsns : (cbzAndCall.drop 0).map decode =
      [.compareBranch true false 4#19 0#5, .branch true 0x10#26] := by decide
  have hrel : ∀ w ∈ cbzAndCall, Relocatable (decode w) := by
    intro w hw
    have hmem : decode w ∈ (cbzAndCall.drop 0).map decode := List.mem_map_of_mem hw
    rw [hinsns] at hmem
    simp only [List.mem_cons, List.not_mem_nil, or_false] at hmem
    obtain h | h := hmem <;> rw [h] <;> trivial
  obtain ⟨place, hbase, hplaces, hrun⟩ :=
    relocated_follows hrelocate (by decide) hrel plainArch 0x8000#64
  have hholds : Holds beforeCbz.mem 0x8000#64 relocatedCbzAndCall.code :=
    holds_storeWords _ _ (by decide)
  have hvisited : visited plainArch (wordAt 0x1000#64 0) ((cbzAndCall.drop 0).map decode)
      beforeCbz = [beforeCbz, beforeCbz] := by
    rw [hinsns]
    rfl
  obtain ⟨d', hreach, hagree⟩ := hrun 0 (by decide) true beforeCbz beforeCbz
    ⟨beforeCbz.set 30#5 0x1008#64, 0x1044#64, 2, true⟩
    (by rw [hinsns]; exact ⟨.inl rfl, .inl rfl, trivial⟩) (Agree.refl _ _ _)
    (by
      rw [hvisited]
      intro e he
      simp only [List.mem_cons, List.not_mem_nil, or_false, or_self] at he
      rw [he]
      exact hholds)
    (by rw [hinsns]; rfl)
  refine ⟨place, hbase, hplaces 1 12 rfl, d', ?_, ?_⟩
  · rw [← hbase]
    exact hreach
  · simpa [set_set] using hagree

end JniDegger.Arm64Relocation
