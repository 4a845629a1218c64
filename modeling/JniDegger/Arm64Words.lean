import JniDegger.Arm64Relocation

/-!
# The words the relocation reads and writes

Proved here: the offsets it decodes are those of the instruction set
(`signExtend_bits`, `decodeImmhiImmloOffset_eq`,
`decodeImmhiImmloZero12Offset_eq`), and the words it emits decode to the
instructions meant: the opposite branch (`decode_oppositeCond`,
`decode_oppositeCompare`, `decode_oppositeTest`), a load aimed at its literal
(`decode_aimed`), halfword moves, register branches.
-/

namespace JniDegger.Arm64Relocation
open A64 Arm64Assembler

/-! ## What the emitted words are -/

/-- `SignExtend` extends the sign, if nothing is set above it. -/
theorem signExtend_eq (x : BitVec 64) {m : Nat} (hm : 0 < m)
    (hx : ∀ i, m ≤ i → x.getLsbD i = false) : signExtend x m = (x.setWidth m).signExtend 64 := by
  have hbit : x >>> (m - 1) &&& 1#64 = if x.getLsbD (m - 1) then 1#64 else 0#64 := by
    apply BitVec.eq_of_getLsbD_eq
    intro i hi
    rw [BitVec.getLsbD_and, BitVec.getLsbD_ushiftRight, BitVec.getLsbD_one]
    cases i with
    | zero => cases x.getLsbD (m - 1) <;> simp
    | succ i => split <;> simp
  have hmsb : (x.setWidth m).msb = x.getLsbD (m - 1) := by
    rw [BitVec.msb_setWidth]
    simp [hm]
  apply BitVec.eq_of_getLsbD_eq
  intro i hi
  rw [BitVec.getLsbD_signExtend, hmsb, signExtend, hbit]
  by_cases him : i < m
  · split <;> simp [him, hi]
  · have hplace : m + (i - m) = i := by omega
    rw [if_neg him]
    cases hs : x.getLsbD (m - 1)
    · simpa [hi] using hx i (by omega)
    · have hmask : 0#64 - 1#64 = BitVec.allOnes 64 := by decide
      rw [if_pos rfl, hmask, BitVec.getLsbD_or, hx i (by omega), BitVec.getLsbD_shiftLeft,
        BitVec.getLsbD_ushiftRight, BitVec.getLsbD_allOnes, hplace]
      simp [hi, him]

theorem getLsbD_submask {x : Nat} (hx : x < 63) (i : Nat) :
    (submask x).getLsbD i = decide (i ≤ x) := by
  have hlt : 2 ^ (x + 1) < 2 ^ 64 := Nat.pow_lt_pow_right (by decide) (by omega)
  have hpos : 0 < 2 ^ (x + 1) := Nat.two_pow_pos _
  have hval : (submask x).toNat = 2 ^ (x + 1) - 1 := by
    rw [submask, ← BitVec.twoPow_eq, BitVec.toNat_sub, BitVec.toNat_twoPow_of_lt (by omega)]
    generalize 2 ^ (x + 1) = y at hlt hpos ⊢
    have hone : (1#64).toNat = 1 := rfl
    rw [hone]
    omega
  rw [BitVec.getLsbD, hval, Nat.testBit_two_pow_sub_one]
  exact decide_eq_decide.mpr Nat.lt_succ_iff

theorem getLsbD_bits (x : BitVec 64) {st fn : Nat} (h : fn - st < 63) (i : Nat) :
    (bits x st fn).getLsbD i = (x.getLsbD (st + i) && decide (i ≤ fn - st)) := by
  rw [bits, BitVec.getLsbD_and, BitVec.getLsbD_ushiftRight, getLsbD_submask h]

theorem field_eq {w : Word} {st n : Nat} {v : BitVec n}
    (h : ∀ i < n, w.getLsbD (st + i) = v.getLsbD i) : w.extractLsb' st n = v := by
  apply BitVec.eq_of_getLsbD_eq
  intro i hi
  rw [BitVec.getLsbD_extractLsb', h i hi, decide_eq_true hi, Bool.true_and]

/-- **The decoded offsets**, whatever the width of the field. -/
theorem signExtend_bits (w : Word) (st : Nat) {n : Nat} (hn : n < 62) :
    signExtend (bits (w.setWidth 64) st (st + n) <<< 2) (n + 1 + 2) =
      offset (w.extractLsb' st (n + 1)) := by
  have hn' : st + n - st < 63 := by omega
  have hfield : (bits (w.setWidth 64) st (st + n) <<< 2).setWidth (n + 1 + 2) =
      w.extractLsb' st (n + 1) ++ 0#2 := by
    apply BitVec.eq_of_getLsbD_eq
    intro i hi
    rw [BitVec.getLsbD_setWidth, BitVec.getLsbD_shiftLeft, getLsbD_bits _ hn',
      BitVec.getLsbD_append, BitVec.getLsbD_extractLsb', BitVec.getLsbD_setWidth]
    by_cases h2 : i < 2
    · simp [h2]
    · have h64 : i < 64 := by omega
      have hle : i - 2 ≤ n := by omega
      have hle' : i - 2 < n + 1 := by omega
      simp only [hi, h64, h2, hle, hle', Nat.add_sub_cancel_left, decide_true, Bool.true_and,
        Bool.and_true, decide_false, Bool.not_false]
      by_cases h32 : st + (i - 2) < 64
      · simp [h32]
      · rw [BitVec.getLsbD_of_ge w _ (by omega)]
        simp
  rw [offset, ← hfield]
  refine signExtend_eq _ (by omega) fun i hi => ?_
  rw [BitVec.getLsbD_shiftLeft, getLsbD_bits _ hn']
  have hhigh : decide (i - 2 ≤ st + n - st) = false := by simp; omega
  rw [hhigh, Bool.and_false, Bool.and_false]

theorem decodeImm14Offset_eq (w : Word) : decodeImm14Offset w = offset (w.extractLsb' 5 14) :=
  signExtend_bits w 5 (n := 13) (by decide)

theorem decodeImm19Offset_eq (w : Word) : decodeImm19Offset w = offset (w.extractLsb' 5 19) :=
  signExtend_bits w 5 (n := 18) (by decide)

theorem decodeImm26Offset_eq (w : Word) : decodeImm26Offset w = offset (w.extractLsb' 0 26) :=
  signExtend_bits w 0 (n := 25) (by decide)

theorem decodeRt_eq (w : Word) : decodeRt w = w.extractLsb' 0 5 := by
  symm
  refine field_eq fun i hi => ?_
  rw [decodeRt, BitVec.getLsbD_setWidth, getLsbD_bits _ (by decide), BitVec.getLsbD_setWidth]
  have h64 : i < 64 := by omega
  have hle : i ≤ 4 - 0 := by omega
  simp [hi, h64, hle]

theorem decodeImmhiImmloOffset_eq (w : Word) :
    decodeImmhiImmloOffset w = (w.extractLsb' 5 19 ++ w.extractLsb' 29 2).signExtend 64 := by
  generalize hhi : w.extractLsb' 5 19 = immhi
  generalize hlo : w.extractLsb' 29 2 = immlo
  have hsum : immlo.setWidth 64 + immhi.setWidth 64 <<< 2 = (immhi ++ immlo).setWidth 64 := by
    rw [BitVec.add_eq_or_of_and_eq_zero]
    · apply BitVec.eq_of_getLsbD_eq
      intro i hi
      rw [BitVec.getLsbD_or, BitVec.getLsbD_shiftLeft, BitVec.getLsbD_setWidth,
        BitVec.getLsbD_setWidth, BitVec.getLsbD_setWidth, BitVec.getLsbD_append]
      by_cases h2 : i < 2
      · simp [h2, hi]
      · rw [BitVec.getLsbD_of_ge immlo i (by omega)]
        have : i - 2 < 64 := by omega
        simp [h2, hi, this]
    · apply BitVec.eq_of_getLsbD_eq
      intro i hi
      rw [BitVec.getLsbD_and, BitVec.getLsbD_shiftLeft, BitVec.getLsbD_setWidth]
      by_cases h2 : i < 2
      · simp [h2]
      · rw [BitVec.getLsbD_of_ge immlo i (by omega)]
        simp
  simp only [decodeImmhiImmloOffset, hhi, hlo, hsum]
  rw [signExtend_eq _ (by decide)]
  · congr 1
    apply BitVec.eq_of_getLsbD_eq
    intro i hi
    simp [hi]
  · intro i hi
    rw [BitVec.getLsbD_setWidth, BitVec.getLsbD_of_ge _ _ (by omega), Bool.and_false]

theorem trunc_page (x : Address) : x &&& ~~~0xFFF#64 = (x >>> 12) <<< 12 := by
  apply BitVec.eq_of_getLsbD_eq
  intro i hi
  rw [BitVec.getLsbD_shiftLeft, BitVec.getLsbD_ushiftRight, BitVec.getLsbD_and,
    BitVec.getLsbD_not]
  have hmask : (0xFFF#64).getLsbD i = decide (i < 12) := by
    have : (0xFFF#64).getLsbD i = Nat.testBit (2 ^ 12 - 1) i := rfl
    rw [this, Nat.testBit_two_pow_sub_one]
  rw [hmask]
  by_cases h12 : i < 12
  · simp [h12]
  · have : 12 + (i - 12) = i := by omega
    simp [h12, hi, this]

/-- A whole number of pages may be added before or after. -/
theorem trunc_page_add (x y : BitVec 64) :
    (x + y <<< 12) &&& ~~~0xFFF#64 = (x &&& ~~~0xFFF#64) + y <<< 12 := by
  rw [trunc_page, trunc_page]
  apply BitVec.eq_of_toNat_eq
  simp only [BitVec.toNat_shiftLeft, BitVec.toNat_ushiftRight, BitVec.toNat_add,
    Nat.shiftLeft_eq, Nat.shiftRight_eq_div_pow]
  have hx := x.isLt
  have hy := y.isLt
  omega

theorem decodeImmhiImmloZero12Offset_eq (w : Word) (x : Address) :
    (x + decodeImmhiImmloZero12Offset w) &&& ~~~0xFFF#64 = (x &&& ~~~0xFFF#64) +
      (w.extractLsb' 5 19 ++ w.extractLsb' 29 2 ++ 0#12).signExtend 64 := by
  rw [decodeImmhiImmloZero12Offset, trunc_page_add, decodeImmhiImmloOffset_eq]
  congr 1
  generalize w.extractLsb' 5 19 ++ w.extractLsb' 29 2 = imm
  apply BitVec.eq_of_getLsbD_eq
  intro i hi
  rw [BitVec.getLsbD_shiftLeft, BitVec.getLsbD_signExtend, BitVec.getLsbD_signExtend,
    BitVec.getLsbD_append, BitVec.msb_append]
  by_cases h12 : i < 12
  · have : i < 19 + 2 + 12 := by omega
    simp [h12, hi, this]
  · by_cases h33 : i < 19 + 2 + 12
    · have h21 : i - 12 < 19 + 2 := by omega
      have h64 : i - 12 < 64 := by omega
      simp [h12, hi, h33, h21, h64]
    · have h21 : ¬ i - 12 < 19 + 2 := by omega
      have h64 : i - 12 < 64 := by omega
      simp [h12, hi, h33, h21, h64]

/-! ## Words with fields replaced -/

theorem getLsbD_setBits (w : Word) {st fn : Nat} (h : fn - st < 63) (b : BitVec 64) {i : Nat}
    (hi : i < 32) : (setBits w st fn b).getLsbD i =
      if st ≤ i then (w.getLsbD i && decide (fn - st < i - st)) || b.getLsbD (i - st)
      else w.getLsbD i := by
  have h64 : i < 64 := by omega
  rw [setBits, BitVec.getLsbD_setWidth, BitVec.getLsbD_or, BitVec.getLsbD_and,
    BitVec.getLsbD_not, BitVec.getLsbD_shiftLeft, BitVec.getLsbD_shiftLeft, getLsbD_submask h,
    BitVec.getLsbD_setWidth]
  by_cases hst : st ≤ i
  · have : ¬ i < st := by omega
    by_cases hle : i - st ≤ fn - st
    · have hnlt : ¬ fn - st < i - st := by omega
      simp [hst, hi, h64, this, hle, hnlt]
    · have hlt : fn - st < i - st := by omega
      simp [hst, hi, h64, this, hle, hlt]
  · have : i < st := by omega
    simp [hst, hi, h64, this]

/-- The branch on the opposite condition, over the next two words. -/
def oppositeCond (w : Word) : Word :=
  setBits (setBits w 0 3 (bits (w.setWidth 64) 0 3 ^^^ 1#64)) 5 23 (12#64 >>> 2)

/-- CBNZ for CBZ and back, over the next two words. -/
def oppositeCompare (w : Word) : Word :=
  setBits (setBit w 24 ((w >>> 24 &&& 1#32) ^^^ 1#32)) 5 23 (12#64 >>> 2)

/-- TBNZ for TBZ and back, over the next two words. -/
def oppositeTest (w : Word) : Word :=
  setBits (setBit w 24 ((w >>> 24 &&& 1#32) ^^^ 1#32)) 5 18 (12#64 >>> 2)

theorem getLsbD_flipOp (w : Word) {i : Nat} (hi : i < 32) :
    (setBit w 24 ((w >>> 24 &&& 1#32) ^^^ 1#32)).getLsbD i =
      if i = 24 then !w.getLsbD 24 else w.getLsbD i := by
  interval_cases i <;> simp [setBit]

theorem getLsbD_oppositeCond (w : Word) {i : Nat} (hi : i < 32) :
    (oppositeCond w).getLsbD i =
      if i = 0 then !w.getLsbD 0 else if 5 ≤ i ∧ i ≤ 23 then decide (i ≤ 6)
      else w.getLsbD i := by
  rw [oppositeCond, getLsbD_setBits _ (by decide) _ hi, getLsbD_setBits _ (by decide) _ hi,
    BitVec.getLsbD_xor, getLsbD_bits _ (by decide)]
  interval_cases i <;> simp

theorem getLsbD_oppositeCompare (w : Word) {i : Nat} (hi : i < 32) :
    (oppositeCompare w).getLsbD i =
      if i = 24 then !w.getLsbD 24 else if 5 ≤ i ∧ i ≤ 23 then decide (i ≤ 6)
      else w.getLsbD i := by
  rw [oppositeCompare, getLsbD_setBits _ (by decide) _ hi, getLsbD_flipOp w hi]
  interval_cases i <;> simp

theorem getLsbD_oppositeTest (w : Word) {i : Nat} (hi : i < 32) :
    (oppositeTest w).getLsbD i =
      if i = 24 then !w.getLsbD 24 else if 5 ≤ i ∧ i ≤ 18 then decide (i ≤ 6)
      else w.getLsbD i := by
  rw [oppositeTest, getLsbD_setBits _ (by decide) _ hi, getLsbD_flipOp w hi]
  interval_cases i <;> simp

/-- A replacement elsewhere leaves the class of the word alone. -/
theorem same_class {w w' mask key : Word} (h : w &&& mask = key)
    (hsame : ∀ i < 32, mask.getLsbD i = true → w'.getLsbD i = w.getLsbD i) :
    w' &&& mask = key := by
  rw [← h]
  apply BitVec.eq_of_getLsbD_eq
  intro i hi
  rw [BitVec.getLsbD_and, BitVec.getLsbD_and]
  cases hm : mask.getLsbD i
  · simp
  · rw [hsame i hi hm]

theorem decode_oppositeCond {w : Word} (h : w &&& 0xFF000000 = 0x54000000) :
    decode (oppositeCond w) = .branchCond (w.extractLsb' 0 4 ^^^ 1#4) 3 := by
  have hclass : oppositeCond w &&& 0xFF000000 = 0x54000000 := by
    refine same_class h fun i hi hm => ?_
    rw [getLsbD_oppositeCond w hi]
    interval_cases i <;> simp at hm ⊢
  have hcond : (oppositeCond w).extractLsb' 0 4 = w.extractLsb' 0 4 ^^^ 1#4 := by
    refine field_eq fun i hi => ?_
    rw [getLsbD_oppositeCond w (by omega)]
    interval_cases i <;> simp
  have himm : (oppositeCond w).extractLsb' 5 19 = 3 := by
    refine field_eq fun i hi => ?_
    rw [getLsbD_oppositeCond w (by omega)]
    interval_cases i <;> simp
  rw [decode_branchCond hclass, hcond, himm]

theorem decode_oppositeCompare {w : Word} (h : w &&& 0x7E000000 = 0x34000000) :
    decode (oppositeCompare w) =
      .compareBranch (w.getLsbD 31) (!w.getLsbD 24) 3 (w.extractLsb' 0 5) := by
  have hclass : oppositeCompare w &&& 0x7E000000 = 0x34000000 := by
    refine same_class h fun i hi hm => ?_
    rw [getLsbD_oppositeCompare w hi]
    interval_cases i <;> simp at hm ⊢
  have himm : (oppositeCompare w).extractLsb' 5 19 = 3 := by
    refine field_eq fun i hi => ?_
    rw [getLsbD_oppositeCompare w (by omega)]
    interval_cases i <;> simp
  have hrt : (oppositeCompare w).extractLsb' 0 5 = w.extractLsb' 0 5 := by
    refine field_eq fun i hi => ?_
    rw [getLsbD_oppositeCompare w (by omega)]
    interval_cases i <;> simp
  rw [decode_compareBranch hclass, himm, hrt, getLsbD_oppositeCompare w (by decide),
    getLsbD_oppositeCompare w (by decide)]
  rfl

theorem decode_oppositeTest {w : Word} (h : w &&& 0x7E000000 = 0x36000000) :
    decode (oppositeTest w) = .testBranch (!w.getLsbD 24)
      (w.extractLsb' 31 1 ++ w.extractLsb' 19 5) 3 (w.extractLsb' 0 5) := by
  have hclass : oppositeTest w &&& 0x7E000000 = 0x36000000 := by
    refine same_class h fun i hi hm => ?_
    rw [getLsbD_oppositeTest w hi]
    interval_cases i <;> simp at hm ⊢
  have himm : (oppositeTest w).extractLsb' 5 14 = 3 := by
    refine field_eq fun i hi => ?_
    rw [getLsbD_oppositeTest w (by omega)]
    interval_cases i <;> simp
  have hrt : (oppositeTest w).extractLsb' 0 5 = w.extractLsb' 0 5 := by
    refine field_eq fun i hi => ?_
    rw [getLsbD_oppositeTest w (by omega)]
    interval_cases i <;> simp
  have hb5 : (oppositeTest w).extractLsb' 31 1 = w.extractLsb' 31 1 := by
    refine field_eq fun i hi => ?_
    rw [getLsbD_oppositeTest w (by omega)]
    interval_cases i
    simp
  have hb40 : (oppositeTest w).extractLsb' 19 5 = w.extractLsb' 19 5 := by
    refine field_eq fun i hi => ?_
    rw [getLsbD_oppositeTest w (by omega)]
    interval_cases i <;> simp
  rw [decode_testBranch hclass, himm, hrt, hb5, hb40, getLsbD_oppositeTest w (by decide)]
  rfl

/-! ## Words built from fields -/

theorem decode_brWord (rn : Reg) : decode (brWord rn) = .br rn := by
  have hclass : brWord rn &&& 0xFFFFFC1F = 0xD61F0000 := by
    apply BitVec.eq_of_getLsbD_eq
    intro i hi
    interval_cases i <;> simp [brWord]
  have hrn : (brWord rn).extractLsb' 5 5 = rn := by
    refine field_eq fun i hi => ?_
    interval_cases i <;> simp [brWord]
  rw [decode_br hclass, hrn]

theorem decode_blrWord (rn : Reg) : decode (blrWord rn) = .blr rn := by
  have hclass : blrWord rn &&& 0xFFFFFC1F = 0xD63F0000 := by
    apply BitVec.eq_of_getLsbD_eq
    intro i hi
    interval_cases i <;> simp [blrWord]
  have hrn : (blrWord rn).extractLsb' 5 5 = rn := by
    refine field_eq fun i hi => ?_
    interval_cases i <;> simp [blrWord]
  rw [decode_blr hclass, hrn]

theorem decode_ldrWord (rt : Reg) {rn : Reg} (hn : rn ≠ 31) :
    decode (ldrWord rt rn) = .loadX 0 rn rt := by
  have hclass : ldrWord rt rn &&& 0xFFC00000 = 0xF9400000 := by
    apply BitVec.eq_of_getLsbD_eq
    intro i hi
    interval_cases i <;> simp [ldrWord, leftShift]
  have himm : (ldrWord rt rn).extractLsb' 10 12 = 0 := by
    refine field_eq fun i hi => ?_
    interval_cases i <;> simp [ldrWord, leftShift]
  have hrn : (ldrWord rt rn).extractLsb' 5 5 = rn := by
    refine field_eq fun i hi => ?_
    interval_cases i <;> simp [ldrWord, leftShift]
  have hrt : (ldrWord rt rn).extractLsb' 0 5 = rt := by
    refine field_eq fun i hi => ?_
    interval_cases i <;> simp [ldrWord, leftShift]
  rw [decode_loadX hclass (by rwa [hrn]), himm, hrn, hrt]

/-- The bits of a move: its fixed part, the halfword's number, the halfword and the register. -/
theorem getLsbD_moveWideWord (rd : Reg) (imm : BitVec 64) (hw : Nat) (op : Word) {i : Nat}
    (hi : i < 32) : (moveWideWord rd imm hw op).getLsbD i =
      ((0x92800000#32 ||| op).getLsbD i ||
        decide (21 ≤ i ∧ i ≤ 22) && hw.testBit (i - 21) ||
        decide (5 ≤ i ∧ i ≤ 20) && imm.getLsbD (i - 5) ||
        decide (i ≤ 4) && rd.getLsbD i) := by
  have hnat : ∀ (j : Nat) (hj : j < 32), (BitVec.ofNat 32 hw)[j] = hw.testBit j := by
    intro j hj
    rw [← BitVec.getLsbD_eq_getElem, BitVec.getLsbD_ofNat, decide_eq_true hj, Bool.true_and]
  rw [moveWideWord]
  interval_cases i <;> simp [leftShift, hnat]

theorem decode_movzWord (rd : Reg) (imm : BitVec 64) :
    decode (moveWideWord rd imm 0 0x40000000) = .movz 0 (imm.extractLsb' 0 16) rd := by
  have hclass : moveWideWord rd imm 0 0x40000000 &&& 0xFF800000 = 0xD2800000 := by
    apply BitVec.eq_of_getLsbD_eq
    intro i hi
    rw [BitVec.getLsbD_and, getLsbD_moveWideWord _ _ _ _ hi]
    interval_cases i <;> simp
  have hhw : (moveWideWord rd imm 0 0x40000000).extractLsb' 21 2 = 0 := by
    refine field_eq fun i hi => ?_
    rw [getLsbD_moveWideWord _ _ _ _ (by omega)]
    interval_cases i <;> simp
  have himm : (moveWideWord rd imm 0 0x40000000).extractLsb' 5 16 = imm.extractLsb' 0 16 := by
    refine field_eq fun i hi => ?_
    rw [getLsbD_moveWideWord _ _ _ _ (by omega), BitVec.getLsbD_extractLsb']
    interval_cases i <;> simp
  have hrd : (moveWideWord rd imm 0 0x40000000).extractLsb' 0 5 = rd := by
    refine field_eq fun i hi => ?_
    rw [getLsbD_moveWideWord _ _ _ _ (by omega)]
    interval_cases i <;> simp
  rw [decode_movz hclass, hhw, himm, hrd]

theorem decode_movkWord (rd : Reg) (imm : BitVec 64) (hw : Nat) :
    decode (moveWideWord rd imm hw 0x60000000) =
      .movk (BitVec.ofNat 2 hw) (imm.extractLsb' 0 16) rd := by
  have hclass : moveWideWord rd imm hw 0x60000000 &&& 0xFF800000 = 0xF2800000 := by
    apply BitVec.eq_of_getLsbD_eq
    intro i hi
    rw [BitVec.getLsbD_and, getLsbD_moveWideWord _ _ _ _ hi]
    interval_cases i <;> simp
  have hhw : (moveWideWord rd imm hw 0x60000000).extractLsb' 21 2 = BitVec.ofNat 2 hw := by
    refine field_eq fun i hi => ?_
    rw [getLsbD_moveWideWord _ _ _ _ (by omega), BitVec.getLsbD_ofNat]
    interval_cases i <;> simp
  have himm : (moveWideWord rd imm hw 0x60000000).extractLsb' 5 16 = imm.extractLsb' 0 16 := by
    refine field_eq fun i hi => ?_
    rw [getLsbD_moveWideWord _ _ _ _ (by omega), BitVec.getLsbD_extractLsb']
    interval_cases i <;> simp
  have hrd : (moveWideWord rd imm hw 0x60000000).extractLsb' 0 5 = rd := by
    refine field_eq fun i hi => ?_
    rw [getLsbD_moveWideWord _ _ _ _ (by omega)]
    interval_cases i <;> simp
  rw [decode_movk hclass, hhw, himm, hrd]

theorem getLsbD_aimed (rt : Reg) (off : BitVec 64) {i : Nat} (hi : i < 32) :
    (encodeImm19Offset (loadWord rt) off).getLsbD i =
      if 5 ≤ i ∧ i ≤ 23 then off.getLsbD (i - 3) else (loadWord rt).getLsbD i := by
  rw [encodeImm19Offset, getLsbD_setBits _ (by decide) _ hi, getLsbD_bits _ (by decide),
    BitVec.getLsbD_sshiftRight]
  interval_cases i <;> simp

theorem decode_aimed (rt : Reg) (off : BitVec 64) :
    decode (encodeImm19Offset (loadWord rt) off) =
      .loadLiteral 1 false (off.extractLsb' 2 19) rt := by
  have hclass : encodeImm19Offset (loadWord rt) off &&& 0x3B000000 = 0x18000000 := by
    apply BitVec.eq_of_getLsbD_eq
    intro i hi
    rw [BitVec.getLsbD_and, getLsbD_aimed _ _ hi]
    interval_cases i <;> simp [loadWord]
  have hopc : (encodeImm19Offset (loadWord rt) off).extractLsb' 30 2 = 1 := by
    refine field_eq fun i hi => ?_
    rw [getLsbD_aimed _ _ (by omega)]
    interval_cases i <;> simp [loadWord]
  have hv : (encodeImm19Offset (loadWord rt) off).getLsbD 26 = false := by
    rw [getLsbD_aimed _ _ (by decide)]
    simp [loadWord]
  have himm : (encodeImm19Offset (loadWord rt) off).extractLsb' 5 19 = off.extractLsb' 2 19 := by
    refine field_eq fun i hi => ?_
    rw [getLsbD_aimed _ _ (by omega), BitVec.getLsbD_extractLsb']
    interval_cases i <;> simp
  have hrt : (encodeImm19Offset (loadWord rt) off).extractLsb' 0 5 = rt := by
    refine field_eq fun i hi => ?_
    rw [getLsbD_aimed _ _ (by omega)]
    interval_cases i <;> simp [loadWord]
  rw [decode_loadLiteral hclass, hopc, hv, himm, hrt]

theorem offset_forward {m : Nat} (hm : m < 2 ^ 18) :
    offset ((BitVec.ofNat 64 (4 * m)).extractLsb' 2 19) = BitVec.ofNat 64 (4 * m) := by
  have hfield : (BitVec.ofNat 64 (4 * m)).extractLsb' 2 19 = BitVec.ofNat 19 m := by
    apply BitVec.eq_of_toNat_eq
    simp only [BitVec.extractLsb'_toNat, BitVec.toNat_ofNat, Nat.shiftRight_eq_div_pow]
    omega
  have happend : BitVec.ofNat 19 m ++ 0#2 = BitVec.ofNat (19 + 2) (4 * m) := by
    apply BitVec.eq_of_toNat_eq
    rw [BitVec.toNat_append]
    simp only [BitVec.toNat_ofNat, Nat.shiftLeft_eq, Nat.zero_mod, Nat.or_zero]
    omega
  have hmsb : (BitVec.ofNat (19 + 2) (4 * m)).msb = false := by
    rw [BitVec.msb_eq_decide]
    simp only [BitVec.toNat_ofNat, decide_eq_false_iff_not]
    omega
  rw [hfield, offset, happend, BitVec.signExtend_eq_setWidth_of_msb_false hmsb]
  apply BitVec.eq_of_toNat_eq
  simp only [BitVec.toNat_setWidth, BitVec.toNat_ofNat]
  omega

end JniDegger.Arm64Relocation
