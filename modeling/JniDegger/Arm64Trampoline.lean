import JniDegger.Arm64Simulation

/-!
# A64 trampolines

The few instructions written over the start of a hooked function, from where they
jump to its replacement: page and offset when the target is near enough, otherwise
a literal; with the near branch plugin a single branch, over a forwarding
trampoline when that does not reach.

Each form jumps where it should (`trampoline_reaches`, `nearBranch_reaches`,
`movBranch_reaches`), with one exception: a target less than 4 GiB ahead, but
exactly 4 GiB away counted in pages, is out of reach of ADRP, which then goes to
8 GiB before it.
-/

namespace JniDegger.Arm64Trampoline
open A64 Arm64Assembler Arm64Relocation

/-! ## Generating -/

/-- `llabs((int64_t)(from - to))` -/
def distance (src dst : Address) : Nat := (src - dst).toInt.natAbs

def adrpRange : Nat := 1 <<< (2 + 19 + 12 - 1)

/-- adrp, add, br -/
def adrpBranch (src dst : Address) : Assembler := (Assembler.new.adrpAdd tmpReg0 src dst).br tmpReg0

/-- mov, br -/
def movBranch (dst : Address) : Assembler := (Assembler.new.mov tmpReg0 dst).br tmpReg0

def generateNormalTrampolineBuffer (src dst : Address) : List Word :=
  let a := if distance src dst < adrpRange then adrpBranch src dst
    else Assembler.new.literalLdrBranch dst
  a.relocBind.buffer

def nearBranch (imm : BitVec 64) : List Word := (Assembler.new.b imm).buffer

/-! ## The words -/

def adrpWord (rd : Reg) (imm : BitVec 64) : Word :=
  0x90000000 ||| rd.setWidth 32 ||| leftShift (bits (imm.sshiftRight 12) 0 1) 2 29 |||
    leftShift (bits (imm.sshiftRight 12) 2 20) 19 5

def addWord (rd rn : Reg) (imm : BitVec 64) : Word :=
  0x91000000 ||| rd.setWidth 32 ||| rn.setWidth 32 <<< 5 ||| leftShift imm 12 10

def bWord (imm : BitVec 64) : Word :=
  0x14000000 ||| (bits (imm.sshiftRight 2) 0 25).setWidth 32

theorem getLsbD_leftShift (x : BitVec 64) {n : Nat} (hn : n < 63) (st : Nat) {i : Nat} (hi : i < 32) :
    (leftShift x n st).getLsbD i = (decide (st ≤ i ∧ i - st < n) && x.getLsbD (i - st)) := by
  have hmask : (1#64 <<< n - 1#64).getLsbD (i - st) = decide (i - st < n) := by
    cases n with
    | zero => simp
    | succ n =>
      have := getLsbD_submask (x := n) (by omega) (i - st)
      rw [submask] at this
      rw [this]
      exact decide_eq_decide.mpr Nat.lt_succ_iff.symm
  rw [leftShift, BitVec.getLsbD_setWidth, BitVec.getLsbD_shiftLeft, BitVec.getLsbD_and, hmask]
  by_cases hst : st ≤ i
  · have h64 : i < 64 := by omega
    simp [hi, hst, h64, Bool.and_comm]
  · have hlt : i < st := by omega
    simp [hst, hlt]

theorem getLsbD_adrpWord (rd : Reg) (imm : BitVec 64) {i : Nat} (hi : i < 32) :
    (adrpWord rd imm).getLsbD i =
      ((0x90000000#32).getLsbD i || decide (i ≤ 4) && rd.getLsbD i ||
        decide (29 ≤ i ∧ i ≤ 30) && imm.getLsbD (i - 17) ||
        decide (5 ≤ i ∧ i ≤ 23) && imm.getLsbD (i + 9)) := by
  rw [adrpWord, BitVec.getLsbD_or, BitVec.getLsbD_or, BitVec.getLsbD_or,
    getLsbD_leftShift _ (by decide) _ hi, getLsbD_leftShift _ (by decide) _ hi,
    getLsbD_bits _ (by decide), getLsbD_bits _ (by decide), BitVec.getLsbD_sshiftRight,
    BitVec.getLsbD_sshiftRight]
  interval_cases i <;> simp

theorem decode_adrpWord (rd : Reg) (imm : BitVec 64) :
    decode (adrpWord rd imm) = .adrp (imm.extractLsb' 12 21) rd := by
  have hclass : adrpWord rd imm &&& 0x9F000000 = 0x90000000 := by
    apply BitVec.eq_of_getLsbD_eq
    intro i hi
    rw [BitVec.getLsbD_and, getLsbD_adrpWord _ _ hi]
    interval_cases i <;> simp
  have himm : (adrpWord rd imm).extractLsb' 5 19 ++ (adrpWord rd imm).extractLsb' 29 2 =
      imm.extractLsb' 12 21 := by
    apply BitVec.eq_of_getLsbD_eq
    intro i hi
    rw [BitVec.getLsbD_append, BitVec.getLsbD_extractLsb', BitVec.getLsbD_extractLsb',
      BitVec.getLsbD_extractLsb']
    split
    · rw [getLsbD_adrpWord _ _ (by omega)]
      interval_cases i <;> simp
    · rw [getLsbD_adrpWord _ _ (by omega)]
      interval_cases i <;> simp_all
  have hrd : (adrpWord rd imm).extractLsb' 0 5 = rd := by
    refine field_eq fun i hi => ?_
    rw [getLsbD_adrpWord _ _ (by omega)]
    interval_cases i <;> simp
  rw [decode_adrp hclass, himm, hrd]

theorem decode_addWord {rd rn : Reg} (hd : rd ≠ 31) (hn : rn ≠ 31) (imm : BitVec 64) :
    decode (addWord rd rn imm) = .addX (imm.extractLsb' 0 12) rn rd := by
  have hclass : addWord rd rn imm &&& 0xFFC00000 = 0x91000000 := by
    apply BitVec.eq_of_getLsbD_eq
    intro i hi
    interval_cases i <;> simp [addWord, leftShift]
  have himm : (addWord rd rn imm).extractLsb' 10 12 = imm.extractLsb' 0 12 := by
    refine field_eq fun i hi => ?_
    rw [BitVec.getLsbD_extractLsb']
    interval_cases i <;> simp [addWord, leftShift]
  have hrn : (addWord rd rn imm).extractLsb' 5 5 = rn := by
    refine field_eq fun i hi => ?_
    interval_cases i <;> simp [addWord, leftShift]
  have hrd : (addWord rd rn imm).extractLsb' 0 5 = rd := by
    refine field_eq fun i hi => ?_
    interval_cases i <;> simp [addWord, leftShift]
  rw [decode_addX hclass (by rwa [hrn]) (by rwa [hrd]), himm, hrn, hrd]

theorem decode_bWord (imm : BitVec 64) :
    decode (bWord imm) = .branch false (imm.extractLsb' 2 26) := by
  have hbits : ∀ i < 32, (bWord imm).getLsbD i =
      ((0x14000000#32).getLsbD i || decide (i ≤ 25) && imm.getLsbD (i + 2)) := by
    intro i hi
    rw [bWord, BitVec.getLsbD_or, BitVec.getLsbD_setWidth, getLsbD_bits _ (by decide),
      BitVec.getLsbD_sshiftRight]
    interval_cases i <;> simp
  have hclass : bWord imm &&& 0x7C000000 = 0x14000000 := by
    apply BitVec.eq_of_getLsbD_eq
    intro i hi
    rw [BitVec.getLsbD_and, hbits i hi]
    interval_cases i <;> simp
  have hlink : (bWord imm).getLsbD 31 = false := by
    rw [hbits 31 (by decide)]
    simp
  have himm : (bWord imm).extractLsb' 0 26 = imm.extractLsb' 2 26 := by
    refine field_eq fun i hi => ?_
    rw [hbits _ (by omega), BitVec.getLsbD_extractLsb']
    interval_cases i <;> simp
  rw [decode_branch hclass, hlink, himm]

/-! ## Running them -/

def page (a : Address) : Address := a &&& ~~~0xFFF#64

/-- Out of reach of ADRP, though less than 4 GiB away. -/
def PageOverflow (src dst : Address) : Prop := page dst - page src = 0x100000000#64

instance (src dst : Address) : Decidable (PageOverflow src dst) :=
  inferInstanceAs (Decidable (_ = _))

/-- Where adrp, add, br goes. -/
def pageTarget (src dst : Address) : Address :=
  if PageOverflow src dst then dst - 0x200000000#64 else dst

theorem toNat_page (a : Address) : (page a).toNat = a.toNat / 4096 * 4096 := by
  have ha := a.isLt
  rw [page, trunc_page]
  simp only [BitVec.toNat_shiftLeft, BitVec.toNat_ushiftRight, Nat.shiftLeft_eq,
    Nat.shiftRight_eq_div_pow]
  omega

theorem pageOverflow_iff {src dst : Address} :
    PageOverflow src dst ↔ (page dst - page src).toNat = 2 ^ 32 := by
  constructor
  · intro h
    rw [h]
    rfl
  · intro h
    exact BitVec.eq_of_toNat_eq h

theorem toNat_pageTarget (src dst : Address) : (pageTarget src dst).toNat =
    if PageOverflow src dst then (2 ^ 64 - 2 ^ 33 + dst.toNat) % 2 ^ 64 else dst.toNat := by
  rw [pageTarget]
  split
  · rw [BitVec.toNat_sub]
    rfl
  · rfl

theorem distance_lt_iff {src dst : Address} {n : Nat} (hn : n ≤ 2 ^ 63) :
    distance src dst < n ↔
      (src - dst).toNat < n ∨ 2 ^ 64 - n < (src - dst).toNat := by
  have hlt := (src - dst).isLt
  rw [distance, BitVec.toInt_eq_toNat_cond]
  split <;> omega

/-- What ADRP adds to the page, for a whole number of pages. -/
theorem toNat_adrp_offset {imm : BitVec 64} (h : imm.toNat % 4096 = 0) :
    ((imm.extractLsb' 12 21 ++ 0#12).signExtend 64).toNat =
      if imm.toNat % 2 ^ 33 < 2 ^ 32 then imm.toNat % 2 ^ 33
      else imm.toNat % 2 ^ 33 + (2 ^ 64 - 2 ^ 33) := by
  have hfield : (imm.extractLsb' 12 21 ++ 0#12).toNat = imm.toNat % 2 ^ 33 := by
    rw [BitVec.toNat_append, BitVec.extractLsb'_toNat]
    simp only [BitVec.toNat_ofNat, Nat.shiftLeft_eq, Nat.shiftRight_eq_div_pow, Nat.zero_mod,
      Nat.or_zero]
    omega
  rw [BitVec.toNat_signExtend, BitVec.toNat_setWidth, BitVec.msb_eq_decide, hfield]
  simp only [decide_eq_true_eq]
  split <;> split <;> omega

theorem adrp_add {src dst : Address} (h : distance src dst < adrpRange) :
    page src + ((page dst - page src).extractLsb' 12 21 ++ 0#12).signExtend 64 +
      ((dst % 0x1000).extractLsb' 0 12).setWidth 64 = pageTarget src dst := by
  rw [adrpRange, distance_lt_iff (by decide), BitVec.toNat_sub] at h
  have hs := src.isLt
  have hd := dst.isLt
  have hpages : (page dst - page src).toNat % 4096 = 0 := by
    rw [BitVec.toNat_sub, toNat_page, toNat_page]
    omega
  have hlow : (((dst % 0x1000).extractLsb' 0 12).setWidth 64).toNat = dst.toNat % 4096 := by
    have h12 : (0x1000 : Address).toNat = 4096 := rfl
    rw [BitVec.toNat_setWidth, BitVec.extractLsb'_toNat, BitVec.toNat_umod, h12,
      Nat.shiftRight_zero]
    omega
  apply BitVec.eq_of_toNat_eq
  rw [BitVec.toNat_add, BitVec.toNat_add, toNat_adrp_offset hpages, hlow, toNat_page,
    toNat_pageTarget]
  simp only [pageOverflow_iff, BitVec.toNat_sub, toNat_page]
  split <;> split <;> omega

section Reaches

variable {ρ : Type*} {A : Arch ρ} {c : Core ρ} {src dst base : Address}

theorem adrpBranch_buffer (src dst : Address) : (adrpBranch src dst).buffer =
    [adrpWord tmpReg0 (page dst - page src), addWord tmpReg0 tmpReg0 (dst % 0x1000),
      brWord tmpReg0] := rfl

theorem movBranch_buffer (dst : Address) :
    (movBranch dst).buffer = render (movItems tmpReg0 dst ++ [.word (brWord tmpReg0)]) [] := rfl

theorem adrpBranch_reaches (hd : distance src dst < adrpRange)
    (hmem : Holds c.mem src (adrpBranch src dst).buffer) :
    Reaches A ⟨c, src⟩ ⟨c.set tmpReg0 (pageTarget src dst), pageTarget src dst⟩ := by
  rw [adrpBranch_buffer] at hmem
  have hset : ∀ v, Holds (c.set tmpReg0 v).mem src [adrpWord tmpReg0 (page dst - page src),
      addWord tmpReg0 tmpReg0 (dst % 0x1000), brWord tmpReg0] := fun v => by
    rw [set_mem]
    exact hmem
  have hadrp := hmem.step (A := A) (p := 0) rfl
  rw [decode_adrpWord, wordAt_zero] at hadrp
  refine .head hadrp ?_
  have hadd := (hset (page src +
    ((page dst - page src).extractLsb' 12 21 ++ 0#12).signExtend 64)).step (A := A) (p := 1) rfl
  rw [decode_addWord (by decide) (by decide), exec, get_set_self c (by decide), set_set,
    adrp_add hd, wordAt_succ] at hadd
  have hbr := (hset (pageTarget src dst)).step (A := A) (p := 2) rfl
  rw [decode_brWord, exec, get_set_self c (by decide)] at hbr
  have hnext : src + 4#64 = wordAt src 1 := by rw [← wordAt_zero src, wordAt_succ, wordAt_zero]
  simp only [hnext]
  exact .head hadd (.of_step hbr)

theorem movBranch_reaches (hmem : Holds c.mem base (movBranch dst).buffer) :
    Reaches A ⟨c, base⟩ ⟨c.set tmpReg0 dst, dst⟩ := by
  rw [movBranch_buffer] at hmem
  have hmov : Reaches A ⟨c, wordAt base 0⟩ ⟨c.set tmpReg0 dst, wordAt base (0 + 4)⟩ :=
    reaches_mov hmem fun j it hj => by
      rw [Nat.zero_add, List.getElem?_append_left (List.getElem?_eq_some_iff.mp hj).1]
      exact hj
  have hset : Holds (c.set tmpReg0 dst).mem base
      (render (movItems tmpReg0 dst ++ [.word (brWord tmpReg0)]) []) := by
    rw [set_mem]
    exact hmem
  have hbr := step_word (A := A) (p := 4) hset rfl
  rw [decode_brWord, exec, get_set_self c (by decide)] at hbr
  rw [wordAt_zero] at hmov
  exact hmov.trans (.of_step hbr)

def landing (src dst : Address) : Address :=
  if distance src dst < adrpRange then pageTarget src dst else dst

theorem trampoline_buffer (src dst : Address) : generateNormalTrampolineBuffer src dst =
    if distance src dst < adrpRange then (adrpBranch src dst).buffer
    else render (jumpItems 0) [dst] := by
  rw [generateNormalTrampolineBuffer]
  split
  · rfl
  · exact relocBind_buffer (Assembles.literalLdrBranch .new dst)

theorem trampoline_reaches (hmem : Holds c.mem src (generateNormalTrampolineBuffer src dst)) :
    Reaches A ⟨c, src⟩ ⟨c.set tmpReg0 (landing src dst), landing src dst⟩ := by
  rw [trampoline_buffer] at hmem
  rw [landing]
  split at hmem
  · next hd =>
    rw [if_pos hd]
    exact adrpBranch_reaches hd hmem
  · next hd =>
    rw [if_neg hd]
    have hjump := reaches_jump (A := A) (p := 0) (k := 0) hmem (by simp [jumpItems]) rfl rfl rfl
    rwa [wordAt_zero] at hjump

theorem trampoline_size (src dst : Address) :
    (generateNormalTrampolineBuffer src dst).length = 3 ∨
      (generateNormalTrampolineBuffer src dst).length = 4 := by
  rw [trampoline_buffer]
  split
  · exact .inl rfl
  · exact .inr rfl

/-- A branch is exact within 128 MiB, to whole words. -/
theorem offset_branch {imm : BitVec 64} (h : imm.toNat < 2 ^ 27 ∨ 2 ^ 64 - 2 ^ 27 ≤ imm.toNat)
    (h4 : imm.toNat % 4 = 0) : offset (imm.extractLsb' 2 26) = imm := by
  have hlt := imm.isLt
  have hfield : (imm.extractLsb' 2 26 ++ 0#2).toNat = imm.toNat % 2 ^ 28 := by
    rw [BitVec.toNat_append, BitVec.extractLsb'_toNat]
    simp only [BitVec.toNat_ofNat, Nat.shiftLeft_eq, Nat.shiftRight_eq_div_pow, Nat.zero_mod,
      Nat.or_zero]
    omega
  apply BitVec.eq_of_toNat_eq
  rw [offset, BitVec.toNat_signExtend, BitVec.toNat_setWidth, BitVec.msb_eq_decide, hfield]
  simp only [decide_eq_true_eq]
  split <;> omega

theorem nearBranch_reaches (hfar : (dst - src).toNat < 2 ^ 27 ∨ 2 ^ 64 - 2 ^ 27 ≤ (dst - src).toNat)
    (h4 : (dst - src).toNat % 4 = 0) (hmem : Holds c.mem src (nearBranch (dst - src))) :
    Reaches A ⟨c, src⟩ ⟨c, dst⟩ := by
  have hword : nearBranch (dst - src) = [bWord (dst - src)] := rfl
  rw [hword] at hmem
  have hb := hmem.step (A := A) (p := 0) rfl
  rw [decode_bWord, exec, offset_branch hfar h4, wordAt_zero] at hb
  have hsum : src + (dst - src) = dst := by rw [BitVec.add_comm, BitVec.sub_add_cancel]
  rw [hsum] at hb
  exact .of_step hb

end Reaches

end JniDegger.Arm64Trampoline
