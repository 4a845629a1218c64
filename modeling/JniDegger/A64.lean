import Mathlib.Logic.Function.Basic
import Mathlib.Tactic.IntervalCases

/-!
# Running A64 code

The instructions that name an address relative to the program counter, the moves
and loads that put an address into a register, and the branches to a register;
every other instruction is a parameter, and so is the state that only those
touch (`rest`: the stack pointer, the vector and system registers).

Memory is bytes; an instruction is read from it as the processor does.
-/

namespace JniDegger.A64

abbrev Word := BitVec 32
abbrev Address := BitVec 64
abbrev Reg := BitVec 5

structure Flags where
  n : Bool
  z : Bool
  c : Bool
  v : Bool
  deriving DecidableEq

/-- The condition codes; an odd one negates the even one before it, except the last. -/
def Flags.holds (f : Flags) (cond : BitVec 4) : Bool :=
  let base := match cond.extractLsb' 1 3 with
    | 0 => f.z
    | 1 => f.c
    | 2 => f.n
    | 3 => f.v
    | 4 => f.c && !f.z
    | 5 => f.n == f.v
    | 6 => f.n == f.v && !f.z
    | _ => true
  if cond.getLsbD 0 && cond != 15 then !base else base

/-- Flipping the last bit of a condition code negates the condition, but for the two codes
that stand for always. -/
theorem holds_opposite (f : Flags) {cond : BitVec 4} (h14 : cond ≠ 14#4) (h15 : cond ≠ 15#4) :
    f.holds (cond ^^^ 1#4) = !f.holds cond := by
  obtain ⟨n, z, c, v⟩ := f
  revert cond
  revert n z c v
  decide

theorem holds_opposite_always (f : Flags) {cond : BitVec 4} (h : cond = 14#4 ∨ cond = 15#4) :
    f.holds (cond ^^^ 1#4) = true := by
  obtain rfl | rfl := h <;> rfl

/-- Everything but the program counter. -/
structure Core (ρ : Type*) where
  /-- X0 to X30 -/
  x : Reg → BitVec 64
  flags : Flags
  mem : Address → BitVec 8
  rest : ρ

structure Cpu (ρ : Type*) where
  core : Core ρ
  pc : Address

variable {ρ : Type*}

/-- Register 31 reads as zero. -/
def Core.get (c : Core ρ) (r : Reg) : BitVec 64 := if r = 31#5 then 0 else c.x r

/-- A write to register 31 is lost. -/
def Core.set (c : Core ρ) (r : Reg) (v : BitVec 64) : Core ρ :=
  if r = 31#5 then c else { c with x := Function.update c.x r v }

def read32 (mem : Address → BitVec 8) (a : Address) : Word :=
  mem (a + 3#64) ++ mem (a + 2#64) ++ mem (a + 1#64) ++ mem a

def read64 (mem : Address → BitVec 8) (a : Address) : BitVec 64 :=
  read32 mem (a + 4#64) ++ read32 mem a

inductive Insn where
  /-- B, BL -/
  | branch (link : Bool) (imm : BitVec 26)
  /-- B.cond, BC.cond -/
  | branchCond (cond : BitVec 4) (imm : BitVec 19)
  /-- CBZ, CBNZ -/
  | compareBranch (wide nonzero : Bool) (imm : BitVec 19) (rt : Reg)
  /-- TBZ, TBNZ -/
  | testBranch (nonzero : Bool) (pos : BitVec 6) (imm : BitVec 14) (rt : Reg)
  | adr (imm : BitVec 21) (rd : Reg)
  | adrp (imm : BitVec 21) (rd : Reg)
  /-- LDR (literal), LDRSW (literal), PRFM (literal) -/
  | loadLiteral (opc : BitVec 2) (simd : Bool) (imm : BitVec 19) (rt : Reg)
  /-- MOVZ, 64-bit -/
  | movz (hw : BitVec 2) (imm : BitVec 16) (rd : Reg)
  /-- MOVK, 64-bit -/
  | movk (hw : BitVec 2) (imm : BitVec 16) (rd : Reg)
  /-- LDR (immediate), 64-bit, unsigned offset; the base is not the stack pointer -/
  | loadX (imm : BitVec 12) (rn rt : Reg)
  /-- ADD (immediate), 64-bit, unshifted; neither register is the stack pointer -/
  | addX (imm : BitVec 12) (rn rd : Reg)
  /-- BR, RET -/
  | br (rn : Reg)
  | blr (rn : Reg)
  | nop
  | unallocated
  | other (w : Word)
  deriving DecidableEq

def decode (w : Word) : Insn :=
  if w &&& 0x7C000000 = 0x14000000 then .branch (w.getLsbD 31) (w.extractLsb' 0 26)
  else if w &&& 0xFF000000 = 0x54000000 then
    .branchCond (w.extractLsb' 0 4) (w.extractLsb' 5 19)
  else if w &&& 0xFF000000 = 0x55000000 then .unallocated
  else if w &&& 0x7E000000 = 0x34000000 then
    .compareBranch (w.getLsbD 31) (w.getLsbD 24) (w.extractLsb' 5 19) (w.extractLsb' 0 5)
  else if w &&& 0x7E000000 = 0x36000000 then
    .testBranch (w.getLsbD 24) (w.extractLsb' 31 1 ++ w.extractLsb' 19 5) (w.extractLsb' 5 14)
      (w.extractLsb' 0 5)
  else if w &&& 0x9F000000 = 0x10000000 then
    .adr (w.extractLsb' 5 19 ++ w.extractLsb' 29 2) (w.extractLsb' 0 5)
  else if w &&& 0x9F000000 = 0x90000000 then
    .adrp (w.extractLsb' 5 19 ++ w.extractLsb' 29 2) (w.extractLsb' 0 5)
  else if w &&& 0x3B000000 = 0x18000000 then
    .loadLiteral (w.extractLsb' 30 2) (w.getLsbD 26) (w.extractLsb' 5 19) (w.extractLsb' 0 5)
  else if w &&& 0xFF800000 = 0xD2800000 then
    .movz (w.extractLsb' 21 2) (w.extractLsb' 5 16) (w.extractLsb' 0 5)
  else if w &&& 0xFF800000 = 0xF2800000 then
    .movk (w.extractLsb' 21 2) (w.extractLsb' 5 16) (w.extractLsb' 0 5)
  else if w &&& 0xFFC00000 = 0xF9400000 ∧ w.extractLsb' 5 5 ≠ 31 then
    .loadX (w.extractLsb' 10 12) (w.extractLsb' 5 5) (w.extractLsb' 0 5)
  else if w &&& 0xFFC00000 = 0x91000000 ∧ w.extractLsb' 5 5 ≠ 31 ∧ w.extractLsb' 0 5 ≠ 31 then
    .addX (w.extractLsb' 10 12) (w.extractLsb' 5 5) (w.extractLsb' 0 5)
  else if w &&& 0xFFFFFC1F = 0xD61F0000 ∨ w &&& 0xFFFFFC1F = 0xD65F0000 then
    .br (w.extractLsb' 5 5)
  else if w &&& 0xFFFFFC1F = 0xD63F0000 then .blr (w.extractLsb' 5 5)
  else if w = 0xD503201F then .nop
  else .other w

/-- The instruction reads the program counter for more than the next one. -/
def Insn.pcRelative : Insn → Bool
  | .branch .. | .branchCond .. | .compareBranch .. | .testBranch .. | .adr .. | .adrp ..
  | .loadLiteral .. => true
  | _ => false

/-- The instructions this file does not spell out.  They go on to the next word, or do
not complete (`none`). -/
structure Arch (ρ : Type*) where
  other : Word → Core ρ → Option (Core ρ)
  /-- a write to a vector register -/
  setV : Reg → BitVec 128 → ρ → ρ

/-- Words are four bytes apart. -/
def offset {n : Nat} (imm : BitVec n) : Address := (imm ++ 0#2).signExtend 64

/-- Whether the condition of a conditional branch is met. -/
def Insn.met (i : Insn) (c : Core ρ) : Bool :=
  match i with
  | .branchCond cond _ => c.flags.holds cond
  | .compareBranch wide nonzero _ rt =>
    (if wide then c.get rt == 0 else (c.get rt).setWidth 32 == 0) != nonzero
  | .testBranch nonzero pos _ rt => (c.get rt).getLsbD pos.toNat == nonzero
  | _ => false

def Insn.leaves (i : Insn) (c : Core ρ) : Bool :=
  match i with
  | .branch .. | .br _ | .blr _ => true
  | .branchCond .. | .compareBranch .. | .testBranch .. => i.met c
  | _ => false

def Insn.calls : Insn → Bool
  | .branch link _ => link
  | .blr _ => true
  | _ => false

/-- LDR (literal) with the address worked out. -/
def loadLiteral (A : Arch ρ) (opc : BitVec 2) (simd : Bool) (rt : Reg) (a : Address)
    (c : Core ρ) : Option (Core ρ) :=
  match simd, opc.toNat with
  | false, 0 => some (c.set rt ((read32 c.mem a).setWidth 64))
  | false, 1 => some (c.set rt (read64 c.mem a))
  | false, 2 => some (c.set rt ((read32 c.mem a).signExtend 64))
  | false, _ => some c
  | true, 0 => some { c with rest := A.setV rt ((read32 c.mem a).setWidth 128) c.rest }
  | true, 1 => some { c with rest := A.setV rt ((read64 c.mem a).setWidth 128) c.rest }
  | true, 2 => some { c with rest := A.setV rt (read64 c.mem (a + 8#64) ++ read64 c.mem a) c.rest }
  | true, _ => none

theorem loadLiteral_x (A : Arch ρ) (rt : Reg) (a : Address) (c : Core ρ) :
    loadLiteral A 1 false rt a c = some (c.set rt (read64 c.mem a)) := rfl

def exec (A : Arch ρ) (i : Insn) (s : Cpu ρ) : Option (Cpu ρ) :=
  let next := s.pc + 4#64
  match i with
  | .branch link imm => some ⟨if link then s.core.set 30#5 next else s.core, s.pc + offset imm⟩
  | .branchCond _ imm | .compareBranch _ _ imm _ =>
    some ⟨s.core, if i.met s.core then s.pc + offset imm else next⟩
  | .testBranch _ _ imm _ => some ⟨s.core, if i.met s.core then s.pc + offset imm else next⟩
  | .adr imm rd => some ⟨s.core.set rd (s.pc + imm.signExtend 64), next⟩
  | .adrp imm rd =>
    some ⟨s.core.set rd ((s.pc &&& ~~~0xFFF#64) + (imm ++ 0#12).signExtend 64), next⟩
  | .loadLiteral opc simd imm rt =>
    (loadLiteral A opc simd rt (s.pc + offset imm) s.core).map (⟨·, next⟩)
  | .movz hw imm rd => some ⟨s.core.set rd (imm.setWidth 64 <<< (16 * hw.toNat)), next⟩
  | .movk hw imm rd =>
    some ⟨s.core.set rd ((s.core.get rd &&& ~~~(0xFFFF#64 <<< (16 * hw.toNat))) |||
      imm.setWidth 64 <<< (16 * hw.toNat)), next⟩
  | .loadX imm rn rt =>
    some ⟨s.core.set rt (read64 s.core.mem (s.core.get rn + 8#64 * imm.setWidth 64)), next⟩
  | .addX imm rn rd => some ⟨s.core.set rd (s.core.get rn + imm.setWidth 64), next⟩
  | .br rn => some ⟨s.core, s.core.get rn⟩
  | .blr rn => some ⟨s.core.set 30#5 next, s.core.get rn⟩
  | .nop => some ⟨s.core, next⟩
  | .unallocated => none
  | .other w => (A.other w s.core).map (⟨·, next⟩)

def step (A : Arch ρ) (s : Cpu ρ) : Option (Cpu ρ) :=
  exec A (decode (read32 s.core.mem s.pc)) s

def steps (A : Arch ρ) : Nat → Cpu ρ → Option (Cpu ρ)
  | 0, s => some s
  | n + 1, s => (step A s).bind (steps A n)

theorem steps_add (A : Arch ρ) (m n : Nat) (s : Cpu ρ) :
    steps A (m + n) s = (steps A m s).bind (steps A n) := by
  induction m generalizing s with
  | zero => simp [steps]
  | succ m ih =>
    rw [Nat.succ_add, steps, steps, Option.bind_assoc]
    congr 1
    funext t
    exact ih t

def Reaches (A : Arch ρ) (s t : Cpu ρ) : Prop := ∃ n, steps A n s = some t

theorem Reaches.refl (A : Arch ρ) (s : Cpu ρ) : Reaches A s s := ⟨0, rfl⟩

theorem Reaches.trans {A : Arch ρ} {s t u : Cpu ρ} (h : Reaches A s t) (h' : Reaches A t u) :
    Reaches A s u := by
  obtain ⟨m, hm⟩ := h
  obtain ⟨n, hn⟩ := h'
  exact ⟨m + n, by rw [steps_add, hm, Option.bind_some, hn]⟩

theorem Reaches.of_step {A : Arch ρ} {s t : Cpu ρ} (h : step A s = some t) : Reaches A s t :=
  ⟨1, by simp [steps, h]⟩

theorem Reaches.head {A : Arch ρ} {s t u : Cpu ρ} (h : step A s = some t) (h' : Reaches A t u) :
    Reaches A s u :=
  (Reaches.of_step h).trans h'

/-! ## Registers and memory -/

@[simp] theorem set_mem (c : Core ρ) (r : Reg) (v : BitVec 64) : (c.set r v).mem = c.mem := by
  unfold Core.set
  split <;> rfl

@[simp] theorem set_flags (c : Core ρ) (r : Reg) (v : BitVec 64) :
    (c.set r v).flags = c.flags := by
  unfold Core.set
  split <;> rfl

@[simp] theorem set_rest (c : Core ρ) (r : Reg) (v : BitVec 64) : (c.set r v).rest = c.rest := by
  unfold Core.set
  split <;> rfl

theorem set_x (c : Core ρ) (r : Reg) (v : BitVec 64) (i : Reg) :
    (c.set r v).x i = if i = r ∧ r ≠ 31#5 then v else c.x i := by
  unfold Core.set
  by_cases hr : r = 31#5
  · simp [hr]
  · by_cases hi : i = r
    · simp [hr, hi]
    · simp [hr, hi]

theorem get_set_self (c : Core ρ) {r : Reg} (hr : r ≠ 31#5) (v : BitVec 64) :
    (c.set r v).get r = v := by
  rw [Core.get, if_neg hr, set_x, if_pos ⟨rfl, hr⟩]

theorem set_set (c : Core ρ) (r : Reg) (v w : BitVec 64) : (c.set r v).set r w = c.set r w := by
  unfold Core.set
  split <;> simp

/-- The address of word `p` of a block. -/
def wordAt (base : Address) (p : Nat) : Address := base + BitVec.ofNat 64 (4 * p)

@[simp] theorem wordAt_zero (base : Address) : wordAt base 0 = base := by
  simp [wordAt]

theorem wordAt_add (base : Address) (p m : Nat) :
    wordAt base p + BitVec.ofNat 64 (4 * m) = wordAt base (p + m) := by
  rw [wordAt, wordAt, BitVec.add_assoc, Nat.mul_add, BitVec.ofNat_add]

theorem wordAt_succ (base : Address) (p : Nat) : wordAt base p + 4#64 = wordAt base (p + 1) :=
  wordAt_add base p 1

theorem wordAt_wordAt (base : Address) (p m : Nat) :
    wordAt (wordAt base p) m = wordAt base (p + m) :=
  wordAt_add base p m

def Holds (mem : Address → BitVec 8) (base : Address) (ws : List Word) : Prop :=
  ∀ p w, ws[p]? = some w → read32 mem (wordAt base p) = w

theorem Holds.read64 {mem : Address → BitVec 8} {base : Address} {ws : List Word}
    (h : Holds mem base ws) {p : Nat} {lo hi : Word} (hlo : ws[p]? = some lo)
    (hhi : ws[p + 1]? = some hi) : A64.read64 mem (wordAt base p) = hi ++ lo := by
  rw [A64.read64, wordAt_succ, h p lo hlo, h (p + 1) hi hhi]

theorem Holds.step {A : Arch ρ} {c : Core ρ} {base : Address} {ws : List Word}
    (h : Holds c.mem base ws) {p : Nat} {w : Word} (hw : ws[p]? = some w) :
    A64.step A ⟨c, wordAt base p⟩ = exec A (decode w) ⟨c, wordAt base p⟩ := by
  rw [A64.step, h p w hw]

/-! ## Agreement but for one register -/

/-- The states agree on everything but register `r`, and on that too if `whole`. -/
structure Agree (r : Reg) (whole : Bool) (c d : Core ρ) : Prop where
  x : ∀ i, i ≠ r ∨ whole = true → d.x i = c.x i
  flags : d.flags = c.flags
  mem : d.mem = c.mem
  rest : d.rest = c.rest

variable {r : Reg} {whole : Bool} {c d : Core ρ}

theorem Agree.refl (r : Reg) (whole : Bool) (c : Core ρ) : Agree r whole c c :=
  ⟨fun _ _ => rfl, rfl, rfl, rfl⟩

theorem Agree.eq (h : Agree r true c d) : d = c := by
  obtain ⟨hx, hf, hm, hr⟩ := h
  cases c
  cases d
  simp only [or_true, forall_true_left] at hx
  simp_all [funext_iff]

theorem Agree.weaken (h : Agree r whole c d) : Agree r false c d :=
  ⟨fun i hi => h.x i (.inl (by simpa using hi)), h.flags, h.mem, h.rest⟩

theorem Agree.get (h : Agree r whole c d) {i : Reg} (hi : i ≠ r ∨ whole = true) :
    d.get i = c.get i := by
  unfold Core.get
  split
  · rfl
  · exact h.x i hi

theorem Agree.set (h : Agree r whole c d) (i : Reg) (v : BitVec 64) :
    Agree r whole (c.set i v) (d.set i v) := by
  refine ⟨fun j hj => ?_, by simp [h.flags], by simp [h.mem], by simp [h.rest]⟩
  rw [set_x, set_x, h.x j hj]

theorem Agree.clobber (h : Agree r whole c d) (v : BitVec 64) : Agree r false c (d.set r v) := by
  refine ⟨fun j hj => ?_, by simp [h.flags], by simp [h.mem], by simp [h.rest]⟩
  have hjr : j ≠ r := by simpa using hj
  rw [set_x, if_neg fun he => hjr he.1, h.x j (.inl hjr)]

theorem Agree.restore (h : Agree r false c d) (hr : r ≠ 31#5) (v : BitVec 64) :
    Agree r true (c.set r v) (d.set r v) := by
  refine ⟨fun j _ => ?_, by simp [h.flags], by simp [h.mem], by simp [h.rest]⟩
  rw [set_x, set_x]
  by_cases hjr : j = r
  · rw [if_pos ⟨hjr, hr⟩, if_pos ⟨hjr, hr⟩]
  · rw [if_neg fun he => hjr he.1, if_neg fun he => hjr he.1, h.x j (.inl hjr)]

/-- The registers an instruction of this file reads. -/
def Insn.reads : Insn → Reg → Prop
  | .compareBranch _ _ _ rt, i | .testBranch _ _ _ rt, i => i = rt
  | .movk _ _ rd, i => i = rd
  | .loadX _ rn _, i | .addX _ rn _, i | .br rn, i | .blr rn, i => i = rn
  | _, _ => False

/-- The instruction does the same whatever is in register `r`. -/
def Oblivious (A : Arch ρ) (r : Reg) : Insn → Prop
  | .other w => ∀ c d c', Agree r false c d → A.other w c = some c' →
      ∃ d', A.other w d = some d' ∧ Agree r false c' d'
  | i => ¬ i.reads r

/-- Away from the program counter an instruction does the same anywhere. -/
theorem exec_agree {A : Arch ρ} {i : Insn} (hpc : i.pcRelative = false)
    (hi : whole = true ∨ Oblivious A r i) (h : Agree r whole c d) (hleave : i.leaves c = false)
    {pc pc' q : Address} {c' : Core ρ} (hexec : exec A i ⟨c, pc⟩ = some ⟨c', pc'⟩) :
    pc' = pc + 4#64 ∧ ∃ d', exec A i ⟨d, q⟩ = some ⟨d', q + 4#64⟩ ∧ Agree r whole c' d' := by
  cases i with
  | movz hw imm rd =>
    cases hexec
    exact ⟨rfl, _, rfl, h.set rd _⟩
  | movk hw imm rd =>
    have hget : d.get rd = c.get rd :=
      h.get (hi.symm.imp_left fun hn he => hn he.symm)
    cases hexec
    exact ⟨rfl, _, rfl, by simpa [hget] using h.set rd _⟩
  | loadX imm rn rt =>
    have hget : d.get rn = c.get rn := h.get (hi.symm.imp_left fun hn he => hn he.symm)
    cases hexec
    exact ⟨rfl, _, rfl, by simpa [hget, h.mem] using h.set rt _⟩
  | addX imm rn rd =>
    have hget : d.get rn = c.get rn := h.get (hi.symm.imp_left fun hn he => hn he.symm)
    cases hexec
    exact ⟨rfl, _, rfl, by simpa [hget] using h.set rd _⟩
  | other w =>
    obtain ⟨_, hc, he⟩ := Option.map_eq_some_iff.mp hexec
    cases he
    refine ⟨rfl, ?_⟩
    cases whole with
    | true =>
      rw [h.eq]
      exact ⟨c', by simp [exec, hc], Agree.refl r true c'⟩
    | false =>
      obtain ⟨d', hd, hagree⟩ := (hi.resolve_left (by simp)) c d c' h hc
      exact ⟨d', by simp [exec, hd], hagree⟩
  | nop =>
    cases hexec
    exact ⟨rfl, _, rfl, h⟩
  | unallocated => cases hexec
  | br | blr => cases hleave
  | branch | branchCond | compareBranch | testBranch | adr | adrp | loadLiteral => cases hpc

/-! ## Words by their bits -/

theorem bit_of_mask {w mask key : Word} (h : w &&& mask = key) (j : Nat)
    (hmask : mask.getLsbD j = true) : w.getLsbD j = key.getLsbD j := by
  rw [← h, BitVec.getLsbD_and, hmask, Bool.and_true]

theorem other_class {w mask key mask' key' : Word} (h : w &&& mask = key) (j : Nat)
    (hj : mask.getLsbD j = true ∧ mask'.getLsbD j = true ∧ key.getLsbD j ≠ key'.getLsbD j) :
    w &&& mask' ≠ key' := by
  intro h'
  exact hj.2.2 ((bit_of_mask h j hj.1).symm.trans (bit_of_mask h' j hj.2.1))

section Classes

variable {w : Word}

theorem decode_branch (h : w &&& 0x7C000000 = 0x14000000) :
    decode w = .branch (w.getLsbD 31) (w.extractLsb' 0 26) := by
  rw [decode, if_pos h]

theorem decode_branchCond (h : w &&& 0xFF000000 = 0x54000000) :
    decode w = .branchCond (w.extractLsb' 0 4) (w.extractLsb' 5 19) := by
  rw [decode, if_neg (other_class h 30 (by decide)), if_pos h]

theorem decode_unallocated (h : w &&& 0xFF000000 = 0x55000000) : decode w = .unallocated := by
  rw [decode, if_neg (other_class h 30 (by decide)), if_neg (other_class h 24 (by decide)),
    if_pos h]

theorem decode_compareBranch (h : w &&& 0x7E000000 = 0x34000000) :
    decode w = .compareBranch (w.getLsbD 31) (w.getLsbD 24) (w.extractLsb' 5 19)
      (w.extractLsb' 0 5) := by
  rw [decode, if_neg (other_class h 29 (by decide)), if_neg (other_class h 29 (by decide)),
    if_neg (other_class h 29 (by decide)), if_pos h]

theorem decode_testBranch (h : w &&& 0x7E000000 = 0x36000000) :
    decode w = .testBranch (w.getLsbD 24) (w.extractLsb' 31 1 ++ w.extractLsb' 19 5)
      (w.extractLsb' 5 14) (w.extractLsb' 0 5) := by
  rw [decode, if_neg (other_class h 29 (by decide)), if_neg (other_class h 29 (by decide)),
    if_neg (other_class h 29 (by decide)), if_neg (other_class h 25 (by decide)), if_pos h]

theorem decode_adr (h : w &&& 0x9F000000 = 0x10000000) :
    decode w = .adr (w.extractLsb' 5 19 ++ w.extractLsb' 29 2) (w.extractLsb' 0 5) := by
  rw [decode, if_neg (other_class h 26 (by decide)), if_neg (other_class h 26 (by decide)),
    if_neg (other_class h 26 (by decide)), if_neg (other_class h 26 (by decide)),
    if_neg (other_class h 26 (by decide)), if_pos h]

theorem decode_adrp (h : w &&& 0x9F000000 = 0x90000000) :
    decode w = .adrp (w.extractLsb' 5 19 ++ w.extractLsb' 29 2) (w.extractLsb' 0 5) := by
  rw [decode, if_neg (other_class h 26 (by decide)), if_neg (other_class h 26 (by decide)),
    if_neg (other_class h 26 (by decide)), if_neg (other_class h 26 (by decide)),
    if_neg (other_class h 26 (by decide)), if_neg (other_class h 31 (by decide)), if_pos h]

theorem decode_loadLiteral (h : w &&& 0x3B000000 = 0x18000000) :
    decode w = .loadLiteral (w.extractLsb' 30 2) (w.getLsbD 26) (w.extractLsb' 5 19)
      (w.extractLsb' 0 5) := by
  rw [decode, if_neg (other_class h 27 (by decide)), if_neg (other_class h 27 (by decide)),
    if_neg (other_class h 27 (by decide)), if_neg (other_class h 27 (by decide)),
    if_neg (other_class h 27 (by decide)), if_neg (other_class h 27 (by decide)),
    if_neg (other_class h 27 (by decide)), if_pos h]

theorem decode_movz (h : w &&& 0xFF800000 = 0xD2800000) :
    decode w = .movz (w.extractLsb' 21 2) (w.extractLsb' 5 16) (w.extractLsb' 0 5) := by
  rw [decode, if_neg (other_class h 26 (by decide)), if_neg (other_class h 26 (by decide)),
    if_neg (other_class h 26 (by decide)), if_neg (other_class h 26 (by decide)),
    if_neg (other_class h 26 (by decide)), if_neg (other_class h 25 (by decide)),
    if_neg (other_class h 25 (by decide)), if_neg (other_class h 25 (by decide)), if_pos h]

theorem decode_movk (h : w &&& 0xFF800000 = 0xF2800000) :
    decode w = .movk (w.extractLsb' 21 2) (w.extractLsb' 5 16) (w.extractLsb' 0 5) := by
  rw [decode, if_neg (other_class h 26 (by decide)), if_neg (other_class h 26 (by decide)),
    if_neg (other_class h 26 (by decide)), if_neg (other_class h 26 (by decide)),
    if_neg (other_class h 26 (by decide)), if_neg (other_class h 25 (by decide)),
    if_neg (other_class h 25 (by decide)), if_neg (other_class h 25 (by decide)),
    if_neg (other_class h 29 (by decide)), if_pos h]

theorem decode_loadX (h : w &&& 0xFFC00000 = 0xF9400000) (hn : w.extractLsb' 5 5 ≠ 31) :
    decode w = .loadX (w.extractLsb' 10 12) (w.extractLsb' 5 5) (w.extractLsb' 0 5) := by
  rw [decode, if_neg (other_class h 26 (by decide)), if_neg (other_class h 26 (by decide)),
    if_neg (other_class h 26 (by decide)), if_neg (other_class h 26 (by decide)),
    if_neg (other_class h 26 (by decide)), if_neg (other_class h 24 (by decide)),
    if_neg (other_class h 24 (by decide)), if_neg (other_class h 24 (by decide)),
    if_neg (other_class h 27 (by decide)), if_neg (other_class h 27 (by decide)), if_pos ⟨h, hn⟩]

theorem decode_addX (h : w &&& 0xFFC00000 = 0x91000000) (hn : w.extractLsb' 5 5 ≠ 31)
    (hd : w.extractLsb' 0 5 ≠ 31) :
    decode w = .addX (w.extractLsb' 10 12) (w.extractLsb' 5 5) (w.extractLsb' 0 5) := by
  rw [decode, if_neg (other_class h 26 (by decide)), if_neg (other_class h 26 (by decide)),
    if_neg (other_class h 26 (by decide)), if_neg (other_class h 26 (by decide)),
    if_neg (other_class h 26 (by decide)), if_neg (other_class h 24 (by decide)),
    if_neg (other_class h 24 (by decide)), if_neg (other_class h 24 (by decide)),
    if_neg (other_class h 24 (by decide)), if_neg (other_class h 24 (by decide)),
    if_neg fun h' => other_class h 30 (by decide) h'.1, if_pos ⟨h, hn, hd⟩]

theorem decode_br (h : w &&& 0xFFFFFC1F = 0xD61F0000) : decode w = .br (w.extractLsb' 5 5) := by
  rw [decode, if_neg (other_class h 30 (by decide)), if_neg (other_class h 31 (by decide)),
    if_neg (other_class h 31 (by decide)), if_neg (other_class h 30 (by decide)),
    if_neg (other_class h 30 (by decide)), if_neg (other_class h 26 (by decide)),
    if_neg (other_class h 26 (by decide)), if_neg (other_class h 27 (by decide)),
    if_neg (other_class h 26 (by decide)), if_neg (other_class h 26 (by decide)),
    if_neg fun h' => other_class h 26 (by decide) h'.1,
    if_neg fun h' => other_class h 26 (by decide) h'.1, if_pos (.inl h)]

theorem decode_blr (h : w &&& 0xFFFFFC1F = 0xD63F0000) : decode w = .blr (w.extractLsb' 5 5) := by
  rw [decode, if_neg (other_class h 30 (by decide)), if_neg (other_class h 31 (by decide)),
    if_neg (other_class h 31 (by decide)), if_neg (other_class h 30 (by decide)),
    if_neg (other_class h 30 (by decide)), if_neg (other_class h 26 (by decide)),
    if_neg (other_class h 26 (by decide)), if_neg (other_class h 27 (by decide)),
    if_neg (other_class h 26 (by decide)), if_neg (other_class h 26 (by decide)),
    if_neg fun h' => other_class h 26 (by decide) h'.1,
    if_neg fun h' => other_class h 26 (by decide) h'.1,
    if_neg (not_or.mpr ⟨other_class h 21 (by decide), other_class h 22 (by decide)⟩), if_pos h]

/-- What is left over names no address relative to the program counter. -/
theorem pcRelative_decode (hb : w &&& 0x7C000000 ≠ 0x14000000)
    (hc : w &&& 0xFE000000 ≠ 0x54000000) (hcb : w &&& 0x7E000000 ≠ 0x34000000)
    (htb : w &&& 0x7E000000 ≠ 0x36000000) (hadr : w &&& 0x9F000000 ≠ 0x10000000)
    (hadrp : w &&& 0x9F000000 ≠ 0x90000000) (hl : w &&& 0x3B000000 ≠ 0x18000000) :
    (decode w).pcRelative = false := by
  have hc54 : w &&& 0xFF000000 ≠ 0x54000000 := fun h => hc (by
    rw [show (0xFE000000 : Word) = 0xFF000000 &&& 0xFE000000 by decide, ← BitVec.and_assoc, h]
    decide)
  have hc55 : w &&& 0xFF000000 ≠ 0x55000000 := fun h => hc (by
    rw [show (0xFE000000 : Word) = 0xFF000000 &&& 0xFE000000 by decide, ← BitVec.and_assoc, h]
    decide)
  rw [decode, if_neg hb, if_neg hc54, if_neg hc55, if_neg hcb, if_neg htb, if_neg hadr,
    if_neg hadrp, if_neg hl]
  split_ifs <;> rfl

end Classes

end JniDegger.A64
