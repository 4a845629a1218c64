import JniDegger.WordMemory

/-!
# Code that keeps registers in a frame

The instructions that move the stack pointer and that store and load registers
relative to it.  They are run twice: on memory (`FrameInsn.exec`), and on a frame of
doublewords by their numbers (`FrameInsn.run`), which can be worked out for any code.

`frame_reaches`: what the second run says is what the processor does, as long as the
code lies outside the frame.
-/

namespace JniDegger.A64

/-- The stack pointer and the vector registers. -/
structure Stacked (ρ : Type*) where
  sp : Address
  q : Reg → BitVec 128
  rest : ρ

variable {ρ : Type*}

def Core.base (c : Core (Stacked ρ)) (r : Reg) : Address := if r = 31#5 then c.rest.sp else c.x r

def Core.setSp (c : Core (Stacked ρ)) (v : Address) : Core (Stacked ρ) :=
  { c with rest := { c.rest with sp := v } }

def Core.setBase (c : Core (Stacked ρ)) (r : Reg) (v : Address) : Core (Stacked ρ) :=
  if r = 31#5 then c.setSp v else c.set r v

def Core.setQ (c : Core (Stacked ρ)) (r : Reg) (v : BitVec 128) : Core (Stacked ρ) :=
  { c with rest := { c.rest with q := Function.update c.rest.q r v } }

def store64 (mem : Address → BitVec 8) (a : Address) (v : BitVec 64) : Address → BitVec 8 :=
  storeWords mem a [v.setWidth 32, (v >>> 32).setWidth 32]

def Core.store (c : Core (Stacked ρ)) (a : Address) (v : BitVec 64) : Core (Stacked ρ) :=
  { c with mem := store64 c.mem a v }

/-! ## Instructions -/

inductive FrameInsn where
  /-- ADD (immediate), 64-bit, unshifted -/
  | add (imm : BitVec 12) (rn rd : Reg)
  /-- SUB (immediate), 64-bit, unshifted -/
  | sub (imm : BitVec 12) (rn rd : Reg)
  /-- STR (immediate), 64-bit, unsigned offset -/
  | str (imm : BitVec 12) (rn rt : Reg)
  /-- LDR (immediate), 64-bit, unsigned offset -/
  | ldr (imm : BitVec 12) (rn rt : Reg)
  /-- STP, 64-bit, signed offset -/
  | stp (imm : BitVec 7) (rn rt rt2 : Reg)
  /-- LDP, 64-bit, post-index -/
  | ldp (imm : BitVec 7) (rn rt rt2 : Reg)
  /-- STP of vector registers, 128-bit, signed offset -/
  | stpQ (imm : BitVec 7) (rn rt rt2 : Reg)
  /-- LDP of vector registers, 128-bit, post-index -/
  | ldpQ (imm : BitVec 7) (rn rt rt2 : Reg)
  deriving DecidableEq

def FrameInsn.exec (i : FrameInsn) (c : Core (Stacked ρ)) : Core (Stacked ρ) :=
  match i with
  | .add imm rn rd => c.setBase rd (c.base rn + imm.setWidth 64)
  | .sub imm rn rd => c.setBase rd (c.base rn - imm.setWidth 64)
  | .str imm rn rt => c.store (c.base rn + 8#64 * imm.setWidth 64) (c.get rt)
  | .ldr imm rn rt => c.set rt (read64 c.mem (c.base rn + 8#64 * imm.setWidth 64))
  | .stp imm rn rt rt2 =>
    let a := c.base rn + 8#64 * imm.signExtend 64
    (c.store a (c.get rt)).store (a + 8#64) (c.get rt2)
  | .ldp imm rn rt rt2 =>
    let a := c.base rn
    ((c.set rt (read64 c.mem a)).set rt2 (read64 c.mem (a + 8#64))).setBase rn
      (a + 8#64 * imm.signExtend 64)
  | .stpQ imm rn rt rt2 =>
    let a := c.base rn + 16#64 * imm.signExtend 64
    (((c.store a ((c.rest.q rt).extractLsb' 0 64)).store (a + 8#64)
      ((c.rest.q rt).extractLsb' 64 64)).store (a + 16#64)
        ((c.rest.q rt2).extractLsb' 0 64)).store (a + 24#64) ((c.rest.q rt2).extractLsb' 64 64)
  | .ldpQ imm rn rt rt2 =>
    let a := c.base rn
    ((c.setQ rt (read64 c.mem (a + 8#64) ++ read64 c.mem a)).setQ rt2
      (read64 c.mem (a + 24#64) ++ read64 c.mem (a + 16#64))).setBase rn
        (a + 16#64 * imm.signExtend 64)

/-- Loads that write one register twice are left out. -/
def decodeFrame (w : Word) : Option FrameInsn :=
  let rt := w.extractLsb' 0 5
  let rn := w.extractLsb' 5 5
  let rt2 := w.extractLsb' 10 5
  if w &&& 0xFFC00000 = 0x91000000 then some (.add (w.extractLsb' 10 12) rn rt)
  else if w &&& 0xFFC00000 = 0xD1000000 then some (.sub (w.extractLsb' 10 12) rn rt)
  else if w &&& 0xFFC00000 = 0xF9000000 then some (.str (w.extractLsb' 10 12) rn rt)
  else if w &&& 0xFFC00000 = 0xF9400000 then some (.ldr (w.extractLsb' 10 12) rn rt)
  else if w &&& 0xFFC00000 = 0xA9000000 then some (.stp (w.extractLsb' 15 7) rn rt rt2)
  else if w &&& 0xFFC00000 = 0xA8C00000 ∧ rt ≠ rt2 ∧ (rn = 31 ∨ rn ≠ rt ∧ rn ≠ rt2) then
    some (.ldp (w.extractLsb' 15 7) rn rt rt2)
  else if w &&& 0xFFC00000 = 0xAD000000 then some (.stpQ (w.extractLsb' 15 7) rn rt rt2)
  else if w &&& 0xFFC00000 = 0xACC00000 ∧ rt ≠ rt2 then
    some (.ldpQ (w.extractLsb' 15 7) rn rt rt2)
  else none

/-- The processor runs the instructions of a frame, too. -/
def Arch.Framed (A : Arch (Stacked ρ)) : Prop :=
  ∀ w i, decodeFrame w = some i → ∀ c, A.other w c = some (i.exec c)

/-- The word is this instruction. -/
def Spells (w : Word) (i : FrameInsn) : Bool :=
  match decode w with
  | .other v => v = w ∧ decodeFrame w = some i
  | .addX imm rn rd => i = .add imm rn rd ∧ rn ≠ 31#5 ∧ rd ≠ 31#5
  | _ => false

theorem exec_of_spells {A : Arch (Stacked ρ)} {w : Word} {i : FrameInsn} (hA : A.Framed)
    (h : Spells w i = true) (c : Core (Stacked ρ)) (pc : Address) :
    A64.exec A (decode w) ⟨c, pc⟩ = some ⟨i.exec c, pc + 4#64⟩ := by
  rw [Spells] at h
  split at h
  · next v hv =>
    obtain ⟨rfl, hi⟩ := of_decide_eq_true h
    rw [hv, A64.exec]
    simp only [hA v i hi c, Option.map_some]
  · next imm rn rd hv =>
    obtain ⟨rfl, hn, hd⟩ := of_decide_eq_true h
    rw [hv, A64.exec, FrameInsn.exec]
    simp only [Core.setBase, Core.base, Core.get, hn, hd, if_false]
  · cases h

/-! ## Doublewords -/

def slotAt (base : Address) (i : Nat) : Address := wordAt base (2 * i)

variable {base : Address} {n i j : Nat} {mem : Address → BitVec 8} {v : BitVec 64}

theorem slotAt_add (base : Address) (i j : Nat) :
    slotAt base i + BitVec.ofNat 64 (8 * j) = slotAt base (i + j) := by
  have height : 8 * j = 4 * (2 * j) := by omega
  rw [slotAt, slotAt, height, wordAt_add, Nat.mul_add]

theorem mem_span_slotAt {x : Address} {k : Nat} (h : 8 * i + k ≤ 2 ^ 64) :
    x ∈ Span (slotAt base i) k ↔ 8 * i ≤ (x - base).toNat ∧ (x - base).toNat < 8 * i + k := by
  have hsum : x - slotAt base i = x - base - BitVec.ofNat 64 (8 * i) := by
    have height : 4 * (2 * i) = 8 * i := by omega
    rw [slotAt, wordAt, BitVec.sub_sub, height]
  have := (x - base).isLt
  rw [mem_span, hsum, BitVec.toNat_sub, BitVec.toNat_ofNat]
  omega

theorem read64_store64_same (mem : Address → BitVec 8) (a : Address) (v : BitVec 64) :
    read64 (store64 mem a v) a = v := by
  have hholds : Holds (store64 mem a v) a [v.setWidth 32, (v >>> 32).setWidth 32] :=
    holds_storeWords mem a (by simp)
  have hread := hholds.read64 (p := 0) rfl rfl
  rw [wordAt_zero, halves] at hread
  exact hread

theorem read64_congr {mem' : Address → BitVec 8}
    (h : ∀ x ∈ Span (slotAt base i) 8, mem' x = mem x) :
    read64 mem' (slotAt base i) = read64 mem (slotAt base i) := by
  have hhigh : Span (slotAt base i + 4#64) 4 ⊆ Span (slotAt base i) 8 := by
    have hword := span_word (a := slotAt base i) (p := 1) (n := 2) (by omega) (by omega)
    exact hword
  rw [read64, read64, read32_congr fun x hx => h x (hhigh hx),
    read32_congr fun x hx => h x (span_mono (by omega) hx)]

theorem store64_frame {x a : Address} (h : x ∉ Span a 8) : store64 mem a v x = mem x :=
  storeWords_frame h

theorem store64_outside {x : Address} (hn : 8 * n ≤ 2 ^ 64) (hi : i < n)
    (hx : x ∉ Span base (8 * n)) : store64 mem (slotAt base i) v x = mem x := by
  refine store64_frame fun hin => hx ?_
  rw [mem_span_slotAt (by omega)] at hin
  rw [mem_span]
  omega

theorem read64_store64_other (hi : 8 * i + 8 ≤ 2 ^ 64) (hj : 8 * j + 8 ≤ 2 ^ 64) (hne : i ≠ j) :
    read64 (store64 mem (slotAt base j) v) (slotAt base i) = read64 mem (slotAt base i) := by
  refine read64_congr fun x hx => store64_frame fun hx' => ?_
  rw [mem_span_slotAt hi] at hx
  rw [mem_span_slotAt hj] at hx'
  omega

/-! ## Frames -/

/-- The first `n` doublewords of a frame, where in it the stack pointer is, and the registers. -/
structure Frame where
  sp : Nat
  slots : Nat → BitVec 64
  x : Reg → BitVec 64
  q : Reg → BitVec 128

def Frame.get (f : Frame) (r : Reg) : BitVec 64 := if r = 31#5 then 0 else f.x r

def Frame.setX (f : Frame) (r : Reg) (v : BitVec 64) : Frame :=
  { f with x := Function.update f.x r v }

def Frame.setQ (f : Frame) (r : Reg) (v : BitVec 128) : Frame :=
  { f with q := Function.update f.q r v }

def Frame.store (f : Frame) (i : Nat) (v : BitVec 64) : Frame :=
  { f with slots := Function.update f.slots i v }

/-- The state `c` has the frame at `base`, and is as `c₀` is elsewhere. -/
structure Frame.Fits (f : Frame) (base : Address) (n : Nat) (c₀ c : Core (Stacked ρ)) : Prop where
  sp : c.rest.sp = slotAt base f.sp
  slots : ∀ i < n, read64 c.mem (slotAt base i) = f.slots i
  outside : ∀ a ∉ Span base (8 * n), c.mem a = c₀.mem a
  x : ∀ r ≠ 31#5, c.x r = f.x r
  q : c.rest.q = f.q
  flags : c.flags = c₀.flags
  rest : c.rest.rest = c₀.rest.rest

variable {f f' : Frame} {c₀ c : Core (Stacked ρ)}

theorem Frame.Fits.get (h : f.Fits base n c₀ c) (r : Reg) : c.get r = f.get r := by
  rw [Core.get, Frame.get]
  split
  · rfl
  · next hr => exact h.x r hr

theorem Frame.Fits.setX (h : f.Fits base n c₀ c) {r : Reg} (hr : r ≠ 31#5) (v : BitVec 64) :
    (f.setX r v).Fits base n c₀ (c.set r v) := by
  refine ⟨by rw [set_rest]; exact h.sp, by rw [set_mem]; exact h.slots,
    by rw [set_mem]; exact h.outside, fun i hi => ?_, by rw [set_rest]; exact h.q,
    by rw [set_flags]; exact h.flags, by rw [set_rest]; exact h.rest⟩
  rw [set_x]
  by_cases he : i = r
  · simp [Frame.setX, he, hr]
  · simp [Frame.setX, he, h.x i hi]

theorem Frame.Fits.setQ (h : f.Fits base n c₀ c) (r : Reg) (v : BitVec 128) :
    (f.setQ r v).Fits base n c₀ (c.setQ r v) :=
  ⟨h.sp, h.slots, h.outside, h.x, by simp [Core.setQ, Frame.setQ, h.q], h.flags, h.rest⟩

theorem Frame.Fits.setSp (h : f.Fits base n c₀ c) (s : Nat) :
    { f with sp := s }.Fits base n c₀ (c.setSp (slotAt base s)) :=
  ⟨rfl, h.slots, h.outside, h.x, h.q, h.flags, h.rest⟩

theorem Frame.Fits.store (h : f.Fits base n c₀ c) (hn : 8 * n ≤ 2 ^ 64) (hi : i < n)
    (v : BitVec 64) : (f.store i v).Fits base n c₀ (c.store (slotAt base i) v) := by
  refine ⟨h.sp, fun j hj => ?_, fun a ha => ?_, h.x, h.q, h.flags, h.rest⟩
  · simp only [Core.store, Frame.store]
    by_cases he : j = i
    · subst he
      rw [read64_store64_same, Function.update_self]
    · rw [read64_store64_other (by omega) (by omega) he, Function.update_of_ne he, h.slots j hj]
  · exact (store64_outside hn hi ha).trans (h.outside a ha)

/-! ## Running on a frame -/

/-- The instruction on the frame, unless it looks elsewhere. -/
def FrameInsn.run (base : Address) (n : Nat) (i : FrameInsn) (f : Frame) : Option Frame :=
  match i with
  | .add imm rn rd =>
    if rd = 31#5 then
      if rn = 31#5 ∧ imm.toNat % 8 = 0 then some { f with sp := f.sp + imm.toNat / 8 } else none
    else
      some (f.setX rd ((if rn = 31#5 then slotAt base f.sp else f.x rn) + imm.setWidth 64))
  | .sub imm rn rd =>
    if rd = 31#5 ∧ rn = 31#5 ∧ imm.toNat % 8 = 0 ∧ imm.toNat / 8 ≤ f.sp then
      some { f with sp := f.sp - imm.toNat / 8 }
    else none
  | .str imm rn rt =>
    if rn = 31#5 ∧ f.sp + imm.toNat < n then some (f.store (f.sp + imm.toNat) (f.get rt)) else none
  | .ldr imm rn rt =>
    if rn = 31#5 ∧ rt ≠ 31#5 ∧ f.sp + imm.toNat < n then
      some (f.setX rt (f.slots (f.sp + imm.toNat)))
    else none
  | .stp imm rn rt rt2 =>
    let s := f.sp + imm.toNat
    if rn = 31#5 ∧ imm.toNat < 64 ∧ s + 1 < n then
      some ((f.store s (f.get rt)).store (s + 1) (f.get rt2))
    else none
  | .ldp imm rn rt rt2 =>
    if rn = 31#5 ∧ rt ≠ 31#5 ∧ rt2 ≠ 31#5 ∧ imm.toNat < 64 ∧ f.sp + 1 < n then
      some { (f.setX rt (f.slots f.sp)).setX rt2 (f.slots (f.sp + 1)) with
        sp := f.sp + imm.toNat }
    else none
  | .stpQ imm rn rt rt2 =>
    let s := f.sp + 2 * imm.toNat
    if rn = 31#5 ∧ imm.toNat < 64 ∧ s + 3 < n then
      some ((((f.store s ((f.q rt).extractLsb' 0 64)).store (s + 1)
        ((f.q rt).extractLsb' 64 64)).store (s + 2) ((f.q rt2).extractLsb' 0 64)).store (s + 3)
          ((f.q rt2).extractLsb' 64 64))
    else none
  | .ldpQ imm rn rt rt2 =>
    if rn = 31#5 ∧ imm.toNat < 64 ∧ f.sp + 3 < n then
      some { (f.setQ rt (f.slots (f.sp + 1) ++ f.slots f.sp)).setQ rt2
        (f.slots (f.sp + 3) ++ f.slots (f.sp + 2)) with sp := f.sp + 2 * imm.toNat }
    else none

theorem slotAt_sub (base : Address) (h : j ≤ i) :
    slotAt base i - BitVec.ofNat 64 (8 * j) = slotAt base (i - j) := by
  have hsum := slotAt_add base (i - j) j
  rw [Nat.sub_add_cancel h] at hsum
  rw [← hsum, BitVec.add_sub_cancel]

theorem setWidth_eq_ofNat {k : Nat} (imm : BitVec k) :
    imm.setWidth 64 = BitVec.ofNat 64 imm.toNat := by
  apply BitVec.eq_of_toNat_eq
  rw [BitVec.toNat_setWidth, BitVec.toNat_ofNat]

theorem signExtend_eq_ofNat {imm : BitVec 7} (h : imm.toNat < 64) :
    imm.signExtend 64 = BitVec.ofNat 64 imm.toNat := by
  rw [BitVec.signExtend_eq_setWidth_of_msb_false, setWidth_eq_ofNat imm]
  rw [BitVec.msb_eq_false_iff_two_mul_lt]
  omega

theorem Frame.Fits.addr (h : f.Fits base n c₀ c) (imm : BitVec 12) :
    c.base 31#5 + 8#64 * imm.setWidth 64 = slotAt base (f.sp + imm.toNat) := by
  rw [Core.base, if_pos rfl, h.sp, setWidth_eq_ofNat, ← BitVec.ofNat_mul, slotAt_add]

theorem Frame.Fits.pairAddr (h : f.Fits base n c₀ c) {imm : BitVec 7} (himm : imm.toNat < 64) :
    c.base 31#5 + 8#64 * imm.signExtend 64 = slotAt base (f.sp + imm.toNat) := by
  rw [Core.base, if_pos rfl, h.sp, signExtend_eq_ofNat himm, ← BitVec.ofNat_mul, slotAt_add]

theorem Frame.Fits.pairAddrQ (h : f.Fits base n c₀ c) {imm : BitVec 7} (himm : imm.toNat < 64) :
    c.base 31#5 + 16#64 * imm.signExtend 64 = slotAt base (f.sp + 2 * imm.toNat) := by
  have hdouble : 16 * imm.toNat = 8 * (2 * imm.toNat) := by omega
  rw [Core.base, if_pos rfl, h.sp, signExtend_eq_ofNat himm, ← BitVec.ofNat_mul, hdouble,
    slotAt_add]

/-- **One instruction.** -/
theorem FrameInsn.run_fits {i : FrameInsn} (h : f.Fits base n c₀ c) (hn : 8 * n ≤ 2 ^ 64)
    (hrun : i.run base n f = some f') : f'.Fits base n c₀ (i.exec c) := by
  have hbase : c.base 31#5 = slotAt base f.sp := by rw [Core.base, if_pos rfl, h.sp]
  have hone : ∀ s, slotAt base s + 8#64 = slotAt base (s + 1) := fun s => slotAt_add base s 1
  have htwo : ∀ s, slotAt base s + 16#64 = slotAt base (s + 2) := fun s => slotAt_add base s 2
  have hthree : ∀ s, slotAt base s + 24#64 = slotAt base (s + 3) := fun s => slotAt_add base s 3
  cases i with
  | add imm rn rd =>
    rw [FrameInsn.run] at hrun
    rw [FrameInsn.exec, Core.setBase]
    split at hrun
    · next hrd =>
      split at hrun
      · next hcond =>
        obtain ⟨rfl, hmod⟩ := hcond
        cases hrun
        have height : imm.toNat = 8 * (imm.toNat / 8) := by omega
        rw [if_pos hrd, hbase, setWidth_eq_ofNat, height, slotAt_add, ← height]
        exact h.setSp _
      · cases hrun
    · next hrd =>
      cases hrun
      rw [if_neg hrd]
      by_cases hrn : rn = 31#5
      · subst hrn
        rw [hbase, if_pos rfl]
        exact h.setX hrd _
      · rw [if_neg hrn, Core.base, if_neg hrn, h.x rn hrn]
        exact h.setX hrd _
  | sub imm rn rd =>
    rw [FrameInsn.run] at hrun
    split at hrun
    · next hcond =>
      obtain ⟨rfl, rfl, hmod, hle⟩ := hcond
      cases hrun
      have height : imm.toNat = 8 * (imm.toNat / 8) := by omega
      rw [FrameInsn.exec, Core.setBase, if_pos rfl, hbase, setWidth_eq_ofNat, height,
        slotAt_sub base hle, ← height]
      exact h.setSp _
    · cases hrun
  | str imm rn rt =>
    rw [FrameInsn.run] at hrun
    split at hrun
    · next hcond =>
      obtain ⟨rfl, hlt⟩ := hcond
      cases hrun
      rw [FrameInsn.exec, h.addr, h.get]
      exact h.store hn hlt _
    · cases hrun
  | ldr imm rn rt =>
    rw [FrameInsn.run] at hrun
    split at hrun
    · next hcond =>
      obtain ⟨rfl, hrt, hlt⟩ := hcond
      cases hrun
      rw [FrameInsn.exec, h.addr, h.slots _ hlt]
      exact h.setX hrt _
    · cases hrun
  | stp imm rn rt rt2 =>
    rw [FrameInsn.run] at hrun
    split at hrun
    · next hcond =>
      obtain ⟨rfl, himm, hlt⟩ := hcond
      cases hrun
      simp only [FrameInsn.exec, h.pairAddr himm, hone, h.get]
      exact (h.store hn (by omega) _).store hn hlt _
    · cases hrun
  | ldp imm rn rt rt2 =>
    rw [FrameInsn.run] at hrun
    split at hrun
    · next hcond =>
      obtain ⟨rfl, hrt, hrt2, himm, hlt⟩ := hcond
      cases hrun
      simp only [FrameInsn.exec, hbase, hone, h.slots _ hlt,
        h.slots f.sp (by omega), Core.setBase, if_true, signExtend_eq_ofNat himm]
      rw [← BitVec.ofNat_mul, slotAt_add]
      exact ((h.setX hrt _).setX hrt2 _).setSp _
    · cases hrun
  | stpQ imm rn rt rt2 =>
    rw [FrameInsn.run] at hrun
    split at hrun
    · next hcond =>
      obtain ⟨rfl, himm, hlt⟩ := hcond
      cases hrun
      simp only [FrameInsn.exec, h.pairAddrQ himm, hone, htwo, hthree, h.q]
      exact (((h.store hn (by omega) _).store hn (by omega) _).store hn (by omega) _).store hn hlt _
    · cases hrun
  | ldpQ imm rn rt rt2 =>
    rw [FrameInsn.run] at hrun
    split at hrun
    · next hcond =>
      obtain ⟨rfl, himm, hlt⟩ := hcond
      cases hrun
      have hdouble : 16 * imm.toNat = 8 * (2 * imm.toNat) := by omega
      simp only [FrameInsn.exec, hbase, hone, htwo, hthree, h.slots _ hlt,
        h.slots f.sp (by omega), h.slots (f.sp + 1) (by omega), h.slots (f.sp + 2) (by omega),
        Core.setBase, if_true, signExtend_eq_ofNat himm]
      rw [← BitVec.ofNat_mul, hdouble, slotAt_add]
      exact ((h.setQ _ _).setQ _ _).setSp _
    · cases hrun

/-- Code outside the frame stays. -/
theorem Frame.Fits.holds (h : f.Fits base n c₀ c) {code : Address} {ws : List Word}
    (hcode : Holds c₀.mem code ws) (hlen : 4 * ws.length ≤ 2 ^ 64)
    (hapart : Disjoint (Span code (4 * ws.length)) (Span base (8 * n))) : Holds c.mem code ws :=
  hcode.congr hlen fun x hx => h.outside x (Set.disjoint_left.mp hapart hx)

def runFrame (base : Address) (n : Nat) : List FrameInsn → Frame → Option Frame
  | [], f => some f
  | i :: is, f =>
    match i.run base n f with
    | none => none
    | some f' => runFrame base n is f'

/-- **What the frame says is what the processor does**, where the code is not in the frame. -/
theorem frame_reaches {A : Arch (Stacked ρ)} {code : Address} {ws : List Word}
    {is : List FrameInsn} {p : Nat} (hA : A.Framed) (hn : 8 * n ≤ 2 ^ 64)
    (hcode : Holds c₀.mem code ws) (hlen : 4 * ws.length ≤ 2 ^ 64)
    (hapart : Disjoint (Span code (4 * ws.length)) (Span base (8 * n)))
    (hspells : ∀ k i, is[k]? = some i → ∃ w, ws[p + k]? = some w ∧ Spells w i = true)
    (h : f.Fits base n c₀ c) (hrun : runFrame base n is f = some f') :
    ∃ c', Reaches A ⟨c, wordAt code p⟩ ⟨c', wordAt code (p + is.length)⟩ ∧
      f'.Fits base n c₀ c' := by
  induction is generalizing p f c with
  | nil =>
    cases hrun
    exact ⟨c, .refl A _, h⟩
  | cons i is ih =>
    rw [runFrame] at hrun
    split at hrun
    · cases hrun
    next f₁ hone =>
    obtain ⟨w, hw, hspell⟩ := hspells 0 i rfl
    rw [Nat.add_zero] at hw
    have hholds := h.holds hcode hlen hapart
    have hstep : step A ⟨c, wordAt code p⟩ = some ⟨i.exec c, wordAt code (p + 1)⟩ := by
      rw [hholds.step hw, exec_of_spells hA hspell, wordAt_succ]
    have hrest : ∀ k i', is[k]? = some i' → ∃ w, ws[p + 1 + k]? = some w ∧ Spells w i' = true := by
      intro k i' hk
      obtain ⟨w', hw', hspell'⟩ := hspells (k + 1) i' hk
      exact ⟨w', by rw [← hw', Nat.add_assoc, Nat.add_comm 1 k], hspell'⟩
    obtain ⟨c', hreach, hfits⟩ := ih hrest (FrameInsn.run_fits h hn hone) hrun
    have hlength : p + (i :: is).length = p + 1 + is.length := by
      rw [List.length_cons]
      omega
    exact ⟨c', by rw [hlength]; exact .head hstep hreach, hfits⟩

end JniDegger.A64
