import JniDegger.Interceptor
import JniDegger.AllocatorRuns

/-!
# Code that Dobby has put in blocks

Relocated code and forwarding trampolines are written into blocks of their own, and
stay as they are while other blocks are handed out and while the program's own code
is patched (`Code.keep`).

Proved here of generating: the trampoline is one of the three forms, and what it
needs elsewhere is in a block (`generateTrampolineBuffer_routes`); the relocated
code is in a block (`generateRelocatedCode_emits`).
-/

namespace JniDegger.Dobby
open A64 Arm64Assembler Arm64Relocation Arm64Trampoline

variable {P : Set Address} {m m' m'' : Memory} {b : MemBlock} {ws : List Word} {os : Os}
  {p : Process} {src dst : Address}

/-! ## Blocks keep their code -/

/-- What has been handed out is so still, with its bytes. -/
structure Keeps (m m' : Memory) : Prop where
  handed : ∀ b, m.Handed b → m'.Handed b
  bytes : ∀ b, m.Handed b → ∀ x ∈ b.span, m'.bytes x = m.bytes x

theorem Grows.keeps (h : Grows P m m') : Keeps m m' :=
  ⟨h.handed, fun b hb x hx => h.kept x (.inr ⟨b, hb, hx⟩)⟩

theorem Grows.refl (hs : m.Sound) : Grows P m m :=
  ⟨hs, fun _ hb => hb, fun a ha => ⟨a, ha, rfl⟩, id, fun _ _ => rfl, fun _ _ => rfl⟩

/-- The block was made for this code, which is in it. -/
structure Memory.Code (m : Memory) (b : MemBlock) (ws : List Word) : Prop where
  handed : m.Handed b
  size : b.size.toNat = 4 * ws.length
  holds : Holds m.bytes b.addr ws

theorem Memory.Code.keep (h : m.Code b ws) (hk : Keeps m m') : m'.Code b ws := by
  have hsize := b.size.isLt
  have hlen := h.size
  refine ⟨hk.handed b h.handed, hlen, h.holds.congr (by omega) fun x hx => ?_⟩
  exact hk.bytes b h.handed x (by rwa [MemBlock.span, hlen])

/-- What is true between calls: the arenas are apart from one another and from `P`, and the
cursors are at whole words. -/
structure Memory.Ready (P : Set Address) (m : Memory) : Prop where
  sound : m.Sound
  own : ∀ a ∈ m.arenas, Disjoint a.span P
  words : m.Words

theorem Memory.Ready.grow (h : m.Ready P) (hgrows : Grows P m m') (hwords : m'.Words) :
    m'.Ready P :=
  ⟨hgrows.sound, hgrows.own h.own, hwords⟩

theorem Memory.Ready.block_own (h : m.Ready P) (hb : m.Handed b) : Disjoint b.span P := by
  obtain ⟨a, ha, hin⟩ := hb
  exact Set.disjoint_of_subset_left (hin.subset (h.sound.arena a ha)) (h.own a ha)

theorem Memory.Ready.patch (h : m.Ready P) (address : Address) (ws : List Word) :
    (dobbyCodePatch m address ws).Ready P :=
  ⟨⟨h.sound.arena, h.sound.apart⟩, h.own, h.words⟩

/-- **A patch of the program's own code** leaves the blocks alone. -/
theorem keeps_patch {address : Address} (h : m.Ready P) (hown : Span address (4 * ws.length) ⊆ P) :
    Keeps m (dobbyCodePatch m address ws) := by
  refine ⟨fun _ hb => hb, fun b hb x hx => storeWords_frame fun hpatch => ?_⟩
  exact Set.disjoint_left.mp (h.block_own hb) hx (hown hpatch)

/-! ## Writing code into a new block -/

theorem toNat_codeSize (h : ws.length < 2 ^ 30) : (codeSize ws).toNat = 4 * ws.length := by
  rw [codeSize, BitVec.toNat_ofNat]
  omega

/-- What is known when code has been put in a block. -/
structure Emits (P : Set Address) (m : Memory) (ws : List Word) (b : MemBlock) (m' : Memory) :
    Prop where
  allocates : Allocates P m b m'
  code : m'.Code b ws
  aligned : 4 ∣ b.addr.toNat
  ready : m'.Ready P

theorem Serves.emits {whole : Prop} (h : Serves P whole m (codeSize ws) b m') (hm : m.Ready P)
    (hwhole : whole) (hlen : ws.length < 2 ^ 30) :
    Emits P m ws b (dobbyCodePatch m' b.addr ws) := by
  have hgrows := h.allocates.grows
  have hm' : m'.Ready P := hm.grow hgrows
    (h.words hm.words hwhole (by rw [toNat_codeSize hlen]; exact Nat.dvd_mul_right _ _))
  have hsize : b.size.toNat = 4 * ws.length := by
    rw [h.asked, toNat_size, toNat_codeSize hlen]
  have hspan : Span b.addr (4 * ws.length) = b.span := by rw [MemBlock.span, hsize]
  have houtside : ∀ x, x ∉ b.span → (dobbyCodePatch m' b.addr ws).bytes x = m'.bytes x :=
    fun x hx => storeWords_frame (hspan ▸ hx)
  have hready := hm'.patch b.addr ws
  refine ⟨⟨⟨hready.sound, hgrows.handed, hgrows.arenas, hgrows.own, fun x hx => ?_,
    fun x hx => ?_⟩, h.allocates.handed, h.allocates.apart⟩,
    ⟨h.allocates.handed, hsize, holds_storeWords _ _ (by omega)⟩,
    h.addr hm.words hwhole, hready⟩
  · rw [houtside x, hgrows.kept x hx]
    rcases hx with hx | ⟨b', hb', hxb⟩
    · exact Set.disjoint_right.mp (hm'.block_own h.allocates.handed) hx
    · exact Set.disjoint_left.mp (h.allocates.apart b' hb') hxb
  · rw [houtside x, hgrows.frame x hx]
    intro hxb
    obtain ⟨a, ha, hin⟩ := h.allocates.handed
    exact hx a ha (hin.subset (hm'.sound.arena a ha) hxb)

theorem realize_eq (h : b.size = (codeSize ws).setWidth 64) :
    realize m b.addr ws = (b, dobbyCodePatch m b.addr ws) := by
  rw [realize, ← h]

theorem finalizeFromTurboAssembler_emits (hm : m.Ready P)
    (hserved : Served P m (os, .exec (codeSize ws))) (hlen : ws.length < 2 ^ 30)
    (h : finalizeFromTurboAssembler os m ws = some (b, m')) : Emits P m ws b m' := by
  obtain ⟨⟨b', m₁⟩, hb, he⟩ := Option.map_eq_some_iff.mp h
  have hserves := allocateExecBlock_serves hm.sound hserved hb
  rw [realize_eq hserves.asked] at he
  cases he
  exact hserves.emits hm trivial hlen

/-! ## Near blocks for code -/

def branchRange64 : BitVec 64 := BitVec.ofNat 64 branchRange

theorem dvd_branchRange : 4 ∣ branchRange64.toNat := by decide

theorem allocateNearExecMemory_serves {size : BitVec 32} {addr : Address} (hm : m.Ready P)
    (hserved : Served P m (os, .near size src branchRange64 true)) (hsrc : 4 ∣ src.toNat)
    (hsize : 4 ∣ size.toNat) (h : allocateNearExecMemory os m size src = (addr, m')) :
    Grows P m m' ∧ m'.Ready P ∧ (addr ≠ 0 → ∃ b, b.addr = addr ∧
      allocateNearBlock os m size src branchRange64 true = (some b, m') ∧
      Serves P (4 ∣ src.toNat ∧ 4 ∣ branchRange64.toNat) m size b m' ∧
      Near src branchRange64 b) := by
  rw [allocateNearExecMemory, ← branchRange64] at h
  rcases allocateNearBlock_cases hm.sound hserved.1 hserved.2
    (rfl : allocateNearBlock os m size src branchRange64 true = _) with
    hnone | ⟨b, hb, hserves, hnear⟩
  · rw [hnone] at h
    cases h
    exact ⟨.refl hm.sound, hm, fun hne => absurd rfl hne⟩
  · generalize allocateNearBlock os m size src branchRange64 true = r at *
    obtain ⟨o, m₁⟩ := r
    cases hb
    cases h
    have hgrows := hserves.allocates.grows
    exact ⟨hgrows, hm.grow hgrows (hserves.words hm.words ⟨hsrc, dvd_branchRange⟩ hsize),
      fun _ => ⟨b, rfl, rfl, hserves, hnear⟩⟩

theorem adrpBranch_length (src dst : Address) : (adrpBranch src dst).buffer.length = 3 := rfl

theorem movBranch_length (dst : Address) : (movBranch dst).buffer.length = 5 := rfl

/-- The block forwards to `dst`, with ADRP only as far as its distance allows. -/
def Forwards (m : Memory) (b : MemBlock) (dst : Address) : Prop :=
  distance b.addr dst < adrpRange ∧ m.Code b (adrpBranch b.addr dst).buffer ∨
    m.Code b (movBranch dst).buffer

/-- The system does its part when a forwarding trampoline is generated: in the first request
for a near block and, if it is made, in the second. -/
def ForwardServed (P : Set Address) (os : Os) (m : Memory) (src dst : Address) : Prop :=
  Served P m (os, .near (3 * 4) src branchRange64 true) ∧
    ∀ b m₁, allocateNearBlock os m (3 * 4) src branchRange64 true = (some b, m₁) →
      adrpRange ≤ distance b.addr dst →
      Served P m₁ (os, .near (codeSize (movBranch dst).buffer) src branchRange64 true)

theorem generateFastForwardTrampoline_forwards {o : Option MemBlock} (hm : m.Ready P)
    (hsrc : 4 ∣ src.toNat) (hserved : ForwardServed P os m src dst)
    (h : generateFastForwardTrampoline os m src dst = (o, m')) :
    Grows P m m' ∧ m'.Ready P ∧ ∀ b, o = some b →
      Forwards m' b dst ∧ Near src branchRange64 b ∧ 4 ∣ b.addr.toNat := by
  rw [generateFastForwardTrampoline] at h
  generalize hfirst : allocateNearExecMemory os m (3 * 4) src = r at h
  obtain ⟨trampMem, m₁⟩ := r
  obtain ⟨hgrows, hm₁, hblock⟩ :=
    allocateNearExecMemory_serves hm hserved.1 hsrc (by decide) hfirst
  simp only at h
  split at h
  · cases h
    exact ⟨hgrows, hm₁, by simp⟩
  next hne =>
  obtain ⟨b, rfl, hb, hserves, hnear⟩ := hblock hne
  split at h
  · next hadrp =>
    have hthree : codeSize (adrpBranch b.addr dst).buffer = 3 * 4 := by
      rw [codeSize, adrpBranch_length]
      rfl
    rw [← hthree] at hserves
    rw [realize_eq hserves.asked] at h
    cases h
    have hemits := hserves.emits hm ⟨hsrc, dvd_branchRange⟩ (by rw [adrpBranch_length]; decide)
    refine ⟨hemits.allocates.grows, hemits.ready, fun b' hb' => ?_⟩
    cases hb'
    exact ⟨.inl ⟨hadrp, hemits.code⟩, hnear, hemits.aligned⟩
  · next hadrp =>
    have hserved₂ := hserved.2 b m₁ hb (Nat.not_lt.mp hadrp)
    have hfive : (movBranch dst).buffer.length < 2 ^ 30 := by rw [movBranch_length]; decide
    generalize hsecond : allocateNearExecMemory os m₁ (codeSize (movBranch dst).buffer) src = r at h
    obtain ⟨trampMem, m₂⟩ := r
    obtain ⟨hgrows₂, hm₂, hblock₂⟩ := allocateNearExecMemory_serves hm₁ hserved₂ hsrc
      (by rw [toNat_codeSize hfive]; exact Nat.dvd_mul_right _ _) hsecond
    simp only at h
    split at h
    · cases h
      exact ⟨hgrows.trans hgrows₂, hm₂, by simp⟩
    next hne₂ =>
    obtain ⟨b₂, rfl, -, hserves₂, hnear₂⟩ := hblock₂ hne₂
    rw [realize_eq hserves₂.asked] at h
    cases h
    have hemits := hserves₂.emits hm₁ ⟨hsrc, dvd_branchRange⟩ hfive
    refine ⟨hgrows.trans hemits.allocates.grows, hemits.ready, fun b' hb' => ?_⟩
    cases hb'
    exact ⟨.inr hemits.code, hnear₂, hemits.aligned⟩

/-! ## The trampoline and the relocated code -/

/-- The forms of a trampoline from `src` to `dst`. -/
inductive Routes (m : Memory) (src dst : Address) : List Word → Prop
  | normal : Routes m src dst (generateNormalTrampolineBuffer src dst)
  | near : distance dst src < branchRange → Routes m src dst (nearBranch (dst - src))
  | forward (b : MemBlock) : Forwards m b dst → Near src branchRange64 b → 4 ∣ b.addr.toNat →
      Routes m src dst (nearBranch (b.addr - src))

theorem Routes.keep (h : Routes m src dst ws) (hk : Keeps m m') : Routes m' src dst ws := by
  cases h with
  | normal => exact .normal
  | near hd => exact .near hd
  | forward b hforwards hnear haligned =>
    exact .forward b (hforwards.imp (fun h => ⟨h.1, h.2.keep hk⟩) fun h => h.keep hk) hnear haligned

theorem Routes.length_le (h : Routes m src dst ws) : ws.length ≤ 4 := by
  cases h with
  | normal => rcases trampoline_size src dst with hlen | hlen <;> omega
  | near => simp [nearBranch, Assembler.b, Assembler.new, Assembler.emit]
  | forward => simp [nearBranch, Assembler.b, Assembler.new, Assembler.emit]

theorem generateTrampolineBuffer_routes (hm : p.memory.Ready P) (hsrc : 4 ∣ src.toNat)
    (hserved : p.nearBranchTrampoline = true → branchRange ≤ distance dst src →
      ForwardServed P os p.memory src dst)
    (h : generateTrampolineBuffer os p src dst = (ws, m')) :
    Grows P p.memory m' ∧ m'.Ready P ∧ Routes m' src dst ws := by
  rw [generateTrampolineBuffer] at h
  split at h
  · next hon =>
    rw [generateNearTrampolineBuffer] at h
    split at h
    · next heq =>
      cases h
      split at heq
      · next hd =>
        cases heq
        exact ⟨.refl hm.sound, hm, .near hd⟩
      · next hd =>
        split at heq
        · next code m₁ hfast =>
          cases heq
          obtain ⟨hgrows, hm₁, hcode⟩ := generateFastForwardTrampoline_forwards hm hsrc
            (hserved hon (Nat.not_lt.mp hd)) hfast
          obtain ⟨hforwards, hnear, haligned⟩ := hcode code rfl
          exact ⟨hgrows, hm₁, .forward code hforwards hnear haligned⟩
        · cases heq
    · next heq =>
      cases h
      split at heq
      · cases heq
      · next hd =>
        split at heq
        · cases heq
        · next m₁ hfast =>
          cases heq
          obtain ⟨hgrows, hm₁, -⟩ := generateFastForwardTrampoline_forwards hm hsrc
            (hserved hon (Nat.not_lt.mp hd)) hfast
          exact ⟨hgrows, hm₁, .normal⟩
  · cases h
    exact ⟨.refl hm.sound, hm, .normal⟩

theorem generateRelocatedCode_emits {n : Nat} {insns : List Word} (hm : m.Ready P) (hn : n ≤ 4)
    (hown : Span src (4 * n) ⊆ P)
    (hserved : ∀ r, reloRelocate (loadWords m.bytes src n) src true = some r →
      Served P m (os, .exec (codeSize r.code)))
    (h : generateRelocatedCode os m src n = some (b, insns, m')) :
    insns = loadWords m.bytes src n ∧
      ∃ r, reloRelocate insns src true = some r ∧ Emits P m r.code b m' := by
  rw [generateRelocatedCode] at h
  split at h
  · cases h
  · next r hr =>
    obtain ⟨⟨b', m₁⟩, hfinal, he⟩ := Option.map_eq_some_iff.mp h
    cases he
    have hsize := reloRelocate_size hr
    rw [length_loadWords] at hsize
    have hemits := finalizeFromTurboAssembler_emits hm (hserved r hr) (by omega) hfinal
    have hsame : loadWords m₁.bytes src n = loadWords m.bytes src n :=
      loadWords_congr (by omega) fun x hx => hemits.allocates.grows.kept x (.inl (hown hx))
    exact ⟨hsame, r, by rw [hsame]; exact hr, hemits⟩

end JniDegger.Dobby
