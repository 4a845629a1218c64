import JniDegger.MemoryAllocator
import JniDegger.Interleaving

/-!
# Blocks do not overlap

A block handed out lies below the cursor of its arena, and the next one is cut above
it.  Proved here of the three ways to allocate: what is handed out stays so, and the
new block is apart from it (`Allocates`).
-/

namespace JniDegger.Dobby
open A64 Interleaving

variable {P : Set Address} {m m' m'' : Memory} {a a' : MemoryArena} {b b' : MemBlock} {os : Os}

/-! ## Addresses of a block and of an arena -/

def MemBlock.span (b : MemBlock) : Set Address := Span b.addr b.size.toNat

def MemoryArena.span (a : MemoryArena) : Set Address := Span a.addr a.size.toNat

def MemRegion.span (r : MemRegion) : Set Address := Span r.start r.size.toNat

def Memory.arenas (m : Memory) : List MemoryArena := m.codeArenas ++ m.dataArenas

/-- The cursor is within the arena, which does not go around the end of memory. -/
structure MemoryArena.Sound (a : MemoryArena) : Prop where
  fits : a.addr.toNat + a.size.toNat < 2 ^ 64
  low : a.addr.toNat ≤ a.cursorAddr.toNat
  high : a.cursorAddr.toNat ≤ a.addr.toNat + a.size.toNat

structure Memory.Sound (m : Memory) : Prop where
  arena : ∀ a ∈ m.arenas, a.Sound
  apart : m.arenas.Pairwise fun a a' => Disjoint a.span a'.span

structure MemBlock.In (b : MemBlock) (a : MemoryArena) : Prop where
  low : a.addr.toNat ≤ b.addr.toNat
  high : b.addr.toNat + b.size.toNat ≤ a.cursorAddr.toNat

def Memory.Handed (m : Memory) (b : MemBlock) : Prop := ∃ a ∈ m.arenas, b.In a

theorem MemBlock.In.subset (h : b.In a) (ha : a.Sound) : b.span ⊆ a.span :=
  span_subset (by have := ha.fits; omega) h.low (h.high.trans ha.high)

/-! ## Cutting -/

theorem toNat_size (size : BitVec 32) : (size.setWidth 64).toNat = size.toNat := by
  rw [BitVec.toNat_setWidth]
  have := size.isLt
  omega

/-- The block lies above the old cursor and up to the new one. -/
structure MemoryArena.Cut (a : MemoryArena) (b : MemBlock) (a' : MemoryArena) : Prop where
  addr : a'.addr = a.addr
  size : a'.size = a.size
  sound : a'.Sound
  above : a.cursorAddr.toNat ≤ b.addr.toNat
  cursor : a'.cursorAddr.toNat = b.addr.toNat + b.size.toNat

theorem MemoryArena.Cut.span_eq (h : a.Cut b a') : a'.span = a.span := by
  rw [span, span, h.addr, h.size]

theorem MemoryArena.Cut.handed (h : a.Cut b a') (ha : a.Sound) : b.In a' :=
  ⟨by rw [h.addr]; exact ha.low.trans h.above, h.cursor.ge⟩

theorem MemoryArena.Cut.keeps (h : a.Cut b a') (hb : b'.In a) : b'.In a' :=
  ⟨by rw [h.addr]; exact hb.low, hb.high.trans (h.above.trans (by rw [h.cursor]; omega))⟩

theorem MemoryArena.Cut.apart (h : a.Cut b a') (hb : b'.In a) : Disjoint b'.span b.span := by
  have hfits := h.sound.fits
  have hhigh := h.sound.high
  have hcursor := h.cursor
  exact disjoint_span (hb.high.trans h.above) (by omega)

theorem toNat_remaining (ha : a.Sound) :
    (a.addr + a.size - a.cursorAddr).toNat =
      a.addr.toNat + a.size.toNat - a.cursorAddr.toNat := by
  obtain ⟨hfits, hlow, hhigh⟩ := ha
  rw [BitVec.toNat_sub, BitVec.toNat_add]
  omega

theorem allocMemBlock_eq_some {size : BitVec 64} (ha : a.Sound)
    (h : a.allocMemBlock size = some (b, a')) :
    b = ⟨a.cursorAddr, size⟩ ∧ a.Cut b a' := by
  rw [MemoryArena.allocMemBlock] at h
  split at h
  · cases h
  · next hroom =>
    cases h
    rw [BitVec.lt_def, toNat_remaining ha] at hroom
    obtain ⟨hfits, hlow, hhigh⟩ := ha
    have hcursor : (a.cursorAddr + size).toNat = a.cursorAddr.toNat + size.toNat := by
      rw [BitVec.toNat_add]
      omega
    refine ⟨rfl, ⟨rfl, rfl, ⟨hfits, ?_, ?_⟩, Nat.le_refl _, hcursor⟩⟩ <;>
      simp only [hcursor] <;> omega

theorem allocMemBlock_isSome (size : BitVec 64) (ha : a.Sound)
    (h : a.cursorAddr.toNat + size.toNat ≤ a.addr.toNat + a.size.toNat) :
    ∃ b a', a.allocMemBlock size = some (b, a') := by
  have hroom : ¬ a.addr + a.size - a.cursorAddr < size := by
    rw [BitVec.lt_def, toNat_remaining ha]
    omega
  exact ⟨_, _, if_neg hroom⟩

/-- Behind a placeholder the block is where it should be. -/
theorem skipAndAlloc_eq {unused : Address} {size : BitVec 32} (ha : a.Sound)
    (hlow : a.cursorAddr.toNat ≤ unused.toNat)
    (hhigh : unused.toNat + size.toNat ≤ a.addr.toNat + a.size.toNat) :
    ∃ a', a.skipAndAlloc unused size = (some ⟨unused, size.setWidth 64⟩, a') ∧
      a.Cut ⟨unused, size.setWidth 64⟩ a' := by
  have hskip : (unused - a.cursorAddr).toNat = unused.toNat - a.cursorAddr.toNat := by
    rw [BitVec.toNat_sub]
    have := unused.isLt
    have := a.cursorAddr.isLt
    omega
  have hsize := toNat_size size
  obtain ⟨b₁, a₁, hfirst⟩ := allocMemBlock_isSome (unused - a.cursorAddr) ha
    (by rw [hskip]; omega)
  obtain ⟨rfl, hcut₁⟩ := allocMemBlock_eq_some ha hfirst
  have hat : a₁.cursorAddr = unused := by
    apply BitVec.eq_of_toNat_eq
    rw [hcut₁.cursor, hskip]
    simp only
    omega
  obtain ⟨b₂, a₂, hsecond⟩ := allocMemBlock_isSome (size.setWidth 64) hcut₁.sound
    (by rw [hcut₁.addr, hcut₁.size, hat, hsize]; exact hhigh)
  obtain ⟨rfl, hcut₂⟩ := allocMemBlock_eq_some hcut₁.sound hsecond
  rw [hat] at hsecond hcut₂
  refine ⟨a₂, by rw [MemoryArena.skipAndAlloc, hfirst]; simp only [hsecond], ?_⟩
  exact ⟨hcut₂.addr.trans hcut₁.addr, hcut₂.size.trans hcut₁.size, hcut₂.sound, hlow,
    hcut₂.cursor⟩

/-! ## What an allocation does -/

/-- What was handed out is so still, with its bytes, and so are those of `P`; only bytes in
arenas have changed. -/
structure Grows (P : Set Address) (m m' : Memory) : Prop where
  sound : m'.Sound
  handed : ∀ b, m.Handed b → m'.Handed b
  arenas : ∀ a ∈ m.arenas, ∃ a' ∈ m'.arenas, a'.span = a.span
  own : (∀ a ∈ m.arenas, Disjoint a.span P) → ∀ a ∈ m'.arenas, Disjoint a.span P
  kept : ∀ x, x ∈ P ∨ (∃ b, m.Handed b ∧ x ∈ b.span) → m'.bytes x = m.bytes x
  frame : ∀ x, (∀ a ∈ m'.arenas, x ∉ a.span) → m'.bytes x = m.bytes x

theorem Grows.trans (h : Grows P m m') (h' : Grows P m' m'') : Grows P m m'' := by
  refine ⟨h'.sound, fun b hb => h'.handed b (h.handed b hb), fun a ha => ?_,
    fun hown => h'.own (h.own hown), fun x hx => ?_, fun x hx => ?_⟩
  · obtain ⟨a', ha', hspan⟩ := h.arenas a ha
    obtain ⟨a'', ha'', hspan'⟩ := h'.arenas a' ha'
    exact ⟨a'', ha'', hspan'.trans hspan⟩
  · rw [h'.kept x, h.kept x hx]
    exact hx.imp_right fun ⟨b, hb, hxb⟩ => ⟨b, h.handed b hb, hxb⟩
  · rw [h'.frame x hx, h.frame x fun a ha hxa => ?_]
    obtain ⟨a', ha', hspan⟩ := h'.arenas a ha
    exact hx a' ha' (hspan ▸ hxa)

/-- The block has been handed out, and it is apart from those before. -/
structure Allocates (P : Set Address) (m : Memory) (b : MemBlock) (m' : Memory) : Prop where
  grows : Grows P m m'
  handed : m'.Handed b
  apart : ∀ b', m.Handed b' → Disjoint b'.span b.span

theorem Allocates.after (h : Grows P m m') (h' : Allocates P m' b m'') : Allocates P m b m'' :=
  ⟨h.trans h'.grows, h'.handed, fun b' hb' => h'.apart b' (h.handed b' hb')⟩

def Memory.Words (m : Memory) : Prop := ∀ a ∈ m.arenas, 4 ∣ a.cursorAddr.toNat

section Cutting

variable {l r : List MemoryArena}

/-- **One arena is cut** and the others are as they were. -/
theorem Allocates.of_cut (hs : m.Sound) (hm : m.arenas = l ++ a :: r)
    (hm' : m'.arenas = l ++ a' :: r) (hbytes : m'.bytes = m.bytes) (hcut : a.Cut b a') :
    Allocates P m b m' := by
  have ha : a ∈ m.arenas := by simp [hm]
  have ha' : a' ∈ m'.arenas := by simp [hm']
  have hsound := hs.arena a ha
  have hother : ∀ x ∈ m'.arenas, x = a' ∨ x ∈ m.arenas := by
    intro x hx
    rw [hm', List.mem_append, List.mem_cons] at hx
    rw [hm, List.mem_append, List.mem_cons]
    tauto
  have hstay : ∀ x ∈ m.arenas, x = a ∨ x ∈ m'.arenas := by
    intro x hx
    rw [hm, List.mem_append, List.mem_cons] at hx
    rw [hm', List.mem_append, List.mem_cons]
    tauto
  have hspans : m'.arenas.map MemoryArena.span = m.arenas.map MemoryArena.span := by
    rw [hm, hm']
    simp [hcut.span_eq]
  have hpairs : m'.arenas.Pairwise fun x y => Disjoint x.span y.span := by
    have := hs.apart
    rw [← List.pairwise_map (f := MemoryArena.span) (R := fun s t => Disjoint s t)] at this ⊢
    rwa [hspans]
  refine ⟨⟨⟨fun x hx => ?_, hpairs⟩, fun b' hb' => ?_, fun x hx => ?_, fun hown x hx => ?_,
    fun x _ => by rw [hbytes], fun x _ => by rw [hbytes]⟩, ⟨a', ha', hcut.handed hsound⟩,
    fun b' hb' => ?_⟩
  · rcases hother x hx with rfl | hx
    · exact hcut.sound
    · exact hs.arena x hx
  · obtain ⟨x, hx, hin⟩ := hb'
    rcases hstay x hx with rfl | hx
    · exact ⟨a', ha', hcut.keeps hin⟩
    · exact ⟨x, hx, hin⟩
  · rcases hstay x hx with rfl | hx
    · exact ⟨a', ha', hcut.span_eq⟩
    · exact ⟨x, hx, rfl⟩
  · rcases hother x hx with rfl | hx
    · rw [hcut.span_eq]
      exact hown a ha
    · exact hown x hx
  · obtain ⟨x, hx, hin⟩ := hb'
    have hb : b.span ⊆ a.span := hcut.span_eq ▸ (hcut.handed hsound).subset hcut.sound
    have hx' : x = a ∨ Disjoint x.span a.span := by
      have hpairs := hs.apart
      rw [hm, List.pairwise_append, List.pairwise_cons] at hpairs
      rw [hm, List.mem_append, List.mem_cons] at hx
      rcases hx with hx | rfl | hx
      · exact .inr (hpairs.2.2 x hx a (by simp))
      · exact .inl rfl
      · exact .inr (hpairs.2.1.1 x hx).symm
    rcases hx' with rfl | hdisj
    · exact hcut.apart hin
    · exact Set.disjoint_of_subset (hin.subset (hs.arena x hx)) hb hdisj

theorem Memory.Words.cut (h : m.Words) (hm' : ∀ x ∈ m'.arenas, x = a' ∨ x ∈ m.arenas)
    (hcut : a.Cut b a') (haddr : 4 ∣ b.addr.toNat) (hsize : 4 ∣ b.size.toNat) : m'.Words := by
  intro x hx
  rcases hm' x hx with rfl | hx
  · rw [hcut.cursor]
    exact Nat.dvd_add haddr hsize
  · exact h x hx

/-- A mapping that meets neither an arena nor `P`; it begins with a page. -/
structure NewMapping (P : Set Address) (m : Memory) (addr : Address) (size : BitVec 64) : Prop where
  aligned : 4 ∣ addr.toNat
  fits : addr.toNat + size.toNat < 2 ^ 64
  apart : ∀ a ∈ m.arenas, Disjoint a.span (Span addr size.toNat)
  own : Disjoint (Span addr size.toNat) P

theorem sound_new {addr : Address} {size : BitVec 64} (h : NewMapping P m addr size) :
    (MemoryArena.new addr size).Sound :=
  ⟨h.fits, Nat.le_refl _, Nat.le_add_right _ _⟩

/-- **A new arena** disturbs nobody. -/
theorem Grows.of_new {addr : Address} {size : BitVec 64} (hs : m.Sound) (hm : m.arenas = l ++ r)
    (hm' : m'.arenas = l ++ .new addr size :: r) (hbytes : m'.bytes = m.zeroed addr size)
    (hnew : NewMapping P m addr size) : Grows P m m' := by
  have hspan : (MemoryArena.new addr size).span = Span addr size.toNat := rfl
  have hmem : .new addr size ∈ m'.arenas := by simp [hm']
  have hsub : ∀ x ∈ m.arenas, x ∈ m'.arenas := by
    intro x hx
    rw [hm, List.mem_append] at hx
    rw [hm', List.mem_append, List.mem_cons]
    tauto
  have hsup : ∀ x ∈ m'.arenas, x = .new addr size ∨ x ∈ m.arenas := by
    intro x hx
    rw [hm', List.mem_append, List.mem_cons] at hx
    rw [hm, List.mem_append]
    tauto
  have hzero : ∀ x, x ∉ Span addr size.toNat → m'.bytes x = m.bytes x := by
    intro x hx
    rw [hbytes, Memory.zeroed]
    exact if_neg hx
  refine ⟨⟨fun x hx => ?_, ?_⟩, fun b ⟨x, hx, hin⟩ => ⟨x, hsub x hx, hin⟩,
    fun x hx => ⟨x, hsub x hx, rfl⟩, fun hown x hx => ?_, fun x hx => hzero x ?_,
    fun x hx => hzero x (hspan ▸ hx _ hmem)⟩
  · rcases hsup x hx with rfl | hx
    · exact sound_new hnew
    · exact hs.arena x hx
  · have hpairs := hs.apart
    rw [hm, List.pairwise_append] at hpairs
    rw [hm', List.pairwise_append, List.pairwise_cons]
    refine ⟨hpairs.1, ⟨fun y hy => (hnew.apart y (by simp [hm, hy])).symm, hpairs.2.1⟩,
      fun x hx y hy => ?_⟩
    rcases List.mem_cons.mp hy with rfl | hy
    · exact hnew.apart x (by simp [hm, hx])
    · exact hpairs.2.2 x hx y hy
  · rcases hsup x hx with rfl | hx
    · exact hnew.own
    · exact hown x hx
  · rcases hx with hx | ⟨b, ⟨y, hy, hin⟩, hxb⟩
    · exact Set.disjoint_right.mp hnew.own hx
    · exact Set.disjoint_left.mp (hnew.apart y hy) (hin.subset (hs.arena y hy) hxb)

end Cutting

/-! ## The default allocator -/

theorem allocFirst_eq_some {size : BitVec 64} {arenas arenas' : List MemoryArena}
    (h : allocFirst size arenas = some (b, arenas')) :
    ∃ l a a' r, arenas = l ++ a :: r ∧ arenas' = l ++ a' :: r ∧
      a.allocMemBlock size = some (b, a') := by
  induction arenas generalizing arenas' with
  | nil => cases h
  | cons a arenas ih =>
    rw [allocFirst] at h
    split at h
    · next hone =>
      cases h
      exact ⟨[], a, _, arenas, rfl, rfl, hone⟩
    · obtain ⟨⟨b', rest⟩, hrest, he⟩ := Option.map_eq_some_iff.mp h
      cases he
      obtain ⟨l, a₁, a₂, r, rfl, rfl, hone⟩ := ih hrest
      exact ⟨a :: l, a₁, a₂, r, rfl, rfl, hone⟩

/-- A block of the size asked for; if the request is in whole words (`whole`), so is the block. -/
structure Serves (P : Set Address) (whole : Prop) (m : Memory) (size : BitVec 32) (b : MemBlock)
    (m' : Memory) : Prop where
  allocates : Allocates P m b m'
  asked : b.size = size.setWidth 64
  addr : m.Words → whole → 4 ∣ b.addr.toNat
  words : m.Words → whole → 4 ∣ size.toNat → m'.Words

theorem Serves.of_cut {whole : Prop} {l r : List MemoryArena} {size : BitVec 32} {addr : Address}
    (hs : m.Sound) (hm : m.arenas = l ++ a :: r) (hm' : m'.arenas = l ++ a' :: r)
    (hbytes : m'.bytes = m.bytes) (hcut : a.Cut ⟨addr, size.setWidth 64⟩ a')
    (haddr : m.Words → whole → 4 ∣ addr.toNat) :
    Serves P whole m size ⟨addr, size.setWidth 64⟩ m' := by
  refine ⟨.of_cut hs hm hm' hbytes hcut, rfl, haddr, fun hw hwhole hsize =>
    hw.cut (fun x hx => ?_) hcut (haddr hw hwhole) (by simpa only [toNat_size] using hsize)⟩
  simp only [hm, hm', List.mem_append, List.mem_cons] at hx ⊢
  tauto

theorem Serves.of_new {whole : Prop} {l r : List MemoryArena} {size : BitVec 32} {addr : Address}
    (hgrows : Grows P m m') (hm : m.arenas = l ++ r) (hm' : m'.arenas = l ++ a :: r)
    (hm'' : m''.arenas = l ++ a' :: r) (hbytes : m''.bytes = m'.bytes)
    (hcut : a.Cut ⟨addr, size.setWidth 64⟩ a') (haddr : whole → 4 ∣ addr.toNat) :
    Serves P whole m size ⟨addr, size.setWidth 64⟩ m'' := by
  refine ⟨.after hgrows (.of_cut hgrows.sound hm' hm'' hbytes hcut), rfl, fun _ => haddr,
    fun hw hwhole hsize => hw.cut (fun x hx => ?_) hcut (haddr hwhole)
      (by simpa only [toNat_size] using hsize)⟩
  simp only [hm, hm'', List.mem_append, List.mem_cons] at hx ⊢
  tauto

/-- A new mapping of this size is made, if the system is asked for one. -/
def Os.Maps (P : Set Address) (os : Os) (m : Memory) (size : BitVec 32) : Prop :=
  NewMapping P m (os.allocate m (size.setWidth 64)) (size.setWidth 64)

theorem allocInNewArena_serves {arenaSize size : BitVec 32} {b : MemBlock} (hs : m.Sound)
    (hnew : os.Maps P m arenaSize) (h : allocInNewArena os m arenaSize size = some (b, m')) :
    Serves P True m size b m' := by
  rw [allocInNewArena, allocateCodeMemoryArena] at h
  by_cases hpage : arenaSize.setWidth 64 % os.pageSize ≠ 0#64
  · simp [hpage] at h
  simp only [hpage, if_false] at h
  obtain ⟨⟨b', a'⟩, hblock, he⟩ := Option.map_eq_some_iff.mp h
  cases he
  obtain ⟨rfl, hcut⟩ := allocMemBlock_eq_some (sound_new hnew) hblock
  have hgrows : Grows P m ⟨m.zeroed (os.allocate m (arenaSize.setWidth 64))
      (arenaSize.setWidth 64), m.codeArenas ++ [.new (os.allocate m (arenaSize.setWidth 64))
      (arenaSize.setWidth 64)], m.dataArenas⟩ :=
    .of_new (l := m.codeArenas) (r := m.dataArenas) hs rfl (by simp [Memory.arenas]) rfl hnew
  exact .of_new (l := m.codeArenas) (r := m.dataArenas) hgrows (by simp [Memory.arenas])
    (by simp [Memory.arenas]) (by simp [Memory.arenas]) rfl hcut fun _ => hnew.aligned

def execArenaSize (os : Os) (size : BitVec 32) : BitVec 32 :=
  (alignCeil (size.setWidth 64) os.pageSize).setWidth 32

theorem allocFirst_serves {size : BitVec 32} {b : MemBlock} {arenas arenas' l r : List MemoryArena}
    (hs : m.Sound) (h : allocFirst (size.setWidth 64) arenas = some (b, arenas'))
    (hm : m.arenas = l ++ arenas ++ r) (hm' : m'.arenas = l ++ arenas' ++ r)
    (hbytes : m'.bytes = m.bytes) : Serves P True m size b m' := by
  obtain ⟨l₁, a, a', l₂, rfl, rfl, hblock⟩ := allocFirst_eq_some h
  have ha : a ∈ m.arenas := by simp [hm]
  obtain ⟨rfl, hcut⟩ := allocMemBlock_eq_some (hs.arena a ha) hblock
  exact .of_cut (l := l ++ l₁) (r := l₂ ++ r) hs (by simp [hm]) (by simp [hm']) hbytes hcut
    fun hw _ => hw a ha

theorem allocateExecBlock_serves {size : BitVec 32} {b : MemBlock} (hs : m.Sound)
    (hnew : allocFirst (size.setWidth 64) m.codeArenas = none →
      os.Maps P m (execArenaSize os size))
    (h : allocateExecBlock os m size = some (b, m')) : Serves P True m size b m' := by
  rw [allocateExecBlock] at h
  split at h
  · next hfirst =>
    cases h
    exact allocFirst_serves (l := []) (r := m.dataArenas) hs hfirst rfl rfl rfl
  · next hnone => exact allocInNewArena_serves hs (hnew hnone) h

theorem allocateDataBlock_serves {size : BitVec 32} {b : MemBlock} (hs : m.Sound)
    (hnew : allocFirst (size.setWidth 64) m.dataArenas = none → os.Maps P m size)
    (h : allocateDataBlock os m size = some (b, m')) : Serves P True m size b m' := by
  rw [allocateDataBlock] at h
  split at h
  · next hfirst =>
    cases h
    exact allocFirst_serves (l := m.codeArenas) (r := []) hs hfirst (by simp [Memory.arenas])
      (by simp [Memory.arenas]) rfl
  · next hnone => exact allocInNewArena_serves hs (hnew hnone) h

/-! ## The near allocator -/

/-- What the unused memory is good for. -/
structure Fits (minValidAddr maxValidAddr : Address) (size : BitVec 32) (start stop unused : Address) :
    Prop where
  after : start.toNat ≤ unused.toNat
  valid : minValidAddr.toNat ≤ unused.toNat
  room : unused.toNat + size.toNat ≤ stop.toNat
  inside : unused.toNat < stop.toNat
  range : unused.toNat + size.toNat ≤ maxValidAddr.toNat
  cut : unused = start ∨ unused = minValidAddr

variable {minValidAddr maxValidAddr unused pos : Address} {searchRange : BitVec 64}
  {size : BitVec 32}

theorem toNat_minAddr (x y : Address) : (minAddr x y).toNat = min x.toNat y.toNat := by
  rw [minAddr]
  split <;> rw [BitVec.lt_def] at * <;> omega

theorem toNat_maxAddr (x y : Address) : (maxAddr x y).toNat = max x.toNat y.toNat := by
  rw [maxAddr]
  split <;> rw [BitVec.lt_def] at * <;> omega

theorem unusedMem_fits {start stop : Address}
    (h : unusedMem minValidAddr maxValidAddr size start stop = unused) (hne : unused ≠ 0) :
    Fits minValidAddr maxValidAddr size start stop unused := by
  rw [unusedMem] at h
  have hsize := toNat_size size
  split at h
  · exact absurd h.symm hne
  split at h
  · exact absurd h.symm hne
  next hle hroom =>
  subst h
  have hstart := toNat_maxAddr start minValidAddr
  have hstop := toNat_minAddr stop maxValidAddr
  rw [BitVec.le_def, hstart, hstop] at hle
  rw [BitVec.lt_def, BitVec.toNat_sub_of_le (by rw [BitVec.le_def]; omega), hsize] at hroom
  refine ⟨by omega, by omega, by omega, by omega, by omega, ?_⟩
  rw [maxAddr]
  split
  · exact .inl rfl
  · exact .inr rfl

theorem Fits.aligned {start stop : Address}
    (h : Fits (pos - searchRange) maxValidAddr size start stop unused) (hstart : 4 ∣ start.toNat)
    (hpos : 4 ∣ pos.toNat) (hrange : 4 ∣ searchRange.toNat) : 4 ∣ unused.toNat := by
  rcases h.cut with rfl | rfl
  · exact hstart
  · rw [BitVec.toNat_sub]
    have := pos.isLt
    have := searchRange.isLt
    omega

theorem allocateFromDefaultArena_fits (h : allocateFromDefaultArena minValidAddr maxValidAddr size a = unused)
    (hne : unused ≠ 0) :
    Fits minValidAddr maxValidAddr size a.cursorAddr (a.addr + a.size) unused := by
  rw [allocateFromDefaultArena] at h
  split at h
  · exact absurd h.symm hne
  · exact unusedMem_fits h hne

theorem firstWithRoom_eq_some {room : MemoryArena → Address} {arenas : List MemoryArena} {i : Nat}
    (h : firstWithRoom room arenas = some (i, unused)) :
    ∃ a, arenas[i]? = some a ∧ room a = unused ∧ unused ≠ 0 := by
  induction arenas generalizing i with
  | nil => cases h
  | cons a arenas ih =>
    rw [firstWithRoom] at h
    split at h
    · next hroom =>
      cases h
      exact ⟨a, rfl, rfl, hroom⟩
    · obtain ⟨⟨j, u⟩, hrest, he⟩ := Option.map_eq_some_iff.mp h
      cases he
      exact ih hrest

theorem lastWithRoom_eq_some {room : MemoryArena → Address} {arenas : List MemoryArena} {i : Nat}
    (h : lastWithRoom room arenas = some (i, unused)) :
    ∃ a, arenas[i]? = some a ∧ room a = unused ∧ unused ≠ 0 := by
  rw [lastWithRoom] at h
  split at h
  · cases h
  · next a hlast =>
    split at h
    · next hroom =>
      cases h
      rw [List.getLast?_eq_getElem?] at hlast
      exact ⟨a, hlast, rfl, hroom⟩
    · cases h

/-- A block of the near allocator is within the range. -/
structure Near (pos : Address) (searchRange : BitVec 64) (b : MemBlock) : Prop where
  low : pos.toNat ≤ b.addr.toNat + searchRange.toNat
  high : b.addr.toNat + b.size.toNat ≤ pos.toNat + searchRange.toNat

theorem Fits.near {start stop : Address}
    (h : Fits (pos - searchRange) (pos + searchRange) size start stop unused) :
    Near pos searchRange ⟨unused, size.setWidth 64⟩ := by
  have hvalid := h.valid
  have hrange := h.range
  have hsize := toNat_size size
  rw [BitVec.toNat_sub] at hvalid
  rw [BitVec.toNat_add] at hrange
  refine ⟨?_, ?_⟩
  · have := pos.isLt
    have := searchRange.isLt
    simp only
    omega
  · simp only [hsize]
    omega

theorem set_eq_append {l : List MemoryArena} {i : Nat} (h : l[i]? = some a) (a' : MemoryArena) :
    ∃ l₁ l₂, l = l₁ ++ a :: l₂ ∧ l.set i a' = l₁ ++ a' :: l₂ := by
  obtain ⟨hi, rfl⟩ := List.getElem?_eq_some_iff.mp h
  refine ⟨l.take i, l.drop (i + 1), ?_, List.set_eq_take_append_cons_drop.trans (if_pos hi)⟩
  rw [List.cons_getElem_drop_succ, List.take_append_drop]

theorem nearFromDefault_cases {executable : Bool} (hs : m.Sound) {r : Option MemBlock × Memory}
    (h : allocateNearBlockFromDefaultAllocator m size pos searchRange executable = r) :
    r = (none, m) ∨ ∃ b, r.1 = some b ∧
      Serves P (4 ∣ pos.toNat ∧ 4 ∣ searchRange.toNat) m size b r.2 ∧ Near pos searchRange b := by
  rw [allocateNearBlockFromDefaultAllocator] at h
  simp only at h
  split at h
  · exact .inl h.symm
  next i unused hroom =>
  obtain ⟨a, ha, hu, hne⟩ : ∃ a, (if executable then m.codeArenas else m.dataArenas)[i]? = some a ∧
      allocateFromDefaultArena (pos - searchRange) (pos + searchRange) size a = unused ∧
      unused ≠ 0 := by
    cases executable
    · exact lastWithRoom_eq_some hroom
    · exact firstWithRoom_eq_some hroom
  have hfits := allocateFromDefaultArena_fits hu hne
  have hmem : a ∈ m.arenas := by
    have := List.mem_of_getElem? ha
    cases executable
    · exact List.mem_append_right _ this
    · exact List.mem_append_left _ this
  have hsound := hs.arena a hmem
  have hstop : (a.addr + a.size).toNat = a.addr.toNat + a.size.toNat := by
    rw [BitVec.toNat_add]
    have := hsound.fits
    omega
  obtain ⟨a', hskip, hcut⟩ := skipAndAlloc_eq hsound hfits.after (hstop ▸ hfits.room)
  obtain ⟨l₁, l₂, hl, hl'⟩ := set_eq_append ha a'
  rw [ha] at h
  simp only [hskip] at h
  subst h
  refine .inr ⟨_, rfl, ?_, hfits.near⟩
  have haddr : m.Words → 4 ∣ pos.toNat ∧ 4 ∣ searchRange.toNat → 4 ∣ unused.toNat :=
    fun hw hwhole => hfits.aligned (hw a hmem) hwhole.1 hwhole.2
  cases executable
  · simp only [Bool.false_eq_true, if_false] at hl hl' ⊢
    exact .of_cut (l := m.codeArenas ++ l₁) (r := l₂) hs (by simp [Memory.arenas, hl])
      (by simp [Memory.arenas, hl']) rfl hcut haddr
  · simp only [if_true] at hl hl' ⊢
    exact .of_cut (l := l₁) (r := l₂ ++ m.dataArenas) hs (by simp [Memory.arenas, hl])
      (by simp [Memory.arenas, hl']) rfl hcut haddr

theorem toNat_alignFloor (x : BitVec 64) {k : Nat} (hk : k < 64) :
    (alignFloor x (1#64 <<< k)).toNat = x.toNat / 2 ^ k * 2 ^ k := by
  have hlt : 2 ^ k < 2 ^ 64 := Nat.pow_lt_pow_right (by decide) hk
  have hpos : 0 < 2 ^ k := Nat.two_pow_pos k
  have hmask : (1#64 <<< k - 1#64).toNat = 2 ^ k - 1 := by
    rw [← BitVec.twoPow_eq, BitVec.toNat_sub, BitVec.toNat_twoPow_of_lt hk]
    generalize 2 ^ k = y at hlt hpos ⊢
    have hone : (1#64).toNat = 1 := rfl
    rw [hone]
    omega
  have hshift : alignFloor x (1#64 <<< k) = (x >>> k) <<< k := by
    apply BitVec.eq_of_getLsbD_eq
    intro i hi
    have hbit : (1#64 <<< k - 1#64).getLsbD i = decide (i < k) := by
      rw [BitVec.getLsbD, hmask, Nat.testBit_two_pow_sub_one]
    rw [alignFloor, BitVec.getLsbD_and, BitVec.getLsbD_not, hbit, BitVec.getLsbD_shiftLeft,
      BitVec.getLsbD_ushiftRight]
    by_cases hik : i < k
    · simp [hik]
    · have hplace : k + (i - k) = i := by omega
      simp [hik, hi, hplace]
  rw [hshift, BitVec.toNat_shiftLeft, BitVec.toNat_ushiftRight, Nat.shiftLeft_eq,
    Nat.shiftRight_eq_div_pow]
  have hx := x.isLt
  have hle := Nat.div_mul_le_self x.toNat (2 ^ k)
  exact Nat.mod_eq_of_lt (by omega)

/-- `/proc/self/maps` lists the mappings of the process, in order: the arenas, `P`, and
perhaps more.  A line may be read twice, as the last one is before `feof` holds.  The last page of
the address space is never mapped. -/
structure Os.Lists (P : Set Address) (os : Os) (m : Memory) : Prop where
  shift : 2 ≤ os.pageShift ∧ os.pageShift < 31
  nonempty : ∀ r ∈ os.layout m, 0 < r.size.toNat
  fits : ∀ r ∈ os.layout m, r.start.toNat + r.size.toNat + 2 ^ os.pageShift < 2 ^ 64
  aligned : ∀ r ∈ os.layout m, 2 ^ os.pageShift ∣ r.start.toNat ∧ 2 ^ os.pageShift ∣ r.size.toNat
  sorted : (os.layout m).Pairwise fun r r' =>
    r = r' ∨ r.start.toNat + r.size.toNat ≤ r'.start.toNat
  arenas : ∀ a ∈ m.arenas, ∀ x ∈ a.span, ∃ r ∈ os.layout m, x ∈ r.span
  own : ∀ x ∈ P, ∃ r ∈ os.layout m, x ∈ r.span

theorem searchGaps_ne_zero {check : MemRegion → MemRegion → Address} {regions : List MemRegion}
    (h : searchGaps check regions = unused) (hne : unused ≠ 0) :
    ∃ l r r' t, regions = l ++ r :: r' :: t ∧ check r r' = unused := by
  induction regions with
  | nil => exact absurd h.symm hne
  | cons r regions ih =>
    cases regions with
    | nil => exact absurd h.symm hne
    | cons r' regions =>
      rw [searchGaps] at h
      split at h
      · exact ⟨[], r, r', regions, rfl, h⟩
      · obtain ⟨l, r₁, r₂, t, hl, hcheck⟩ := ih h
        exact ⟨r :: l, r₁, r₂, t, by rw [hl]; rfl, hcheck⟩

/-- The unused memory a search has found, between two neighbours of the layout. -/
structure Gap (os : Os) (m : Memory) (pos : Address) (searchRange : BitVec 64) (size : BitVec 32)
    (unused : Address) (r r' : MemRegion) : Prop where
  split : ∃ l t, os.layout m = l ++ r :: r' :: t
  fits : Fits (pos - searchRange) (pos + searchRange) size (r.start + r.size) r'.start unused

theorem dvd_div_mul {n p : Nat} (h : p ∣ n) : n / p * p = n := Nat.div_mul_cancel h

theorem exists_gap (hlists : os.Lists P m) (h : gapFor os m size pos searchRange = unused)
    (hne : unused ≠ 0) : ∃ r r', Gap os m pos searchRange size unused r r' := by
  obtain ⟨l, r, r', t, hl, hcheck⟩ := searchGaps_ne_zero h hne
  have hr : r ∈ os.layout m := by simp [hl]
  have hfits := hlists.fits r hr
  obtain ⟨hstart, hsize⟩ := hlists.aligned r hr
  rw [checkHasSufficientMemoryBetweenRegion] at hcheck
  split at hcheck
  · exact absurd hcheck.symm hne
  have halign : alignFloor (r.start + r.size) 4 = r.start + r.size := by
    apply BitVec.eq_of_toNat_eq
    have hfour : 2 ^ 2 ∣ (r.start + r.size).toNat := by
      rw [BitVec.toNat_add, Nat.mod_eq_of_lt (by omega)]
      exact (Nat.pow_dvd_pow 2 hlists.shift.1).trans (Nat.dvd_add hstart hsize)
    have := toNat_alignFloor (r.start + r.size) (show 2 < 64 by decide)
    rwa [dvd_div_mul hfour] at this
  rw [halign] at hcheck
  exact ⟨r, r', ⟨l, t, hl⟩, unusedMem_fits hcheck hne⟩

theorem Gap.aligned (hlists : os.Lists P m) {r r' : MemRegion}
    (hgap : Gap os m pos searchRange size unused r r') : 4 ∣ (r.start + r.size).toNat := by
  obtain ⟨l, t, hl⟩ := hgap.split
  have hr : r ∈ os.layout m := by simp [hl]
  have hfits := hlists.fits r hr
  obtain ⟨hstart, hsize⟩ := hlists.aligned r hr
  rw [BitVec.toNat_add, Nat.mod_eq_of_lt (by omega)]
  exact (Nat.pow_dvd_pow 2 hlists.shift.1).trans (Nat.dvd_add hstart hsize)

theorem gapArena_bounds (hlists : os.Lists P m) {r r' : MemRegion}
    (hgap : Gap os m pos searchRange size unused r r') :
    r.start.toNat + r.size.toNat ≤ (gapArena os unused size).addr.toNat ∧
      (gapArena os unused size).addr.toNat ≤ unused.toNat ∧
      unused.toNat + size.toNat < (gapArena os unused size).addr.toNat +
        (gapArena os unused size).size.toNat ∧
      (unused.toNat + size.toNat ≠ r'.start.toNat → (gapArena os unused size).addr.toNat +
        (gapArena os unused size).size.toNat ≤ r'.start.toNat) ∧
      (unused.toNat + size.toNat = r'.start.toNat → (gapArena os unused size).addr.toNat +
        (gapArena os unused size).size.toNat = r'.start.toNat + 2 ^ os.pageShift) := by
  obtain ⟨l, t, hl⟩ := hgap.split
  have hr : r ∈ os.layout m := by simp [hl]
  have hr' : r' ∈ os.layout m := by simp [hl]
  have hstart := hgap.fits.after
  have hroom := hgap.fits.room
  have hfits := hlists.fits r hr
  have hfits' := hlists.fits r' hr'
  have hk : os.pageShift < 64 := by have := hlists.shift.2; omega
  have hpos : 0 < 2 ^ os.pageShift := Nat.two_pow_pos _
  have hsize := toNat_size size
  rw [BitVec.toNat_add, Nat.mod_eq_of_lt (by omega)] at hstart
  have hsum : (unused + size.setWidth 64).toNat = unused.toNat + size.toNat := by
    rw [BitVec.toNat_add, hsize]
    have := r'.start.isLt
    omega
  have hfirst := toNat_alignFloor unused hk
  have hend := toNat_alignFloor (unused + size.setWidth 64) hk
  rw [hsum] at hend
  have hp : (1#64 <<< os.pageShift).toNat = 2 ^ os.pageShift := by
    rw [← BitVec.twoPow_eq, BitVec.toNat_twoPow_of_lt hk]
  have hbegin : r.start.toNat + r.size.toNat ≤ unused.toNat / 2 ^ os.pageShift * 2 ^ os.pageShift := by
    rw [← dvd_div_mul (Nat.dvd_add (hlists.aligned r hr).1 (hlists.aligned r hr).2)]
    exact Nat.mul_le_mul_right _ (Nat.div_le_div_right hstart)
  have hle := Nat.div_mul_le_self unused.toNat (2 ^ os.pageShift)
  have hle' := Nat.div_mul_le_self (unused.toNat + size.toNat) (2 ^ os.pageShift)
  have hlt := Nat.lt_div_mul_add (a := unused.toNat + size.toNat) hpos
  have horder : unused.toNat / 2 ^ os.pageShift * 2 ^ os.pageShift ≤
      (unused.toNat + size.toNat) / 2 ^ os.pageShift * 2 ^ os.pageShift :=
    Nat.mul_le_mul_right _ (Nat.div_le_div_right (Nat.le_add_right _ _))
  have hnext := dvd_div_mul (hlists.aligned r' hr').1
  have hinner : unused.toNat + size.toNat ≠ r'.start.toNat →
      (unused.toNat + size.toNat) / 2 ^ os.pageShift * 2 ^ os.pageShift + 2 ^ os.pageShift ≤
        r'.start.toNat := by
    intro hne
    have hdiv : (unused.toNat + size.toNat) / 2 ^ os.pageShift <
        r'.start.toNat / 2 ^ os.pageShift := by
      rw [Nat.div_lt_iff_lt_mul hpos, hnext]
      omega
    rw [← Nat.succ_mul, ← hnext]
    exact Nat.mul_le_mul_right _ hdiv
  have hexact : unused.toNat + size.toNat = r'.start.toNat →
      (unused.toNat + size.toNat) / 2 ^ os.pageShift * 2 ^ os.pageShift = r'.start.toNat := by
    intro he
    rw [he, hnext]
  have hlength : (gapArena os unused size).size.toNat =
      (unused.toNat + size.toNat) / 2 ^ os.pageShift * 2 ^ os.pageShift -
        unused.toNat / 2 ^ os.pageShift * 2 ^ os.pageShift + 2 ^ os.pageShift := by
    simp only [gapArena, MemoryArena.new, Os.pageSize]
    rw [BitVec.toNat_add, BitVec.toNat_sub_of_le (by rw [BitVec.le_def, hfirst, hend]; exact horder),
      hfirst, hend, hp]
    omega
  have haddr : (gapArena os unused size).addr.toNat =
      unused.toNat / 2 ^ os.pageShift * 2 ^ os.pageShift := hfirst
  rw [hlength, haddr]
  generalize unused.toNat / 2 ^ os.pageShift * 2 ^ os.pageShift = first at *
  generalize (unused.toNat + size.toNat) / 2 ^ os.pageShift * 2 ^ os.pageShift = last at *
  refine ⟨hbegin, hle, by omega, fun hne => ?_, fun he => ?_⟩
  · have := hinner hne
    omega
  · have := hexact he
    omega

/-- No listed mapping lies between the two neighbours. -/
theorem Gap.neighbours (hlists : os.Lists P m) {r r' : MemRegion}
    (hgap : Gap os m pos searchRange size unused r r') {q : MemRegion} (hq : q ∈ os.layout m) :
    q.start.toNat + q.size.toNat ≤ r.start.toNat + r.size.toNat ∨
      r'.start.toNat ≤ q.start.toNat := by
  obtain ⟨l, t, hl⟩ := hgap.split
  have hsorted := hlists.sorted
  rw [hl, List.pairwise_append, List.pairwise_cons, List.pairwise_cons] at hsorted
  obtain ⟨-, ⟨-, hnext, -⟩, hbefore⟩ := hsorted
  rw [hl, List.mem_append, List.mem_cons, List.mem_cons] at hq
  rcases hq with hq | rfl | rfl | hq
  · rcases hbefore q hq r (by simp) with rfl | hle
    · exact .inl (Nat.le_refl _)
    · exact .inl (by omega)
  · exact .inl (Nat.le_refl _)
  · exact .inr (Nat.le_refl _)
  · rcases hnext q hq with rfl | hle
    · exact .inr (Nat.le_refl _)
    · exact .inr (by omega)

theorem gapArena_avoids (hlists : os.Lists P m) {r r' : MemRegion}
    (hgap : Gap os m pos searchRange size unused r r')
    (hne : unused.toNat + size.toNat ≠ r'.start.toNat) {q : MemRegion} (hq : q ∈ os.layout m) :
    Disjoint q.span (gapArena os unused size).span := by
  obtain ⟨hbegin, -, -, hstop, -⟩ := gapArena_bounds hlists hgap
  have hend := hstop hne
  have hfits := hlists.fits q hq
  have hpos := Nat.two_pow_pos os.pageShift
  have hnext := r'.start.isLt
  rcases hgap.neighbours hlists hq with hbefore | hafter
  · exact disjoint_span (by omega) (by omega)
  · exact (disjoint_span (by omega) (by omega)).symm

theorem gapArena_aligned (hlists : os.Lists P m) : 4 ∣ (gapArena os unused size).addr.toNat := by
  have haddr : (gapArena os unused size).addr.toNat =
      unused.toNat / 2 ^ os.pageShift * 2 ^ os.pageShift :=
    toNat_alignFloor unused (by have := hlists.shift.2; omega)
  rw [haddr]
  exact Dvd.dvd.mul_left (Nat.pow_dvd_pow 2 hlists.shift.1) _

theorem gapArena_new (hlists : os.Lists P m) {r r' : MemRegion}
    (hgap : Gap os m pos searchRange size unused r r')
    (hne : unused.toNat + size.toNat ≠ r'.start.toNat) :
    NewMapping P m (gapArena os unused size).addr (gapArena os unused size).size := by
  obtain ⟨-, -, -, hstop, -⟩ := gapArena_bounds hlists hgap
  refine ⟨gapArena_aligned hlists, Nat.lt_of_le_of_lt (hstop hne) r'.start.isLt, fun a ha => ?_,
    ?_⟩
  · rw [Set.disjoint_left]
    intro x hx hx'
    obtain ⟨q, hq, hxq⟩ := hlists.arenas a ha x hx
    exact Set.disjoint_left.mp (gapArena_avoids hlists hgap hne hq) hxq hx'
  · rw [Set.disjoint_right]
    intro x hx hx'
    obtain ⟨q, hq, hxq⟩ := hlists.own x hx
    exact Set.disjoint_left.mp (gapArena_avoids hlists hgap hne hq) hxq hx'

/-- The block for which a gap is searched does not end where a mapping begins. -/
def EndsInGap (os : Os) (m : Memory) (pos : Address) (searchRange : BitVec 64) (size : BitVec 32) :
    Prop :=
  ∀ r ∈ os.layout m, (gapFor os m size pos searchRange).toNat + size.toNat ≠ r.start.toNat

theorem nearFromUnused_cases {executable : Bool} (hs : m.Sound) (hlists : os.Lists P m)
    (hends : EndsInGap os m pos searchRange size) {r : Option MemBlock × Memory}
    (h : allocateNearBlockFromUnusedRegion os m size pos searchRange executable = r) :
    r = (none, m) ∨ ∃ b, r.1 = some b ∧
      Serves P (4 ∣ pos.toNat ∧ 4 ∣ searchRange.toNat) m size b r.2 ∧ Near pos searchRange b := by
  rw [allocateNearBlockFromUnusedRegion] at h
  rw [EndsInGap] at hends
  generalize hgap : gapFor os m size pos searchRange = unused at h hends
  simp only at h
  split at h
  · exact .inl h.symm
  next hne =>
  obtain ⟨q, q', hgap⟩ := exists_gap hlists hgap hne
  obtain ⟨l, t, hl⟩ := hgap.split
  have hnew := gapArena_new hlists hgap (hends q' (by simp [hl]))
  obtain ⟨-, hlow, hhigh, -⟩ := gapArena_bounds hlists hgap
  have hsound : (gapArena os unused size).Sound := sound_new hnew
  obtain ⟨a', hskip, hcut⟩ := skipAndAlloc_eq hsound hlow hhigh.le
  split at h
  · rw [hskip] at h
    subst h
    refine .inr ⟨_, rfl, ?_, hgap.fits.near⟩
    have haddr : 4 ∣ pos.toNat ∧ 4 ∣ searchRange.toNat → 4 ∣ unused.toNat :=
      fun hwhole => hgap.fits.aligned (hgap.aligned hlists) hwhole.1 hwhole.2
    generalize harena : gapArena os unused size = arena at hnew hcut
    have heq : arena = .new arena.addr arena.size := harena ▸ rfl
    cases executable
    · have hgrows : Grows P m ⟨m.zeroed arena.addr arena.size, m.codeArenas,
          m.dataArenas ++ [arena]⟩ :=
        .of_new (l := m.codeArenas ++ m.dataArenas) (r := []) hs (by simp [Memory.arenas])
          (by rw [← heq]; simp [Memory.arenas]) rfl hnew
      exact .of_new (l := m.codeArenas ++ m.dataArenas) (r := []) hgrows (by simp [Memory.arenas])
        (by simp [Memory.arenas]) (by simp [Memory.arenas]) rfl hcut haddr
    · have hgrows : Grows P m ⟨m.zeroed arena.addr arena.size, m.codeArenas ++ [arena],
          m.dataArenas⟩ :=
        .of_new (l := m.codeArenas) (r := m.dataArenas) hs rfl
          (by rw [← heq]; simp [Memory.arenas]) rfl hnew
      exact .of_new (l := m.codeArenas) (r := m.dataArenas) hgrows (by simp [Memory.arenas])
        (by simp [Memory.arenas]) (by simp [Memory.arenas]) rfl hcut haddr
  · exact .inl h.symm

theorem allocateNearBlock_cases {executable : Bool} (hs : m.Sound) (hlists : os.Lists P m)
    (hends : EndsInGap os m pos searchRange size) {r : Option MemBlock × Memory}
    (h : allocateNearBlock os m size pos searchRange executable = r) :
    r = (none, m) ∨ ∃ b, r.1 = some b ∧
      Serves P (4 ∣ pos.toNat ∧ 4 ∣ searchRange.toNat) m size b r.2 ∧ Near pos searchRange b := by
  rw [allocateNearBlock] at h
  rcases nearFromDefault_cases (P := P) hs
    (rfl : allocateNearBlockFromDefaultAllocator m size pos searchRange executable = _) with
    hnone | ⟨b, hb, hcase⟩
  · rw [hnone] at h
    exact nearFromUnused_cases hs hlists hends h
  · generalize allocateNearBlockFromDefaultAllocator m size pos searchRange executable = r' at *
    obtain ⟨o, m'⟩ := r'
    cases hb
    subst h
    exact .inr ⟨b, rfl, hcase⟩

end JniDegger.Dobby
