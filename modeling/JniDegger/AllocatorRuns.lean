import JniDegger.ArenaInvariants

/-!
# Runs of the allocator

Requests in any order, from a process that has no arena yet.  `blocks_apart`: whatever
has been handed out lies in pieces of memory that do not meet, nor the memory `P` the
program had before; a near block is within its range.

Two ways in which the allocator does not keep what it promises are made precise.  The
arena the near allocator maps at a fixed address stays in its gap exactly if the block
does not end where the next mapping begins (`gap_arena_iff`); and a data block, where
no near request has made a data arena, is always executable memory, and an abort if its
size is not a number of pages (`data_block_in_code_arena`).
-/

namespace JniDegger.Dobby
open A64 Interleaving

inductive Request where
  | exec (size : BitVec 32)
  | data (size : BitVec 32)
  | near (size : BitVec 32) (pos : Address) (searchRange : BitVec 64) (executable : Bool)
  deriving DecidableEq

def Request.size : Request → BitVec 32
  | .exec size | .data size | .near size .. => size

structure Grant where
  request : Request
  block : MemBlock

def allocate (m : Memory) (os : Os) (r : Request) : Option (Memory × List Grant) :=
  match r with
  | .exec size => (allocateExecBlock os m size).map fun g => (g.2, [⟨r, g.1⟩])
  | .data size => (allocateDataBlock os m size).map fun g => (g.2, [⟨r, g.1⟩])
  | .near size pos searchRange executable =>
    match allocateNearBlock os m size pos searchRange executable with
    | (some b, m') => some (m', [⟨r, b⟩])
    | (none, m') => some (m', [])

/-- Each request comes with the answers of the system. -/
def allocator : System Memory (Os × Request) Grant := ⟨fun m a => allocate m a.1 a.2⟩

/-- The system does its part: a mapping asked for is new, and the layout is true.  A near
block does not end where a mapping begins. -/
def Served (P : Set Address) (m : Memory) (a : Os × Request) : Prop :=
  match a.2 with
  | .exec size => allocFirst (size.setWidth 64) m.codeArenas = none →
      a.1.Maps P m (execArenaSize a.1 size)
  | .data size => allocFirst (size.setWidth 64) m.dataArenas = none → a.1.Maps P m size
  | .near size pos searchRange _ => a.1.Lists P m ∧ EndsInGap a.1 m pos searchRange size

def Grant.Meets (g : Grant) : Prop :=
  g.block.size = g.request.size.setWidth 64 ∧ match g.request with
    | .near _ pos searchRange _ => Near pos searchRange g.block
    | _ => True

variable {P : Set Address} {m m' : Memory} {os : Os} {r : Request} {log gs : List Grant}

/-- What every request keeps: `bytes` is the memory at the start. -/
structure Kept (P : Set Address) (bytes : Address → BitVec 8) (m : Memory) (log : List Grant) :
    Prop where
  sound : m.Sound
  own : ∀ a ∈ m.arenas, Disjoint a.span P
  frame : ∀ x, (∀ a ∈ m.arenas, x ∉ a.span) → m.bytes x = bytes x
  handed : ∀ g ∈ log, m.Handed g.block ∧ g.Meets
  apart : log.Pairwise fun g h => Disjoint g.block.span h.block.span

theorem allocate_cases (hs : m.Sound) (hserved : Served P m (os, r))
    (h : allocate m os r = some (m', gs)) :
    (m' = m ∧ gs = []) ∨ ∃ b, gs = [⟨r, b⟩] ∧ Allocates P m b m' ∧ Grant.Meets ⟨r, b⟩ := by
  cases r with
  | exec size =>
    obtain ⟨⟨b, m₁⟩, hb, he⟩ := Option.map_eq_some_iff.mp h
    cases he
    have hserves := allocateExecBlock_serves hs hserved hb
    exact .inr ⟨b, rfl, hserves.allocates, hserves.asked, trivial⟩
  | data size =>
    obtain ⟨⟨b, m₁⟩, hb, he⟩ := Option.map_eq_some_iff.mp h
    cases he
    have hserves := allocateDataBlock_serves hs hserved hb
    exact .inr ⟨b, rfl, hserves.allocates, hserves.asked, trivial⟩
  | near size pos searchRange executable =>
    rw [allocate] at h
    rcases allocateNearBlock_cases hs hserved.1 hserved.2
      (rfl : allocateNearBlock os m size pos searchRange executable = _) with
      hnone | ⟨b, hb, hserves, hnear⟩
    · rw [hnone] at h
      cases h
      exact .inl ⟨rfl, rfl⟩
    · generalize allocateNearBlock os m size pos searchRange executable = res at *
      obtain ⟨o, m₁⟩ := res
      cases hb
      cases h
      exact .inr ⟨b, rfl, hserves.allocates, hserves.asked, hnear⟩

theorem Kept.step {bytes : Address → BitVec 8} (hk : Kept P bytes m log)
    (hserved : Served P m (os, r)) (h : allocate m os r = some (m', gs)) :
    Kept P bytes m' (log ++ gs) := by
  rcases allocate_cases hk.sound hserved h with ⟨rfl, rfl⟩ | ⟨b, rfl, halloc, hmeets⟩
  · simpa using hk
  have hgrows := halloc.grows
  refine ⟨hgrows.sound, hgrows.own hk.own, fun x hx => ?_, fun g hg => ?_, ?_⟩
  · rw [hgrows.frame x hx]
    refine hk.frame x fun a ha hxa => ?_
    obtain ⟨a', ha', hspan⟩ := hgrows.arenas a ha
    exact hx a' ha' (hspan ▸ hxa)
  · rcases List.mem_append.mp hg with hg | hg
    · exact ⟨hgrows.handed _ (hk.handed g hg).1, (hk.handed g hg).2⟩
    · obtain rfl := List.mem_singleton.mp hg
      exact ⟨halloc.handed, hmeets⟩
  · rw [List.pairwise_append]
    refine ⟨hk.apart, List.pairwise_singleton _ _, fun g hg h hh => ?_⟩
    obtain rfl := List.mem_singleton.mp hh
    exact halloc.apart _ (hk.handed g hg).1

theorem kept_start (P : Set Address) (bytes : Address → BitVec 8) :
    Kept P bytes ⟨bytes, [], []⟩ [] :=
  ⟨⟨by simp [Memory.arenas], by simp [Memory.arenas]⟩, by simp [Memory.arenas], fun _ _ => rfl,
    by simp, .nil⟩

theorem kept_of_run {bytes : Address → BitVec 8} {as : List (Os × Request)}
    (h : (allocator.restrict (Served P)).Run ⟨bytes, [], []⟩ as log m) : Kept P bytes m log := by
  refine h.invariant (Kept P bytes) (kept_start P bytes) fun t log a u gs hk hstep => ?_
  obtain ⟨hserved, hone⟩ := System.restrict_step.mp hstep
  exact hk.step hserved hone

/-- **Blocks are apart.** -/
theorem blocks_apart {bytes : Address → BitVec 8} {as : List (Os × Request)}
    (h : (allocator.restrict (Served P)).Run ⟨bytes, [], []⟩ as log m) :
    log.Pairwise (fun g g' => Disjoint g.block.span g'.block.span) ∧
      (∀ g ∈ log, g.Meets ∧ Disjoint g.block.span P ∧
        ∃ a ∈ m.arenas, g.block.span ⊆ a.span) ∧
      ∀ x, (∀ a ∈ m.arenas, x ∉ a.span) → m.bytes x = bytes x := by
  have hk := kept_of_run h
  refine ⟨hk.apart, fun g hg => ?_, hk.frame⟩
  obtain ⟨⟨a, ha, hin⟩, hmeets⟩ := hk.handed g hg
  have hsub := hin.subset (hk.sound.arena a ha)
  exact ⟨hmeets, Set.disjoint_of_subset_left hsub (hk.own a ha), a, ha, hsub⟩

/-! ## A run -/

/-- Pages of 4 KiB, the program at 0x10000, and the first arena at 0x20000. -/
def quietOs : Os :=
  ⟨12, fun _ _ => 0x20000#64, fun _ _ _ => true,
    fun m => ⟨0x10000#64, 0x1000#64⟩ :: m.arenas.map fun a => ⟨a.addr, a.size⟩, fun _ _ => true,
    0x30000#64⟩

def quietRun : List (Os × Request) :=
  [(quietOs, .exec 20#32), (quietOs, .near 12#32 0x20100#64 0x10000#64 true)]

def quietMemory : Memory :=
  ⟨Memory.zeroed ⟨fun _ => 0#8, [], []⟩ 0x20000#64 0x1000#64,
    [⟨0x20000#64, 0x1000#64, 0x20020#64⟩], []⟩

def quietLog : List Grant :=
  [⟨.exec 20#32, ⟨0x20000#64, 20#64⟩⟩,
    ⟨.near 12#32 0x20100#64 0x10000#64 true, ⟨0x20014#64, 12#64⟩⟩]

def quietMiddle : Memory := { quietMemory with codeArenas := [⟨0x20000#64, 0x1000#64, 0x20014#64⟩] }

theorem quietRun_served : (allocator.restrict (Served (Span 0x10000#64 0x1000))).Run
    ⟨fun _ => 0#8, [], []⟩ quietRun quietLog quietMemory := by
  have happart : Disjoint (Span 0x20000#64 0x1000) (Span 0x10000#64 0x1000) :=
    (disjoint_span (by decide) (by decide)).symm
  have hexec : Served (Span 0x10000#64 0x1000) ⟨fun _ => 0#8, [], []⟩ (quietOs, .exec 20#32) := by
    intro _
    exact ⟨by decide, by decide, by simp [Memory.arenas], happart⟩
  have hlists : quietOs.Lists (Span 0x10000#64 0x1000) quietMiddle := by
    refine ⟨by decide, by decide, by decide, by decide, by decide, fun a ha x hx => ?_,
      fun x hx => ⟨⟨0x10000#64, 0x1000#64⟩, by decide, hx⟩⟩
    obtain rfl : a = ⟨0x20000#64, 0x1000#64, 0x20014#64⟩ := by
      simpa [Memory.arenas, quietMiddle, quietMemory] using ha
    exact ⟨⟨0x20000#64, 0x1000#64⟩, by decide, hx⟩
  have hnear : Served (Span 0x10000#64 0x1000) quietMiddle
      (quietOs, .near 12#32 0x20100#64 0x10000#64 true) := by
    refine ⟨hlists, ?_⟩
    have hgap : gapFor quietOs quietMiddle 12#32 0x20100#64 0x10000#64 = 0x11000#64 := by decide
    rw [EndsInGap, hgap]
    decide
  have hfirst : allocator.step ⟨fun _ => 0#8, [], []⟩ (quietOs, .exec 20#32) =
      some (quietMiddle, [⟨.exec 20#32, ⟨0x20000#64, 20#64⟩⟩]) := rfl
  have hsecond : allocator.step quietMiddle (quietOs, .near 12#32 0x20100#64 0x10000#64 true) =
      some (quietMemory, [⟨.near 12#32 0x20100#64 0x10000#64 true, ⟨0x20014#64, 12#64⟩⟩]) := rfl
  exact (System.Run.nil.snoc (System.restrict_step.mpr ⟨hexec, hfirst⟩)).snoc
    (System.restrict_step.mpr ⟨hnear, hsecond⟩)

theorem blocks_apart_quiet :
    quietLog.Pairwise (fun g g' => Disjoint g.block.span g'.block.span) ∧
      (∀ g ∈ quietLog, g.Meets ∧ Disjoint g.block.span (Span 0x10000#64 0x1000) ∧
        ∃ a ∈ quietMemory.arenas, g.block.span ⊆ a.span) ∧
      ∀ x, (∀ a ∈ quietMemory.arenas, x ∉ a.span) → quietMemory.bytes x = 0#8 :=
  blocks_apart quietRun_served

/-! ## Where the allocator goes wrong -/

/-- **The arena in a gap.**  It meets no mapping exactly if the block does not end where the
next mapping begins; otherwise it lies over the first page of that mapping. -/
theorem gap_arena_iff (hlists : os.Lists P m) {size : BitVec 32} {pos : Address}
    {searchRange : BitVec 64} {unused : Address}
    (h : gapFor os m size pos searchRange = unused) (hne : unused ≠ 0) :
    ∃ next ∈ os.layout m, unused.toNat + size.toNat ≤ next.start.toNat ∧
      ((∀ q ∈ os.layout m, Disjoint q.span (gapArena os unused size).span) ↔
        unused.toNat + size.toNat ≠ next.start.toNat) ∧
      (unused.toNat + size.toNat = next.start.toNat →
        Span next.start (2 ^ os.pageShift) ⊆ (gapArena os unused size).span) := by
  obtain ⟨q, next, hgap⟩ := exists_gap hlists h hne
  obtain ⟨l, t, hl⟩ := hgap.split
  have hnext : next ∈ os.layout m := by simp [hl]
  have hfits := hlists.fits next hnext
  have hpos := Nat.two_pow_pos os.pageShift
  obtain ⟨-, hlow, -, -, hexact⟩ := gapArena_bounds hlists hgap
  have hover : unused.toNat + size.toNat = next.start.toNat →
      Span next.start (2 ^ os.pageShift) ⊆ (gapArena os unused size).span := by
    intro he
    have hend := hexact he
    exact span_subset (by omega) (by omega) (by omega)
  refine ⟨next, hnext, hgap.fits.room, ⟨fun hall he => ?_, fun hstop q hq =>
    gapArena_avoids hlists hgap hstop hq⟩, hover⟩
  have hfirst : next.start ∈ Span next.start (2 ^ os.pageShift) := by
    rw [mem_span, BitVec.sub_self]
    exact hpos
  have hfirst' : next.start ∈ next.span := by
    rw [MemRegion.span, mem_span, BitVec.sub_self]
    exact hlists.nonempty next hnext
  exact Set.disjoint_left.mp (hall next hnext) hfirst' (hover he hfirst)

/-- Two mappings with a page between them; the valid addresses begin 12 bytes before the
second. -/
def crampedOs : Os :=
  ⟨12, fun _ _ => 0x20000#64, fun _ _ _ => true,
    fun _ => [⟨0x10000#64, 0x1000#64⟩, ⟨0x12000#64, 0x1000#64⟩], fun _ _ => true, 0x30000#64⟩

theorem gap_arena_iff_cramped : ∃ next ∈ crampedOs.layout ⟨fun _ => 0#8, [], []⟩,
    Span next.start (2 ^ 12) ⊆ (gapArena crampedOs 0x11FF4#64 12#32).span := by
  have hlists : crampedOs.Lists ∅ ⟨fun _ => 0#8, [], []⟩ :=
    ⟨by decide, by decide, by decide, by decide, by decide, by simp [Memory.arenas], by simp⟩
  obtain ⟨next, hnext, hle, -, hover⟩ := gap_arena_iff hlists
    (by decide : gapFor crampedOs ⟨fun _ => 0#8, [], []⟩ 12#32 0x13FF4#64 0x2000#64 = 0x11FF4#64)
    (by decide)
  refine ⟨next, hnext, hover ?_⟩
  simp only [crampedOs, List.mem_cons, List.not_mem_nil, or_false] at hnext
  rcases hnext with rfl | rfl
  · revert hle
    decide
  · decide

/-- No near request for data. -/
def Request.leavesData : Request → Bool
  | .near _ _ _ executable => executable
  | _ => true

theorem allocInNewArena_dataArenas {arenaSize size : BitVec 32} {b : MemBlock}
    (h : allocInNewArena os m arenaSize size = some (b, m')) : m'.dataArenas = m.dataArenas := by
  rw [allocInNewArena, allocateCodeMemoryArena] at h
  split at h
  · cases h
  · next hnew =>
    split at hnew
    · cases hnew
    · cases hnew
      obtain ⟨r, -, he⟩ := Option.map_eq_some_iff.mp h
      cases he
      rfl

theorem allocate_dataArenas (hdata : m.dataArenas = []) (hr : r.leavesData = true)
    (h : allocate m os r = some (m', gs)) : m'.dataArenas = [] := by
  cases r with
  | exec size =>
    obtain ⟨⟨b, m₁⟩, hb, he⟩ := Option.map_eq_some_iff.mp h
    cases he
    rw [allocateExecBlock] at hb
    split at hb
    · cases hb
      exact hdata
    · rw [allocInNewArena_dataArenas hb, hdata]
  | data size =>
    obtain ⟨⟨b, m₁⟩, hb, he⟩ := Option.map_eq_some_iff.mp h
    cases he
    rw [allocateDataBlock, hdata, allocFirst] at hb
    rw [allocInNewArena_dataArenas hb, hdata]
  | near size pos searchRange executable =>
    obtain rfl : executable = true := hr
    have hdefault : (allocateNearBlockFromDefaultAllocator m size pos searchRange true).2.dataArenas
        = [] := by
      rw [allocateNearBlockFromDefaultAllocator]
      simp only [if_true]
      split
      · exact hdata
      · split <;> exact hdata
    have hgap : ∀ m₁ : Memory, m₁.dataArenas = [] →
        (allocateNearBlockFromUnusedRegion os m₁ size pos searchRange true).2.dataArenas = [] := by
      intro m₁ h₁
      rw [allocateNearBlockFromUnusedRegion]
      simp only [if_true]
      split
      · exact h₁
      · split <;> exact h₁
    have hnear : (allocateNearBlock os m size pos searchRange true).2.dataArenas = [] := by
      rw [allocateNearBlock]
      generalize allocateNearBlockFromDefaultAllocator m size pos searchRange true = res at hdefault
      obtain ⟨o, m₁⟩ := res
      cases o with
      | none => exact hgap m₁ hdefault
      | some b => exact hdefault
    rw [allocate] at h
    generalize allocateNearBlock os m size pos searchRange true = res at hnear h
    obtain ⟨o, m₁⟩ := res
    cases o <;> cases h <;> exact hnear

theorem allocMemBlock_new (addr : Address) (size : BitVec 64) :
    (MemoryArena.new addr size).allocMemBlock size = some (⟨addr, size⟩, ⟨addr, size, addr + size⟩) := by
  have hroom : ¬ addr + size - addr < size := by
    rw [BitVec.add_comm, BitVec.add_sub_cancel]
    exact BitVec.lt_irrefl _
  exact if_neg hroom

theorem allocateDataBlock_eq (hdata : m.dataArenas = []) (os : Os) (size : BitVec 32) :
    allocateDataBlock os m size =
      if size.setWidth 64 % os.pageSize ≠ 0#64 then none
      else some (⟨os.allocate m (size.setWidth 64), size.setWidth 64⟩,
        ⟨m.zeroed (os.allocate m (size.setWidth 64)) (size.setWidth 64),
          m.codeArenas ++ [⟨os.allocate m (size.setWidth 64), size.setWidth 64,
            os.allocate m (size.setWidth 64) + size.setWidth 64⟩], []⟩) := by
  rw [allocateDataBlock, hdata, allocFirst]
  simp only [allocInNewArena, allocateCodeMemoryArena, hdata]
  by_cases hpage : size.setWidth 64 % os.pageSize ≠ 0#64
  · simp only [if_pos hpage]
  · simp only [if_neg hpage, allocMemBlock_new, Option.map_some]

/-- **Data comes from code arenas**, and only in whole pages. -/
theorem data_block_in_code_arena {bytes : Address → BitVec 8} {as : List (Os × Request)}
    (h : allocator.Run ⟨bytes, [], []⟩ as log m) (has : ∀ a ∈ as, a.2.leavesData = true)
    (os : Os) (size : BitVec 32) :
    ((allocateDataBlock os m size).isSome = true ↔ size.setWidth 64 % os.pageSize = 0#64) ∧
      ∀ b m', allocateDataBlock os m size = some (b, m') → b.size = size.setWidth 64 ∧
        m'.codeArenas = m.codeArenas ++ [⟨b.addr, b.size, b.addr + b.size⟩] ∧
        m'.dataArenas = [] := by
  have hdata : m.dataArenas = [] := by
    induction h with
    | nil => rfl
    | snoc _ hstep ih =>
      exact allocate_dataArenas (ih fun a ha => has a (List.mem_append_left _ ha))
        (has _ (by simp)) hstep
  rw [allocateDataBlock_eq hdata]
  constructor
  · split <;> simp_all
  · intro b m' hb
    split at hb
    · cases hb
    · cases hb
      exact ⟨rfl, rfl, rfl⟩

theorem data_block_in_code_arena_quiet :
    (allocateDataBlock quietOs quietMiddle 0x1000#32).isSome = true ∧
      ¬ (allocateDataBlock quietOs quietMiddle 20#32).isSome = true := by
  have hrun : allocator.Run ⟨fun _ => 0#8, [], []⟩ [(quietOs, .exec 20#32)]
      [⟨.exec 20#32, ⟨0x20000#64, 20#64⟩⟩] quietMiddle := .single rfl
  constructor
  · exact (data_block_in_code_arena hrun (by simp [Request.leavesData]) quietOs _).1.mpr
      (by decide)
  · exact fun hsome => absurd ((data_block_in_code_arena hrun (by simp [Request.leavesData])
      quietOs _).1.mp hsome) (by decide)

end JniDegger.Dobby
