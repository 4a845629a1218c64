import JniDegger.CodeBlocks
import JniDegger.Layers

/-!
# A process with hooks

Any hooks and instruments, in any order, of functions of the program's own memory `P`, with
the near branch plugin switched on and off in between.  They may lie over one another; what is
asked for is that none is destroyed from under a later one (`Allowed`).

Every call keeps `Installed`: the program's memory is the one at the start under the
trampolines of the hooks there are, each over what was there when it was hooked.  From
this: what a hooked function does when it is called, and what the relocated code
does.
-/

namespace JniDegger.Dobby
open A64 Arm64Assembler Arm64Relocation Arm64Trampoline Interleaving Layers

variable {P : Set Address} {bytes : Address → BitVec 8} {m m' : Memory} {p p' : Process}
  {entries l r : List InterceptEntry} {e : InterceptEntry} {os : Os}
  {address target replaceFunc preHandler handler trampEntry : Address} {ret : Returned} {b : MemBlock}
  {instrument : Option InstructionInstrument}

/-! ## Hooks as layers -/

/-- The bytes under the trampoline. -/
def InterceptEntry.span (e : InterceptEntry) : Set Address :=
  Span e.patchedAddr (4 * e.routing.trampolineBuffer.length)

/-- The trampoline, over the instructions that were there. -/
def InterceptEntry.layer (e : InterceptEntry) : Layer Address (BitVec 8) :=
  ⟨e.span, storeWords (fun _ => 0#8) e.patchedAddr e.routing.trampolineBuffer,
    storeWords (fun _ => 0#8) e.patchedAddr e.originInsns⟩

/-- The newest comes first. -/
def hookLayers (entries : List InterceptEntry) : List (Layer Address (BitVec 8)) :=
  entries.reverse.map InterceptEntry.layer

@[simp] theorem hookLayers_nil : hookLayers [] = [] := rfl

@[simp] theorem hookLayers_append (l r : List InterceptEntry) :
    hookLayers (l ++ r) = hookLayers r ++ hookLayers l := by
  simp [hookLayers]

@[simp] theorem hookLayers_cons (e : InterceptEntry) (l : List InterceptEntry) :
    hookLayers (e :: l) = hookLayers l ++ [e.layer] := by
  simp [hookLayers]

/-- No hook of the list lies over `e`. -/
def InterceptEntry.Bare (e : InterceptEntry) (later : List InterceptEntry) : Prop :=
  ∀ e' ∈ later, Disjoint e.span e'.span

theorem InterceptEntry.Bare.uncovered (h : e.Bare r) : Uncovered e.layer (hookLayers r) := by
  intro q hq
  obtain ⟨e', he', rfl⟩ := List.mem_map.mp hq
  exact h e' (List.mem_reverse.mp he')

theorem find_eq_some (h : find entries address = some e) :
    ∃ l r, entries = l ++ e :: r ∧ e.patchedAddr = address ∧ remove entries address = l ++ r := by
  induction entries with
  | nil => cases h
  | cons e' entries ih =>
    rw [find, List.find?_cons] at h
    by_cases he' : e'.patchedAddr = address
    · simp only [he', decide_true] at h
      cases h
      exact ⟨[], entries, rfl, he', by simp [remove, he']⟩
    · simp only [he', decide_false] at h
      obtain ⟨l, r, rfl, he, hrem⟩ := ih h
      refine ⟨e' :: l, r, rfl, he, ?_⟩
      rw [remove, List.eraseP_cons_of_neg (by simpa using he')]
      rw [remove] at hrem
      rw [hrem]
      rfl

theorem find_eq_none_iff :
    find entries address = none ↔ address ∉ entries.map InterceptEntry.patchedAddr := by
  simp [find]

theorem distinct_append (h : (entries.map InterceptEntry.patchedAddr).Nodup)
    (hfind : find entries e.patchedAddr = none) :
    ((entries ++ [e]).map InterceptEntry.patchedAddr).Nodup := by
  rw [List.map_append, List.map_singleton, List.nodup_append]
  refine ⟨h, by simp, fun x hx y hy => ?_⟩
  obtain rfl := List.mem_singleton.mp hy
  rintro rfl
  exact find_eq_none_iff.mp hfind hx

theorem distinct_remove (h : (entries.map InterceptEntry.patchedAddr).Nodup) :
    ((remove entries address).map InterceptEntry.patchedAddr).Nodup :=
  h.sublist (List.eraseP_sublist.map _)

theorem distinct_middle (h : ((l ++ e :: r).map InterceptEntry.patchedAddr).Nodup) :
    ∀ e' ∈ l ++ r, e'.patchedAddr ≠ e.patchedAddr := by
  have hd := (List.perm_middle.map InterceptEntry.patchedAddr).nodup_iff.mp h
  rw [List.map_cons, List.nodup_cons] at hd
  exact fun e' he' hsame => hd.1 (hsame ▸ List.mem_map_of_mem he')

theorem find_of_split (h : ((l ++ e :: r).map InterceptEntry.patchedAddr).Nodup) :
    find (l ++ e :: r) e.patchedAddr = some e ∧ remove (l ++ e :: r) e.patchedAddr = l ++ r := by
  have hl : ∀ e' ∈ l, e'.patchedAddr ≠ e.patchedAddr := fun e' he' =>
    distinct_middle h e' (List.mem_append_left _ he')
  constructor
  · rw [find, List.find?_append, List.find?_eq_none.mpr (by simpa using hl)]
    simp
  · rw [remove, List.eraseP_append_right _ (by simpa using hl)]
    simp

/-! ## The invariant -/

/-- There is a closure trampoline at `target`, and the bridge it calls. -/
def Memory.Closure (m : Memory) (handler target trampEntry : Address) : Prop :=
  4 ∣ target.toNat ∧ ∃ b bridge, b.addr = target ∧
    m.Code b (closureTrampoline trampEntry bridge.addr).buffer ∧
      m.Code bridge (closureBridge handler).buffer

theorem Memory.Closure.keep (h : m.Closure handler target trampEntry) (hk : Keeps m m') :
    m'.Closure handler target trampEntry := by
  obtain ⟨haligned, b, bridge, hb, hcode, hbridge⟩ := h
  exact ⟨haligned, b, bridge, hb, hcode.keep hk, hbridge.keep hk⟩

/-- What an entry says of the memory. -/
structure InterceptEntry.Sound (P : Set Address) (m : Memory) (handler : Address)
    (e : InterceptEntry) : Prop where
  own : e.span ⊆ P
  aligned : 4 ∣ e.patchedAddr.toNat
  saved : e.originInsns.length = e.routing.trampolineBuffer.length
  routes : Routes m e.patchedAddr e.routing.trampolineTarget e.routing.trampolineBuffer
  relocated : ∃ r b, reloRelocate e.originInsns e.patchedAddr true = some r ∧
    b.addr = e.relocatedAddr ∧ m.Code b r.code
  closure : ∀ k, e.routing.instrument = some k →
    m.Closure handler e.routing.trampolineTarget k.trampEntry

theorem InterceptEntry.Sound.keep (h : e.Sound P m handler) (hk : Keeps m m') :
    e.Sound P m' handler := by
  obtain ⟨r, b, hr, hb, hcode⟩ := h.relocated
  exact ⟨h.own, h.aligned, h.saved, h.routes.keep hk, ⟨r, b, hr, hb, hcode.keep hk⟩,
    fun k hk' => (h.closure k hk').keep hk⟩

/-- **What every call keeps**; `bytes` is the memory at the start. -/
structure Installed (P : Set Address) (bytes : Address → BitVec 8) (p : Process) : Prop where
  ready : p.memory.Ready P
  distinct : (p.entries.map InterceptEntry.patchedAddr).Nodup
  entry : ∀ e ∈ p.entries, e.Sound P p.memory p.bridgeHandler
  bridge : p.closureBridge ≠ 0 → ∃ b, b.addr = p.closureBridge ∧
    p.memory.Code b (closureBridge p.bridgeHandler).buffer
  saved : Saved bytes (hookLayers p.entries)
  layered : ∀ x ∈ P, p.memory.bytes x = layers bytes (hookLayers p.entries) x
  frame : ∀ x ∉ P, (∀ a ∈ p.memory.arenas, x ∉ a.span) → p.memory.bytes x = bytes x

theorem installed_start (P : Set Address) (bytes : Address → BitVec 8) (handler : Address) :
    Installed P bytes (.start bytes handler) := by
  refine ⟨⟨⟨?_, ?_⟩, ?_, ?_⟩, .nil, ?_, ?_, trivial, fun _ _ => rfl, fun _ _ _ => rfl⟩ <;>
    simp [Process.start, Memory.arenas, Memory.Words]

/-- The function can be hooked: its first instructions are the program's own, and the system does
its part. -/
structure Hookable (P : Set Address) (os : Os) (p : Process) (address target : Address) :
    Prop where
  aligned : 4 ∣ address.toNat
  own : Span address (4 * (generateTrampolineBuffer os p address target).1.length) ⊆ P
  forward : p.nearBranchTrampoline = true → branchRange ≤ distance target address →
    ForwardServed P os p.memory address target
  exec : ∀ buffer m, generateTrampolineBuffer os p address target = (buffer, m) →
    ∀ r, reloRelocate (loadWords m.bytes address buffer.length) address true = some r →
      Served P m (os, .exec (codeSize r.code))

theorem Installed.grow (h : Installed P bytes p) (hgrows : Grows P p.memory m')
    (hready : m'.Ready P) : Installed P bytes { p with memory := m' } := by
  refine ⟨hready, h.distinct, fun e he => (h.entry e he).keep hgrows.keeps, fun hne => ?_,
    h.saved, fun x hx => (hgrows.kept x (.inl hx)).trans (h.layered x hx), fun x hx hout => ?_⟩
  · obtain ⟨b, hb, hcode⟩ := h.bridge hne
    exact ⟨b, hb, hcode.keep hgrows.keeps⟩
  · refine (hgrows.frame x hout).trans (h.frame x hx fun a ha hxa => ?_)
    obtain ⟨a', ha', hsame⟩ := hgrows.arenas a ha
    exact hout a' ha' (hsame ▸ hxa)

theorem Installed.install (h : Installed P bytes p) (hhook : Hookable P os p address target)
    (hclosure : ∀ k, instrument = some k →
      p.memory.Closure p.bridgeHandler target k.trampEntry)
    (hfind : find p.entries address = none)
    (hi : install os p address target instrument = some (p', e)) : Installed P bytes p' := by
  rw [Dobby.install] at hi
  have hown := hhook.own
  have hexec := hhook.exec
  generalize htramp : generateTrampolineBuffer os p address target = t at hi hown hexec
  obtain ⟨buffer, m⟩ := t
  obtain ⟨hgrows, hm, hroutes⟩ :=
    generateTrampolineBuffer_routes h.ready hhook.aligned hhook.forward htramp
  simp only at hi hown
  split at hi
  · cases hi
  next b insns m' hrelo =>
  cases hi
  obtain ⟨hinsns, code, hcode, hemits⟩ := generateRelocatedCode_emits hm hroutes.length_le hown
    (hexec buffer m rfl) hrelo
  have hgrows' := hemits.allocates.grows
  have hall : Grows P p.memory m' := hgrows.trans hgrows'
  have hinst := h.grow hall hemits.ready
  have hpatch : Keeps m' (dobbyCodePatch m' address buffer) := keeps_patch hemits.ready hown
  refine ⟨hemits.ready.patch address buffer, distinct_append h.distinct hfind, fun e he => ?_,
    fun hne => ?_, ?_, fun x hx => ?_, fun x hx hout => ?_⟩
  · rcases List.mem_append.mp he with he | he
    · exact (hinst.entry e he).keep hpatch
    · obtain rfl := List.mem_singleton.mp he
      exact ⟨hown, hhook.aligned, by simp only [hinsns, length_loadWords],
        (hroutes.keep hgrows'.keeps).keep hpatch, ⟨code, b, hcode, rfl, hemits.code.keep hpatch⟩,
        fun k hk => ((hclosure k hk).keep hall.keeps).keep hpatch⟩
  · obtain ⟨b, hb, hcode⟩ := hinst.bridge hne
    exact ⟨b, hb, hcode.keep hpatch⟩
  · -- what the new entry has saved was read after the trampoline had been generated
    simp only [hookLayers_append, hookLayers_cons, hookLayers_nil, List.nil_append,
      List.cons_append]
    refine ⟨fun x hx => ?_, h.saved⟩
    rw [← h.layered x (hown hx), ← hgrows.kept x (.inl (hown hx))]
    simp only [InterceptEntry.layer, hinsns]
    exact storeWords_loadWords hx
  · simp only [hookLayers_append, hookLayers_cons, hookLayers_nil, List.nil_append,
      List.cons_append, layers, dobbyCodePatch]
    by_cases hspan : x ∈ Span address (4 * buffer.length)
    · rw [Layer.on_of_mem hspan]
      simp only [InterceptEntry.layer]
      exact storeWords_of_mem hspan
    · rw [Layer.on_of_notMem hspan, storeWords_frame hspan]
      exact hinst.layered x hx
  · have hspan : x ∉ Span address (4 * buffer.length) := fun hmem => hx (hown hmem)
    simp only [dobbyCodePatch]
    rw [storeWords_frame hspan]
    exact hinst.frame x hx hout

theorem Installed.destroy (h : Installed P bytes p)
    (hbare : ∀ l e r, p.entries = l ++ e :: r → e.patchedAddr = address → e.Bare r) :
    Installed P bytes (dobbyDestroy p address).1 := by
  rw [dobbyDestroy]
  split
  swap
  · exact h
  next e hfind =>
  obtain ⟨l, r, hsplit, haddr, hrem⟩ := find_eq_some hfind
  have hun := (hbare l e r hsplit haddr).uncovered
  have he : e ∈ p.entries := by simp [hsplit]
  obtain ⟨hown, -, hlen, -⟩ := h.entry e he
  have hspan : Span address (4 * e.originInsns.length) = e.span := by
    rw [InterceptEntry.span, hlen, haddr]
  have hsaved := h.saved
  have hlayered := h.layered
  simp only [hsplit, hookLayers_append, hookLayers_cons, List.append_assoc, List.singleton_append]
    at hsaved hlayered
  have hpatch : Keeps p.memory (dobbyCodePatch p.memory address e.originInsns) :=
    keeps_patch h.ready (hspan ▸ hown)
  refine ⟨h.ready.patch address e.originInsns, distinct_remove h.distinct, fun e' he' => ?_,
    fun hne => ?_, ?_, fun x hx => ?_, fun x hx hout => ?_⟩
  · rw [hrem] at he'
    refine (h.entry e' ?_).keep hpatch
    rw [hsplit]
    simp only [List.mem_append, List.mem_cons] at he' ⊢
    tauto
  · obtain ⟨b, hb, hcode⟩ := h.bridge hne
    exact ⟨b, hb, hcode.keep hpatch⟩
  · simp only [hrem, hookLayers_append]
    exact hsaved.takeOff hun
  · simp only [hrem, hookLayers_append, dobbyCodePatch]
    rw [← layers_takeOff hsaved hun]
    by_cases hmem : x ∈ e.span
    · rw [Layer.off_of_mem hmem]
      simp only [InterceptEntry.layer, haddr]
      exact storeWords_of_mem (hspan ▸ hmem)
    · rw [Layer.off_of_notMem hmem, storeWords_frame (hspan ▸ hmem), hlayered x hx]
  · have hmem : x ∉ e.span := fun hmem => hx (hown hmem)
    simp only [dobbyCodePatch]
    rw [storeWords_frame (hspan ▸ hmem)]
    exact h.frame x hx hout

/-! ## Closure trampolines -/

theorem closureBridge_length (handler : Address) : (closureBridge handler).buffer.length = 57 := by
  have hsave : (saveRegisters .new).buffer.length = 29 := rfl
  have hrestore : (restoreRegisters .new).buffer.length = 23 := rfl
  rw [closureBridge_buffer, List.length_append, List.length_append, List.length_cons,
    List.length_map, hsave, hrestore]
  rfl

theorem closureTrampoline_length (trampEntry bridge : Address) :
    (closureTrampoline trampEntry bridge).buffer.length = 13 := rfl

/-- The function can be instrumented: the system does its part for the bridge, if there is none,
and for the trampoline, and the function can be hooked then. -/
structure Instrumentable (P : Set Address) (os : Os) (p : Process) (address : Address) : Prop where
  bridge : p.closureBridge = 0 →
    Served P p.memory (os, .exec (codeSize (closureBridge p.bridgeHandler).buffer))
  trampoline : ∀ p₁, getClosureBridge os p = some p₁ → Served P p₁.memory
    (os, .exec (codeSize (closureTrampoline os.trampEntry p₁.closureBridge).buffer))
  hook : ∀ b p₁, createClosureTrampoline os p = some (b, p₁) → Hookable P os p₁ address b.addr

theorem Installed.getClosureBridge (h : Installed P bytes p)
    (hserved : p.closureBridge = 0 →
      Served P p.memory (os, .exec (codeSize (closureBridge p.bridgeHandler).buffer)))
    (hget : getClosureBridge os p = some p') :
    Installed P bytes p' ∧ p'.entries = p.entries ∧ ∃ b, b.addr = p'.closureBridge ∧
      p'.memory.Code b (closureBridge p'.bridgeHandler).buffer := by
  rw [Dobby.getClosureBridge] at hget
  split at hget
  · next hne =>
    cases hget
    exact ⟨h, rfl, h.bridge hne⟩
  · next hnew =>
    obtain ⟨⟨b, m⟩, hfinal, he⟩ := Option.map_eq_some_iff.mp hget
    cases he
    have hemits := finalizeFromTurboAssembler_emits h.ready (hserved (not_not.mp hnew))
      (by rw [closureBridge_length]; decide) hfinal
    obtain ⟨hready, hdistinct, hentry, -, hsaved, hlayered, hframe⟩ :=
      h.grow hemits.allocates.grows hemits.ready
    exact ⟨⟨hready, hdistinct, hentry, fun _ => ⟨b, rfl, hemits.code⟩, hsaved, hlayered, hframe⟩, rfl,
      b, rfl, hemits.code⟩

theorem Installed.createClosureTrampoline (h : Installed P bytes p)
    (hinstr : Instrumentable P os p address)
    (hcreate : createClosureTrampoline os p = some (b, p')) :
    Installed P bytes p' ∧ p'.entries = p.entries ∧
      p'.memory.Closure p'.bridgeHandler b.addr os.trampEntry := by
  rw [Dobby.createClosureTrampoline] at hcreate
  split at hcreate
  · cases hcreate
  · next p₁ hget =>
    obtain ⟨hinst, hentries, bridge, hbridge, hcode⟩ := h.getClosureBridge hinstr.bridge hget
    obtain ⟨⟨b', m⟩, hfinal, he⟩ := Option.map_eq_some_iff.mp hcreate
    cases he
    have hemits := finalizeFromTurboAssembler_emits hinst.ready (hinstr.trampoline p₁ hget)
      (by rw [closureTrampoline_length]; decide) hfinal
    have hgrows := hemits.allocates.grows
    exact ⟨hinst.grow hgrows hemits.ready, hentries, hemits.aligned, b', bridge, rfl,
      hbridge ▸ hemits.code, hcode.keep hgrows.keeps⟩

/-! ## Runs -/

/-- What is asked of the callers and of the system. -/
def Allowed (P : Set Address) (p : Process) (a : Os × Call) : Prop :=
  match a.2 with
  | .hook address replaceFunc =>
    find p.entries address = none → Hookable P a.1 p address replaceFunc
  | .instrument address _ => find p.entries address = none → Instrumentable P a.1 p address
  | .destroy address => ∀ l e r, p.entries = l ++ e :: r → e.patchedAddr = address → e.Bare r
  | _ => True

theorem dobbyHook_cases (h : dobbyHook os p address replaceFunc = some (p', ret)) :
    p' = p ∧ ret = ⟨-1, none⟩ ∨ find p.entries address = none ∧
      ∃ e, install os p address replaceFunc none = some (p', e) ∧
        ret = ⟨0, some e.relocatedAddr⟩ := by
  rw [dobbyHook] at h
  split at h
  · cases h
    exact .inl ⟨rfl, rfl⟩
  split at h
  · cases h
    exact .inl ⟨rfl, rfl⟩
  split at h
  · cases h
    exact .inl ⟨rfl, rfl⟩
  · next hfind =>
    obtain ⟨⟨p₁, e⟩, hi, he⟩ := Option.map_eq_some_iff.mp h
    cases he
    exact .inr ⟨hfind, e, hi, rfl⟩

theorem dobbyInstrument_cases (h : dobbyInstrument os p address preHandler = some (p', ret)) :
    p' = p ∧ ret = ⟨-1, none⟩ ∨ find p.entries address = none ∧
      ∃ closure p₁ e, createClosureTrampoline os p = some (closure, p₁) ∧
        install os p₁ address closure.addr (some ⟨preHandler, os.trampEntry⟩) = some (p', e) ∧
          ret = ⟨0, none⟩ := by
  rw [dobbyInstrument] at h
  split at h
  · cases h
    exact .inl ⟨rfl, rfl⟩
  split at h
  · cases h
    exact .inl ⟨rfl, rfl⟩
  split at h
  · cases h
    exact .inl ⟨rfl, rfl⟩
  · next hfind =>
    split at h
    · cases h
    · next closure p₁ hcreate =>
      obtain ⟨⟨p₂, e⟩, hi, he⟩ := Option.map_eq_some_iff.mp h
      cases he
      exact .inr ⟨hfind, closure, p₁, e, hcreate, hi, rfl⟩

theorem Installed.step {c : Call} {log : List (Call × Returned)} (h : Installed P bytes p)
    (hallowed : Allowed P p (os, c)) (hstep : call os p c = some (p', log)) :
    Installed P bytes p' := by
  cases c with
  | hook address replaceFunc =>
    obtain ⟨⟨p₁, ret⟩, hhook, he⟩ := Option.map_eq_some_iff.mp hstep
    cases he
    rcases dobbyHook_cases hhook with ⟨rfl, -⟩ | ⟨hfind, e, hi, -⟩
    · exact h
    · exact h.install (hallowed hfind) (by simp) hfind hi
  | instrument address preHandler =>
    obtain ⟨⟨p₁, ret⟩, hcall, he⟩ := Option.map_eq_some_iff.mp hstep
    cases he
    rcases dobbyInstrument_cases hcall with ⟨rfl, -⟩ | ⟨hfind, closure, p₂, e, hcreate, hi, -⟩
    · exact h
    · obtain ⟨hinst, hentries, hclosure⟩ := h.createClosureTrampoline (hallowed hfind) hcreate
      refine hinst.install ((hallowed hfind).hook _ _ hcreate) (fun k hk => ?_)
        (hentries ▸ hfind) hi
      cases hk
      exact hclosure
  | destroy address =>
    cases hstep
    exact h.destroy hallowed
  | enableNearBranchTrampoline =>
    cases hstep
    exact ⟨h.ready, h.distinct, h.entry, h.bridge, h.saved, h.layered, h.frame⟩
  | disableNearBranchTrampoline =>
    cases hstep
    exact ⟨h.ready, h.distinct, h.entry, h.bridge, h.saved, h.layered, h.frame⟩

section Runs

variable {as : List (Os × Call)} {log : List (Call × Returned)}

theorem installed_of_run
    (h : (interceptor.restrict (Allowed P)).Run (.start bytes handler) as log p) :
    Installed P bytes p := by
  refine h.invariant (fun p _ => Installed P bytes p) (installed_start P bytes handler)
    fun t log a u es ht hstep => ?_
  obtain ⟨hallowed, hone⟩ := System.restrict_step.mp hstep
  exact ht.step hallowed hone

end Runs

/-! ## Two hooks, one over the other -/

/-- Eight instructions that do nothing. -/
def quietProgram : Address → BitVec 8 :=
  storeWords (fun _ => 0#8) 0x10000#64 (List.replicate 8 0xD503201F#32)

def quietStep (p : Process) (c : Call) : Process × List (Call × Returned) :=
  (call quietOs p c).getD (p, [])

theorem quiet_step {c : Call} (h : (call quietOs p c).isSome = true) :
    interceptor.step p (quietOs, c) = some (quietStep p c) := by
  obtain ⟨r, hr⟩ := Option.isSome_iff_exists.mp h
  simp [interceptor, quietStep, hr]

/-- A hook of the first instruction. -/
def quietHook : Call := .hook 0x10000#64 0x10800#64

/-- A hook of the second one, over the first hook. -/
def quietOverhook : Call := .hook 0x10004#64 0x10900#64

def quietHooked : Process := (quietStep (.start quietProgram 0) quietHook).1

def quietTwice : Process := (quietStep quietHooked quietOverhook).1

def quietEntry : InterceptEntry :=
  ⟨0#32, ⟨[0x90000011#32, 0x91200231#32, 0xD61F0220#32], 0x10800#64, none⟩, 0x10000#64, 0x20000#64,
    [0xD503201F#32, 0xD503201F#32, 0xD503201F#32]⟩

def quietOverentry : InterceptEntry :=
  ⟨1#32, ⟨[0x90000011#32, 0x91240231#32, 0xD61F0220#32], 0x10900#64, none⟩, 0x10004#64, 0x2001C#64,
    [0x91200231#32, 0xD61F0220#32, 0xD503201F#32]⟩

theorem quietTwice_entries : quietTwice.entries = [quietEntry, quietOverentry] := by decide +kernel

def quietLogTwice : List (Call × Returned) :=
  [(quietHook, ⟨0, some 0x20000#64⟩), (quietOverhook, ⟨0, some 0x2001C#64⟩)]

theorem quiet_hook_step : interceptor.step (.start quietProgram 0) (quietOs, quietHook) =
    some (quietHooked, [(quietHook, ⟨0, some 0x20000#64⟩)]) := by
  have hlog : (quietStep (.start quietProgram 0) quietHook).2 =
      [(quietHook, ⟨0, some 0x20000#64⟩)] := by decide +kernel
  rw [quiet_step (by decide +kernel), quietHooked, ← hlog]

theorem quiet_overhook_step : interceptor.step quietHooked (quietOs, quietOverhook) =
    some (quietTwice, [(quietOverhook, ⟨0, some 0x2001C#64⟩)]) := by
  have hlog : (quietStep quietHooked quietOverhook).2 =
      [(quietOverhook, ⟨0, some 0x2001C#64⟩)] := by decide +kernel
  rw [quiet_step (by decide +kernel), quietTwice, ← hlog]

theorem quietTwice_run : interceptor.Run (.start quietProgram 0)
    [(quietOs, quietHook), (quietOs, quietOverhook)] quietLogTwice quietTwice :=
  (System.Run.nil.snoc quiet_hook_step).snoc quiet_overhook_step

theorem quiet_hookable : Hookable (Span 0x10000#64 0x1000) quietOs (.start quietProgram 0)
    0x10000#64 0x10800#64 := by
  refine ⟨by decide, ?_, by simp [Process.start], fun buffer m htramp r hr _ => ?_⟩
  · have hlen : (generateTrampolineBuffer quietOs (.start quietProgram 0) 0x10000#64
        0x10800#64).1.length = 3 := by decide +kernel
    rw [hlen]
    exact span_mono (by decide)
  · cases htramp
    have hlen : (reloRelocate (loadWords quietProgram 0x10000#64 (generateNormalTrampolineBuffer
        0x10000#64 0x10800#64).length) 0x10000#64 true).map (fun r => r.code.length) = some 7 := by
      decide +kernel
    have hseven : r.code.length = 7 := by
      have hmap := congrArg (Option.map fun r => r.code.length) hr
      exact Option.some.inj (hmap.symm.trans hlen)
    have hsize : execArenaSize quietOs (codeSize r.code) = 0x1000#32 := by
      rw [codeSize, hseven]
      decide
    rw [Os.Maps, hsize]
    show NewMapping _ _ 0x20000#64 0x1000#64
    exact ⟨by decide, by decide, by simp [Process.start, Memory.arenas],
      (disjoint_span (by decide) (by decide)).symm⟩

theorem quiet_overhookable : Hookable (Span 0x10000#64 0x1000) quietOs quietHooked 0x10004#64
    0x10900#64 := by
  have hoff : quietHooked.nearBranchTrampoline = false := by decide +kernel
  refine ⟨by decide, ?_, by simp [hoff], fun buffer m htramp r hr hnone => ?_⟩
  · have hlen : (generateTrampolineBuffer quietOs quietHooked 0x10004#64 0x10900#64).1.length =
        3 := by decide +kernel
    rw [hlen]
    exact span_subset (by decide) (by decide) (by decide)
  · have harenas : m.codeArenas = [⟨0x20000#64, 0x1000#64, 0x2001C#64⟩] := by
      have hall : (generateTrampolineBuffer quietOs quietHooked 0x10004#64
          0x10900#64).2.codeArenas = [⟨0x20000#64, 0x1000#64, 0x2001C#64⟩] := by decide +kernel
      rwa [htramp] at hall
    have hsize := reloRelocate_size hr
    have hbuffer : buffer.length = 3 := by
      have hlen : (generateTrampolineBuffer quietOs quietHooked 0x10004#64 0x10900#64).1.length =
          3 := by decide +kernel
      rwa [htramp] at hlen
    rw [length_loadWords, hbuffer] at hsize
    have hroom : ¬ 0x20000#64 + 0x1000#64 - 0x2001C#64 < (codeSize r.code).setWidth 64 := by
      rw [BitVec.lt_def, toNat_size, toNat_codeSize (by omega)]
      simp only [BitVec.toNat_sub, BitVec.toNat_add, BitVec.toNat_ofNat]
      omega
    rw [harenas, allocFirst, MemoryArena.allocMemBlock, if_neg hroom] at hnone
    cases hnone

theorem quietTwice_allowed : (interceptor.restrict (Allowed (Span 0x10000#64 0x1000))).Run
    (.start quietProgram 0) [(quietOs, quietHook), (quietOs, quietOverhook)] quietLogTwice
    quietTwice :=
  (System.Run.nil.snoc (System.restrict_step.mpr ⟨fun _ => quiet_hookable, quiet_hook_step⟩)).snoc
    (System.restrict_step.mpr ⟨fun _ => quiet_overhookable, quiet_overhook_step⟩)

end JniDegger.Dobby
