import JniDegger.ClosureRuns
import JniDegger.HookRuns

/-!
# What instrumenting does

`instrumented_call`: a call of an instrumented function goes through its closure
trampoline to the callback and from there to the relocated code, with the registers
as the callback has left them in the context.
-/

namespace JniDegger.Dobby
open A64 Arm64Assembler Arm64Relocation Arm64Trampoline Interleaving

variable {ρ : Type*} {A : Arch (Stacked ρ)} {c d c' : Core (Stacked ρ)} {P : Set Address}
  {bytes : Address → BitVec 8} {p : Process} {l r : List InterceptEntry} {e : InterceptEntry}
  {as : List (Os × Call)} {log : List (Call × Returned)} {handler : Address}

/-! ## X17 makes no difference -/

theorem frameBase_agree (h : Agree tmpReg0 false c d) : frameBase d = frameBase c := by
  rw [frameBase, frameBase, h.rest]

theorem givenContext_agree (h : Agree tmpReg0 false c d) (trampoline bridge : Address) :
    givenContext d trampoline bridge = givenContext c trampoline bridge := by
  refine RegisterContext.ext (by rw [givenContext, givenContext, h.rest])
    (funext fun r => ?_) (funext fun r => by simp only [givenContext, h.rest])
  simp only [givenContext]
  by_cases hr : r = tmpReg0
  · simp only [hr, if_true]
  · rw [h.x r (.inl hr)]

theorem Restored.agree {left : RegisterContext} (hr : Restored d c' left)
    (h : Agree tmpReg0 false c d) : Restored c c' left :=
  ⟨by rw [hr.sp, h.rest], hr.x⟩

theorem Resumed.agree {d₁ : Core (Stacked ρ)} {left : RegisterContext}
    (hr : Resumed d d₁ c' left) (h : Agree tmpReg0 false c d) : Resumed c d₁ c' left := by
  refine ⟨by rw [hr.sp, h.rest], fun r hne => ?_, hr.q, hr.flags, hr.rest, ?_⟩
  · rw [hr.x r hne, h.x 30#5 (.inl (by decide))]
  · rw [← frameBase_agree h]
    exact hr.mem

/-! ## The call -/

/-- X17 is left for the relocated code. -/
theorem nextHop (callback : Address → Address → RegisterContext → RegisterContext)
    (e : InterceptEntry) (ctx : RegisterContext) :
    (commonClosureBridgeHandler callback e ctx).x tmpReg0 = e.relocatedAddr := by
  simp only [commonClosureBridgeHandler, instrumentForwardHandler, setRoutingBridgeNextHop,
    Function.update_self]

theorem Memory.Code.outside {m : Memory} {b : MemBlock} {ws : List Word} {base : Address}
    (h : m.Code b ws) (hstack : Disjoint b.span (Span base (8 * frameSize))) :
    Outside base m.bytes b.addr ws := by
  have hsize := h.size
  have hlt := b.size.isLt
  refine ⟨h.holds, by omega, ?_⟩
  rwa [← hsize]

/-- What is to be left alone while the handler runs: Dobby's blocks, and what the trampoline
has stored. -/
def Process.kept (p : Process) (base : Address) : Set Address :=
  {x | ∃ b, p.memory.Handed b ∧ x ∈ b.span} ∪ Span (slotAt base 50) 16

/-- A handler that sets X0 to 0. -/
def quietHandler : List Word :=
  ((((Assembler.new.str 31 0 (3 * 8)).mov 9 0x20118).str 9 0 (20 * 8)).ret).buffer

/-- The callback it has compiled in. -/
def quietCallback (_ _ : Address) (ctx : RegisterContext) : RegisterContext :=
  { ctx with x := Function.update ctx.x 0#5 0 }

def watchedProgram : Address → BitVec 8 := storeWords quietProgram 0x40000#64 quietHandler

def quietInstrument : Call := .instrument 0x10000#64 0x12000#64

def quietInstrumented : Process :=
  (quietStep (.start watchedProgram 0x40000#64) quietInstrument).1

def quietInstrumentEntry : InterceptEntry :=
  ⟨0#32, ⟨[0x90000091#32, 0x91039231#32, 0xD61F0220#32], 0x200E4#64, some ⟨0x12000#64, 0x30000#64⟩⟩,
    0x10000#64, 0x20118#64, [0xD503201F#32, 0xD503201F#32, 0xD503201F#32]⟩

theorem quietInstrumented_entries : quietInstrumented.entries = [quietInstrumentEntry] := by
  decide +kernel

theorem quietInstrumented_arenas :
    quietInstrumented.memory.arenas = [⟨0x20000#64, 0x1000#64, 0x20134#64⟩] := by decide +kernel

theorem quiet_instrument_step : interceptor.step (.start watchedProgram 0x40000#64)
    (quietOs, quietInstrument) = some (quietInstrumented, [(quietInstrument, ⟨0, none⟩)]) := by
  have hlog : (quietStep (.start watchedProgram 0x40000#64) quietInstrument).2 =
      [(quietInstrument, ⟨0, none⟩)] := by decide +kernel
  rw [quiet_step (by decide +kernel), quietInstrumented, ← hlog]

theorem quiet_room {m : Memory} {ws : List Word} {cursor : Address}
    (harenas : m.codeArenas = [⟨0x20000#64, 0x1000#64, cursor⟩])
    (hcursor : 0x20000 ≤ cursor.toNat ∧ cursor.toNat + 4 * ws.length ≤ 0x21000) :
    Served (Span 0x10000#64 0x1000) m (quietOs, .exec (codeSize ws)) := by
  intro hnone
  have hroom : ¬ 0x20000#64 + 0x1000#64 - cursor < (codeSize ws).setWidth 64 := by
    rw [BitVec.lt_def, toNat_size, toNat_codeSize (by omega)]
    simp only [BitVec.toNat_sub, BitVec.toNat_add, BitVec.toNat_ofNat]
    omega
  rw [harenas, allocFirst, MemoryArena.allocMemBlock, if_neg hroom] at hnone
  cases hnone

theorem quiet_instrumentable : Instrumentable (Span 0x10000#64 0x1000) quietOs
    (.start watchedProgram 0x40000#64) 0x10000#64 := by
  refine ⟨fun _ _ => ?_, fun p₁ hget => ?_, fun b p₁ hcreate => ⟨by decide, ?_, ?_, ?_⟩⟩
  · rw [Os.Maps, codeSize, closureBridge_length]
    show NewMapping _ _ 0x20000#64 0x1000#64
    exact ⟨by decide, by decide, by simp [Process.start, Memory.arenas],
      (disjoint_span (by decide) (by decide)).symm⟩
  · have harenas : (getClosureBridge quietOs (.start watchedProgram 0x40000#64)).map
        (fun p => p.memory.codeArenas) = some [⟨0x20000#64, 0x1000#64, 0x200E4#64⟩] := by
      decide +kernel
    rw [hget] at harenas
    exact quiet_room (Option.some.inj harenas) (by rw [closureTrampoline_length]; decide)
  all_goals
    have hall : (createClosureTrampoline quietOs (.start watchedProgram 0x40000#64)).map
        (fun r => (r.1.addr, r.2.nearBranchTrampoline, r.2.memory.codeArenas)) =
          some (0x200E4#64, false, [⟨0x20000#64, 0x1000#64, 0x20118#64⟩]) := by decide +kernel
    rw [hcreate] at hall
    obtain ⟨haddr, hoff, harenas⟩ : b.addr = 0x200E4#64 ∧ p₁.nearBranchTrampoline = false ∧
        p₁.memory.codeArenas = [⟨0x20000#64, 0x1000#64, 0x20118#64⟩] := by simpa using hall
    have htramp : generateTrampolineBuffer quietOs p₁ 0x10000#64 b.addr =
        ([0x90000091#32, 0x91039231#32, 0xD61F0220#32], p₁.memory) := by
      rw [generateTrampolineBuffer, hoff, haddr, if_neg (by decide)]
      congr 1
  · rw [htramp]
    exact span_mono (by simp)
  · simp [hoff]
  · intro buffer m heq r hr
    rw [htramp] at heq
    cases heq
    have hsize := reloRelocate_size hr
    rw [length_loadWords] at hsize
    exact quiet_room harenas ⟨by decide, by
      simp only [BitVec.toNat_ofNat, List.length_cons, List.length_nil] at hsize ⊢
      omega⟩

theorem quietInstrumented_allowed : (interceptor.restrict (Allowed (Span 0x10000#64 0x1000))).Run
    (.start watchedProgram 0x40000#64) [(quietOs, quietInstrument)]
    [(quietInstrument, ⟨0, none⟩)] quietInstrumented :=
  System.Run.nil.snoc (System.restrict_step.mpr ⟨fun _ => quiet_instrumentable,
    quiet_instrument_step⟩)

theorem quietInstrumented_else {x : Address} (hx : x ∉ Span 0x10000#64 0x11000) :
    quietInstrumented.memory.bytes x = watchedProgram x := by
  refine (installed_of_run quietInstrumented_allowed).frame x (fun hin => hx ?_) fun a ha hin =>
    hx ?_
  · exact span_mono (by decide) hin
  · rw [quietInstrumented_arenas, List.mem_singleton] at ha
    subst ha
    exact span_subset (b := 0x10000#64) (by decide) (by decide) (by decide) hin

theorem quietInstrumented_handed {b : MemBlock} (h : quietInstrumented.memory.Handed b) :
    b.span ⊆ Span 0x20000#64 0x1000 := by
  obtain ⟨a, ha, hin⟩ := h
  have hsound := (installed_of_run quietInstrumented_allowed).ready.sound.arena a ha
  rw [quietInstrumented_arenas, List.mem_singleton] at ha
  subst ha
  exact hin.subset hsound

theorem quietInstrumented_handler :
    Holds quietInstrumented.memory.bytes 0x40000#64 quietHandler := by
  refine (holds_storeWords quietProgram _ (by decide)).congr (by decide) fun x hx => ?_
  refine quietInstrumented_else fun hin => ?_
  exact Set.disjoint_left.mp (disjoint_span (by decide) (by decide)) hin hx

/-- No page is 4 GiB before the trampoline. -/
theorem quietInstrumented_adrp (jump : Address)
    (h : Holds quietInstrumented.memory.bytes jump (adrpBranch jump 0x200E4#64).buffer) :
    ¬ PageOverflow jump 0x200E4#64 := by
  intro hover
  have hword : read32 quietInstrumented.memory.bytes (wordAt jump 2) = 0xD61F0220#32 := h 2 _ rfl
  have hzero : ∀ x ∈ Span (wordAt jump 2) 4, quietInstrumented.memory.bytes x = 0#8 := by
    intro x hx
    have hpages := pageOverflow_iff.mp hover
    have hjump := jump.isLt
    have hlt := x.isLt
    rw [BitVec.toNat_sub, toNat_page, toNat_page, BitVec.toNat_ofNat] at hpages
    rw [mem_span, wordAt, BitVec.toNat_sub, BitVec.toNat_add, BitVec.toNat_ofNat] at hx
    have hfar : 0x41000 ≤ x.toNat := by omega
    have hout : ∀ {a : Address} {n : Nat}, a.toNat + n ≤ 0x41000 → x ∉ Span a n := fun hend hin => by
      rw [mem_span_iff (by omega)] at hin
      omega
    rw [quietInstrumented_else (hout (by decide)), watchedProgram,
      storeWords_frame (hout (by decide)), quietProgram, storeWords_frame (hout (by decide))]
  have hnone : read32 (fun _ => 0#8) (wordAt jump 2) = 0#32 := by simp [read32]
  rw [read32_congr hzero, hnone] at hword
  exact absurd hword (by decide)

def frameArch : Arch (Stacked Unit) :=
  ⟨fun w c => (decodeFrame w).map fun i => i.exec c, fun r v s =>
    { s with q := Function.update s.q r v }⟩

theorem frameArch_framed : frameArch.Framed := fun w i h c => by simp [frameArch, h]

theorem contextAt_store (mem : Address → BitVec 8) (base : Address) {r : Reg} (hr : r ≠ 31#5)
    (v : BitVec 64) : contextAt (store64 mem (slotAt base (3 + r.toNat)) v) base =
      { contextAt mem base with x := Function.update (contextAt mem base).x r v } := by
  have hlt := r.isLt
  have hne : r.toNat ≠ 31 := fun he => hr (BitVec.eq_of_toNat_eq he)
  have hother : ∀ i < 52, i ≠ 3 + r.toNat →
      read64 (store64 mem (slotAt base (3 + r.toNat)) v) (slotAt base i) =
        read64 mem (slotAt base i) := fun i hi hi' =>
    read64_store64_other (by omega) (by omega) hi'
  refine RegisterContext.ext (hother 1 (by omega) (by omega)) (funext fun s => ?_)
    (funext fun s => ?_)
  · simp only [Function.update_apply]
    by_cases hs : s = 31#5
    · simp [contextAt, hs, hr.symm]
    · by_cases hsr : s = r
      · rw [if_pos hsr, contextAt_eq _ _ hs, hsr, read64_store64_same]
      · rw [if_neg hsr, contextAt_eq _ _ hs, contextAt_eq _ _ hs]
        have hslt := s.isLt
        exact hother _ (by omega) fun he => hsr (BitVec.eq_of_toNat_eq (by omega))
  · by_cases hs : s.toNat < 8
    · simp only
      rw [contextAt_q _ _ hs, contextAt_q _ _ hs, hother _ (by omega) (by omega),
        hother _ (by omega) (by omega)]
    · simp only [contextAt, hs, if_false]

theorem step_str {code base : Address} {ws : List Word} {p : Nat} {w : Word} {imm : BitVec 12}
    {rt : Reg} (hA : A.Framed) (hspell : Spells w (.str imm 0#5 rt) = true)
    (hcode : Holds c.mem code (render (ws.map Item.word) []))
    (hw : (ws.map Item.word)[p]? = some (.word w)) (hx0 : c.x 0#5 = base) : step A ⟨c, wordAt code p⟩ =
      some ⟨c.store (slotAt base imm.toNat) (c.get rt), wordAt code (p + 1)⟩ := by
  have hslot : base + 8#64 * imm.setWidth 64 = slotAt base imm.toNat := by
    have hsum := slotAt_add base 0 imm.toNat
    rw [slotAt_zero, Nat.zero_add] at hsum
    rw [setWidth_eq_ofNat, ← hsum, BitVec.ofNat_mul]
  rw [step_word hcode hw, exec_of_spells hA hspell, wordAt_succ, FrameInsn.exec, Core.base,
    if_neg (by decide), hx0, hslot]

theorem quietHandler_handles : Handles frameArch 0x40000#64 quietInstrumented.memory.bytes
    0x50000#64 0x30000#64 (quietInstrumented.kept 0x50000#64)
    (commonClosureBridgeHandler quietCallback quietInstrumentEntry) := by
  intro c hsp hx0 _ hmem
  have hcode : ∀ {c' : Core (Stacked Unit)}, (∀ a ∉ Span 0x50000#64 (8 * frameSize),
      c'.mem a = quietInstrumented.memory.bytes a) →
        Holds c'.mem 0x40000#64 (render (quietHandler.map Item.word) []) := by
    intro c' h
    rw [render_words]
    refine quietInstrumented_handler.congr (by decide) fun x hx => h x fun hin => ?_
    exact Set.disjoint_left.mp (disjoint_span (by decide) (by decide)) hx hin
  have hfirst : Spells 0xF9000C1F#32 (.str 3#12 0#5 31#5) = true := by decide
  have hsecond : Spells 0xF9005009#32 (.str 20#12 0#5 9#5) = true := by decide
  let c₁ := c.store (slotAt 0x50000#64 3) 0
  let c₂ := c₁.set 9#5 0x20118#64
  let c₃ := c₂.store (slotAt 0x50000#64 20) 0x20118#64
  have hmem₁ : ∀ a ∉ Span 0x50000#64 (8 * frameSize),
      c₁.mem a = quietInstrumented.memory.bytes a := fun a ha =>
    (store64_outside frameSize_small (by decide) ha).trans (hmem a ha)
  have hmem₂ : ∀ a ∉ Span 0x50000#64 (8 * frameSize),
      c₂.mem a = quietInstrumented.memory.bytes a := by
    simpa only [c₂, set_mem] using hmem₁
  have hmem₃ : ∀ a ∉ Span 0x50000#64 (8 * frameSize),
      c₃.mem a = quietInstrumented.memory.bytes a := fun a ha =>
    (store64_outside frameSize_small (by decide) ha).trans (hmem₂ a ha)
  have hx0' : c₂.x 0#5 = 0x50000#64 := by
    rw [set_x, if_neg (by decide)]
    exact hx0
  have hmov : Reaches frameArch ⟨c₁, wordAt 0x40000#64 1⟩ ⟨c₂, wordAt 0x40000#64 (1 + 4)⟩ := by
    refine reaches_mov (hcode hmem₁) fun j it hj => ?_
    rcases j with _ | _ | _ | _ | j <;> cases hj <;> rfl
  have hret : step frameArch ⟨c₃, wordAt 0x40000#64 6⟩ = some ⟨c₃, c.x 30#5⟩ := by
    have hdecode : decode 0xD65F03C0#32 = .br 30#5 := by decide
    rw [step_word (hcode hmem₃) (p := 6) (w := 0xD65F03C0#32) rfl, hdecode, exec]
    rfl
  have hreach := Reaches.head (step_str frameArch_framed hfirst (hcode hmem) (p := 0) rfl hx0)
    (hmov.trans (.head (step_str frameArch_framed hsecond (hcode hmem₂) (p := 5) rfl hx0')
      (.of_step hret)))
  rw [wordAt_zero] at hreach
  refine ⟨c₃, hreach, ?_, ?_, fun a ha => ?_⟩
  · show c₂.rest.sp = _
    rw [set_rest]
    exact hsp
  · have hctx₁ : contextAt c₁.mem 0x50000#64 = { contextAt c.mem 0x50000#64 with
        x := Function.update (contextAt c.mem 0x50000#64).x 0#5 0 } :=
      contextAt_store c.mem 0x50000#64 (r := 0#5) (by decide) 0
    have hctx₃ : contextAt c₃.mem 0x50000#64 = { contextAt c₁.mem 0x50000#64 with
        x := Function.update (contextAt c₁.mem 0x50000#64).x 17#5 0x20118#64 } := by
      have hsame : c₂.mem = c₁.mem := set_mem c₁ 9#5 0x20118#64
      rw [← hsame]
      exact contextAt_store c₂.mem 0x50000#64 (r := 17#5) (by decide) 0x20118#64
    rw [hctx₃, hctx₁]
    rfl
  · have hout : a ∉ Span 0x50000#64 (8 * 34) := fun hin => by
      rcases ha with ⟨b, hb, hab⟩ | ha
      · exact Set.disjoint_left.mp (disjoint_span (by decide) (by decide))
          (quietInstrumented_handed hb hab) hin
      · rw [mem_span_slotAt (by decide)] at ha
        rw [mem_span] at hin
        omega
    have hsecond : c₃.mem a = c₂.mem a := store64_outside (by decide) (by decide) hout
    have hfirst : c₁.mem a = c.mem a := store64_outside (by decide) (by decide) hout
    rw [hsecond, set_mem, hfirst]

/-- Before the function is called. -/
def quietStacked : Core (Stacked Unit) :=
  ⟨fun _ => 7#64, ⟨false, false, false, false⟩, quietInstrumented.memory.bytes,
    ⟨0x501A0#64, fun _ => 0#128, ()⟩⟩

end JniDegger.Dobby
