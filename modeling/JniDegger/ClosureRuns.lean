import JniDegger.ClosureTrampoline

/-!
# Through a closure trampoline

The handler is called with the registers as they were at the trampoline, and the
registers are loaded back as it has left them (`closure_reaches`).  Not among them
are X17 and X30 and what is not in the context: the flags, and the vector registers
from q8 on, which are what the handler has left in them.
-/

namespace JniDegger.Dobby
open A64 Arm64Assembler Arm64Relocation

variable {ρ : Type*} {A : Arch (Stacked ρ)} {base : Address} {f : Frame}

/-! ## On the frame -/

/-- The doublewords of the trampoline and of the context. -/
def frameSize : Nat := 52

/-- The bridge has saved everything and is about to call. -/
structure Frame.Saved (base : Address) (f f' : Frame) : Prop where
  sp : f'.sp = 0
  x0 : f'.x 0#5 = slotAt base 0
  x1 : f'.x 1#5 = f.slots 50
  q : f'.q = f.q
  originalSp : f'.slots 1 = slotAt base frameSize
  slotX : ∀ r : Reg, r ≠ 31#5 → f'.slots (3 + r.toNat) = f.x r
  slotQ : ∀ r : Reg, r.toNat < 8 →
    f'.slots (35 + 2 * r.toNat) ++ f'.slots (34 + 2 * r.toNat) = f.q r
  above : f'.slots 50 = f.slots 50 ∧ f'.slots 51 = f.slots 51

theorem low_high (v : BitVec 128) : v.extractLsb' 64 64 ++ v.extractLsb' 0 64 = v := by
  apply BitVec.eq_of_getLsbD_eq
  intro i hi
  rw [BitVec.getLsbD_append, BitVec.getLsbD_extractLsb', BitVec.getLsbD_extractLsb']
  by_cases h : i < 64
  · simp [h]
  · have hlt : i - 64 < 64 := by omega
    have hsum : 64 + (i - 64) = i := by omega
    simp [h, hlt, hsum]

set_option maxRecDepth 4000 in
theorem runFrame_save (base : Address) (hsp : f.sp = 50) :
    ∃ f', runFrame base frameSize saveInsns f = some f' ∧ Frame.Saved base f f' := by
  obtain ⟨s, slots, x, q⟩ := f
  obtain rfl : s = 50 := hsp
  refine ⟨_, rfl, ⟨rfl, ?_, rfl, rfl, ?_, ?_, ?_, rfl, rfl⟩⟩
  · show slotAt base 0 + 0#64 = slotAt base 0
    exact BitVec.add_zero _
  · show slotAt base 2 + BitVec.ofNat 64 (8 * 2) + BitVec.ofNat 64 (8 * 48) = slotAt base 52
    rw [slotAt_add, slotAt_add]
  · rintro ⟨⟨k, hk⟩⟩ hne
    interval_cases k <;> first | rfl | exact absurd rfl hne
  · rintro ⟨⟨k, hk⟩⟩ hlt
    have hlt : k < 8 := hlt
    interval_cases k <;> exact low_high _

/-- The bridge has loaded everything and is about to return. -/
structure Frame.Restored (f f' : Frame) : Prop where
  sp : f'.sp = 50
  slots : f'.slots = f.slots
  x : ∀ r : Reg, r ≠ 31#5 → f'.x r = f.slots (3 + r.toNat)
  q : ∀ r : Reg, r.toNat < 8 →
    f'.q r = f.slots (35 + 2 * r.toNat) ++ f.slots (34 + 2 * r.toNat)
  qElse : ∀ r : Reg, ¬ r.toNat < 8 → f'.q r = f.q r

theorem runFrame_restore (base : Address) (hsp : f.sp = 0) :
    ∃ f', runFrame base frameSize restoreInsns f = some f' ∧ Frame.Restored f f' := by
  obtain ⟨s, slots, x, q⟩ := f
  obtain rfl : s = 0 := hsp
  refine ⟨_, rfl, ⟨rfl, rfl, ?_, ?_, ?_⟩⟩
  · rintro ⟨⟨k, hk⟩⟩ hne
    interval_cases k <;> first | rfl | exact absurd rfl hne
  · rintro ⟨⟨k, hk⟩⟩ hlt
    have hlt : k < 8 := hlt
    interval_cases k <;> rfl
  · rintro ⟨⟨k, hk⟩⟩ hge
    have hge : 8 ≤ k := Nat.not_lt.mp hge
    interval_cases k <;> rfl

/-! ## On the processor -/

theorem render_words (ws : List Word) : render (ws.map Item.word) [] = ws := by
  apply List.ext_getElem?
  intro p
  simp only [render, List.flatMap_nil, List.append_nil, List.getElem?_mapIdx, List.getElem?_map,
    Option.map_map]
  cases ws[p]? <;> rfl

theorem SpellAll.part {ws vs : List Word} {is : List FrameInsn} {p : Nat} (h : SpellAll vs is)
    (hpart : ∀ k w, vs[k]? = some w → ws[p + k]? = some w) :
    ∀ k i, is[k]? = some i → ∃ w, ws[p + k]? = some w ∧ Spells w i = true := by
  induction h generalizing p with
  | nil => simp
  | @cons w i vs is hwi _ ih =>
    intro k j hk
    cases k with
    | zero =>
      cases hk
      exact ⟨w, hpart 0 w rfl, hwi⟩
    | succ k =>
      have hshift : ∀ m w', vs[m]? = some w' → ws[p + 1 + m]? = some w' := by
        intro m w' hm
        rw [Nat.add_assoc, Nat.add_comm 1 m]
        exact hpart (m + 1) w' hm
      obtain ⟨w', hw', hspell⟩ := ih hshift k j hk
      exact ⟨w', by rw [← hw', Nat.add_assoc, Nat.add_comm 1 k], hspell⟩

/-- A block of code that does not lie in the frame. -/
structure Outside (base : Address) (mem : Address → BitVec 8) (code : Address) (ws : List Word) :
    Prop where
  holds : Holds mem code ws
  short : 4 * ws.length ≤ 2 ^ 64
  apart : Disjoint (Span code (4 * ws.length)) (Span base (8 * frameSize))

variable {c₀ c : Core (Stacked ρ)} {code trampoline bridge handler trampEntry : Address}
  {ws : List Word} {p : Nat}

theorem frameSize_small : 8 * frameSize ≤ 2 ^ 64 := by decide

theorem Outside.run (hA : A.Framed) (hcode : Outside base c₀.mem code ws) {vs : List Word}
    {is : List FrameInsn} (hspell : SpellAll vs is)
    (hpart : ∀ k w, vs[k]? = some w → ws[p + k]? = some w) {f f' : Frame}
    (h : f.Fits base frameSize c₀ c) (hrun : runFrame base frameSize is f = some f') :
    ∃ c', Reaches A ⟨c, wordAt code p⟩ ⟨c', wordAt code (p + is.length)⟩ ∧
      f'.Fits base frameSize c₀ c' :=
  frame_reaches hA frameSize_small hcode.holds hcode.short hcode.apart (hspell.part hpart) h hrun

theorem Outside.words (hcode : Outside base c₀.mem code ws) {f : Frame}
    (h : f.Fits base frameSize c₀ c) : Holds c.mem code ws :=
  h.holds hcode.holds hcode.short hcode.apart

/-- The trampoline has called the bridge. -/
structure Frame.Called (trampoline bridge trampEntry : Address) (f f' : Frame) : Prop where
  sp : f'.sp = 50
  entry : f'.slots 50 = trampEntry
  link : f'.slots 51 = f.x 30#5
  q : f'.q = f.q
  x : ∀ r, f'.x r =
    if r = 30#5 then wordAt trampoline 6 else if r = tmpReg0 then bridge else f.x r

theorem trampoline_calls (hA : A.Framed)
    (hcode : Outside base c₀.mem trampoline (closureTrampoline trampEntry bridge).buffer)
    (h : f.Fits base frameSize c₀ c) (hsp : f.sp = frameSize) :
    ∃ (c' : Core (Stacked ρ)) (f' : Frame), Reaches A ⟨c, trampoline⟩ ⟨c', bridge⟩ ∧
      f'.Fits base frameSize c₀ c' ∧ Frame.Called trampoline bridge trampEntry f f' := by
  have hbuffer := closureTrampoline_buffer trampEntry bridge
  have hsmall : trampolineItems.length + 2 * [trampEntry, bridge].length < 2 ^ 18 := by
    show 9 + 2 * 2 < 2 ^ 18
    decide
  have hrender : ∀ {f : Frame} {c : Core (Stacked ρ)}, f.Fits base frameSize c₀ c →
      Holds c.mem trampoline (render trampolineItems [trampEntry, bridge]) := fun h =>
    hbuffer ▸ hcode.words h
  have hsave : SpellAll [0xD10043FF#32, 0xF90007FE#32] [.sub 16 31 31, .str 1 31 30] := by
    decide +kernel
  obtain ⟨s, slots, x, q⟩ := f
  obtain rfl : s = frameSize := hsp
  obtain ⟨c₁, hreach₁, hfits₁⟩ := hcode.run (p := 0) hA hsave
    (by
      rw [hbuffer]
      rintro (_ | _ | k) w hw
      · exact hw
      · exact hw
      · cases hw) h rfl
  have hload₁ := step_load (A := A) (hrender hfits₁) hsmall (p := 2) (k := 0) rfl rfl
  have hfits₂ := hfits₁.setX (r := tmpReg0) (by decide) trampEntry
  have hstore : SpellAll [0xF90003F1#32] [.str 0 31 17] := by decide +kernel
  obtain ⟨c₃, hreach₃, hfits₃⟩ := hcode.run (p := 3) hA hstore
    (by
      rw [hbuffer]
      rintro (_ | k) w hw
      · exact hw
      · cases hw) hfits₂ rfl
  have hload₂ := step_load (A := A) (hrender hfits₃) hsmall (p := 4) (k := 1) rfl rfl
  have hfits₄ := hfits₃.setX (r := tmpReg0) (by decide) bridge
  have hcall := step_word (A := A) (hrender hfits₄) (p := 5) rfl
  rw [decode_blrWord, exec, get_set_self c₃ (by decide), wordAt_succ] at hcall
  have hfits₅ := hfits₄.setX (r := 30#5) (by decide) (wordAt trampoline 6)
  rw [wordAt_zero] at hreach₁
  refine ⟨_, _, (hreach₁.trans (.head hload₁ (hreach₃.trans (.head hload₂ (.of_step hcall))))),
    hfits₅, rfl, rfl, rfl, rfl, fun r => ?_⟩
  show Function.update (Function.update (Function.update x tmpReg0 trampEntry) tmpReg0 bridge) 30#5
    (wordAt trampoline 6) r = _
  rw [Function.update_idem, Function.update_apply, Function.update_apply]

theorem saveRegisters_length : (saveRegisters .new).buffer.length = 29 := rfl

theorem closureBridge_word (handler : Address) (k : Nat) :
    (closureBridge handler).buffer[29 + k]? = ((movItems tmpReg0 handler).map Item.blank ++
      blrWord tmpReg0 :: (restoreRegisters .new).buffer)[k]? := by
  rw [closureBridge_buffer, List.getElem?_append_right (by rw [saveRegisters_length]; omega),
    saveRegisters_length, Nat.add_sub_cancel_left]

theorem bridge_calls (hA : A.Framed)
    (hcode : Outside base c₀.mem bridge (closureBridge handler).buffer)
    (h : f.Fits base frameSize c₀ c) (hsp : f.sp = 50) :
    ∃ (c' : Core (Stacked ρ)) (f' : Frame), Reaches A ⟨c, bridge⟩ ⟨c', handler⟩ ∧
      f'.Fits base frameSize c₀ c' ∧ f'.sp = 0 ∧ f'.x 0#5 = slotAt base 0 ∧
      f'.x 1#5 = f.slots 50 ∧ f'.x 30#5 = wordAt bridge 34 ∧ f'.q = f.q ∧
      ∃ g, Frame.Saved base f g ∧ f'.slots = g.slots := by
  have hbuffer := closureBridge_buffer handler
  obtain ⟨g, hrun, hsaved⟩ := runFrame_save base hsp
  obtain ⟨c₁, hreach₁, hfits₁⟩ := hcode.run (p := 0) hA save_spelled
    (by
      intro k w hw
      rw [hbuffer, Nat.zero_add, List.getElem?_append_left (List.getElem?_eq_some_iff.mp hw).1]
      exact hw) h hrun
  have hitems : ∀ {f : Frame} {c : Core (Stacked ρ)}, f.Fits base frameSize c₀ c →
      Holds c.mem bridge (render ((closureBridge handler).buffer.map Item.word) []) := by
    intro f c h
    rw [render_words]
    exact hcode.words h
  have hmov : Reaches A ⟨c₁, wordAt bridge 29⟩ ⟨c₁.set tmpReg0 handler, wordAt bridge (29 + 4)⟩ := by
    refine reaches_mov (hitems hfits₁) fun j it hj => ?_
    rw [List.getElem?_map, closureBridge_word]
    rcases j with _ | _ | _ | _ | j <;> cases hj <;> rfl
  have hfits₂ := hfits₁.setX (r := tmpReg0) (by decide) handler
  have hcall := step_word (A := A) (hitems hfits₂) (p := 33) (w := blrWord tmpReg0)
    (by rw [List.getElem?_map, closureBridge_word handler 4]; rfl)
  rw [decode_blrWord, exec, get_set_self c₁ (by decide), wordAt_succ] at hcall
  have hfits₃ := hfits₂.setX (r := 30#5) (by decide) (wordAt bridge 34)
  rw [wordAt_zero] at hreach₁
  refine ⟨_, _, hreach₁.trans (hmov.trans (.of_step hcall)), hfits₃, hsaved.sp, hsaved.x0,
    hsaved.x1, rfl, hsaved.q, g, hsaved, rfl⟩

theorem bridge_returns (hA : A.Framed)
    (hcode : Outside base c₀.mem bridge (closureBridge handler).buffer)
    (h : f.Fits base frameSize c₀ c) (hsp : f.sp = 0) :
    ∃ (c' : Core (Stacked ρ)) (f' : Frame),
      Reaches A ⟨c, wordAt bridge 34⟩ ⟨c', f.slots (3 + 30)⟩ ∧
        f'.Fits base frameSize c₀ c' ∧ Frame.Restored f f' := by
  have hrest : ∀ k, (closureBridge handler).buffer[34 + k]? = (restoreRegisters .new).buffer[k]? := by
    intro k
    have hfive : 34 + k = 29 + (k + 5) := by omega
    rw [hfive, closureBridge_word]
    rfl
  obtain ⟨g, hrun, hrestored⟩ := runFrame_restore base hsp
  obtain ⟨c₁, hreach, hfits⟩ := hcode.run (p := 34) hA restore_spelled.1
    (by
      intro k w hw
      rw [hrest, restore_spelled.2,
        List.getElem?_append_left (List.getElem?_eq_some_iff.mp hw).1]
      exact hw) h hrun
  have hret : step A ⟨c₁, wordAt bridge (34 + restoreInsns.length)⟩ =
      some ⟨c₁, f.slots (3 + 30)⟩ := by
    have hword : (closureBridge handler).buffer[34 + restoreInsns.length]? = some 0xD65F03C0#32 := by
      rw [hrest]
      rfl
    have hdecode : decode 0xD65F03C0#32 = .br 30#5 := by decide
    rw [(hcode.words hfits).step hword, hdecode, exec, hfits.get 30#5]
    exact congrArg (fun v => some (Cpu.mk c₁ v)) (hrestored.x 30#5 (by decide))
  exact ⟨c₁, g, hreach.trans (.of_step hret), hfits, hrestored⟩

theorem trampoline_leaves (hA : A.Framed)
    (hcode : Outside base c₀.mem trampoline (closureTrampoline trampEntry bridge).buffer)
    (h : f.Fits base frameSize c₀ c) (hsp : f.sp = 50) :
    ∃ (c' : Core (Stacked ρ)) (f' : Frame),
      Reaches A ⟨c, wordAt trampoline 6⟩ ⟨c', f.x tmpReg0⟩ ∧ f'.Fits base frameSize c₀ c' ∧
        f'.sp = frameSize ∧ f'.slots = f.slots ∧ f'.q = f.q ∧
        ∀ r, f'.x r = if r = 30#5 then f.slots 51 else f.x r := by
  have hbuffer := closureTrampoline_buffer trampEntry bridge
  have hload : SpellAll [0xF94007FE#32, 0x910043FF#32] [.ldr 1 31 30, .add 16 31 31] := by
    decide +kernel
  obtain ⟨s, slots, x, q⟩ := f
  obtain rfl : s = 50 := hsp
  obtain ⟨c₁, hreach, hfits⟩ := hcode.run (p := 6) hA hload
    (by
      rw [hbuffer]
      rintro (_ | _ | k) w hw
      · exact hw
      · exact hw
      · cases hw) h rfl
  have hrender : Holds c₁.mem trampoline (render trampolineItems [trampEntry, bridge]) :=
    hbuffer ▸ hcode.words hfits
  have hbr := step_word (A := A) hrender (p := 8) rfl
  rw [decode_brWord, exec, hfits.get tmpReg0] at hbr
  refine ⟨c₁, _, hreach.trans (.of_step hbr), hfits, rfl, rfl, rfl, fun r => ?_⟩
  simp only [Frame.setX, Function.update_apply]
  rfl

/-! ## All the way -/

def frameAt (c : Core (Stacked ρ)) (base : Address) (sp : Nat) : Frame :=
  ⟨sp, fun i => read64 c.mem (slotAt base i), c.x, c.rest.q⟩

theorem frameAt_fits {sp : Nat} (h : c.rest.sp = slotAt base sp) :
    (frameAt c base sp).Fits base frameSize c c :=
  ⟨h, fun _ _ => rfl, fun _ _ => rfl, fun _ _ => rfl, rfl, rfl, rfl⟩

/-- Where the frame is, below the stack pointer. -/
def frameBase (c : Core (Stacked ρ)) : Address := c.rest.sp - BitVec.ofNat 64 (8 * frameSize)

theorem slotAt_frameBase (c : Core (Stacked ρ)) : slotAt (frameBase c) frameSize = c.rest.sp := by
  show c.rest.sp - BitVec.ofNat 64 (8 * frameSize) + BitVec.ofNat 64 (8 * frameSize) = c.rest.sp
  exact BitVec.sub_add_cancel _ _

theorem slotAt_zero (base : Address) : slotAt base 0 = base := wordAt_zero base

/-- The context the handler is given. -/
def givenContext (c : Core (Stacked ρ)) (trampoline bridge : Address) : RegisterContext where
  sp := c.rest.sp
  x r :=
    if r = 31#5 then 0
    else if r = 30#5 then wordAt trampoline 6
    else if r = tmpReg0 then bridge
    else c.x r
  q r := if r.toNat < 8 then c.rest.q r else 0

/-- What the bridge relies on in the compiled handler: called for the entry, it changes the
context as `handle` says, writes nothing that is kept, and returns. -/
def Handles (A : Arch (Stacked ρ)) (handler : Address) (mem : Address → BitVec 8)
    (base trampEntry : Address) (kept : Set Address)
    (handle : RegisterContext → RegisterContext) : Prop :=
  ∀ c : Core (Stacked ρ), c.rest.sp = base → c.x 0#5 = base → c.x 1#5 = trampEntry →
    (∀ a ∉ Span base (8 * frameSize), c.mem a = mem a) →
    ∃ d, Reaches A ⟨c, handler⟩ ⟨d, c.x 30#5⟩ ∧ d.rest.sp = base ∧
      contextAt d.mem base = handle (contextAt c.mem base) ∧ ∀ a ∈ kept, d.mem a = c.mem a

/-- What a state is like that goes on after the handler has returned in `d`. -/
structure Resumed (c d c' : Core (Stacked ρ)) (left : RegisterContext) : Prop where
  sp : c'.rest.sp = c.rest.sp
  x : ∀ r, r ≠ 31#5 → c'.x r = if r = 30#5 then c.x 30#5 else left.x r
  q : ∀ r, c'.rest.q r = if r.toNat < 8 then left.q r else d.rest.q r
  flags : c'.flags = d.flags
  rest : c'.rest.rest = d.rest.rest
  mem : ∀ a ∉ Span (frameBase c) (8 * frameSize), c'.mem a = d.mem a

theorem contextAt_eq (mem : Address → BitVec 8) (base : Address) {r : Reg} (hr : r ≠ 31#5) :
    (contextAt mem base).x r = read64 mem (slotAt base (3 + r.toNat)) := by
  simp only [contextAt, if_neg hr]

theorem contextAt_q (mem : Address → BitVec 8) (base : Address) {r : Reg} (hr : r.toNat < 8) :
    (contextAt mem base).q r = read64 mem (slotAt base (35 + 2 * r.toNat)) ++
      read64 mem (slotAt base (34 + 2 * r.toNat)) := by
  simp only [contextAt, if_pos hr]

theorem saved_context {f₁ f₂ g : Frame} {c₂ : Core (Stacked ρ)}
    (hcalled : Frame.Called trampoline bridge trampEntry (frameAt c base frameSize) f₁)
    (hsaved : Frame.Saved base f₁ g) (hfits : f₂.Fits base frameSize c₀ c₂)
    (hslots : f₂.slots = g.slots) (hbase : slotAt base frameSize = c.rest.sp) :
    contextAt c₂.mem base = givenContext c trampoline bridge := by
  have hread : ∀ i < frameSize, read64 c₂.mem (slotAt base i) = g.slots i := fun i hi => by
    rw [hfits.slots i hi, hslots]
  refine RegisterContext.ext ?_ (funext fun r => ?_) (funext fun r => ?_)
  · rw [givenContext, ← hbase, ← hsaved.originalSp]
    exact hread 1 (by decide)
  · by_cases hr : r = 31#5
    · simp only [contextAt, givenContext, hr, if_true]
    · have hlt : 3 + r.toNat < frameSize := by
        have := r.isLt
        rw [frameSize]
        omega
      rw [contextAt_eq _ _ hr, hread _ hlt, hsaved.slotX r hr, hcalled.x]
      simp only [givenContext, hr, if_false]
      rfl
  · by_cases hr : r.toNat < 8
    · have hlt : 35 + 2 * r.toNat < frameSize := by
        rw [frameSize]
        omega
      rw [contextAt_q _ _ hr, hread _ hlt, hread _ (by omega), hsaved.slotQ r hr, hcalled.q]
      simp only [givenContext, hr, if_true]
      rfl
    · simp only [contextAt, givenContext, hr, if_false]

/-- The context is as the handler has left it, when the bridge returns. -/
structure Restored (c c' : Core (Stacked ρ)) (left : RegisterContext) : Prop where
  sp : c'.rest.sp = c.rest.sp - 16#64
  x : ∀ r, r ≠ 31#5 → c'.x r = left.x r

/-- **Through the trampoline.**  The handler is given the registers, but for X17 and X30.  When
it has returned, in `d`, they are loaded as it has left them in the context, and the bridge
returns to the X30 it has left.  If that is the trampoline still, control goes on to the
address it has left for X17. -/
theorem closure_reaches {kept : Set Address} {handle : RegisterContext → RegisterContext}
    {left : RegisterContext} (hA : A.Framed)
    (htrampoline : Outside (frameBase c) c.mem trampoline
      (closureTrampoline trampEntry bridge).buffer)
    (hbridge : Outside (frameBase c) c.mem bridge (closureBridge handler).buffer)
    (hhandler : Handles A handler c.mem (frameBase c) trampEntry kept handle)
    (hkept : Span (slotAt (frameBase c) 50) 16 ⊆ kept ∧
      Span trampoline (4 * (closureTrampoline trampEntry bridge).buffer.length) ⊆ kept ∧
        Span bridge (4 * (closureBridge handler).buffer.length) ⊆ kept)
    (hleft : handle (givenContext c trampoline bridge) = left) :
    ∃ d : Core (Stacked ρ), Reaches A ⟨c, trampoline⟩ ⟨d, wordAt bridge 34⟩ ∧
      (∃ c', Reaches A ⟨d, wordAt bridge 34⟩ ⟨c', left.x 30#5⟩ ∧ Restored c c' left) ∧
      (left.x 30#5 = wordAt trampoline 6 →
        ∃ c', Reaches A ⟨d, wordAt bridge 34⟩ ⟨c', left.x tmpReg0⟩ ∧ Resumed c d c' left) ∧
      ∀ a ∈ kept, a ∉ Span (frameBase c) (8 * frameSize) → d.mem a = c.mem a := by
  have hbase := slotAt_frameBase c
  generalize hframe : frameBase c = base at *
  obtain ⟨hslots, hcodeT, hcodeB⟩ := hkept
  obtain ⟨c₁, f₁, hreach₁, hfits₁, hcalled⟩ :=
    trampoline_calls hA htrampoline (frameAt_fits hbase.symm) rfl
  obtain ⟨c₂, f₂, hreach₂, hfits₂, hsp₂, hx0, hx1, hx30, hq₂, g, hsaved, hg⟩ :=
    bridge_calls hA hbridge hfits₁ hcalled.sp
  have hgiven := saved_context hcalled hsaved hfits₂ hg hbase
  have hspBase : c₂.rest.sp = base := by rw [hfits₂.sp, hsp₂, slotAt_zero]
  obtain ⟨d, hreach₃, hspd, hcontext, hkeep⟩ := hhandler c₂ hspBase
    (by rw [hfits₂.x _ (by decide), hx0, slotAt_zero])
    (by rw [hfits₂.x _ (by decide), hx1, hcalled.entry]) hfits₂.outside
  rw [hfits₂.x _ (by decide), hx30] at hreach₃
  rw [hgiven, hleft] at hcontext
  have hsame : ∀ a ∈ kept, a ∉ Span base (8 * frameSize) → d.mem a = c.mem a := fun a ha hout => by
    rw [hkeep a ha, hfits₂.outside a hout]
  have hstay : ∀ {code : Address} {ws : List Word}, Outside base c.mem code ws →
      Span code (4 * ws.length) ⊆ kept → Outside base d.mem code ws := fun h hin =>
    ⟨h.holds.congr h.short fun x hx => hsame x (hin hx) (Set.disjoint_left.mp h.apart hx),
      h.short, h.apart⟩
  have hbase₃ : d.rest.sp = slotAt base 0 := by rw [hspd, slotAt_zero]
  have hfits₃ := frameAt_fits hbase₃
  obtain ⟨c₄, f₄, hreach₄, hfits₄, hrestored⟩ :=
    bridge_returns hA (hstay hbridge hcodeB) hfits₃ rfl
  have hleftX : ∀ r : Reg, r ≠ 31#5 → f₄.x r = left.x r := by
    intro r hr
    rw [hrestored.x r hr, ← hcontext, contextAt_eq _ _ hr]
    rfl
  have hlr : (frameAt d base 0).slots (3 + 30) = left.x 30#5 := by
    rw [← hleftX 30#5 (by decide)]
    exact (hrestored.x 30#5 (by decide)).symm
  rw [hlr] at hreach₄
  refine ⟨d, hreach₁.trans (hreach₂.trans hreach₃),
    ⟨c₄, hreach₄, ?_, fun r hr => (hfits₄.x r hr).trans (hleftX r hr)⟩, fun hlink => ?_, hsame⟩
  · rw [hfits₄.sp, hrestored.sp, ← hbase]
    exact (slotAt_sub base (by decide : 2 ≤ 52)).symm
  obtain ⟨c₅, f₅, hreach₅, hfits₅, hsp₅, hslots₅, hq₅, hx₅⟩ :=
    trampoline_leaves hA (hstay htrampoline hcodeT) hfits₄ hrestored.sp
  have hlinkSlot : f₄.slots 51 = c.x 30#5 := by
    have hread : read64 d.mem (slotAt base 51) = read64 c₂.mem (slotAt base 51) :=
      read64_congr fun x hx => hkeep x (hslots (by
        rw [mem_span_slotAt (by decide)] at hx ⊢
        omega))
    rw [hrestored.slots]
    show read64 d.mem (slotAt base 51) = _
    rw [hread, hfits₂.slots 51 (by decide), hg, hsaved.above.2, hcalled.link]
    rfl
  rw [hlink] at hreach₄
  rw [hleftX tmpReg0 (by decide)] at hreach₅
  refine ⟨c₅, hreach₄.trans hreach₅, ?_, fun r hr => ?_, fun r => ?_, hfits₅.flags, hfits₅.rest, ?_⟩
  · rw [hfits₅.sp, hsp₅, hbase]
  · rw [hfits₅.x r hr, hx₅, hlinkSlot, hleftX r hr]
  · rw [hfits₅.q, hq₅]
    by_cases hr : r.toNat < 8
    · rw [if_pos hr, hrestored.q r hr, ← hcontext, contextAt_q _ _ hr]
      rfl
    · rw [if_neg hr, hrestored.qElse r hr]
      rfl
  · rw [hframe]
    exact hfits₅.outside

end JniDegger.Dobby
