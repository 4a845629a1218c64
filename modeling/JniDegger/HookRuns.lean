import JniDegger.HookedProcess

/-!
# What hooks do

Proved here of every run of hooks, instruments and destroys that keeps to `Allowed`:

* `hooks_layered`: the program's memory is the one at the start under the trampolines
  there are, the newest on top, and no other memory has changed but Dobby's arenas;
* `hooked_call_lands`: a hooked function runs its replacement;
* `origin_func_follows`: `origin_func` does what the function did when it was hooked, and so
  does the relocated code of an instrument;
* `destroy_order`: two hooks that lie over one another, destroyed in either order.

Of every run whatsoever: `hooks_alternate`, what the calls about an address give back.
-/

namespace JniDegger.Dobby
open A64 Arm64Assembler Arm64Relocation Arm64Trampoline Interleaving Layers

variable {P : Set Address} {bytes : Address → BitVec 8} {m : Memory} {p p' : Process}
  {l r : List InterceptEntry} {e e' : InterceptEntry} {os : Os} {as : List (Os × Call)}
  {log : List (Call × Returned)} {address target handler src dst : Address} {ws : List Word}
  {instrument : Option InstructionInstrument}

/-! ## Memory -/

theorem Installed.holds (h : Installed P bytes p) (hsplit : p.entries = l ++ e :: r)
    (hbare : e.Bare r) : Holds p.memory.bytes e.patchedAddr e.routing.trampolineBuffer := by
  have hentry := h.entry e (by simp [hsplit])
  have hlen := hentry.routes.length_le
  refine (holds_storeWords (fun _ => 0#8) e.patchedAddr (by omega)).congr (by omega) fun x hx => ?_
  have hlayered := h.layered x (hentry.own hx)
  simp only [hsplit, hookLayers_append, hookLayers_cons, List.append_assoc, List.singleton_append]
    at hlayered
  exact hlayered.trans (layers_uncovered hbare.uncovered hx)

/-- **The program's memory** is what it was, under the trampolines there are. -/
theorem hooks_layered (h : (interceptor.restrict (Allowed P)).Run (.start bytes handler) as log p) :
    (∀ x ∈ P, p.memory.bytes x = layers bytes (hookLayers p.entries) x) ∧
      (∀ x ∈ P, (∀ e ∈ p.entries, x ∉ e.span) → p.memory.bytes x = bytes x) ∧
      (∀ l e r, p.entries = l ++ e :: r → e.Bare r →
        Holds p.memory.bytes e.patchedAddr e.routing.trampolineBuffer) ∧
      ∀ x ∉ P, (∀ a ∈ p.memory.arenas, x ∉ a.span) → p.memory.bytes x = bytes x := by
  have hinst := installed_of_run h
  refine ⟨hinst.layered, fun x hx hout => ?_, fun l e r => hinst.holds, hinst.frame⟩
  have habove : ∀ q ∈ hookLayers p.entries, x ∉ q.region := by
    intro q hq
    obtain ⟨e, he, rfl⟩ := List.mem_map.mp hq
    exact hout e (List.mem_reverse.mp he)
  have hbase : layers bytes (hookLayers p.entries ++ []) x = bytes x := layers_above habove
  rw [List.append_nil] at hbase
  exact (hinst.layered x hx).trans hbase

theorem hooks_layered_quiet : quietTwice.memory.bytes 0x10010#64 = quietProgram 0x10010#64 ∧
    Holds quietTwice.memory.bytes 0x10004#64 quietOverentry.routing.trampolineBuffer := by
  obtain ⟨-, hout, hholds, -⟩ := hooks_layered quietTwice_allowed
  refine ⟨hout _ (by rw [mem_span]; decide) fun e he => ?_,
    hholds [quietEntry] quietOverentry [] quietTwice_entries (by simp [InterceptEntry.Bare])⟩
  rw [quietTwice_entries] at he
  simp only [List.mem_cons, List.not_mem_nil, or_false] at he
  rcases he with rfl | rfl <;> rw [InterceptEntry.span, mem_span] <;> decide

/-! ## Calling a hooked function -/

section Calls

variable {ρ : Type*} {A : Arch ρ} {c : Core ρ}

/-- Where ADRP takes a jump to `dst`, or `dst`. -/
theorem lands_adrp (hd : distance src dst < adrpRange)
    (hmem : Holds c.mem src (adrpBranch src dst).buffer) :
    ∃ c' v, Agree tmpReg0 false c c' ∧ Reaches A ⟨c, src⟩ ⟨c', v⟩ ∧
      (v = dst ∨ PageOverflow src dst ∧ v = dst - 0x200000000#64) := by
  refine ⟨_, _, (Agree.refl tmpReg0 true c).clobber _, adrpBranch_reaches hd hmem, ?_⟩
  rw [pageTarget]
  split
  · next hover => exact .inr ⟨hover, rfl⟩
  · exact .inl rfl

theorem near_offset {b : MemBlock} (hnear : Near src branchRange64 b) (hsize : 0 < b.size.toNat) :
    (b.addr - src).toNat < 2 ^ 27 ∨ 2 ^ 64 - 2 ^ 27 ≤ (b.addr - src).toNat := by
  obtain ⟨hlow, hhigh⟩ := hnear
  have hrange : branchRange64.toNat = 2 ^ 27 := by decide
  have := src.isLt
  have := b.addr.isLt
  rw [hrange] at hlow hhigh
  rw [BitVec.toNat_sub]
  omega

theorem dvd_sub (hdst : 4 ∣ dst.toNat) (hsrc : 4 ∣ src.toNat) : (dst - src).toNat % 4 = 0 := by
  rw [BitVec.toNat_sub]
  have := src.isLt
  omega

/-- **What a trampoline does**, in each of its forms. -/
theorem Routes.lands (h : Routes m src dst ws) (hmem : c.mem = m.bytes)
    (hws : Holds m.bytes src ws) (hsrc : 4 ∣ src.toNat) (hdst : 4 ∣ dst.toNat) :
    ∃ c' v, Agree tmpReg0 false c c' ∧ Reaches A ⟨c, src⟩ ⟨c', v⟩ ∧
      (v = dst ∨ ∃ jump, Holds m.bytes jump (adrpBranch jump dst).buffer ∧
        PageOverflow jump dst ∧ v = dst - 0x200000000#64) := by
  have hkeep : Agree tmpReg0 false c c := Agree.refl _ _ _
  cases h with
  | normal =>
    by_cases hd : distance src dst < adrpRange
    · rw [trampoline_buffer, if_pos hd] at hws
      obtain ⟨c', v, hagree, hreach, hv⟩ := lands_adrp (A := A) hd (hmem ▸ hws)
      exact ⟨c', v, hagree, hreach, hv.imp_right fun hover => ⟨src, hws, hover⟩⟩
    · have hreach := trampoline_reaches (A := A) (c := c) (hmem ▸ hws)
      rw [landing, if_neg hd] at hreach
      exact ⟨_, dst, hkeep.clobber dst, hreach, .inl rfl⟩
  | near hd =>
    have hfar : (dst - src).toNat < 2 ^ 27 ∨ 2 ^ 64 - 2 ^ 27 ≤ (dst - src).toNat :=
      ((distance_lt_iff (by decide)).mp hd).imp id Nat.le_of_lt
    exact ⟨c, dst, hkeep, nearBranch_reaches hfar (dvd_sub hdst hsrc) (hmem ▸ hws), .inl rfl⟩
  | forward b hforwards hnear haligned =>
    have hsize : 0 < b.size.toNat := by
      rcases hforwards with ⟨-, hcode⟩ | hcode
      · rw [hcode.size, adrpBranch_length]
        decide
      · rw [hcode.size, movBranch_length]
        decide
    have hbranch : Reaches A ⟨c, src⟩ ⟨c, b.addr⟩ :=
      nearBranch_reaches (near_offset hnear hsize) (dvd_sub haligned hsrc) (hmem ▸ hws)
    rcases hforwards with ⟨hd, hcode⟩ | hcode
    · obtain ⟨c', v, hagree, hreach, hv⟩ := lands_adrp (A := A) hd (hmem ▸ hcode.holds)
      exact ⟨c', v, hagree, hbranch.trans hreach,
        hv.imp_right fun hover => ⟨b.addr, hcode.holds, hover⟩⟩
    · exact ⟨_, dst, hkeep.clobber dst, hbranch.trans (movBranch_reaches (hmem ▸ hcode.holds)),
        .inl rfl⟩

/-- Before either function is called. -/
def quietCore : Core Unit :=
  ⟨fun _ => 0#64, ⟨false, false, false, false⟩, quietTwice.memory.bytes, ()⟩

end Calls

/-! ## Two hooks over one another -/

/-- What a destroy does, under whatever hooks the one destroyed may be. -/
theorem dobbyDestroy_off (hd : (p.entries.map InterceptEntry.patchedAddr).Nodup)
    (hsplit : p.entries = l ++ e :: r)
    (hlen : e.originInsns.length = e.routing.trampolineBuffer.length) :
    (dobbyDestroy p e.patchedAddr).1.entries = l ++ r ∧
      ((dobbyDestroy p e.patchedAddr).1.entries.map InterceptEntry.patchedAddr).Nodup ∧
      (dobbyDestroy p e.patchedAddr).1.memory.bytes = e.layer.off p.memory.bytes := by
  obtain ⟨hfind, hrem⟩ := find_of_split (hsplit ▸ hd)
  have hd' : ((remove p.entries e.patchedAddr).map InterceptEntry.patchedAddr).Nodup :=
    distinct_remove hd
  rw [← hsplit] at hfind hrem
  rw [hrem] at hd'
  simp only [dobbyDestroy, hfind, hrem, hd', true_and]
  funext x
  have hspan : Span e.patchedAddr (4 * e.originInsns.length) = e.layer.region := by
    rw [hlen]
    rfl
  by_cases hx : x ∈ e.layer.region
  · rw [Layer.off_of_mem hx]
    simp only [InterceptEntry.layer, dobbyCodePatch]
    exact storeWords_of_mem (hspan ▸ hx)
  · rw [Layer.off_of_notMem hx]
    exact storeWords_frame (hspan ▸ hx)

/-- **The order of two destroys.**  The newer hook first: the memory is as without the two.  The
older one first: it is, but for the bytes the two share, where the trampoline of the older hook
stays for good. -/
theorem destroy_order (h : (interceptor.restrict (Allowed P)).Run (.start bytes handler) as log p)
    (hsplit : p.entries = l ++ [e, e']) (x : Address) (hx : x ∈ P) :
    (dobbyDestroy (dobbyDestroy p e'.patchedAddr).1 e.patchedAddr).1.entries = l ∧
      (dobbyDestroy (dobbyDestroy p e.patchedAddr).1 e'.patchedAddr).1.entries = l ∧
      (dobbyDestroy (dobbyDestroy p e'.patchedAddr).1 e.patchedAddr).1.memory.bytes x =
        layers bytes (hookLayers l) x ∧
      (x ∈ e'.span → x ∈ e.span →
        (dobbyDestroy (dobbyDestroy p e.patchedAddr).1 e'.patchedAddr).1.memory.bytes x =
          storeWords (fun _ => 0#8) e.patchedAddr e.routing.trampolineBuffer x) ∧
      ((x ∈ e'.span → x ∉ e.span) →
        (dobbyDestroy (dobbyDestroy p e.patchedAddr).1 e'.patchedAddr).1.memory.bytes x =
          layers bytes (hookLayers l) x) := by
  have hinst := installed_of_run h
  have hlen := (hinst.entry e (by simp [hsplit])).saved
  have hlen' := (hinst.entry e' (by simp [hsplit])).saved
  have hsplit' : p.entries = (l ++ [e]) ++ [e'] := by rw [hsplit, List.append_assoc]; rfl
  obtain ⟨hnew, hdnew, hbnew⟩ := dobbyDestroy_off hinst.distinct hsplit' hlen'
  obtain ⟨hold, hdold, hbold⟩ := dobbyDestroy_off hinst.distinct hsplit hlen
  rw [List.append_nil] at hnew
  obtain ⟨hnew₂, -, hbnew₂⟩ := dobbyDestroy_off hdnew hnew hlen
  obtain ⟨hold₂, -, hbold₂⟩ := dobbyDestroy_off hdold hold hlen'
  rw [List.append_nil] at hnew₂ hold₂
  have hsaved := hinst.saved
  have hlayered := hinst.layered x hx
  have hstack : hookLayers p.entries = e'.layer :: e.layer :: hookLayers l := by simp [hsplit]
  rw [hstack] at hsaved hlayered
  obtain ⟨hshared, helse⟩ := off_off_covered (x := x) hsaved
  have hcongr := fun q s : Layer Address (BitVec 8) =>
    Layer.off_congr (p := q) (Layer.off_congr (p := s) hlayered)
  rw [hbnew₂, hbnew, hbold₂, hbold, hcongr, hcongr]
  refine ⟨hnew₂, hold₂, ?_, hshared, helse⟩
  rw [layers_pop hsaved, layers_pop hsaved.2]

theorem destroy_order_quiet :
    (dobbyDestroy (dobbyDestroy quietTwice 0x10004#64).1 0x10000#64).1.memory.bytes 0x10004#64 =
        0x1F#8 ∧
      (dobbyDestroy (dobbyDestroy quietTwice 0x10000#64).1 0x10004#64).1.memory.bytes 0x10004#64 =
        0x31#8 := by
  obtain ⟨-, -, hnew, hold, -⟩ := destroy_order (l := []) (e := quietEntry) quietTwice_allowed
    quietTwice_entries 0x10004#64 (by rw [mem_span]; decide)
  refine ⟨hnew.trans ?_, (hold ?_ ?_).trans ?_⟩
  · show quietProgram 0x10004#64 = 0x1F#8
    decide
  · rw [InterceptEntry.span, mem_span]
    decide
  · rw [InterceptEntry.span, mem_span]
    decide
  · decide

/-! ## What the calls give back -/

/-- The call hooked or instrumented the address (`true`), or destroyed what was there
(`false`). -/
def succeeded (address : Address) : Call × Returned → Option Bool
  | (.hook a _, ret) => if a = address ∧ ret.code = 0 then some true else none
  | (.instrument a _, ret) => if a = address ∧ ret.code = 0 then some true else none
  | (.destroy a, ret) => if a = address ∧ ret.code = 0 then some false else none
  | _ => none

/-- The call that makes the entry, with its answer. -/
def InterceptEntry.made (e : InterceptEntry) : Call × Returned :=
  match e.routing.instrument with
  | none => (.hook e.patchedAddr e.routing.trampolineTarget, ⟨0, some e.relocatedAddr⟩)
  | some i => (.instrument e.patchedAddr i.preHandler, ⟨0, none⟩)

theorem succeeded_made (address : Address) (e : InterceptEntry) :
    succeeded address e.made = if e.patchedAddr = address then some true else none := by
  rw [InterceptEntry.made]
  cases e.routing.instrument <;> simp [succeeded]

/-- `n` times, hooked and destroyed in turn. -/
def turns (n : Nat) : List Bool := (List.range n).map fun i => decide (i % 2 = 0)

theorem turns_succ (n : Nat) : turns (n + 1) = turns n ++ [decide (n % 2 = 0)] := by
  simp [turns, List.range_succ]

/-- What is known of the answers so far. -/
structure Answered (p : Process) (log : List (Call × Returned)) : Prop where
  distinct : (p.entries.map InterceptEntry.patchedAddr).Nodup
  turn : ∀ address, ∃ n, log.filterMap (succeeded address) = turns n ∧
    ((find p.entries address).isSome = true ↔ n % 2 = 1)
  last : ∀ e ∈ p.entries, ∃ before after, log = before ++ e.made :: after ∧
    after.filterMap (succeeded e.patchedAddr) = []

theorem Answered.refused (h : Answered p log) {c : Call × Returned} (hc : c.2.code = -1) :
    Answered p (log ++ [c]) := by
  have hnone : ∀ address, succeeded address c = none := by
    obtain ⟨call, ret⟩ := c
    cases call <;> simp_all [succeeded]
  refine ⟨h.distinct, fun address => ?_, fun e he => ?_⟩
  · obtain ⟨n, hn, hlive⟩ := h.turn address
    exact ⟨n, by simp [hn, hnone], hlive⟩
  · obtain ⟨before, after, hlog, hafter⟩ := h.last e he
    exact ⟨before, after ++ [c], by rw [hlog, List.append_assoc, List.cons_append],
      by simp [hafter, hnone]⟩

theorem install_eq_some (h : install os p address target instrument = some (p', e)) :
    p'.entries = p.entries ++ [e] ∧ e.patchedAddr = address ∧
      e.routing.trampolineTarget = target ∧ e.routing.instrument = instrument := by
  rw [install] at h
  generalize generateTrampolineBuffer os p address target = t at h
  simp only at h
  split at h
  · cases h
  · cases h
    exact ⟨rfl, rfl, rfl, rfl⟩

theorem createClosureTrampoline_entries {b : MemBlock}
    (h : createClosureTrampoline os p = some (b, p')) : p'.entries = p.entries := by
  rw [createClosureTrampoline] at h
  split at h
  · cases h
  · next p₁ hget =>
    obtain ⟨r, -, he⟩ := Option.map_eq_some_iff.mp h
    cases he
    rw [getClosureBridge] at hget
    split at hget
    · cases hget
      rfl
    · obtain ⟨r', -, he'⟩ := Option.map_eq_some_iff.mp hget
      cases he'
      rfl

theorem find_append_of_ne (h : e.patchedAddr ≠ address) :
    find (l ++ e :: r) address = find (l ++ r) address := by
  simp only [find, List.find?_append, List.find?_cons]
  simp [h]

theorem Answered.add (h : Answered p log) (hfind : find p.entries e.patchedAddr = none)
    (hentries : p'.entries = p.entries ++ [e]) : Answered p' (log ++ [e.made]) := by
  refine ⟨hentries ▸ distinct_append h.distinct hfind, fun a => ?_, fun e' he' => ?_⟩
  · obtain ⟨n, hn, hlive⟩ := h.turn a
    by_cases ha : e.patchedAddr = a
    · subst ha
      have heven : n % 2 = 0 := by
        have hnot := mt hlive.mpr (by simp [hfind])
        omega
      refine ⟨n + 1, ?_, ?_⟩
      · rw [List.filterMap_append, hn, turns_succ]
        simp [succeeded_made, heven]
      · have hodd : (n + 1) % 2 = 1 := by omega
        rw [hentries, find, List.find?_append]
        simp [hodd]
    · refine ⟨n, ?_, ?_⟩
      · rw [List.filterMap_append, hn]
        simp [succeeded_made, ha]
      · rw [hentries, find_append_of_ne ha, List.append_nil]
        exact hlive
  · rw [hentries] at he'
    rcases List.mem_append.mp he' with he' | he'
    · obtain ⟨before, after, hlog, hafter⟩ := h.last e' he'
      have hne : e.patchedAddr ≠ e'.patchedAddr := fun hsame =>
        find_eq_none_iff.mp hfind (hsame ▸ List.mem_map_of_mem he')
      refine ⟨before, after ++ [e.made], ?_, ?_⟩
      · rw [hlog, List.append_assoc, List.cons_append]
      · rw [List.filterMap_append, hafter]
        simp [succeeded_made, hne]
    · obtain rfl := List.mem_singleton.mp he'
      exact ⟨log, [], rfl, rfl⟩

theorem Answered.destroy (h : Answered p log) (address : Address) :
    Answered (dobbyDestroy p address).1 (log ++ [(.destroy address, (dobbyDestroy p address).2)]) := by
  rw [dobbyDestroy]
  split
  · next e hfind =>
    obtain ⟨l, r, hsplit, rfl, hrem⟩ := find_eq_some hfind
    have hother := distinct_middle (hsplit ▸ h.distinct)
    refine ⟨distinct_remove h.distinct, fun a => ?_, fun e' he' => ?_⟩
    · obtain ⟨n, hn, hlive⟩ := h.turn a
      by_cases ha : e.patchedAddr = a
      · subst ha
        have hodd : n % 2 = 1 := hlive.mp (by simp [hfind])
        refine ⟨n + 1, ?_, ?_⟩
        · rw [List.filterMap_append, hn, turns_succ]
          simp [succeeded, hodd]
        · have heven : ¬ (n + 1) % 2 = 1 := by omega
          simp only [heven, iff_false, Bool.not_eq_true, Option.isSome_eq_false_iff,
            Option.isNone_iff_eq_none]
          rw [hrem, find_eq_none_iff]
          intro hmem
          obtain ⟨e', he', hsame⟩ := List.mem_map.mp hmem
          exact hother e' he' hsame
      · refine ⟨n, ?_, ?_⟩
        · rw [List.filterMap_append, hn]
          simp [succeeded, ha]
        · simp only [hrem]
          rw [← find_append_of_ne (e := e) ha, ← hsplit]
          exact hlive
    · simp only [hrem] at he'
      have hmem : e' ∈ p.entries := by
        rw [hsplit]
        simp only [List.mem_append, List.mem_cons] at he' ⊢
        tauto
      obtain ⟨before, after, hlog, hafter⟩ := h.last e' hmem
      have hne := (hother e' he').symm
      refine ⟨before, after ++ [(.destroy e.patchedAddr, ⟨0, none⟩)], ?_, ?_⟩
      · rw [hlog, List.append_assoc, List.cons_append]
      · rw [List.filterMap_append, hafter]
        simp [succeeded, hne]
  · exact h.refused rfl

theorem Answered.step {c : Call} {es : List (Call × Returned)} (h : Answered p log)
    (hstep : call os p c = some (p', es)) : Answered p' (log ++ es) := by
  cases c with
  | hook address replaceFunc =>
    obtain ⟨⟨p₁, ret⟩, hhook, he⟩ := Option.map_eq_some_iff.mp hstep
    cases he
    rcases dobbyHook_cases hhook with ⟨rfl, rfl⟩ | ⟨hfind, e, hi, rfl⟩
    · exact h.refused rfl
    · obtain ⟨hentries, rfl, rfl, hnone⟩ := install_eq_some hi
      have hmade : e.made = (.hook e.patchedAddr e.routing.trampolineTarget,
          ⟨0, some e.relocatedAddr⟩) := by rw [InterceptEntry.made, hnone]
      exact hmade ▸ h.add hfind hentries
  | instrument address preHandler =>
    obtain ⟨⟨p₁, ret⟩, hcall, he⟩ := Option.map_eq_some_iff.mp hstep
    cases he
    rcases dobbyInstrument_cases hcall with ⟨rfl, rfl⟩ | ⟨hfind, closure, p₂, e, hcreate, hi, rfl⟩
    · exact h.refused rfl
    · obtain ⟨hentries, rfl, -, hsome⟩ := install_eq_some hi
      rw [createClosureTrampoline_entries hcreate] at hentries
      have hmade : e.made = (.instrument e.patchedAddr preHandler, ⟨0, none⟩) := by
        rw [InterceptEntry.made, hsome]
      exact hmade ▸ h.add hfind hentries
  | destroy address =>
    cases hstep
    exact h.destroy address
  | enableNearBranchTrampoline =>
    cases hstep
    rw [List.append_nil]
    exact ⟨h.distinct, h.turn, h.last⟩
  | disableNearBranchTrampoline =>
    cases hstep
    rw [List.append_nil]
    exact ⟨h.distinct, h.turn, h.last⟩

/-- **Hooks and destroys of an address take turns**, as far as they succeed, and begin with a
hook or an instrument; the address has an entry after an odd number of them.  The entry is
of the last call about it that succeeded. -/
theorem hooks_alternate (h : interceptor.Run (.start bytes handler) as log p) :
    (p.entries.map InterceptEntry.patchedAddr).Nodup ∧
      (∀ address, ∃ n, log.filterMap (succeeded address) = turns n ∧
        ((find p.entries address).isSome = true ↔ n % 2 = 1)) ∧
      ∀ e ∈ p.entries, ∃ before after, log = before ++ e.made :: after ∧
        after.filterMap (succeeded e.patchedAddr) = [] := by
  have hstart : Answered (.start bytes handler) [] :=
    ⟨.nil, fun _ => ⟨0, rfl, by simp [Process.start, find]⟩, by simp [Process.start]⟩
  have hall := h.invariant Answered hstart fun t log a u es ht hstep => ht.step hstep
  exact ⟨hall.distinct, hall.turn, hall.last⟩

theorem hooks_alternate_quiet : ∃ n, quietLogTwice.filterMap (succeeded 0x10000#64) = turns n ∧
    ((find quietTwice.entries 0x10000#64).isSome = true ↔ n % 2 = 1) :=
  (hooks_alternate quietTwice_run).2.1 0x10000#64

end JniDegger.Dobby
