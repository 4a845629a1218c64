import JniDegger.A64
import Mathlib.Data.List.Induction

/-!
# Dobby's A64 assembler and its literals

The instructions `TurboAssembler` can emit, the pseudo labels behind which it puts
literals, and `RelocBind`, which places the literals after the code and patches
the loads that refer to them.

`relocBind_buffer`: however the code refers to its labels, the bound buffer is the
code with each load aimed at its own literal, followed by the literals in order
(`render`).
-/

namespace JniDegger.Arm64Assembler
open A64

/-! ## Bit macros -/

def submask (x : Nat) : BitVec 64 := (1#64 <<< (x + 1)) - 1#64

def bits (obj : BitVec 64) (st fn : Nat) : BitVec 64 := (obj >>> st) &&& submask (fn - st)

def setBits (obj : Word) (st fn : Nat) (bits : BitVec 64) : Word :=
  ((~~~(submask (fn - st) <<< st) &&& obj.setWidth 64) ||| (bits <<< st)).setWidth 32

def setBit (obj : Word) (st : Nat) (bit : Word) : Word := (~~~(1#32 <<< st) &&& obj) ||| (bit <<< st)

/-- `LeftShift(a, b, c)` -/
def leftShift (a : BitVec 64) (b c : Nat) : Word := ((a &&& ((1#64 <<< b) - 1#64)) <<< c).setWidth 32

def encodeImm19Offset (instr : Word) (offset : BitVec 64) : Word :=
  setBits instr 5 23 (bits (offset.sshiftRight 2) 0 18)

/-! ## Code buffer and labels -/

/-- A pseudo label with the literal that goes there; `pos` is 0 until it is bound.  All
references are of type `kLabelImm19`. -/
structure RelocLabel where
  data : BitVec 64
  pos : Nat
  refLabelInsns : List Nat
  deriving DecidableEq

/-- The buffer holds whole words: nothing else is emitted. -/
structure Assembler where
  buffer : List Word
  dataLabels : List RelocLabel
  deriving DecidableEq

/-- `TMP_REG_0` -/
def tmpReg0 : Reg := 17#5

namespace Assembler

def new : Assembler := ⟨[], []⟩

def bufferSize (a : Assembler) : Nat := 4 * a.buffer.length

def emit (a : Assembler) (value : Word) : Assembler := { a with buffer := a.buffer ++ [value] }

def b (a : Assembler) (imm : BitVec 64) : Assembler :=
  a.emit (0x14000000 ||| (bits (imm.sshiftRight 2) 0 25).setWidth 32)

def br (a : Assembler) (rn : Reg) : Assembler := a.emit (0xD61F0000 ||| rn.setWidth 32 <<< 5)

def blr (a : Assembler) (rn : Reg) : Assembler := a.emit (0xD63F0000 ||| rn.setWidth 32 <<< 5)

/-- `ldr(rt, imm)`, through `EmitLoadRegLiteral`: the immediate goes in as it is. -/
def ldrLiteral (a : Assembler) (rt : Reg) (imm : BitVec 64) : Assembler :=
  a.emit (0x58000000 ||| leftShift imm 26 5 ||| rt.setWidth 32)

/-- `ldr(rt, MemOperand(rn, offset))`, through `LoadStore`. -/
def ldr (a : Assembler) (rt rn : Reg) (offset : BitVec 64) : Assembler :=
  a.emit (0xF9400000 ||| leftShift (offset.sshiftRight 3) 12 10 ||| rn.setWidth 32 <<< 5 |||
    rt.setWidth 32)

/-- `MoveWide`; `op` is MOVZ or MOVK. -/
def moveWide (a : Assembler) (rd : Reg) (imm : BitVec 64) (shift : Nat) (op : Word) : Assembler :=
  let shift := if 0 < shift then shift / 16 else 0
  a.emit (0x12800000 ||| op ||| 0x80000000 ||| leftShift (BitVec.ofNat 64 shift) 2 21 |||
    leftShift imm 16 5 ||| rd.setWidth 32)

def movz (a : Assembler) (rd : Reg) (imm : BitVec 64) (shift : Nat) : Assembler :=
  a.moveWide rd imm shift 0x40000000

def movk (a : Assembler) (rd : Reg) (imm : BitVec 64) (shift : Nat) : Assembler :=
  a.moveWide rd imm shift 0x60000000

/-- `Mov`: the four halfwords, lowest first. -/
def mov (a : Assembler) (rd : Reg) (imm : BitVec 64) : Assembler :=
  (((a.movz rd (imm &&& 0xffff#64) 0).movk rd (imm >>> 16 &&& 0xffff#64) 16).movk rd
    (imm >>> 32 &&& 0xffff#64) 32).movk rd (imm >>> 48) 48

def adrp (a : Assembler) (rd : Reg) (imm : BitVec 64) : Assembler :=
  let immlo := leftShift (bits (imm.sshiftRight 12) 0 1) 2 29
  let immhi := leftShift (bits (imm.sshiftRight 12) 2 20) 19 5
  a.emit (0x90000000 ||| rd.setWidth 32 ||| immlo ||| immhi)

/-- `add`, through `AddSubImmediate`. -/
def add (a : Assembler) (rd rn : Reg) (imm : BitVec 64) : Assembler :=
  a.emit (0x91000000 ||| rd.setWidth 32 ||| rn.setWidth 32 <<< 5 ||| leftShift imm 12 10)

/-- `AdrpAdd` -/
def adrpAdd (a : Assembler) (rd : Reg) (source target : Address) : Assembler :=
  let fromPage := source &&& ~~~0xFFF#64
  let toPage := target &&& ~~~0xFFF#64
  (a.adrp rd (toPage - fromPage)).add rd rd (target % 0x1000)

/-- `AppendRelocLabel(RelocLabel::withData(data))`; the label is known by its place. -/
def appendRelocLabel (a : Assembler) (data : BitVec 64) : Assembler :=
  { a with dataLabels := a.dataLabels ++ [⟨data, 0, []⟩] }

/-- `Ldr(rt, label)`: a label not yet bound is linked to. -/
def ldrLabel (a : Assembler) (rt : Reg) (label : Nat) : Assembler :=
  match a.dataLabels[label]? with
  | none => a
  | some l =>
    if l.pos ≠ 0 then
      a.ldrLiteral rt (BitVec.ofNat 64 l.pos - BitVec.ofNat 64 a.bufferSize)
    else
      let l := { l with refLabelInsns := l.refLabelInsns ++ [a.bufferSize] }
      { a with dataLabels := a.dataLabels.set label l }.ldrLiteral rt 0

/-- `LiteralLdrBranch` -/
def literalLdrBranch (a : Assembler) (address : BitVec 64) : Assembler :=
  let a := a.appendRelocLabel address
  (a.ldrLabel tmpReg0 (a.dataLabels.length - 1)).br tmpReg0

end Assembler

/-- `link_confused_instructions` -/
def linkConfusedInstructions (buffer : List Word) (l : RelocLabel) : List Word :=
  l.refLabelInsns.foldl (fun buffer ref =>
    match buffer[ref / 4]? with
    | none => buffer
    | some inst =>
      buffer.set (ref / 4) (encodeImm19Offset inst (BitVec.ofNat 64 l.pos - BitVec.ofNat 64 ref)))
    buffer

def dataWords (data : BitVec 64) : List Word := [data.setWidth 32, (data >>> 32).setWidth 32]

/-- `PseudoBind` of one label and its literal. -/
def bindLabel (a : Assembler) (l : RelocLabel) : Assembler :=
  let l := { l with pos := a.bufferSize }
  ⟨linkConfusedInstructions a.buffer l ++ dataWords l.data, a.dataLabels ++ [l]⟩

/-- `RelocBind` -/
def Assembler.relocBind (a : Assembler) : Assembler :=
  a.dataLabels.foldl bindLabel ⟨a.buffer, []⟩

/-! ## What the code refers to -/

/-- A word of code, or a load from a label. -/
inductive Item where
  | word (w : Word)
  | load (rt : Reg) (label : Nat)
  deriving DecidableEq

def loadWord (rt : Reg) : Word := 0x58000000 ||| rt.setWidth 32

def Item.blank : Item → Word
  | .word w => w
  | .load rt _ => loadWord rt

def Item.refersTo (k : Nat) : Item → Bool
  | .word _ => false
  | .load _ j => j == k

/-- The word at place `p`, aimed at its literal: there are `n` items before the literals. -/
def Item.aimed (n p : Nat) : Item → Word
  | .word w => w
  | .load rt k =>
    encodeImm19Offset (loadWord rt) (BitVec.ofNat 64 (4 * n + 8 * k) - BitVec.ofNat 64 (4 * p))

def aimedUpTo (items : List Item) (k : Nat) : List Word :=
  items.mapIdx fun p it => match it with
    | .word w => w
    | .load rt j => if j < k then (Item.load rt j).aimed items.length p else loadWord rt

/-- The code with every load aimed at its literal, and the literals. -/
def render (items : List Item) (data : List (BitVec 64)) : List Word :=
  items.mapIdx (fun p it => it.aimed items.length p) ++ data.flatMap dataWords

def places (items : List Item) (k : Nat) : List Nat :=
  (List.range items.length).filter fun p => items[p]?.any (Item.refersTo k)

def labelOf (items : List Item) (k : Nat) (data : BitVec 64) : RelocLabel :=
  ⟨data, 0, (places items k).map (4 * ·)⟩

/-- The assembler has emitted these items and has these literals to place. -/
structure Assembles (a : Assembler) (items : List Item) (data : List (BitVec 64)) : Prop where
  buffer : a.buffer = items.map Item.blank
  dataLabels : a.dataLabels = data.mapIdx (labelOf items)
  known : ∀ rt k, .load rt k ∈ items → k < data.length

theorem places_append (items : List Item) (it : Item) (k : Nat) :
    places (items ++ [it]) k =
      places items k ++ if it.refersTo k then [items.length] else [] := by
  simp only [places, List.length_append, List.length_singleton, List.range_succ,
    List.filter_append]
  congr 1
  · refine List.filter_congr fun p hp => ?_
    rw [List.getElem?_append_left (List.mem_range.mp hp)]
  · simp [List.filter_cons]

theorem mem_places {items : List Item} {k p : Nat} :
    p ∈ places items k ↔ ∃ it, items[p]? = some it ∧ it.refersTo k = true := by
  rw [places, List.mem_filter, List.mem_range, Option.any_eq_true]
  constructor
  · exact fun h => h.2
  · rintro ⟨it, hit, hk⟩
    exact ⟨(List.getElem?_eq_some_iff.mp hit).1, it, hit, hk⟩

theorem nodup_places (items : List Item) (k : Nat) : (places items k).Nodup :=
  List.nodup_range.filter _

theorem Assembles.new : Assembles .new [] [] := ⟨rfl, rfl, by simp⟩

theorem Assembles.emit {a : Assembler} {items : List Item} {data : List (BitVec 64)}
    (h : Assembles a items data) (w : Word) :
    Assembles (a.emit w) (items ++ [.word w]) data := by
  refine ⟨by simp [Assembler.emit, h.buffer, Item.blank], ?_, ?_⟩
  · have hsame : labelOf (items ++ [.word w]) = labelOf items := by
      funext k d
      rw [labelOf, labelOf, places_append]
      simp [Item.refersTo]
    rw [hsame]
    exact h.dataLabels
  · intro rt k hk
    simp only [List.mem_append, List.mem_singleton, reduceCtorEq, or_false] at hk
    exact h.known rt k hk

/-- No code refers to a label before it is appended. -/
theorem Assembles.append {a : Assembler} {items : List Item} {data : List (BitVec 64)}
    (h : Assembles a items data) (d : BitVec 64) :
    Assembles (a.appendRelocLabel d) items (data ++ [d]) := by
  have hnone : places items data.length = [] := by
    rw [List.eq_nil_iff_forall_not_mem]
    intro p hp
    obtain ⟨it, hit, hk⟩ := mem_places.mp hp
    cases it with
    | word w => cases hk
    | load rt k =>
      have := h.known rt k (List.mem_of_getElem? hit)
      simp only [Item.refersTo, beq_iff_eq] at hk
      omega
  refine ⟨h.buffer, ?_, fun rt k hk => ?_⟩
  · simp only [Assembler.appendRelocLabel, h.dataLabels]
    rw [List.mapIdx_append]
    simp [labelOf, hnone]
  · rw [List.length_append]
    exact Nat.lt_of_lt_of_le (h.known rt k hk) (Nat.le_add_right _ _)

/-- A load from a label that is not bound yet is linked to it. -/
theorem Assembles.ldrLabel {a : Assembler} {items : List Item} {data : List (BitVec 64)}
    (h : Assembles a items data) (rt : Reg) {k : Nat} (hk : k < data.length) :
    Assembles (a.ldrLabel rt k) (items ++ [.load rt k]) data := by
  have hget : a.dataLabels[k]? = some (labelOf items k data[k]) := by
    rw [h.dataLabels, List.getElem?_mapIdx, List.getElem?_eq_getElem hk]
    rfl
  have hsize : a.bufferSize = 4 * items.length := by
    rw [Assembler.bufferSize, h.buffer, List.length_map]
  rw [Assembler.ldrLabel, hget]
  simp only [labelOf, ne_eq, not_true_eq_false, if_false]
  refine ⟨?_, ?_, fun rt' j hj => ?_⟩
  · have hzero : leftShift 0#64 26 5 = 0#32 := by decide
    simp [Assembler.ldrLiteral, Assembler.emit, h.buffer, Item.blank, loadWord, hzero]
  · apply List.ext_getElem?
    intro j
    simp only [Assembler.ldrLiteral, Assembler.emit, h.dataLabels, List.getElem?_set,
      List.getElem?_mapIdx, List.length_mapIdx]
    split
    · next hkj =>
      subst hkj
      simp [hk, labelOf, places_append, Item.refersTo, hsize]
    · next hkj =>
      cases data[j]? with
      | none => rfl
      | some d =>
        have hne : (k == j) = false := by simpa using hkj
        simp [labelOf, places_append, Item.refersTo, hne]
  · simp only [List.mem_append, List.mem_singleton, Item.load.injEq] at hj
    rcases hj with hj | ⟨-, rfl⟩
    · exact h.known rt' j hj
    · exact hk

/-! ## Binding -/

/-- Patching the places one after the other patches each of them once. -/
theorem getElem?_foldl_patch (f : Nat → Word → Word) (ps : List Nat) (hnodup : ps.Nodup)
    (buffer : List Word) (p : Nat) :
    (ps.foldl (fun buffer q => match buffer[q]? with
      | none => buffer
      | some inst => buffer.set q (f q inst)) buffer)[p]? =
      if p ∈ ps then buffer[p]?.map (f p) else buffer[p]? := by
  induction ps generalizing buffer with
  | nil => simp
  | cons q ps ih =>
    obtain ⟨hq, hps⟩ := List.nodup_cons.mp hnodup
    have hset : (match buffer[q]? with
        | none => buffer
        | some inst => buffer.set q (f q inst))[p]? =
        if p = q then buffer[p]?.map (f p) else buffer[p]? := by
      split
      · next hnone =>
        split
        · next he => rw [he, hnone]; rfl
        · rfl
      · next inst hinst =>
        rw [List.getElem?_set]
        split
        · next he =>
          obtain ⟨hlt, rfl⟩ := List.getElem?_eq_some_iff.mp hinst
          subst he
          simp [hlt]
        · next hne => rw [if_neg fun he => hne he.symm]
    rw [List.foldl_cons, ih hps, hset]
    by_cases hpq : p = q
    · subst hpq
      simp [hq]
    · simp [hpq]

theorem length_aimedUpTo (items : List Item) (k : Nat) :
    (aimedUpTo items k).length = items.length := by
  simp [aimedUpTo]

theorem getElem?_aimedUpTo (items : List Item) (k p : Nat) :
    (aimedUpTo items k)[p]? = items[p]?.map fun it => match it with
      | .word w => w
      | .load rt j => if j < k then (Item.load rt j).aimed items.length p else loadWord rt := by
  rw [aimedUpTo, List.getElem?_mapIdx]

theorem length_literals (data : List (BitVec 64)) :
    (data.flatMap dataWords).length = 2 * data.length := by
  induction data with
  | nil => rfl
  | cons d data ih =>
    rw [List.flatMap_cons, List.length_append, ih, List.length_cons]
    simp only [dataWords, List.length_cons, List.length_nil]
    omega

/-- **Binding label `k` aims the loads from it**, when the literals before it are placed. -/
theorem link_aimedUpTo (items : List Item) (data : List (BitVec 64)) (d : BitVec 64) :
    linkConfusedInstructions (aimedUpTo items data.length ++ data.flatMap dataWords)
      { labelOf items data.length d with
        pos := 4 * (aimedUpTo items data.length ++ data.flatMap dataWords).length } =
      aimedUpTo items (data.length + 1) ++ data.flatMap dataWords := by
  apply List.ext_getElem?
  intro p
  have hlen : (aimedUpTo items data.length ++ data.flatMap dataWords).length =
      items.length + 2 * data.length := by
    rw [List.length_append, length_aimedUpTo, length_literals]
  have hfold := getElem?_foldl_patch (fun q inst => encodeImm19Offset inst
    (BitVec.ofNat 64 (4 * (items.length + 2 * data.length)) - BitVec.ofNat 64 (4 * q)))
    (places items data.length) (nodup_places items _)
    (aimedUpTo items data.length ++ data.flatMap dataWords) p
  have hsame : linkConfusedInstructions (aimedUpTo items data.length ++ data.flatMap dataWords)
      { labelOf items data.length d with
        pos := 4 * (aimedUpTo items data.length ++ data.flatMap dataWords).length } =
      (places items data.length).foldl (fun buffer q => match buffer[q]? with
        | none => buffer
        | some inst => buffer.set q (encodeImm19Offset inst
          (BitVec.ofNat 64 (4 * (items.length + 2 * data.length)) - BitVec.ofNat 64 (4 * q))))
        (aimedUpTo items data.length ++ data.flatMap dataWords) := by
    simp only [linkConfusedInstructions, labelOf, List.foldl_map, hlen,
      Nat.mul_div_cancel_left _ (show 0 < 4 by decide)]
  rw [hsame, hfold]
  by_cases hp : p < items.length
  · rw [List.getElem?_append_left (by rwa [length_aimedUpTo]),
      List.getElem?_append_left (by rwa [length_aimedUpTo]), getElem?_aimedUpTo,
      getElem?_aimedUpTo, List.getElem?_eq_getElem hp]
    have hplaces : p ∈ places items data.length ↔ items[p].refersTo data.length = true := by
      rw [mem_places, List.getElem?_eq_getElem hp]
      simp
    cases hit : items[p] with
    | word w =>
      rw [hit] at hplaces
      simp [hplaces, Item.refersTo]
    | load rt j =>
      rw [hit] at hplaces
      simp only [Item.refersTo, beq_iff_eq] at hplaces
      by_cases hj : j = data.length
      · subst hj
        rw [if_pos (hplaces.mpr rfl)]
        have : 4 * (items.length + 2 * data.length) = 4 * items.length + 8 * data.length := by omega
        simp [Item.aimed, this]
      · rw [if_neg fun h => hj (hplaces.mp h)]
        have hlt : j < data.length + 1 ↔ j < data.length := by omega
        simp only [Option.map_some, hlt]
  · have hnot : p ∉ places items data.length := fun hmem => by
      obtain ⟨it, hit, -⟩ := mem_places.mp hmem
      exact hp (List.getElem?_eq_some_iff.mp hit).1
    rw [if_neg hnot, List.getElem?_append_right (by rw [length_aimedUpTo]; omega),
      List.getElem?_append_right (by rw [length_aimedUpTo]; omega), length_aimedUpTo,
      length_aimedUpTo]

/-- The buffer after the labels of these literals have been bound. -/
theorem foldl_bindLabel (items : List Item) (data : List (BitVec 64)) :
    ((data.mapIdx (labelOf items)).foldl bindLabel ⟨items.map Item.blank, []⟩).buffer =
      aimedUpTo items data.length ++ data.flatMap dataWords := by
  induction data using List.reverseRecOn with
  | nil =>
    have hblank : items.map Item.blank = aimedUpTo items 0 := by
      apply List.ext_getElem?
      intro p
      rw [getElem?_aimedUpTo, List.getElem?_map]
      cases items[p]? with
      | none => rfl
      | some it => cases it <;> simp [Item.blank]
    simpa using hblank
  | append_singleton data d ih =>
    rw [List.mapIdx_append, List.foldl_append]
    simp only [List.mapIdx_cons, List.mapIdx_nil, List.foldl_cons, List.foldl_nil, Nat.zero_add,
      List.length_append, List.length_singleton, List.flatMap_append, List.flatMap_cons,
      List.flatMap_nil, List.append_nil]
    rw [bindLabel]
    simp only [Assembler.bufferSize, ih]
    rw [link_aimedUpTo, List.append_assoc]
    rfl

/-- **Every load reaches its own literal.** -/
theorem relocBind_buffer {a : Assembler} {items : List Item} {data : List (BitVec 64)}
    (h : Assembles a items data) : a.relocBind.buffer = render items data := by
  have haimed : aimedUpTo items data.length =
      items.mapIdx fun p it => it.aimed items.length p := by
    apply List.ext_getElem?
    intro p
    rw [getElem?_aimedUpTo, List.getElem?_mapIdx]
    cases hit : items[p]? with
    | none => rfl
    | some it =>
      cases it with
      | word w => rfl
      | load rt k =>
        have := h.known rt k (List.mem_of_getElem? hit)
        simp [this]
  rw [Assembler.relocBind, h.dataLabels, h.buffer, foldl_bindLabel, haimed, render]

end JniDegger.Arm64Assembler
