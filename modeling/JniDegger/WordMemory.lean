import JniDegger.A64
import Mathlib.Data.Set.Lattice
import Mathlib.Order.CompletePartialOrder

/-!
# Words in memory

Code is written to memory and read back in whole words, at any address.  A write is not
seen outside its span (`storeWords_frame`), and the words read there before, stored over
any memory, are the bytes that were there (`storeWords_loadWords`).
-/

namespace JniDegger.A64

variable {mem mem' : Address → BitVec 8} {a b : Address} {n m : Nat} {ws vs : List Word}

/-- The `n` bytes at `a`; they may go around the end of memory. -/
def Span (a : Address) (n : Nat) : Set Address := {x | (x - a).toNat < n}

theorem mem_span {x : Address} : x ∈ Span a n ↔ (x - a).toNat < n := Iff.rfl

/-- The words stored at `a`, low byte first. -/
def storeWords (mem : Address → BitVec 8) (a : Address) (ws : List Word) : Address → BitVec 8 :=
  fun x => match ws[(x - a).toNat / 4]? with
    | some w => w.extractLsb' (8 * ((x - a).toNat % 4)) 8
    | none => mem x

/-- `n` words at `a`. -/
def loadWords (mem : Address → BitVec 8) (a : Address) (n : Nat) : List Word :=
  (List.range n).map fun p => read32 mem (wordAt a p)

@[simp] theorem length_loadWords (mem : Address → BitVec 8) (a : Address) (n : Nat) :
    (loadWords mem a n).length = n := by
  simp [loadWords]

/-! ## Spans -/

theorem span_mono (h : n ≤ m) : Span a n ⊆ Span a m := fun _ hx => Nat.lt_of_lt_of_le hx h

theorem toNat_add_sub {j : Nat} (hj : j < 2 ^ 64) : (a + BitVec.ofNat 64 j - a).toNat = j := by
  have hcancel : a + BitVec.ofNat 64 j - a = BitVec.ofNat 64 j := by
    rw [BitVec.add_comm, BitVec.add_sub_cancel]
  rw [hcancel, BitVec.toNat_ofNat, Nat.mod_eq_of_lt hj]

theorem mem_span_iff (h : a.toNat + n ≤ 2 ^ 64) {x : Address} :
    x ∈ Span a n ↔ a.toNat ≤ x.toNat ∧ x.toNat < a.toNat + n := by
  rw [mem_span, BitVec.toNat_sub]
  have hx := x.isLt
  have ha := a.isLt
  omega

theorem span_subset (hb : b.toNat + m ≤ 2 ^ 64) (hle : b.toNat ≤ a.toNat)
    (hend : a.toNat + n ≤ b.toNat + m) : Span a n ⊆ Span b m := by
  intro x hx
  rw [mem_span_iff (by omega)] at hx
  rw [mem_span_iff hb]
  omega

theorem disjoint_span (ha : a.toNat + n ≤ b.toNat) (hb : b.toNat + m ≤ 2 ^ 64) :
    Disjoint (Span a n) (Span b m) := by
  rw [Set.disjoint_left]
  intro x hx hx'
  rw [mem_span_iff (by omega)] at hx
  rw [mem_span_iff hb] at hx'
  omega

/-! ## Bytes of words -/

theorem read32_congr (h : ∀ x ∈ Span a 4, mem' x = mem x) : read32 mem' a = read32 mem a := by
  have hbyte : ∀ j < 4, mem' (a + BitVec.ofNat 64 j) = mem (a + BitVec.ofNat 64 j) := fun j hj =>
    h _ (by rw [mem_span, toNat_add_sub (by omega)]; exact hj)
  have h0 := hbyte 0 (by omega)
  rw [show a + BitVec.ofNat 64 0 = a by simp] at h0
  rw [read32, read32, h0, hbyte 1 (by omega), hbyte 2 (by omega), hbyte 3 (by omega)]

theorem span_word {p : Nat} (hp : p < n) (hn : 4 * n ≤ 2 ^ 64) :
    Span (wordAt a p) 4 ⊆ Span a (4 * n) := by
  intro x hx
  rw [mem_span] at hx ⊢
  have hsum : x - a = x - wordAt a p + BitVec.ofNat 64 (4 * p) := by
    rw [wordAt, ← BitVec.sub_sub, BitVec.sub_add_cancel]
  rw [hsum, BitVec.toNat_add, BitVec.toNat_ofNat]
  omega

theorem bytes_of_word (w : Word) :
    w.extractLsb' (8 * 3) 8 ++ w.extractLsb' (8 * 2) 8 ++ w.extractLsb' (8 * 1) 8 ++
      w.extractLsb' (8 * 0) 8 = w := by
  apply BitVec.eq_of_getLsbD_eq
  intro i hi
  simp only [BitVec.getLsbD_append, BitVec.getLsbD_extractLsb']
  interval_cases i <;> simp

theorem halves (v : BitVec 64) : (v >>> 32).setWidth 32 ++ v.setWidth 32 = v := by
  apply BitVec.eq_of_getLsbD_eq
  intro i hi
  rw [BitVec.getLsbD_append, BitVec.getLsbD_setWidth, BitVec.getLsbD_setWidth,
    BitVec.getLsbD_ushiftRight]
  by_cases h32 : i < 32
  · simp [h32]
  · have hlt : i - 32 < 32 := by omega
    have hi' : 32 + (i - 32) = i := by omega
    simp [h32, hlt, hi']

theorem byte_of_read32 (mem : Address → BitVec 8) (a : Address) {j : Nat} (hj : j < 4) :
    (read32 mem a).extractLsb' (8 * j) 8 = mem (a + BitVec.ofNat 64 j) := by
  rw [read32]
  apply BitVec.eq_of_getLsbD_eq
  intro i hi
  simp only [BitVec.getLsbD_append, BitVec.getLsbD_extractLsb']
  interval_cases j <;> interval_cases i <;> simp

/-! ## Storing and loading -/

theorem storeWords_frame {x : Address} (h : x ∉ Span a (4 * ws.length)) :
    storeWords mem a ws x = mem x := by
  rw [mem_span, Nat.not_lt] at h
  rw [storeWords, List.getElem?_eq_none (by omega)]

theorem read32_storeWords {p : Nat} {w : Word} (h : ws[p]? = some w) (hlen : 4 * ws.length ≤ 2 ^ 64) :
    read32 (storeWords mem a ws) (wordAt a p) = w := by
  have hp := (List.getElem?_eq_some_iff.mp h).1
  have hbyte : ∀ j < 4, storeWords mem a ws (wordAt a p + BitVec.ofNat 64 j) =
      w.extractLsb' (8 * j) 8 := by
    intro j hj
    have hoff : (wordAt a p + BitVec.ofNat 64 j - a).toNat = 4 * p + j := by
      rw [wordAt, BitVec.add_assoc, ← BitVec.ofNat_add, toNat_add_sub (by omega)]
    have hdiv : (4 * p + j) / 4 = p := by omega
    have hmod : (4 * p + j) % 4 = j := by omega
    simp only [storeWords, hoff, hdiv, hmod, h]
  have h0 := hbyte 0 (by omega)
  rw [show wordAt a p + BitVec.ofNat 64 0 = wordAt a p by simp] at h0
  rw [read32, h0, hbyte 1 (by omega), hbyte 2 (by omega), hbyte 3 (by omega), bytes_of_word]

theorem holds_storeWords (mem : Address → BitVec 8) (a : Address) (hlen : 4 * ws.length ≤ 2 ^ 64) :
    Holds (storeWords mem a ws) a ws := fun _ _ h => read32_storeWords h hlen

theorem Holds.congr (h : Holds mem a ws) (hlen : 4 * ws.length ≤ 2 ^ 64)
    (hsame : ∀ x ∈ Span a (4 * ws.length), mem' x = mem x) : Holds mem' a ws := by
  intro p w hw
  have hp := (List.getElem?_eq_some_iff.mp hw).1
  rw [read32_congr fun x hx => hsame x (span_word hp hlen hx), h p w hw]

theorem loadWords_congr (hn : 4 * n ≤ 2 ^ 64) (h : ∀ x ∈ Span a (4 * n), mem' x = mem x) :
    loadWords mem' a n = loadWords mem a n :=
  List.map_congr_left fun _ hp =>
    read32_congr fun x hx => h x (span_word (List.mem_range.mp hp) hn hx)

/-- What is stored does not depend on what was there. -/
theorem storeWords_of_mem {x : Address} (hx : x ∈ Span a (4 * ws.length)) :
    storeWords mem a ws x = storeWords mem' a ws x := by
  rw [mem_span] at hx
  have hlt : (x - a).toNat / 4 < ws.length := by omega
  simp only [storeWords, List.getElem?_eq_getElem hlt]

theorem loadWords_storeWords (mem : Address → BitVec 8) (a : Address) (h : 4 * ws.length ≤ 2 ^ 64) :
    loadWords (storeWords mem a ws) a ws.length = ws := by
  apply List.ext_getElem (length_loadWords _ _ _)
  intro p hp hp'
  simp only [loadWords, List.getElem_map, List.getElem_range]
  exact read32_storeWords (List.getElem?_eq_getElem hp') h

/-- The words that were read, put into another memory. -/
theorem storeWords_loadWords {x : Address} (hx : x ∈ Span a (4 * n)) :
    storeWords mem' a (loadWords mem a n) x = mem x := by
  rw [mem_span] at hx
  have hget : (loadWords mem a n)[(x - a).toNat / 4]? =
      some (read32 mem (wordAt a ((x - a).toNat / 4))) := by
    rw [loadWords, List.getElem?_map, List.getElem?_range (by omega)]
    rfl
  have hplace : wordAt a ((x - a).toNat / 4) + BitVec.ofNat 64 ((x - a).toNat % 4) = x := by
    rw [wordAt, BitVec.add_assoc, ← BitVec.ofNat_add, Nat.div_add_mod, BitVec.ofNat_toNat,
      BitVec.setWidth_eq, BitVec.add_comm, BitVec.sub_add_cancel]
  rw [storeWords, hget]
  simp only
  rw [byte_of_read32 mem _ (Nat.mod_lt _ (by omega)), hplace]

end JniDegger.A64
