import Mathlib.Data.List.DropRight
import Mathlib.Data.List.Induction

/-!
# Java strings

A Java string is a list of UTF-16 code units.  The library methods below follow
their documentation; `none` stands for a `NumberFormatException`.  Proved here:

* `trim_pad`: trimming undoes padding with characters up to U+0020;
* `splitComma_join`, `splitComma_join_comma`: splitting undoes joining with
  commas, with or without one more comma at the end;
* `splitComma_eq`: the pieces are those of the string without its trailing commas,
  and a string of commas alone has none;
* `compareToIgnoreCase_eq_zero_iff`: the order ignoring case and the equality
  ignoring case agree, whatever the case maps are;
* `parseInt_intText`, `byteValueOf_intText`: reading undoes writing in decimal.
-/

namespace JniDegger.JavaText

abbrev JString := List UInt16

/-- The code unit of an ASCII character. -/
def unit (c : Char) : UInt16 := UInt16.ofNat c.toNat

/-- An ASCII string literal. -/
def lit (s : String) : JString := s.toList.map unit

def comma : UInt16 := unit ','

def minus : UInt16 := unit '-'

def plus : UInt16 := unit '+'

/-! ## Trimming and splitting -/

/-- What `String.trim` removes at both ends. -/
def isSpace (c : UInt16) : Bool := c ≤ 0x20

def trim (s : JString) : JString := (s.dropWhile isSpace).rdropWhile isSpace

/-- `s.split(",")`: the string itself when there is no comma, and otherwise the
pieces less the empty ones at the end. -/
def splitComma (s : JString) : List JString :=
  if comma ∈ s then (s.splitOn comma).rdropWhile List.isEmpty else [s]

/-- `s.indexOf(t)`: where `t` begins in `s` for the first time, or `-1`. -/
def indexOf : JString → JString → Int
  | [], t => if t = [] then 0 else -1
  | c :: cs, t =>
    if t.isPrefixOf (c :: cs) then 0
    else if indexOf cs t < 0 then -1 else indexOf cs t + 1

/-- The pieces with a comma between every two. -/
def join (pieces : List JString) : JString := [comma].intercalate pieces

theorem trim_pad {front s back : JString} (hf : ∀ c ∈ front, isSpace c = true)
    (hb : ∀ c ∈ back, isSpace c = true) (hs : ∀ c ∈ s, isSpace c = false) :
    trim (front ++ s ++ back) = s := by
  have hdrop : ∀ t : JString, (∀ c ∈ t, isSpace c = false) → t.dropWhile isSpace = t := by
    intro t ht
    cases t with
    | nil => rfl
    | cons c cs => simp [ht c List.mem_cons_self]
  have hfront : (front ++ s ++ back).dropWhile isSpace = (s ++ back).dropWhile isSpace := by
    rw [List.append_assoc, List.dropWhile_append_of_pos hf]
  have hback : (s ++ back).rdropWhile isSpace = s := by
    rw [List.rdropWhile, List.reverse_append,
      List.dropWhile_append_of_pos fun c hc => hb c (List.mem_reverse.mp hc),
      hdrop _ fun c hc => hs c (List.mem_reverse.mp hc), List.reverse_reverse]
  rw [trim, hfront]
  cases s with
  | nil =>
    have hnil : back.dropWhile isSpace = [] := List.dropWhile_eq_nil_iff.mpr hb
    simp [hnil]
  | cons c cs =>
    have hc := hs c List.mem_cons_self
    rw [List.cons_append, List.dropWhile_cons_of_neg (by simp [hc])]
    exact hback

/-- A loop that writes a comma after every piece, and the last piece after it. -/
theorem join_concat (pieces : List JString) (p : JString) :
    join (pieces ++ [p]) = pieces.flatMap (fun q => q ++ [comma]) ++ p := by
  induction pieces with
  | nil => simp [join]
  | cons q qs ih =>
    rw [join] at ih
    cases qs with
    | nil => simp [join]
    | cons r rs =>
      rw [List.cons_append] at ih
      rw [join, List.cons_append, List.cons_append, List.intercalate_cons_cons, ih,
        List.flatMap_cons]
      simp

theorem join_concat_nil {pieces : List JString} (hne : pieces ≠ []) :
    join (pieces ++ [[]]) = join pieces ++ [comma] := by
  induction pieces using List.reverseRecOn with
  | nil => exact absurd rfl hne
  | append_singleton qs q _ =>
    rw [join_concat, join_concat]
    simp

theorem rdropWhile_isEmpty {pieces : List JString} (hp : ∀ p ∈ pieces, p ≠ []) :
    pieces.rdropWhile List.isEmpty = pieces := by
  rw [List.rdropWhile_eq_self_iff]
  intro hne hlast
  exact hp _ (List.getLast_mem hne) (List.isEmpty_iff.mp hlast)

section Split

variable {pieces : List JString} (hne : pieces ≠ []) (hp : ∀ p ∈ pieces, p ≠ [])
  (hcomma : ∀ p ∈ pieces, comma ∉ p)
include hne hp hcomma

/-- **Splitting undoes joining.** -/
theorem splitComma_join : splitComma (join pieces) = pieces := by
  have hsplit : (join pieces).splitOn comma = pieces := List.splitOn_intercalate comma hcomma hne
  rw [splitComma]
  split
  · rw [hsplit, rdropWhile_isEmpty hp]
  · next hnot =>
    have hself : (join pieces).splitOn comma = [join pieces] := List.splitOn_eq_singleton hnot
    rw [← hself, hsplit]

/-- One comma more at the end makes no difference. -/
theorem splitComma_join_comma : splitComma (join pieces ++ [comma]) = pieces := by
  have hsplit : (join pieces ++ [comma]).splitOn comma = pieces ++ [[]] := by
    rw [← join_concat_nil hne]
    refine List.splitOn_intercalate comma (fun p hm => ?_) (by simp)
    rcases List.mem_append.mp hm with hm | hm
    · exact hcomma p hm
    · rw [List.mem_singleton.mp hm]
      exact List.not_mem_nil
  rw [splitComma, if_pos (by simp), hsplit, List.rdropWhile_concat_pos _ _ _ rfl,
    rdropWhile_isEmpty hp]

end Split

/-! ## Commas at the end -/

/-- The string without the commas at its end. -/
def stripCommas (t : JString) : JString := t.rdropWhile (· == comma)

theorem not_mem_splitOn {t p : JString} (hp : p ∈ t.splitOn comma) : comma ∉ p := by
  induction t generalizing p with
  | nil =>
    rw [List.splitOn_nil, List.mem_singleton] at hp
    rw [hp]
    exact List.not_mem_nil
  | cons c cs ih =>
    rw [List.splitOn_cons_eq_if_modifyHead] at hp
    split at hp
    · rcases List.mem_cons.mp hp with rfl | hp
      · exact List.not_mem_nil
      · exact ih hp
    · next hc =>
      cases hcs : cs.splitOn comma with
      | nil => exact absurd hcs (List.splitOn_ne_nil _ _)
      | cons q qs =>
        rw [hcs] at hp ih
        rcases List.mem_cons.mp hp with rfl | hp
        · intro hm
          rcases List.mem_cons.mp hm with rfl | hm
          · exact hc (beq_self_eq_true _)
          · exact ih List.mem_cons_self hm
        · exact ih (List.mem_cons_of_mem q hp)

/-- The last piece of a string that does not end in a comma is not empty. -/
theorem splitOn_concat {t : JString} {c : UInt16} (hc : c ≠ comma) :
    ((t ++ [c]).splitOn comma).rdropWhile List.isEmpty = (t ++ [c]).splitOn comma := by
  rw [List.rdropWhile_eq_self_iff]
  intro hne hlast
  have hjoin : join ((t ++ [c]).splitOn comma) = t ++ [c] := List.intercalate_splitOn comma
  rw [← List.dropLast_append_getLast hne, List.isEmpty_iff.mp hlast] at hjoin
  by_cases hfront : ((t ++ [c]).splitOn comma).dropLast = []
  · rw [hfront] at hjoin
    simp [join] at hjoin
  · rw [join_concat_nil hfront] at hjoin
    exact hc (List.singleton_inj.mp (List.append_inj_right' hjoin rfl)).symm

/-- **Splitting forgets the commas at the end**, and a string of commas alone. -/
theorem rdropWhile_splitOn (t : JString) :
    (t.splitOn comma).rdropWhile List.isEmpty =
      if stripCommas t = [] then [] else (stripCommas t).splitOn comma := by
  induction t using List.reverseRecOn with
  | nil => rfl
  | append_singleton t c ih =>
    by_cases hc : c = comma
    · subst hc
      have hstrip : stripCommas (t ++ [comma]) = stripCommas t :=
        List.rdropWhile_concat_pos _ _ _ (by simp)
      rw [List.splitOn_append_cons_self, List.splitOn_nil,
        List.rdropWhile_concat_pos _ _ _ rfl, ih, hstrip]
    · have hstrip : stripCommas (t ++ [c]) = t ++ [c] :=
        List.rdropWhile_concat_neg _ _ _ (by simpa using hc)
      rw [hstrip, splitOn_concat hc, if_neg (by simp)]

/-- One comma or more, and nothing else. -/
def OnlyCommas (t : JString) : Prop := t ≠ [] ∧ ∀ c ∈ t, c = comma

theorem stripCommas_eq_nil_iff {t : JString} : stripCommas t = [] ↔ ∀ c ∈ t, c = comma := by
  rw [stripCommas, List.rdropWhile_eq_nil_iff]
  simp

theorem stripCommas_of_not_mem {t : JString} (ht : comma ∉ t) : stripCommas t = t := by
  rw [stripCommas, List.rdropWhile_eq_self_iff]
  intro hne hlast
  exact ht (beq_iff_eq.mp hlast ▸ List.getLast_mem hne)

theorem splitComma_of_onlyCommas {t : JString} (h : OnlyCommas t) : splitComma t = [] := by
  obtain ⟨c, hc⟩ := List.exists_mem_of_ne_nil t h.1
  have hmem : comma ∈ t := h.2 c hc ▸ hc
  rw [splitComma, if_pos hmem, rdropWhile_splitOn, if_pos (stripCommas_eq_nil_iff.mpr h.2)]

/-- **The pieces of a string** are those of the string without its trailing commas. -/
theorem splitComma_eq {t : JString} (h : ¬ OnlyCommas t) :
    splitComma t = (stripCommas t).splitOn comma := by
  rw [splitComma]
  split
  · next hmem =>
    have hne : t ≠ [] := List.ne_nil_of_mem hmem
    have hstrip : stripCommas t ≠ [] := fun hs => h ⟨hne, stripCommas_eq_nil_iff.mp hs⟩
    rw [rdropWhile_splitOn, if_neg hstrip]
  · next hnot => rw [stripCommas_of_not_mem hnot, List.splitOn_eq_singleton hnot]

/-! ## Comparing without case -/

/-- `Character.toUpperCase` and `Character.toLowerCase`. -/
structure CaseMaps where
  upper : UInt16 → UInt16
  lower : UInt16 → UInt16

/-- The case maps of the ASCII letters. -/
def CaseMaps.ascii : CaseMaps where
  upper c := if unit 'a' ≤ c ∧ c ≤ unit 'z' then c - 32 else c
  lower c := if unit 'A' ≤ c ∧ c ≤ unit 'Z' then c + 32 else c

namespace CaseMaps

variable (C : CaseMaps)

/-- Two code units that differ at most in case. -/
def Same (c d : UInt16) : Prop :=
  c = d ∨ C.upper c = C.upper d ∨ C.lower (C.upper c) = C.lower (C.upper d)

instance (c d : UInt16) : Decidable (C.Same c d) := by
  unfold Same
  infer_instance

/-- `String.equalsIgnoreCase`. -/
def equalsIgnoreCase : JString → JString → Bool
  | [], [] => true
  | c :: cs, d :: ds => C.Same c d && equalsIgnoreCase cs ds
  | _, _ => false

/-- `String.compareToIgnoreCase`: the difference of the first two code units that
differ in more than case, and without one the difference of the lengths. -/
def compareToIgnoreCase : JString → JString → Int
  | c :: cs, d :: ds =>
    if C.Same c d then compareToIgnoreCase cs ds
    else (C.lower (C.upper c)).toNat - (C.lower (C.upper d)).toNat
  | s, t => s.length - t.length

/-- **The two comparisons agree.** -/
theorem compareToIgnoreCase_eq_zero_iff (s t : JString) :
    C.compareToIgnoreCase s t = 0 ↔ C.equalsIgnoreCase s t = true := by
  induction s generalizing t with
  | nil =>
    cases t with
    | nil => simp [compareToIgnoreCase, equalsIgnoreCase]
    | cons d ds =>
      simp only [compareToIgnoreCase, equalsIgnoreCase, List.length_nil, List.length_cons]
      constructor
      · intro h
        omega
      · intro h
        cases h
  | cons c cs ih =>
    cases t with
    | nil =>
      simp only [compareToIgnoreCase, equalsIgnoreCase, List.length_nil, List.length_cons]
      constructor
      · intro h
        omega
      · intro h
        cases h
    | cons d ds =>
      rw [compareToIgnoreCase, equalsIgnoreCase]
      by_cases hsame : C.Same c d
      · simp [hsame, ih]
      · have hne : (C.lower (C.upper c)).toNat ≠ (C.lower (C.upper d)).toNat := fun he =>
          hsame (Or.inr (Or.inr (UInt16.toNat_inj.mp he)))
        simp only [hsame, if_false, decide_false, Bool.false_and, Bool.false_eq_true, iff_false]
        omega

end CaseMaps

/-! ## Decimal numbers -/

/-- The code units with the decimal digit value zero; the nine after each have the
values one to nine. -/
def decimalZeros : List UInt16 :=
  [0x0030, 0x0660, 0x06F0, 0x07C0, 0x0966, 0x09E6, 0x0A66, 0x0AE6, 0x0B66, 0x0BE6, 0x0C66,
    0x0CE6, 0x0D66, 0x0DE6, 0x0E50, 0x0ED0, 0x0F20, 0x1040, 0x1090, 0x17E0, 0x1810, 0x1946,
    0x19D0, 0x1A80, 0x1A90, 0x1B50, 0x1BB0, 0x1C40, 0x1C50, 0xA620, 0xA8D0, 0xA900, 0xA9D0,
    0xA9F0, 0xAA50, 0xABF0, 0xFF10]

/-- `Character.digit(c, 10)`. -/
def digit? (c : UInt16) : Option Nat :=
  (decimalZeros.find? fun z => z ≤ c ∧ c < z + 10).map fun z => c.toNat - z.toNat

/-- The value of a digit string. -/
def decimal? (s : JString) : Option Nat :=
  s.foldlM (fun n c => (digit? c).map fun d => 10 * n + d) 0

/-- The sign `parseInt` reads, and what is left of the string. -/
def signed : JString → Int × JString
  | [] => (1, [])
  | c :: cs => if c = minus then (-1, cs) else if c = plus then (1, cs) else (1, c :: cs)

/-- `Integer.MIN_VALUE`. -/
def minInt : Int := -2147483648

/-- `Integer.MAX_VALUE`. -/
def maxInt : Int := 2147483647

/-- `Integer.parseInt`. -/
def parseInt (s : JString) : Option Int :=
  if (signed s).2 = [] then none
  else (decimal? (signed s).2).bind fun n =>
    if minInt ≤ (signed s).1 * n ∧ (signed s).1 * n ≤ maxInt then some ((signed s).1 * n)
    else none

/-- `Byte.valueOf`. -/
def byteValueOf (s : JString) : Option Int8 :=
  (parseInt s).bind fun v => if -128 ≤ v ∧ v ≤ 127 then some (Int8.ofInt v) else none

/-- `Integer.toString` of a number that is not negative. -/
def natText (n : Nat) : JString := (Nat.toDigits 10 n).map unit

/-- `Integer.toString`. -/
def intText (v : Int) : JString := if v < 0 then minus :: natText v.natAbs else natText v.natAbs

theorem digit?_digitChar : ∀ d < 10, digit? (unit (Nat.digitChar d)) = some d := by decide

theorem natText_of_lt {n : Nat} (hn : n < 10) : natText n = [unit (Nat.digitChar n)] := by
  rw [natText, Nat.toDigits_of_lt_base hn]
  rfl

theorem natText_concat {n d : Nat} (hn : 0 < n) (hd : d < 10) :
    natText (10 * n + d) = natText n ++ [unit (Nat.digitChar d)] := by
  rw [natText, ← Nat.toDigits_append_toDigits (by decide) hn hd, Nat.toDigits_of_lt_base hd,
    List.map_append]
  rfl

theorem natText_ne_nil (n : Nat) : natText n ≠ [] := by
  simp [natText, Nat.toDigits_ne_nil]

/-- **Reading undoes writing**, without a sign. -/
theorem decimal?_natText (n : Nat) : decimal? (natText n) = some n := by
  induction n using Nat.base_induction 10 (by decide) with
  | single d hd =>
    rw [natText_of_lt hd]
    simp [decimal?, digit?_digitChar d hd]
  | digit n d hd hn ih =>
    rw [decimal?] at ih
    rw [natText_concat hn hd, decimal?, List.foldlM_append, ih]
    simp [digit?_digitChar d hd]

theorem mem_natText {n : Nat} {c : UInt16} (hc : c ∈ natText n) :
    ∃ d < 10, c = unit (Nat.digitChar d) := by
  induction n using Nat.base_induction 10 (by decide) with
  | single d hd =>
    rw [natText_of_lt hd] at hc
    exact ⟨d, hd, List.mem_singleton.mp hc⟩
  | digit n d hd hn ih =>
    rw [natText_concat hn hd] at hc
    rcases List.mem_append.mp hc with hc | hc
    · exact ih hc
    · exact ⟨d, hd, List.mem_singleton.mp hc⟩

theorem digitChar_plain : ∀ d < 10, unit (Nat.digitChar d) ≠ minus ∧ unit (Nat.digitChar d) ≠ plus ∧
    unit (Nat.digitChar d) ≠ comma ∧ isSpace (unit (Nat.digitChar d)) = false := by decide

theorem intText_ne_nil (v : Int) : intText v ≠ [] := by
  rw [intText]
  split
  · exact List.cons_ne_nil _ _
  · exact natText_ne_nil _

theorem mem_intText {v : Int} {c : UInt16} (hc : c ∈ intText v) :
    c ≠ comma ∧ isSpace c = false := by
  have hdigits : ∀ n, c ∈ natText n → c ≠ comma ∧ isSpace c = false := by
    intro n hm
    obtain ⟨d, hd, rfl⟩ := mem_natText hm
    exact (digitChar_plain d hd).2.2
  rw [intText] at hc
  split at hc
  · rcases List.mem_cons.mp hc with rfl | hc
    · decide
    · exact hdigits _ hc
  · exact hdigits _ hc

theorem signed_natText (n : Nat) : signed (natText n) = (1, natText n) := by
  cases ht : natText n with
  | nil => exact absurd ht (natText_ne_nil n)
  | cons c cs =>
    obtain ⟨d, hd, hc⟩ := mem_natText (ht ▸ List.mem_cons_self : c ∈ natText n)
    obtain ⟨hminus, hplus, -⟩ := digitChar_plain d hd
    rw [signed, if_neg (hc ▸ hminus), if_neg (hc ▸ hplus)]

theorem signed_intText (v : Int) :
    ∃ σ : Int, signed (intText v) = (σ, natText v.natAbs) ∧ σ * v.natAbs = v := by
  rw [intText]
  split
  · next hneg =>
    refine ⟨-1, by rw [signed, if_pos rfl], ?_⟩
    omega
  · next hpos =>
    refine ⟨1, signed_natText _, ?_⟩
    omega

/-- **Reading undoes writing**, for every `int`. -/
theorem parseInt_intText {v : Int} (hv : minInt ≤ v ∧ v ≤ maxInt) :
    parseInt (intText v) = some v := by
  obtain ⟨σ, hs, hσ⟩ := signed_intText v
  rw [parseInt, hs, if_neg (natText_ne_nil _), decimal?_natText]
  simp only [Option.bind_some, hσ]
  rw [if_pos hv]

/-- **Reading undoes writing**, for every `byte`. -/
theorem byteValueOf_intText (b : Int8) : byteValueOf (intText b.toInt) = some b := by
  have hlo := Int8.le_toInt b
  have hhi := Int8.toInt_lt b
  have hint : minInt ≤ b.toInt ∧ b.toInt ≤ maxInt := by
    rw [minInt, maxInt]
    omega
  rw [byteValueOf, parseInt_intText hint, Option.bind_some, if_pos ⟨by omega, by omega⟩,
    Int8.ofInt_toInt]

end JniDegger.JavaText
