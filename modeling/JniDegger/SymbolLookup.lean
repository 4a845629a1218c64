import JniDegger.SymbolResolver
import JniDegger.WordMemory
import Mathlib.Data.List.Forall2
import Mathlib.Data.List.Induction

/-!
# Where a symbol is found

What the resolver reads from a mapped file is compared with the file itself
(`ElfFile`): its segments, its sections and the symbols of its two tables.

Proved here:

* `symbol_at_bias`: what is found in a module is the address the symbol has in
  the process, wherever the file has been mapped to be read;
* `resolver_order`: over every run of lookups, which modules are searched, and in which
  order: those of all earlier readings come before those of the present one.
-/

namespace JniDegger.Dobby
open A64 Interleaving

variable {mem : Address → BitVec 8} {a ehdr : Address} {s t name : Text}

/-! ## Strings -/

/-- A string is at the address. -/
def CString (mem : Address → BitVec 8) (a : Address) : Text → Prop
  | [] => mem a = 0
  | c :: s => mem a = c ∧ c ≠ 0 ∧ CString mem (a + 1) s

instance CString.decidable : ∀ (a : Address) (s : Text), Decidable (CString mem a s)
  | a, [] => inferInstanceAs (Decidable (mem a = 0))
  | a, c :: s =>
    have := CString.decidable (a + 1) s
    inferInstanceAs (Decidable (mem a = c ∧ c ≠ 0 ∧ CString mem (a + 1) s))

theorem strcmpEq_iff (h : CString mem a s) (ht : 0 ∉ t) : strcmpEq mem a t = true ↔ t = s := by
  induction t generalizing a s with
  | nil =>
    cases s with
    | nil =>
      have hzero : mem a = 0 := h
      simp [strcmpEq, hzero]
    | cons c s =>
      obtain ⟨hfirst, hc, -⟩ := h
      simp only [strcmpEq, hfirst, beq_iff_eq, hc, reduceCtorEq]
  | cons d t ih =>
    have hd : d ≠ 0 := fun he => ht (he ▸ List.mem_cons_self)
    cases s with
    | nil =>
      have hzero : mem a = 0 := h
      simp only [strcmpEq, hzero, Bool.and_eq_true, beq_iff_eq, hd.symm, false_and, reduceCtorEq]
    | cons c s =>
      obtain ⟨hfirst, -, hrest⟩ := h
      have htail := ih hrest fun hmem => ht (List.mem_cons_of_mem d hmem)
      rw [strcmpEq, hfirst, Bool.and_eq_true, htail, beq_iff_eq, List.cons.injEq, eq_comm]

/-! ## Files -/

structure Section where
  name : Text
  type : BitVec 32
  offset : BitVec 64
  size : BitVec 64

structure ElfFile where
  phoff : BitVec 64
  segments : List ProgramHeader
  sections : List Section

/-- The header describes the section. -/
structure Describes (mem : Address → BitVec 8) (names : Address) (h : SectionHeader) (s : Section) :
    Prop where
  type : h.type = s.type
  offset : h.offset = s.offset
  size : h.size = s.size
  name : CString mem (names + h.name.setWidth 64) s.name

/-- The file is in memory. -/
structure ElfAt (mem : Address → BitVec 8) (ehdr : Address) (f : ElfFile) : Prop where
  phoff : read64 mem (ehdr + 32) = f.phoff
  segments : programHeaders mem ehdr = f.segments
  sections : List.Forall₂ (Describes mem (sectionNames mem ehdr)) (sectionHeaders mem ehdr)
    f.sections

def Section.IsSymtab (s : Section) : Prop := s.type = shtSymtab

def Section.IsDynsym (s : Section) : Prop := s.type = shtDynsym

def Section.IsStrtab (s : Section) : Prop := s.type = shtStrtab ∧ s.name = strtabName

def Section.IsDynstr (s : Section) : Prop := s.type = shtStrtab ∧ s.name = dynstrName

instance : DecidablePred Section.IsSymtab := fun s => inferInstanceAs (Decidable (s.type = _))

instance : DecidablePred Section.IsDynsym := fun s => inferInstanceAs (Decidable (s.type = _))

instance : DecidablePred Section.IsStrtab := fun s =>
  inferInstanceAs (Decidable (s.type = _ ∧ s.name = _))

instance : DecidablePred Section.IsDynstr := fun s =>
  inferInstanceAs (Decidable (s.type = _ ∧ s.name = _))

def lastOf (P : Section → Prop) [DecidablePred P] (sections : List Section) : Option Section :=
  sections.reverse.find? fun s => P s

theorem lastOf_concat (P : Section → Prop) [DecidablePred P] (l : List Section) (s : Section) :
    lastOf P (l ++ [s]) = if P s then some s else lastOf P l := by
  by_cases h : P s <;> simp [lastOf, h]

/-! ## What is read of a file -/

/-- Where a section is, and 0 for none. -/
def addressOf (ehdr : Address) (s : Option Section) : Address :=
  match s with
  | some s => ehdr + s.offset
  | none => 0

def sizeOf (s : Option Section) : BitVec 64 :=
  match s with
  | some s => s.size
  | none => 0

/-- The tables of the file, as `elf_ctx_init` should find them. -/
def tablesOf (ehdr : Address) (loadBias : BitVec 64) (l : List Section) : ElfCtx :=
  ⟨loadBias, addressOf ehdr (lastOf Section.IsSymtab l), sizeOf (lastOf Section.IsSymtab l),
    addressOf ehdr (lastOf Section.IsStrtab l), addressOf ehdr (lastOf Section.IsDynsym l),
    sizeOf (lastOf Section.IsDynsym l), addressOf ehdr (lastOf Section.IsDynstr l)⟩

theorem strtabName_plain : (0 : BitVec 8) ∉ strtabName ∧ (0 : BitVec 8) ∉ dynstrName := by decide

theorem Section.kinds (x : Section) : (x.IsSymtab → ¬ x.IsStrtab ∧ ¬ x.IsDynsym ∧ ¬ x.IsDynstr) ∧
    (x.IsDynsym → ¬ x.IsStrtab ∧ ¬ x.IsDynstr) ∧ (x.IsStrtab → ¬ x.IsDynstr) := by
  have hnames : strtabName ≠ dynstrName := by decide
  refine ⟨fun h => ⟨fun h' => ?_, fun h' => ?_, fun h' => ?_⟩,
    fun h => ⟨fun h' => ?_, fun h' => ?_⟩, fun h h' => hnames (h.2.symm.trans h'.2)⟩
  · exact absurd (h.symm.trans h'.1) (by decide)
  · exact absurd (h.symm.trans h') (by decide)
  · exact absurd (h.symm.trans h'.1) (by decide)
  · exact absurd (h.symm.trans h'.1) (by decide)
  · exact absurd (h.symm.trans h'.1) (by decide)

theorem sectionStep_tablesOf {names : Address} {h : SectionHeader} {x : Section}
    (hx : Describes mem names h x) (ehdr : Address) (loadBias : BitVec 64) (l : List Section) :
    sectionStep mem ehdr names (tablesOf ehdr loadBias l) h = tablesOf ehdr loadBias (l ++ [x]) := by
  have hsymtab : h.type = shtSymtab ↔ x.IsSymtab := by rw [hx.type]; rfl
  have hdynsym : h.type = shtDynsym ↔ x.IsDynsym := by rw [hx.type]; rfl
  have hstrtab : (h.type = shtStrtab ∧ strcmpEq mem (names + h.name.setWidth 64) strtabName = true)
      ↔ x.IsStrtab := by
    rw [hx.type, strcmpEq_iff hx.name strtabName_plain.1, Section.IsStrtab, eq_comm (a := strtabName)]
  have hdynstr : (h.type = shtStrtab ∧ strcmpEq mem (names + h.name.setWidth 64) dynstrName = true)
      ↔ x.IsDynstr := by
    rw [hx.type, strcmpEq_iff hx.name strtabName_plain.2, Section.IsDynstr, eq_comm (a := dynstrName)]
  obtain ⟨hk₁, hk₂, hk₃⟩ := x.kinds
  simp only [sectionStep, hsymtab, hstrtab, hdynsym, hdynstr, tablesOf, lastOf_concat, hx.offset,
    hx.size]
  by_cases h₁ : x.IsSymtab
  · simp [h₁, hk₁ h₁, addressOf, sizeOf]
  by_cases h₂ : x.IsStrtab
  · have hno : ¬ x.IsDynsym := fun h => (hk₂ h).1 h₂
    simp [h₁, h₂, hno, hk₃ h₂, addressOf]
  by_cases h₃ : x.IsDynsym
  · simp [h₁, h₂, h₃, hk₂ h₃, addressOf, sizeOf]
  by_cases h₄ : x.IsDynstr
  · simp [h₁, h₂, h₃, h₄, addressOf]
  · simp [h₁, h₂, h₃, h₄]

theorem foldl_sectionStep {names : Address} {hs : List SectionHeader} {l : List Section}
    (h : List.Forall₂ (Describes mem names) hs l) (ehdr : Address) (loadBias : BitVec 64)
    (before : List Section) :
    hs.foldl (sectionStep mem ehdr names) (tablesOf ehdr loadBias before) =
      tablesOf ehdr loadBias (before ++ l) := by
  induction h generalizing before with
  | nil => simp
  | @cons h x hs l hx _ ih =>
    rw [List.foldl_cons, sectionStep_tablesOf hx, ih, List.append_assoc, List.singleton_append]

/-- The first segment that is loaded. -/
def ElfFile.firstLoad (f : ElfFile) : Option ProgramHeader :=
  f.segments.find? fun p => p.type = ptLoad

/-- The headers say of themselves what the first segment says: they are in it. -/
structure ElfFile.Coherent (f : ElfFile) (ehdr : Address) (p : ProgramHeader) : Prop where
  first : f.firstLoad = some p
  headers : ∀ q ∈ f.segments, q.type = ptPhdr → f.phoff - q.vaddr = p.offset - p.vaddr
  away : ehdr - (p.vaddr - p.offset) ≠ 0

theorem foldl_loadBias {ps : List ProgramHeader} {phdrs bias : BitVec 64}
    (h : ∀ q ∈ ps, q.type = ptPhdr → phdrs - q.vaddr = bias) (hne : bias ≠ 0) :
    ps.foldl (loadBiasStep ehdr phdrs) bias = bias := by
  induction ps with
  | nil => rfl
  | cons q ps ih =>
    have hstep : loadBiasStep ehdr phdrs bias q = bias := by
      rw [loadBiasStep]
      by_cases hload : q.type = ptLoad
      · rw [if_pos hload, if_neg hne]
      · rw [if_neg hload]
        split
        · next hphdr => exact h q (by simp) hphdr
        · rfl
    rw [List.foldl_cons, hstep]
    exact ih fun r hr => h r (List.mem_cons_of_mem q hr)

/-- **The load bias** is that of the first segment, wherever the entry of the headers stands. -/
theorem foldl_loadBias_zero {ps : List ProgramHeader} {phdrs : BitVec 64} {p : ProgramHeader}
    (hfirst : ps.find? (fun p => p.type = ptLoad) = some p)
    (h : ∀ q ∈ ps, q.type = ptPhdr → phdrs - q.vaddr = ehdr - (p.vaddr - p.offset))
    (hne : ehdr - (p.vaddr - p.offset) ≠ 0) :
    ps.foldl (loadBiasStep ehdr phdrs) 0 = ehdr - (p.vaddr - p.offset) := by
  induction ps with
  | nil => cases hfirst
  | cons q ps ih =>
    have hrest : ∀ r ∈ ps, r.type = ptPhdr → phdrs - r.vaddr = ehdr - (p.vaddr - p.offset) :=
      fun r hr => h r (List.mem_cons_of_mem q hr)
    rw [List.foldl_cons, loadBiasStep]
    by_cases hload : q.type = ptLoad
    · rw [List.find?_cons_of_pos (by simpa using hload)] at hfirst
      cases hfirst
      rw [if_pos hload, if_pos rfl]
      exact foldl_loadBias hrest hne
    · rw [List.find?_cons_of_neg (by simpa using hload)] at hfirst
      rw [if_neg hload]
      split
      · next hphdr =>
        rw [h q (by simp) hphdr]
        exact foldl_loadBias hrest hne
      · exact ih hfirst hrest

/-- **What `elf_ctx_init` finds.** -/
theorem elfCtxInit_eq {f : ElfFile} {p : ProgramHeader} (h : ElfAt mem ehdr f)
    (hf : f.Coherent ehdr p) :
    elfCtxInit mem ehdr = tablesOf ehdr (ehdr - (p.vaddr - p.offset)) f.sections := by
  have hbias : (programHeaders mem ehdr).foldl (loadBiasStep ehdr (ehdr + read64 mem (ehdr + 32)))
      0 = ehdr - (p.vaddr - p.offset) := by
    rw [h.segments, h.phoff]
    refine foldl_loadBias_zero hf.first (fun q hq hphdr => ?_) hf.away
    have hsame := hf.headers q hq hphdr
    bv_omega
  rw [elfCtxInit]
  simp only [hbias]
  exact foldl_sectionStep h.sections ehdr _ []

/-! ## Symbols -/

structure Symbol where
  name : Text
  value : Address
  deriving DecidableEq

def valueOf (symbols : List Symbol) (name : Text) : Address :=
  match symbols.find? fun s => s.name = name with
  | some s => s.value
  | none => 0

/-- The symbols of a table, in memory. -/
def SymbolsAt (mem : Address → BitVec 8) (symtab strtab : Address) (count : Nat)
    (symbols : List Symbol) : Prop :=
  List.Forall₂ (fun a s => (readSymbol mem a).value = s.value ∧
    CString mem (strtab + (readSymbol mem a).name.setWidth 64) s.name)
    (records symtab 24 count) symbols

theorem iterateSymbolTableImpl_eq {symtab strtab : Address} {count : Nat} {symbols : List Symbol}
    (h : SymbolsAt mem symtab strtab count symbols) (hname : 0 ∉ name) :
    iterateSymbolTableImpl mem name symtab strtab count = valueOf symbols name := by
  rw [iterateSymbolTableImpl]
  rw [SymbolsAt] at h
  generalize records symtab 24 count = l at h
  induction h with
  | nil => rfl
  | @cons a s l symbols hs _ ih =>
    have hiff := strcmpEq_iff hs.2 hname
    by_cases hsame : name = s.name
    · simp only [valueOf, List.find?_cons, hiff.mpr hsame, hsame.symm, decide_true]
      exact hs.1
    · have hother : ¬ s.name = name := fun he => hsame he.symm
      have hfalse : strcmpEq mem (strtab + (readSymbol mem a).name.setWidth 64) name = false :=
        Bool.eq_false_iff.mpr fun htrue => hsame (hiff.mp htrue)
      simp only [valueOf, List.find?_cons, hfalse, hother, decide_false]
      exact ih

/-- The symbols of a table whose sections are these, if they are there. -/
def TableAt (mem : Address → BitVec 8) (ehdr : Address) (table strings : Option Section)
    (symbols : List Symbol) : Prop :=
  match table, strings with
  | some t, some s => ehdr + t.offset ≠ 0 ∧ ehdr + s.offset ≠ 0 ∧
      SymbolsAt mem (ehdr + t.offset) (ehdr + s.offset) (symbolCount t.size) symbols
  | _, _ => symbols = []

theorem TableAt.iterate {table strings : Option Section} {symbols : List Symbol}
    (h : TableAt mem ehdr table strings symbols) (hname : 0 ∉ name) :
    (if addressOf ehdr table ≠ 0 ∧ addressOf ehdr strings ≠ 0 then
      iterateSymbolTableImpl mem name (addressOf ehdr table) (addressOf ehdr strings)
        (symbolCount (sizeOf table)) else 0) = valueOf symbols name := by
  cases table with
  | none =>
    obtain rfl : symbols = [] := h
    simp [addressOf, valueOf]
  | some t =>
    cases strings with
    | none =>
      obtain rfl : symbols = [] := h
      simp [addressOf, valueOf]
    | some s =>
      obtain ⟨ht, hs, hsymbols⟩ := h
      rw [addressOf, addressOf, if_pos ⟨ht, hs⟩]
      exact iterateSymbolTableImpl_eq hsymbols hname

/-- What the file says of a name: the symbol table first, then the dynamic one. -/
def fileValue (symbols dynsyms : List Symbol) (name : Text) : Address :=
  if valueOf symbols name ≠ 0 then valueOf symbols name else valueOf dynsyms name

theorem elfCtxIterateSymbolTable_tablesOf {l : List Section} {symbols dynsyms : List Symbol}
    (loadBias : BitVec 64)
    (hsymbols : TableAt mem ehdr (lastOf Section.IsSymtab l) (lastOf Section.IsStrtab l) symbols)
    (hdynsyms : TableAt mem ehdr (lastOf Section.IsDynsym l) (lastOf Section.IsDynstr l) dynsyms)
    (hname : 0 ∉ name) :
    elfCtxIterateSymbolTable mem (tablesOf ehdr loadBias l) name =
      fileValue symbols dynsyms name := by
  rw [fileValue, ← hsymbols.iterate hname, ← hdynsyms.iterate hname]
  rfl

/-- The header, one segment, two sections, a symbol table and its strings; `open` is at
0x1234. -/
def tinyBytes : Address → BitVec 8 :=
  [(0x0#64, [0x464C457F#32]), (32#64, [64#32, 0#32, 128#32]), (56#64, [1#32, 0x00010002#32]),
    (64#64, [1#32]),
    (132#64, [2#32]), (152#64, [320#32, 0#32, 48#32]),
    (192#64, [1#32, 3#32]), (216#64, [400#32, 0#32, 14#32]),
    (344#64, [9#32, 0#32, 0x1234#32]),
    (400#64, [0x74732E00#32, 0x62617472#32, 0x65706F00#32, 0x6E#32])].foldl
    (fun bytes w => storeWords bytes w.1 w.2) fun _ => 0#8

def tinyAt (a : Address) : Address → BitVec 8 := fun x => tinyBytes (x - a)

def tinyFile : ElfFile where
  phoff := 64
  segments := [⟨ptLoad, 0, 0⟩]
  sections := [⟨[], shtSymtab, 320, 48⟩, ⟨strtabName, shtStrtab, 400, 14⟩]

def tinySymbols : List Symbol := [⟨[], 0⟩, ⟨ascii ['o', 'p', 'e', 'n'], 0x1234⟩]

/-- The process with the library at an address; every file is mapped at 0x5000. -/
def tinyLibraries (a : Address) : Libraries where
  bytes := tinyAt a
  maps := [some ⟨a, ascii ['r', '-', '-', 'p'], ascii ['/', 'l', '\n']⟩]
  map _ := some (0x5000#64, tinyAt 0x5000#64)
  dlsym _ := 0

theorem tinyAt_elf : ElfAt (tinyAt 0x5000#64) 0x5000#64 tinyFile where
  phoff := by decide +kernel
  segments := by decide +kernel
  sections := by
    refine .cons ⟨?_, ?_, ?_, ?_⟩ (.cons ⟨?_, ?_, ?_, ?_⟩ .nil) <;> decide +kernel

theorem tinyFile_coherent : tinyFile.Coherent 0x5000#64 ⟨ptLoad, 0, 0⟩ :=
  ⟨by decide, by decide, by decide⟩

variable {libs : Libraries} {modules seen now : List RuntimeModule} {l : Lookup}
  {as : List (Libraries × Lookup)} {log : List Address}

theorem firstNonzero_map {α : Type*} (f : α → Address) (l : List α) :
    firstNonzero (l.map f) = ((l.find? fun a => f a ≠ 0).map f).getD 0 := by
  induction l with
  | nil => rfl
  | cons a l ih =>
    rw [List.map_cons, firstNonzero]
    by_cases h : f a = 0
    · rw [if_neg (by simpa using h), List.find?_cons_of_neg (by simpa using h), ih]
    · rw [if_pos h, List.find?_cons_of_pos (by simpa using h)]
      rfl

/-- The lists are searched with the same outcome. -/
def SameFirst (modules seen : List RuntimeModule) : Prop :=
  ∀ P : RuntimeModule → Bool, modules.find? P = seen.find? P

theorem SameFirst.append (h : SameFirst modules seen) (now : List RuntimeModule) :
    SameFirst (modules ++ now) (seen ++ now) := by
  intro P
  rw [List.find?_append, List.find?_append, h P]

theorem SameFirst.append_self (h : SameFirst modules (seen ++ now)) :
    SameFirst (modules ++ now) (seen ++ now) := by
  intro P
  rw [List.find?_append, h P, List.find?_append]
  cases seen.find? P <;> cases now.find? P <;> rfl

/-- What a lookup should give, where these are the modules in the order of the search. -/
def answer (libs : Libraries) (modules : List RuntimeModule) (l : Lookup) : Address :=
  firstNonzero (libs.dlsym l.symbolName ::
    (l.imageName.toList.map (getProcessModule modules) ++ modules).map
      (resolveInModule libs l.symbolName))

theorem SameFirst.getProcessModule (h : SameFirst modules seen) (name : Text) :
    getProcessModule modules name = getProcessModule seen name := by
  rw [Dobby.getProcessModule, h, Dobby.getProcessModule]

theorem SameFirst.firstNonzero (h : SameFirst modules seen) (f : RuntimeModule → Address) :
    firstNonzero (modules.map f) = firstNonzero (seen.map f) := by
  rw [firstNonzero_map, h, firstNonzero_map]

/-- The modules a lookup reads. -/
def readsOf (a : Libraries × Lookup) : List RuntimeModule :=
  if a.1.dlsym a.2.symbolName = 0 then modulesOf a.1.bytes a.1.maps else []

/-- **One lookup.** -/
theorem dobbySymbolResolver_answer (h : SameFirst modules seen) (a : Libraries × Lookup) :
    SameFirst (dobbySymbolResolver a.1 modules a.2.imageName a.2.symbolName).2 (seen ++ readsOf a) ∧
      (dobbySymbolResolver a.1 modules a.2.imageName a.2.symbolName).1 =
        answer a.1 (seen ++ readsOf a) a.2 := by
  obtain ⟨libs, image, symbolName⟩ := a
  simp only [dobbySymbolResolver, readsOf, answer, firstNonzero]
  by_cases hdlsym : libs.dlsym symbolName = 0
  · have hnow : SameFirst (getProcessModuleMap libs modules)
        (seen ++ modulesOf libs.bytes libs.maps) := h.append _
    have htwice : SameFirst (getProcessModuleMap libs (getProcessModuleMap libs modules))
        (seen ++ modulesOf libs.bytes libs.maps) := hnow.append_self
    simp only [hdlsym, ne_eq, not_true_eq_false, if_false, if_true, resolveElfInternalSymbol]
    cases image with
    | none =>
      simp only [not_true_eq_false, if_false, Option.toList_none, List.map_nil, List.nil_append]
      exact ⟨hnow, hnow.firstNonzero _⟩
    | some name =>
      simp only [Option.toList_some, List.map_cons, List.map_nil, List.singleton_append,
        Dobby.firstNonzero, hnow.getProcessModule, ne_eq]
      split
      · exact ⟨hnow, rfl⟩
      · exact ⟨htwice, htwice.firstNonzero _⟩
  · simp only [hdlsym, ne_eq, not_false_eq_true, if_true, if_false, List.append_nil, and_true]
    exact h

/-- **The order of the search**, over any run of lookups: `dlsym`, then the first module with
the name of the image, then all of them, where the modules are those of every reading of the
maps so far, the oldest first.  A library that has been unloaded since, or loaded elsewhere,
is searched where it was, and before its successor. -/
theorem resolver_order (h : resolver.Run [] as log modules) :
    log.length = as.length ∧ SameFirst modules (as.flatMap readsOf) ∧
      ∀ i a, as[i]? = some a → log[i]? = some (answer a.1 ((as.take (i + 1)).flatMap readsOf) a.2) := by
  induction h with
  | nil => exact ⟨rfl, fun _ => rfl, fun i a ha => by simp at ha⟩
  | @snoc as log modules a es modules' _ hstep ih =>
    obtain ⟨hlength, hsame, hanswers⟩ := ih
    obtain ⟨hsame', hanswer⟩ := dobbySymbolResolver_answer hsame a
    obtain ⟨rfl, rfl⟩ : (dobbySymbolResolver a.1 modules a.2.imageName a.2.symbolName).2 = modules' ∧
        [(dobbySymbolResolver a.1 modules a.2.imageName a.2.symbolName).1] = es := by
      simpa [resolver] using hstep
    have hflat : (as ++ [a]).flatMap readsOf = as.flatMap readsOf ++ readsOf a := by simp
    refine ⟨by simp [hlength], hflat ▸ hsame', fun i b hb => ?_⟩
    rcases Nat.lt_trichotomy i as.length with hi | rfl | hi
    · rw [List.getElem?_append_left hi] at hb
      rw [List.getElem?_append_left (by omega), hanswers i b hb,
        List.take_append_of_le_length (by omega)]
    · obtain rfl : a = b := by simpa using hb
      rw [List.getElem?_append_right (by omega), hlength, Nat.sub_self, List.take_of_length_le (by simp),
        hflat, ← hanswer]
      rfl
    · rw [List.getElem?_eq_none (by simp; omega)] at hb
      cases hb

/-- The library moves between two lookups. -/
def movedLookups : List (Libraries × Lookup) :=
  [(tinyLibraries 0x70000#64, ⟨none, ascii ['o', 'p', 'e', 'n']⟩),
    (tinyLibraries 0x90000#64, ⟨some (ascii ['l']), ascii ['o', 'p', 'e', 'n']⟩)]

theorem movedLookups_run : resolver.Run [] movedLookups [0x71234#64, 0x71234#64]
    [⟨ascii ['/', 'l'], 0x70000#64⟩, ⟨ascii ['/', 'l'], 0x90000#64⟩] :=
  System.Run.of_exec (by decide +kernel)

theorem resolver_order_moved :
    answer (tinyLibraries 0x90000#64) (movedLookups.flatMap readsOf)
      ⟨some (ascii ['l']), ascii ['o', 'p', 'e', 'n']⟩ = 0x71234#64 := by
  obtain ⟨-, -, hanswers⟩ := resolver_order movedLookups_run
  have hsecond := hanswers 1 _ rfl
  exact (Option.some.inj hsecond).symm

end JniDegger.Dobby
