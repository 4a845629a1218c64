import JniDegger.A64
import JniDegger.Interleaving

/-!
# Dobby's symbol resolver

A symbol that `dlsym` does not know is looked up in the file of a module: the list of
modules is read from `/proc/self/maps`, the file is mapped, and the name is searched in its
symbol table and then in its dynamic one.

The list of modules is static and never cleared: each reading appends to it.
-/

namespace JniDegger.Dobby
open A64 Interleaving

/-- A string, up to its zero. -/
abbrev Text := List (BitVec 8)

/-- `strcmp(a, s) == 0` -/
def strcmpEq (mem : Address → BitVec 8) (a : Address) : Text → Bool
  | [] => mem a == 0
  | c :: s => mem a == c && strcmpEq mem (a + 1) s

/-- `strstr(s, name) != 0` -/
def strstr (s name : Text) : Bool := s.tails.any fun t => name.isPrefixOf t

/-! ## ELF files in memory -/

def read16 (mem : Address → BitVec 8) (a : Address) : BitVec 16 := mem (a + 1#64) ++ mem a

/-- `Elf64_Phdr` -/
structure ProgramHeader where
  type : BitVec 32
  offset : BitVec 64
  vaddr : BitVec 64
  deriving DecidableEq

/-- `Elf64_Shdr` -/
structure SectionHeader where
  name : BitVec 32
  type : BitVec 32
  offset : BitVec 64
  size : BitVec 64
  deriving DecidableEq

/-- `Elf64_Sym` -/
structure SymbolRecord where
  name : BitVec 32
  value : BitVec 64
  deriving DecidableEq

def readProgramHeader (mem : Address → BitVec 8) (a : Address) : ProgramHeader :=
  ⟨read32 mem a, read64 mem (a + 8), read64 mem (a + 16)⟩

def readSectionHeader (mem : Address → BitVec 8) (a : Address) : SectionHeader :=
  ⟨read32 mem a, read32 mem (a + 4), read64 mem (a + 24), read64 mem (a + 32)⟩

def readSymbol (mem : Address → BitVec 8) (a : Address) : SymbolRecord :=
  ⟨read32 mem a, read64 mem (a + 8)⟩

def records (base : Address) (size n : Nat) : List Address :=
  (List.range n).map fun i => base + BitVec.ofNat 64 (size * i)

/-- `phdr[0]`, `phdr[1]`, ... -/
def programHeaders (mem : Address → BitVec 8) (ehdr : Address) : List ProgramHeader :=
  (records (ehdr + read64 mem (ehdr + 32)) 56 (read16 mem (ehdr + 56)).toNat).map
    (readProgramHeader mem)

/-- `shdr[0]`, `shdr[1]`, ... -/
def sectionHeaders (mem : Address → BitVec 8) (ehdr : Address) : List SectionHeader :=
  (records (ehdr + read64 mem (ehdr + 40)) 64 (read16 mem (ehdr + 60)).toNat).map
    (readSectionHeader mem)

/-- The names of the sections are behind the header `e_shstrndx`. -/
def sectionNames (mem : Address → BitVec 8) (ehdr : Address) : Address :=
  ehdr + (readSectionHeader mem (ehdr + read64 mem (ehdr + 40) +
    BitVec.ofNat 64 (64 * (read16 mem (ehdr + 62)).toNat))).offset

def ptLoad : BitVec 32 := 1

def ptPhdr : BitVec 32 := 6

def shtSymtab : BitVec 32 := 2

def shtStrtab : BitVec 32 := 3

def shtDynsym : BitVec 32 := 11

/-- `.strtab` -/
def strtabName : Text := ['.', 's', 't', 'r', 't', 'a', 'b'].map fun c => BitVec.ofNat 8 c.toNat

/-- `.dynstr` -/
def dynstrName : Text := ['.', 'd', 'y', 'n', 's', 't', 'r'].map fun c => BitVec.ofNat 8 c.toNat

/-- `elf_ctx_t`; a pointer that has not been set is 0, and so is the size of a table that is not
there. -/
structure ElfCtx where
  loadBias : BitVec 64
  symtab : Address
  symSize : BitVec 64
  strtab : Address
  dynsymtab : Address
  dynsymSize : BitVec 64
  dynstrtab : Address
  deriving DecidableEq

/-- The first loop of `elf_ctx_init`. -/
def loadBiasStep (ehdr phdrs : Address) (loadBias : BitVec 64) (p : ProgramHeader) : BitVec 64 :=
  if p.type = ptLoad then
    if loadBias = 0 then ehdr - (p.vaddr - p.offset) else loadBias
  else if p.type = ptPhdr then phdrs - p.vaddr
  else loadBias

/-- The second loop of `elf_ctx_init`. -/
def sectionStep (mem : Address → BitVec 8) (ehdr names : Address) (ctx : ElfCtx)
    (s : SectionHeader) : ElfCtx :=
  if s.type = shtSymtab then { ctx with symtab := ehdr + s.offset, symSize := s.size }
  else if s.type = shtStrtab ∧ strcmpEq mem (names + s.name.setWidth 64) strtabName = true then
    { ctx with strtab := ehdr + s.offset }
  else if s.type = shtDynsym then
    { ctx with dynsymtab := ehdr + s.offset, dynsymSize := s.size }
  else if s.type = shtStrtab ∧ strcmpEq mem (names + s.name.setWidth 64) dynstrName = true then
    { ctx with dynstrtab := ehdr + s.offset }
  else ctx

def elfCtxInit (mem : Address → BitVec 8) (ehdr : Address) : ElfCtx :=
  let loadBias := (programHeaders mem ehdr).foldl
    (loadBiasStep ehdr (ehdr + read64 mem (ehdr + 32))) 0
  (sectionHeaders mem ehdr).foldl (sectionStep mem ehdr (sectionNames mem ehdr))
    ⟨loadBias, 0, 0, 0, 0, 0, 0⟩

/-- The value of the first symbol of this name, which may be 0. -/
def iterateSymbolTableImpl (mem : Address → BitVec 8) (symbolName : Text) (symtab strtab : Address)
    (count : Nat) : Address :=
  match (records symtab 24 count).find? fun a =>
      strcmpEq mem (strtab + (readSymbol mem a).name.setWidth 64) symbolName with
  | some a => (readSymbol mem a).value
  | none => 0

/-- The number of symbols, which is passed as an `int`. -/
def symbolCount (size : BitVec 64) : Nat := ((size / 24).setWidth 32).toInt.toNat

def elfCtxIterateSymbolTable (mem : Address → BitVec 8) (ctx : ElfCtx) (symbolName : Text) :
    Address :=
  let result := if ctx.symtab ≠ 0 ∧ ctx.strtab ≠ 0 then
    iterateSymbolTableImpl mem symbolName ctx.symtab ctx.strtab (symbolCount ctx.symSize) else 0
  if result ≠ 0 then result
  else if ctx.dynsymtab ≠ 0 ∧ ctx.dynstrtab ≠ 0 then
    iterateSymbolTableImpl mem symbolName ctx.dynsymtab ctx.dynstrtab (symbolCount ctx.dynsymSize)
  else 0

/-! ## Modules -/

structure RuntimeModule where
  path : Text
  loadAddress : Address
  deriving DecidableEq

/-- A line of `/proc/self/maps`; the path goes up to the end of the line, and with it. -/
structure MapLine where
  start : Address
  permissions : Text
  path : Text
  deriving DecidableEq

/-- What the process sees during one call. -/
structure Libraries where
  bytes : Address → BitVec 8
  /-- the lines as they are read, and `none` for one that cannot be parsed -/
  maps : List (Option MapLine)
  /-- `MmapFileManager::map`: where the file is, and the memory while it is there -/
  map : Text → Option (Address × (Address → BitVec 8))
  /-- `dlsym(RTLD_DEFAULT, ...)` -/
  dlsym : Text → Address

def ascii (s : List Char) : Text := s.map fun c => BitVec.ofNat 8 c.toNat

/-- `ELFMAG` at the address. -/
def hasElfMagic (mem : Address → BitVec 8) (a : Address) : Bool :=
  read32 mem a == 0x464C457F#32

/-- Without the end of the line. -/
def stripped (path : Text) : Text := if path.getLast? = some 10 then path.dropLast else path

/-- The module of a line, if it is the first mapping of a file. -/
def moduleOf (mem : Address → BitVec 8) (l : MapLine) : Option RuntimeModule :=
  if l.permissions ≠ ascii ['r', '-', '-', 'p'] ∧ l.permissions ≠ ascii ['r', '-', 'x', 'p'] then
    none
  else if hasElfMagic mem l.start = false then none
  else
    match l.path with
    | [] => none
    | c :: _ =>
      if c = 10 ∨ c = 0x5B then none else some ⟨(stripped l.path).take 1023, l.start⟩

/-- The modules of the lines up to the first that cannot be parsed. -/
def modulesOf (mem : Address → BitVec 8) : List (Option MapLine) → List RuntimeModule
  | [] => []
  | none :: _ => []
  | some l :: lines => (moduleOf mem l).toList ++ modulesOf mem lines

/-- `get_process_map_with_proc_maps`, with the static list it appends to. -/
def getProcessModuleMap (libs : Libraries) (modules : List RuntimeModule) : List RuntimeModule :=
  modules ++ modulesOf libs.bytes libs.maps

/-- The first module with the name in its path, or the one at 0. -/
def getProcessModule (modules : List RuntimeModule) (name : Text) : RuntimeModule :=
  (modules.find? fun m => strstr m.path name).getD ⟨[], 0⟩

/-! ## Resolving -/

/-- The symbol in the file of the module, where the module has been loaded. -/
def resolveInModule (libs : Libraries) (symbolName : Text) (m : RuntimeModule) : Address :=
  if m.loadAddress = 0 then 0
  else
    match libs.map m.path with
    | none => 0
    | some (fileMem, mem) =>
      let ctx := elfCtxInit mem fileMem
      let result := elfCtxIterateSymbolTable mem ctx symbolName
      if result = 0 then 0 else result + m.loadAddress - (fileMem - ctx.loadBias)

/-- The first address that is not 0. -/
def firstNonzero : List Address → Address
  | [] => 0
  | a :: as => if a ≠ 0 then a else firstNonzero as

/-- The address, and the static list of modules after the call. -/
def resolveElfInternalSymbol (libs : Libraries) (modules : List RuntimeModule)
    (libraryName : Option Text) (symbolName : Text) : Address × List RuntimeModule :=
  let (result, modules) := match libraryName with
    | none => (0, modules)
    | some name =>
      let modules := getProcessModuleMap libs modules
      (resolveInModule libs symbolName (getProcessModule modules name), modules)
  if result ≠ 0 then (result, modules)
  else
    let modules := getProcessModuleMap libs modules
    (firstNonzero (modules.map (resolveInModule libs symbolName)), modules)

def dobbySymbolResolver (libs : Libraries) (modules : List RuntimeModule)
    (imageName : Option Text) (symbolName : Text) : Address × List RuntimeModule :=
  if libs.dlsym symbolName ≠ 0 then (libs.dlsym symbolName, modules)
  else resolveElfInternalSymbol libs modules imageName symbolName

structure Lookup where
  imageName : Option Text
  symbolName : Text

/-- Call after call, each with the libraries as they are then; the list of modules stays. -/
def resolver : System (List RuntimeModule) (Libraries × Lookup) Address :=
  ⟨fun modules a =>
    let r := dobbySymbolResolver a.1 modules a.2.imageName a.2.symbolName
    some (r.2, [r.1])⟩

end JniDegger.Dobby
