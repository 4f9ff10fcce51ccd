-- SUMMARY: Names of the numbers in Mach-O headers, commands, sections, symbols and relocations.
import MachInspect.Cpu.Arch

/-!
# Names of Mach-O constants

Tables pair a number with its identifier; tables of flags list one name per bit, from bit zero.
-/
namespace MachInspect.Names

/-- The name of `value`. -/
def find? {α : Type} [BEq α] (table : List (α × String)) (value : α) : Option String :=
  table.lookup value

def magics : List (UInt32 × String) :=
  [(0xfeedface, "MH_MAGIC"),
   (0xcefaedfe, "MH_CIGAM"),
   (0xfeedfacf, "MH_MAGIC_64"),
   (0xcffaedfe, "MH_CIGAM_64")]

def cpuTypes : List (UInt32 × String) :=
  [(0x1, "CPU_TYPE_VAX"),
   (0x6, "CPU_TYPE_MC680x0"),
   (0x7, "CPU_TYPE_X86"),
   (0x1000007, "CPU_TYPE_X86_64"),
   (0xa, "CPU_TYPE_MC98000"),
   (0xb, "CPU_TYPE_HPPA"),
   (0xc, "CPU_TYPE_ARM"),
   (0x100000c, "CPU_TYPE_ARM64"),
   (0xd, "CPU_TYPE_MC88000"),
   (0xe, "CPU_TYPE_SPARC"),
   (0xf, "CPU_TYPE_I860"),
   (0x12, "CPU_TYPE_POWERPC"),
   (0x1000012, "CPU_TYPE_POWERPC64")]

def x86Subtypes : List (UInt32 × String) :=
  [(0x3, "CPU_SUBTYPE_X86_ALL"),
   (0x4, "CPU_SUBTYPE_X86_ARCH1")]

def x86_64Subtypes : List (UInt32 × String) :=
  [(0x3, "CPU_SUBTYPE_X86_64_ALL"),
   (0x8, "CPU_SUBTYPE_X86_64_H")]

def powerPcSubtypes : List (UInt32 × String) :=
  [(0x0, "CPU_SUBTYPE_POWERPC_ALL"),
   (0x1, "CPU_SUBTYPE_POWERPC_601"),
   (0x2, "CPU_SUBTYPE_POWERPC_602"),
   (0x3, "CPU_SUBTYPE_POWERPC_603"),
   (0x4, "CPU_SUBTYPE_POWERPC_603e"),
   (0x5, "CPU_SUBTYPE_POWERPC_603ev"),
   (0x6, "CPU_SUBTYPE_POWERPC_604"),
   (0x7, "CPU_SUBTYPE_POWERPC_604e"),
   (0x8, "CPU_SUBTYPE_POWERPC_620"),
   (0x9, "CPU_SUBTYPE_POWERPC_750"),
   (0xa, "CPU_SUBTYPE_POWERPC_7400"),
   (0xb, "CPU_SUBTYPE_POWERPC_7450"),
   (0x64, "CPU_SUBTYPE_POWERPC_970")]

def armSubtypes : List (UInt32 × String) :=
  [(0x0, "CPU_SUBTYPE_ARM_ALL"),
   (0x5, "CPU_SUBTYPE_ARM_V4T"),
   (0x6, "CPU_SUBTYPE_ARM_V6"),
   (0x7, "CPU_SUBTYPE_ARM_V5TEJ"),
   (0x8, "CPU_SUBTYPE_ARM_XSCALE"),
   (0x9, "CPU_SUBTYPE_ARM_V7"),
   (0xa, "CPU_SUBTYPE_ARM_V7F"),
   (0xb, "CPU_SUBTYPE_ARM_V7S"),
   (0xc, "CPU_SUBTYPE_ARM_V7K"),
   (0xd, "CPU_SUBTYPE_ARM_V8"),
   (0xe, "CPU_SUBTYPE_ARM_V6M"),
   (0xf, "CPU_SUBTYPE_ARM_V7M"),
   (0x10, "CPU_SUBTYPE_ARM_V7EM")]

def arm64Subtypes : List (UInt32 × String) :=
  [(0x0, "CPU_SUBTYPE_ARM64_ALL"),
   (0x1, "CPU_SUBTYPE_ARM64_V8")]

def cpuSubtypes : Arch → List (UInt32 × String)
  | .x86 => x86Subtypes
  | .x86_64 => x86_64Subtypes
  | .arm => armSubtypes
  | .arm64 => arm64Subtypes
  | .powerPc | .powerPc64 => powerPcSubtypes
  | .other _ => []

def fileTypes : List (UInt32 × String) :=
  [(0x1, "MH_OBJECT"),
   (0x2, "MH_EXECUTE"),
   (0x3, "MH_FVMLIB"),
   (0x4, "MH_CORE"),
   (0x5, "MH_PRELOAD"),
   (0x6, "MH_DYLIB"),
   (0x7, "MH_DYLINKER"),
   (0x8, "MH_BUNDLE"),
   (0x9, "MH_DYLIB_STUB"),
   (0xa, "MH_DSYM"),
   (0xb, "MH_KEXT_BUNDLE")]

/-- Flags of the file header, by bit. -/
def fileFlags : List String :=
  ["MH_NOUNDEFS",
   "MH_INCRLINK",
   "MH_DYLDLINK",
   "MH_BINDATLOAD",
   "MH_PREBOUND",
   "MH_SPLIT_SEGS",
   "MH_LAZY_INIT",
   "MH_TWOLEVEL",
   "MH_FORCE_FLAT",
   "MH_NOMULTIDEFS",
   "MH_NOFIXPREBINDING",
   "MH_PREBINDABLE",
   "MH_ALLMODSBOUND",
   "MH_SUBSECTIONS_VIA_SYMBOLS",
   "MH_CANONICAL",
   "MH_WEAK_DEFINES",
   "MH_BINDS_TO_WEAK",
   "MH_ALLOW_STACK_EXECUTION",
   "MH_ROOT_SAFE",
   "MH_SETUID_SAFE",
   "MH_NO_REEXPORTED_DYLIBS",
   "MH_PIE",
   "MH_DEAD_STRIPPABLE_DYLIB",
   "MH_HAS_TLV_DESCRIPTORS",
   "MH_NO_HEAP_EXECUTION",
   "MH_APP_EXTENSION_SAFE"]

def loadCommands : List (UInt32 × String) :=
  [(0x1, "LC_SEGMENT"),
   (0x2, "LC_SYMTAB"),
   (0x3, "LC_SYMSEG"),
   (0x4, "LC_THREAD"),
   (0x5, "LC_UNIXTHREAD"),
   (0x6, "LC_LOADFVMLIB"),
   (0x7, "LC_IDFVMLIB"),
   (0x8, "LC_IDENT"),
   (0x9, "LC_FVMFILE"),
   (0xa, "LC_PREPAGE"),
   (0xb, "LC_DYSYMTAB"),
   (0xc, "LC_LOAD_DYLIB"),
   (0xd, "LC_ID_DYLIB"),
   (0xe, "LC_LOAD_DYLINKER"),
   (0xf, "LC_ID_DYLINKER"),
   (0x10, "LC_PREBOUND_DYLIB"),
   (0x11, "LC_ROUTINES"),
   (0x12, "LC_SUB_FRAMEWORK"),
   (0x13, "LC_SUB_UMBRELLA"),
   (0x14, "LC_SUB_CLIENT"),
   (0x15, "LC_SUB_LIBRARY"),
   (0x16, "LC_TWOLEVEL_HINTS"),
   (0x17, "LC_PREBIND_CKSUM"),
   (0x80000018, "LC_LOAD_WEAK_DYLIB"),
   (0x19, "LC_SEGMENT_64"),
   (0x1a, "LC_ROUTINES_64"),
   (0x1b, "LC_UUID"),
   (0x8000001c, "LC_RPATH"),
   (0x1d, "LC_CODE_SIGNATURE"),
   (0x1e, "LC_SEGMENT_SPLIT_INFO"),
   (0x8000001f, "LC_REEXPORT_DYLIB"),
   (0x20, "LC_LAZY_LOAD_DYLIB"),
   (0x21, "LC_ENCRYPTION_INFO"),
   (0x22, "LC_DYLD_INFO"),
   (0x80000022, "LC_DYLD_INFO_ONLY"),
   (0x80000023, "LC_LOAD_UPWARD_DYLIB"),
   (0x24, "LC_VERSION_MIN_MACOSX"),
   (0x25, "LC_VERSION_MIN_IPHONEOS"),
   (0x26, "LC_FUNCTION_STARTS"),
   (0x27, "LC_DYLD_ENVIRONMENT"),
   (0x80000028, "LC_MAIN"),
   (0x29, "LC_DATA_IN_CODE"),
   (0x2a, "LC_SOURCE_VERSION"),
   (0x2b, "LC_DYLIB_CODE_SIGN_DRS"),
   (0x2c, "LC_ENCRYPTION_INFO_64"),
   (0x2d, "LC_LINKER_OPTION"),
   (0x2e, "LC_LINKER_OPTIMIZATION_HINT"),
   (0x2f, "LC_VERSION_MIN_TVOS"),
   (0x30, "LC_VERSION_MIN_WATCHOS"),
   (0x31, "LC_NOTE"),
   (0x32, "LC_BUILD_VERSION"),
   (0x80000033, "LC_DYLD_EXPORTS_TRIE"),
   (0x80000034, "LC_DYLD_CHAINED_FIXUPS")]

/-- Flags of a segment, by bit. -/
def segmentFlags : List String :=
  ["SG_HIGHVM",
   "SG_FVMLIB",
   "SG_NORELOC",
   "SG_PROTECTED_VERSION_1"]

def sectionTypes : List (UInt32 × String) :=
  [(0x0, "S_REGULAR"),
   (0x1, "S_ZEROFILL"),
   (0x2, "S_CSTRING_LITERALS"),
   (0x3, "S_4BYTE_LITERALS"),
   (0x4, "S_8BYTE_LITERALS"),
   (0x5, "S_LITERAL_POINTERS"),
   (0x6, "S_NON_LAZY_SYMBOL_POINTERS"),
   (0x7, "S_LAZY_SYMBOL_POINTERS"),
   (0x8, "S_SYMBOL_STUBS"),
   (0x9, "S_MOD_INIT_FUNC_POINTERS"),
   (0xa, "S_MOD_TERM_FUNC_POINTERS"),
   (0xb, "S_COALESCED"),
   (0xc, "S_GB_ZEROFILL"),
   (0xd, "S_INTERPOSING"),
   (0xe, "S_16BYTE_LITERALS"),
   (0xf, "S_DTRACE_DOF"),
   (0x10, "S_LAZY_DYLIB_SYMBOL_POINTERS"),
   (0x11, "S_THREAD_LOCAL_REGULAR"),
   (0x12, "S_THREAD_LOCAL_ZEROFILL"),
   (0x13, "S_THREAD_LOCAL_VARIABLES"),
   (0x14, "S_THREAD_LOCAL_VARIABLE_POINTERS"),
   (0x15, "S_THREAD_LOCAL_INIT_FUNCTION_POINTERS"),
   (0x16, "S_INIT_FUNC_OFFSETS")]

/-- Attribute bits of a section, in the order they are shown. -/
def sectionAttributes : List (UInt32 × String) :=
  [(0x80000000, "S_ATTR_PURE_INSTRUCTIONS"),
   (0x40000000, "S_ATTR_NO_TOC"),
   (0x20000000, "S_ATTR_STRIP_STATIC_SYMS"),
   (0x10000000, "S_ATTR_NO_DEAD_STRIP"),
   (0x08000000, "S_ATTR_LIVE_SUPPORT"),
   (0x04000000, "S_ATTR_SELF_MODIFYING_CODE"),
   (0x02000000, "S_ATTR_DEBUG"),
   (0x00000400, "S_ATTR_SOME_INSTRUCTIONS"),
   (0x00000200, "S_ATTR_EXT_RELOC"),
   (0x00000100, "S_ATTR_LOC_RELOC")]

def symbolTypes : List (UInt8 × String) :=
  [(0x0, "N_UNDF"),
   (0x2, "N_ABS"),
   (0xe, "N_SECT"),
   (0xc, "N_PBUD"),
   (0xa, "N_INDR")]

/-- Debugger entries of the symbol table. -/
def stabs : List (UInt8 × String) :=
  [(0x20, "N_GSYM"),
   (0x22, "N_FNAME"),
   (0x24, "N_FUN"),
   (0x26, "N_STSYM"),
   (0x28, "N_LCSYM"),
   (0x2e, "N_BNSYM"),
   (0x30, "N_PC"),
   (0x32, "N_AST"),
   (0x3c, "N_OPT"),
   (0x40, "N_RSYM"),
   (0x44, "N_SLINE"),
   (0x4e, "N_ENSYM"),
   (0x60, "N_SSYM"),
   (0x64, "N_SO"),
   (0x66, "N_OSO"),
   (0x80, "N_LSYM"),
   (0x82, "N_BINCL"),
   (0x84, "N_SOL"),
   (0x86, "N_PARAMS"),
   (0x88, "N_VERSION"),
   (0x8a, "N_OLEVEL"),
   (0xa0, "N_PSYM"),
   (0xa2, "N_EINCL"),
   (0xa4, "N_ENTRY"),
   (0xc0, "N_LBRAC"),
   (0xc2, "N_EXCL"),
   (0xe0, "N_RBRAC"),
   (0xe2, "N_BCOMM"),
   (0xe4, "N_ECOMM"),
   (0xe8, "N_ECOML"),
   (0xfe, "N_LENG")]

/-- How an undefined symbol is referred to. -/
def referenceTypes : List (UInt16 × String) :=
  [(0x0, "REFERENCE_FLAG_UNDEFINED_NON_LAZY"),
   (0x1, "REFERENCE_FLAG_UNDEFINED_LAZY"),
   (0x2, "REFERENCE_FLAG_DEFINED"),
   (0x3, "REFERENCE_FLAG_PRIVATE_DEFINED"),
   (0x4, "REFERENCE_FLAG_PRIVATE_UNDEFINED_NON_LAZY"),
   (0x5, "REFERENCE_FLAG_PRIVATE_UNDEFINED_LAZY")]

def genericRelocs : List (UInt8 × String) :=
  [(0, "GENERIC_RELOC_VANILLA"),
   (1, "GENERIC_RELOC_PAIR"),
   (2, "GENERIC_RELOC_SECTDIFF"),
   (3, "GENERIC_RELOC_PB_LA_PTR"),
   (4, "GENERIC_RELOC_LOCAL_SECTDIFF"),
   (5, "GENERIC_RELOC_TLV")]

def x86_64Relocs : List (UInt8 × String) :=
  [(0, "X86_64_RELOC_UNSIGNED"),
   (1, "X86_64_RELOC_SIGNED"),
   (2, "X86_64_RELOC_BRANCH"),
   (3, "X86_64_RELOC_GOT_LOAD"),
   (4, "X86_64_RELOC_GOT"),
   (5, "X86_64_RELOC_SUBTRACTOR"),
   (6, "X86_64_RELOC_SIGNED_1"),
   (7, "X86_64_RELOC_SIGNED_2"),
   (8, "X86_64_RELOC_SIGNED_4"),
   (9, "X86_64_RELOC_TLV")]

def armRelocs : List (UInt8 × String) :=
  [(0, "ARM_RELOC_VANILLA"),
   (1, "ARM_RELOC_PAIR"),
   (2, "ARM_RELOC_SECTDIFF"),
   (3, "ARM_RELOC_LOCAL_SECTDIFF"),
   (4, "ARM_RELOC_PB_LA_PTR"),
   (5, "ARM_RELOC_BR24"),
   (6, "ARM_THUMB_RELOC_BR22"),
   (7, "ARM_THUMB_32BIT_BRANCH"),
   (8, "ARM_RELOC_HALF"),
   (9, "ARM_RELOC_HALF_SECTDIFF")]

def arm64Relocs : List (UInt8 × String) :=
  [(0, "ARM64_RELOC_UNSIGNED"),
   (1, "ARM64_RELOC_SUBTRACTOR"),
   (2, "ARM64_RELOC_BRANCH26"),
   (3, "ARM64_RELOC_PAGE21"),
   (4, "ARM64_RELOC_PAGEOFF12"),
   (5, "ARM64_RELOC_GOT_LOAD_PAGE21"),
   (6, "ARM64_RELOC_GOT_LOAD_PAGEOFF12"),
   (7, "ARM64_RELOC_POINTER_TO_GOT"),
   (8, "ARM64_RELOC_TLVP_LOAD_PAGE21"),
   (9, "ARM64_RELOC_TLVP_LOAD_PAGEOFF12"),
   (10, "ARM64_RELOC_ADDEND"),
   (11, "ARM64_RELOC_AUTHENTICATED_POINTER")]

def powerPcRelocs : List (UInt8 × String) :=
  [(0, "PPC_RELOC_VANILLA"),
   (1, "PPC_RELOC_PAIR"),
   (2, "PPC_RELOC_BR14"),
   (3, "PPC_RELOC_BR24"),
   (4, "PPC_RELOC_HI16"),
   (5, "PPC_RELOC_LO16"),
   (6, "PPC_RELOC_HA16"),
   (7, "PPC_RELOC_LO14"),
   (8, "PPC_RELOC_SECTDIFF"),
   (9, "PPC_RELOC_PB_LA_PTR"),
   (10, "PPC_RELOC_HI16_SECTDIFF"),
   (11, "PPC_RELOC_LO16_SECTDIFF"),
   (12, "PPC_RELOC_HA16_SECTDIFF"),
   (13, "PPC_RELOC_JBSR"),
   (14, "PPC_RELOC_LO14_SECTDIFF"),
   (15, "PPC_RELOC_LOCAL_SECTDIFF")]

def relocs : Arch → List (UInt8 × String)
  | .x86 => genericRelocs
  | .x86_64 => x86_64Relocs
  | .arm => armRelocs
  | .arm64 => arm64Relocs
  | .powerPc | .powerPc64 => powerPcRelocs
  | .other _ => []

end MachInspect.Names
