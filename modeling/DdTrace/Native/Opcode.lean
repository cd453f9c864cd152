import Mathlib.Algebra.Order.Ring.Nat
import Mathlib.Data.List.Basic

/-!
# Opcodes

The rows of `opcode.def` that the rewriter reads: the operand flags `s_OpCodeFlags`, the
stack pushes `k_rgnStackPushes` and the control flow of an opcode. A one-byte opcode is its
byte, a two-byte opcode `0x100` plus its second byte.
-/

namespace DdTrace.Native

/-- `m_opcode`. -/
abbrev OPCODE := ℕ

def CEE_NOP : OPCODE := 0x00
def CEE_LDARG_0 : OPCODE := 0x02
def CEE_LDARG_3 : OPCODE := 0x05
def CEE_LDLOC_0 : OPCODE := 0x06
def CEE_LDLOC_3 : OPCODE := 0x09
def CEE_STLOC_0 : OPCODE := 0x0A
def CEE_STLOC_3 : OPCODE := 0x0D
def CEE_LDARG_S : OPCODE := 0x0E
def CEE_LDLOC_S : OPCODE := 0x11
def CEE_LDLOCA_S : OPCODE := 0x12
def CEE_STLOC_S : OPCODE := 0x13
def CEE_LDNULL : OPCODE := 0x14
def CEE_LDC_I4_M1 : OPCODE := 0x15
def CEE_LDC_I4_0 : OPCODE := 0x16
def CEE_LDC_I4_8 : OPCODE := 0x1E
def CEE_LDC_I4_S : OPCODE := 0x1F
def CEE_LDC_I4 : OPCODE := 0x20
def CEE_LDC_I8 : OPCODE := 0x21
def CEE_DUP : OPCODE := 0x25
def CEE_POP : OPCODE := 0x26
def CEE_CALL : OPCODE := 0x28
def CEE_RET : OPCODE := 0x2A
def CEE_BR_S : OPCODE := 0x2B
def CEE_BLT_UN_S : OPCODE := 0x37
def CEE_BR : OPCODE := 0x38
def CEE_BLT_UN : OPCODE := 0x44
def CEE_CALLVIRT : OPCODE := 0x6F
def CEE_LDOBJ : OPCODE := 0x71
def CEE_BOX : OPCODE := 0x8C
def CEE_NEWARR : OPCODE := 0x8D
def CEE_STELEM_REF : OPCODE := 0xA2
def CEE_UNBOX_ANY : OPCODE := 0xA5
def CEE_ENDFINALLY : OPCODE := 0xDC
def CEE_LEAVE : OPCODE := 0xDD
def CEE_LEAVE_S : OPCODE := 0xDE
def CEE_PREFIX7 : OPCODE := 0xF8
def CEE_PREFIX2 : OPCODE := 0xFD
def CEE_PREFIX1 : OPCODE := 0xFE
def CEE_LDARG : OPCODE := 0x109
def CEE_LDLOC : OPCODE := 0x10C
def CEE_LDLOCA : OPCODE := 0x10D
def CEE_STLOC : OPCODE := 0x10E
def CEE_UNALIGNED : OPCODE := 0x112
def CEE_VOLATILE : OPCODE := 0x113
def CEE_TAILCALL : OPCODE := 0x114
def CEE_CONSTRAINED : OPCODE := 0x116
def CEE_RETHROW : OPCODE := 0x11A
def CEE_READONLY : OPCODE := 0x11E
/-- After the three internal opcodes behind `0x122`. -/
def CEE_COUNT : OPCODE := 0x126
/-- A target of a `switch`; not an opcode of its own. -/
def CEE_SWITCH_ARG : OPCODE := 0x127

/-- Whether the opcode lies in one of the ranges, ends included. -/
def inRanges (ranges : List (OPCODE × OPCODE)) (op : OPCODE) : Bool :=
  ranges.any fun (first, last) => first ≤ op && op ≤ last

/-! ## Operands -/

/-- The values of `s_OpCodeFlags`: an operand of 0, 1, 2, 4 or 8 bytes, a branch target of
1 or 4 bytes, or the count of a `switch`. -/
inductive OpCodeFlags where
  | none
  | arg8
  | arg16
  | arg32
  | arg64
  | branchTarget8
  | branchTarget32
  | switch
  deriving DecidableEq

/-- `OPCODEFLAGS_SizeMask`. -/
def OpCodeFlags.size : OpCodeFlags → ℕ
  | .none | .switch => 0
  | .arg8 | .branchTarget8 => 1
  | .arg16 => 2
  | .arg32 | .branchTarget32 => 4
  | .arg64 => 8

/-- `OPCODEFLAGS_BranchTarget`. -/
def OpCodeFlags.branchTarget : OpCodeFlags → Bool
  | .branchTarget8 | .branchTarget32 => true
  | _ => false

def shortInlineVar : List (OPCODE × OPCODE) := [(0x0E, 0x13)]
def inlineVar : List (OPCODE × OPCODE) := [(0x109, 0x10E)]
def shortInlineI : List (OPCODE × OPCODE) := [(0x1F, 0x1F), (0x112, 0x112)]
def inlineI : List (OPCODE × OPCODE) := [(0x20, 0x20)]
def inlineI8 : List (OPCODE × OPCODE) := [(0x21, 0x21)]
def shortInlineR : List (OPCODE × OPCODE) := [(0x22, 0x22)]
def inlineR : List (OPCODE × OPCODE) := [(0x23, 0x23)]
def shortInlineBrTarget : List (OPCODE × OPCODE) := [(0x2B, 0x37), (0xDE, 0xDE)]
def inlineBrTarget : List (OPCODE × OPCODE) := [(0x38, 0x44), (0xDD, 0xDD), (0x127, 0x127)]
def inlineMethod : List (OPCODE × OPCODE) :=
  [(0x27, 0x28), (0x6F, 0x6F), (0x73, 0x73), (0x106, 0x107)]
def inlineField : List (OPCODE × OPCODE) := [(0x7B, 0x80)]
def inlineType : List (OPCODE × OPCODE) :=
  [(0x70, 0x71), (0x74, 0x75), (0x79, 0x79), (0x81, 0x81), (0x8C, 0x8D), (0x8F, 0x8F),
    (0xA3, 0xA5), (0xC2, 0xC2), (0xC6, 0xC6), (0x115, 0x116), (0x11C, 0x11C)]
def inlineString : List (OPCODE × OPCODE) := [(0x72, 0x72)]
def inlineSig : List (OPCODE × OPCODE) := [(0x29, 0x29)]
def inlineTok : List (OPCODE × OPCODE) := [(0xD0, 0xD0)]
def inlineSwitch : List (OPCODE × OPCODE) := [(0x45, 0x45)]

def s_OpCodeFlags (op : OPCODE) : OpCodeFlags :=
  if inRanges (shortInlineVar ++ shortInlineI) op then .arg8
  else if inRanges inlineVar op then .arg16
  else if inRanges (inlineI ++ shortInlineR ++ inlineMethod ++ inlineField ++ inlineType ++
      inlineString ++ inlineSig ++ inlineTok) op then .arg32
  else if inRanges (inlineI8 ++ inlineR) op then .arg64
  else if inRanges shortInlineBrTarget op then .branchTarget8
  else if inRanges inlineBrTarget op then .branchTarget32
  else if inRanges inlineSwitch op then .switch
  else .none

/-! ## Stack pushes -/

/-- The opcodes that push one value. -/
def pushesOne : List (OPCODE × OPCODE) :=
  [(0x02, 0x09), (0x0E, 0x0F), (0x11, 0x12), (0x14, 0x23), (0x28, 0x29), (0x46, 0x50),
    (0x58, 0x6F), (0x71, 0x76), (0x79, 0x79), (0x7B, 0x7C), (0x7E, 0x7F), (0x82, 0x9A),
    (0xA3, 0xA3), (0xA5, 0xA5), (0xB3, 0xBA), (0xC2, 0xC3), (0xC6, 0xC6), (0xD0, 0xDB),
    (0xE0, 0xE0), (0x100, 0x107), (0x109, 0x10A), (0x10C, 0x10D), (0x10F, 0x10F),
    (0x11C, 0x11D)]

def k_rgnStackPushes (op : OPCODE) : ℕ :=
  if op = CEE_DUP then 2 else if inRanges pushesOne op then 1 else 0

/-! ## Control flow -/

/-- `BRANCH` and `COND_BRANCH`. -/
def isBranch (op : OPCODE) : Bool := inRanges [(0x2B, 0x45), (0xDD, 0xDE)] op

/-- `RETURN` and `THROW`. -/
def endsBlock (op : OPCODE) : Bool :=
  inRanges [(0x2A, 0x2A), (0x7A, 0x7A), (0xDC, 0xDC), (0x111, 0x111), (0x11A, 0x11A)] op

/-- Control goes on to the next instruction. -/
def fallsThrough (op : OPCODE) : Bool :=
  !isBranch op && !endsBlock op && op != CEE_SWITCH_ARG

end DdTrace.Native
