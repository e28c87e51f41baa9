/-
  The words of the assembly language that readers look for by name.
-/
import LlvmAsm.Text

namespace LlvmAsm.Vocabulary

/-- The operations of a constant expression. -/
def expressions : List Text :=
  ["getelementptr", "bitcast", "inttoptr", "ptrtoint", "mul", "icmp", "zext", "sub", "add", "div"]

/-- Arithmetic on integers and floating point numbers. -/
def arithmetic : List Text :=
  ["add", "sub", "mul", "sdiv", "udiv", "srem", "urem", "fadd", "fsub", "fmul", "fdiv"]

/-- Comparisons; the relation follows the word. -/
def comparisons : List Text := ["icmp", "fcmp"]

/-- Conversions from one type to another. -/
def conversions : List Text :=
  ["zext", "sext", "trunc", "fpext", "fptrunc", "fptoui", "fptosi", "uitofp", "sitofp",
   "ptrtoint", "inttoptr"]

/-- Operations on the bits of integers. -/
def bitwise : List Text := ["shl", "shr", "ashl", "ashr", "lshr", "lshl", "xor", "or", "and"]

/-- The instructions that compute a value from operands. -/
def operations : List Text := arithmetic ++ comparisons ++ conversions ++ bitwise ++ ["select".toList]

/-- What may be promised about overflow. -/
def overflowFlags : List Text := ["nsw", "nuw", "exact"]

/-- How a symbol is linked. -/
def linkages : List Text :=
  ["private", "linker_private", "internal", "available_externally", "linkonce", "weak", "common",
   "appending", "extern_weak", "linkonce_odr", "weak_odr", "externally_visible", "dllimport",
   "dllexport", "external"]

/-- Who sees a symbol. -/
def visibilities : List Text := ["default", "hidden", "protected"]

/-- How a function is called. -/
def callingConventions : List Text :=
  ["ccc", "fastcc", "coldcc", "cc10", "x86_stdcallcc", "x86_fastcallcc", "x86_thiscallcc",
   "arm_apcscc", "arm_aapcscc", "arm_aapcs_vfpcc"]

/-- The attributes of a parameter. -/
def parameterAttributes : List Text :=
  ["zeroext", "signext", "inreg", "byval", "sret", "noalias", "nocapture", "nest"]

/-- The attributes of a function. -/
def functionAttributes : List Text :=
  ["alignstack", "alwaysinline", "inlinehint", "naked", "noimplicitfloat", "noinline", "noredzone",
   "noreturn", "nounwind", "optsize", "readnone", "readonly", "ssp", "sspreq"]

/-- What may stand between the equals sign and the type of a global variable,
    `external` apart, which is recorded. -/
def globalModifiers : List Text :=
  ["private", "linker_private", "internal", "available_externally", "linkonce", "weak", "common",
   "appending", "extern_weak", "linkonce_odr", "weak_odr", "dllimport", "dllexport", "default",
   "hidden", "protected", "thread_local", "unnamed_addr", "global", "constant"]

/-- The words that may decorate the line of a function without a bearing on its
    signature. -/
def decorations : List Text :=
  linkages ++ visibilities ++ callingConventions ++ parameterAttributes ++ functionAttributes
    ++ ["unnamed_addr".toList]

end LlvmAsm.Vocabulary
