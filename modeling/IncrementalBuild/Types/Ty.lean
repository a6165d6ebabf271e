import IncrementalBuild.Types.Primitive

/-!
# Types as trees

What a type is, all of its components included, and how it is written. The calling
convention of a function type is part of the type and not of its written form.
-/

set_option autoImplicit false

namespace IncrementalBuild

/-- The qualifiers of a pointer type. -/
structure Qualifiers where
  isConst : Bool := false
  isVolatile : Bool := false
  /-- A pointer to any number of values, written `[*]`. -/
  isMany : Bool := false
  /-- A pointer that may be the address zero. -/
  allowZero : Bool := false
  deriving DecidableEq, Inhabited

namespace Qualifiers

/-- One bit for each qualifier, in order of declaration. -/
def toBits (q : Qualifiers) : Nat :=
  q.isConst.toNat + 2 * q.isVolatile.toNat + 4 * q.isMany.toNat + 8 * q.allowZero.toNat

/-- The qualifiers of the four lowest bits. -/
def ofBits (n : Nat) : Qualifiers where
  isConst := n.testBit 0
  isVolatile := n.testBit 1
  isMany := n.testBit 2
  allowZero := n.testBit 3

/-- The written form: the kind of pointer, then each further qualifier before a space. -/
def text (q : Qualifiers) : String :=
  (if q.isMany then "[*]" else "*") ++ (if q.allowZero then "allowzero " else "")
    ++ (if q.isConst then "const " else "") ++ (if q.isVolatile then "volatile " else "")

end Qualifiers

/-- How a function is called. -/
inductive CallingConvention where
  | unspecified
  | c
  | naked
  deriving DecidableEq, Inhabited

/-- A type with all of its components. -/
inductive Ty where
  | primitive (p : Primitive)
  | int (signedness : Signedness) (bits : Nat)
  | array (element : Ty) (length : Nat)
  | pointer (pointee : Ty) (qualifiers : Qualifiers)
  | function (params : List Ty) (result : Ty) (convention : CallingConvention)
  deriving Inhabited

/-- The written form of a type. -/
def Ty.text : Ty → String
  | .primitive p => p.spelling
  | .int s bits => s.letter ++ toString bits
  | .array element length => "[" ++ toString length ++ "]" ++ element.text
  | .pointer pointee q => q.text ++ pointee.text
  | .function params result _ =>
    "fn(" ++ ", ".intercalate (params.map Ty.text) ++ ") " ++ result.text

end IncrementalBuild
