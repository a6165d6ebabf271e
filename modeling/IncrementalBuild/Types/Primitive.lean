/-!
# Types and values that are known by name

The named primitive types and values, and the reading of a type name: a primitive's
spelling, or `i` or `u` followed by a width in bits.
-/

set_option autoImplicit false

namespace IncrementalBuild

/-- The named primitive types, in the order in which a store creates them. -/
inductive Primitive where
  | void
  | bool
  | noreturn
  | type
  | comptimeInt
  | comptimeFloat
  | usize
  | isize
  | cShort
  | cUshort
  | cInt
  | cUint
  | cLong
  | cUlong
  | cLonglong
  | cUlonglong
  | undefined
  | null
  deriving DecidableEq, Inhabited

namespace Primitive

/-- Every primitive, in order. -/
def all : List Primitive :=
  [.void, .bool, .noreturn, .type, .comptimeInt, .comptimeFloat, .usize, .isize, .cShort,
    .cUshort, .cInt, .cUint, .cLong, .cUlong, .cLonglong, .cUlonglong, .undefined, .null]

/-- The spelling of a primitive. -/
def spelling : Primitive → String
  | .void => "void"
  | .bool => "bool"
  | .noreturn => "noreturn"
  | .type => "type"
  | .comptimeInt => "comptime_int"
  | .comptimeFloat => "comptime_float"
  | .usize => "usize"
  | .isize => "isize"
  | .cShort => "c_short"
  | .cUshort => "c_ushort"
  | .cInt => "c_int"
  | .cUint => "c_uint"
  | .cLong => "c_long"
  | .cUlong => "c_ulong"
  | .cLonglong => "c_longlong"
  | .cUlonglong => "c_ulonglong"
  | .undefined => "@TypeOf(undefined)"
  | .null => "@TypeOf(null)"

/-- The primitive with a spelling. -/
def ofSpelling? (name : String) : Option Primitive := all.find? (·.spelling == name)

end Primitive

/-- The named primitive values. -/
inductive PrimitiveValue where
  | true
  | false
  | undefined
  | null
  | void
  deriving DecidableEq, Inhabited

namespace PrimitiveValue

/-- Every primitive value. -/
def all : List PrimitiveValue := [.true, .false, .undefined, .null, .void]

/-- The name a value is asked for by. -/
def name : PrimitiveValue → String
  | .true => "true"
  | .false => "false"
  | .undefined => "undefined"
  | .null => "null"
  | .void => "void"

/-- The written form of a value, which for the void value is a pair of braces. -/
def text : PrimitiveValue → String
  | .void => "\x7b\x7d"
  | v => v.name

/-- The type of a value. -/
def type : PrimitiveValue → Primitive
  | .true | .false => .bool
  | .undefined => .undefined
  | .null => .null
  | .void => .void

/-- The value with a name. -/
def ofName? (name : String) : Option PrimitiveValue := all.find? (·.name == name)

end PrimitiveValue

/-- Whether an integer type has negative values. -/
inductive Signedness where
  | signed
  | unsigned
  deriving DecidableEq, Inhabited

/-- What is wrong with the width of an integer type. -/
inductive WidthError where
  | notADigit
  | tooLarge
  | zero
  deriving DecidableEq

/-- The largest width of an integer type. -/
def maxWidth : Nat := 65535

/-- The wording of a width error. -/
def WidthError.message : WidthError → String
  | .notADigit => "integer width contains a non-digit character"
  | .tooLarge => s!"integer width exceeds {maxWidth} bits"
  | .zero => "integer types must have at least one bit"

/-- The width that digits write after `bits` has been read, from left to right: the first
character that is no digit, or that makes the number too large, decides. -/
def widthFrom (bits : Nat) : List Char → Except WidthError Nat
  | [] => if bits = 0 then .error .zero else .ok bits
  | c :: rest =>
    if c.isDigit then
      let bits := bits * 10 + (c.toNat - '0'.toNat)
      if maxWidth < bits then .error .tooLarge else widthFrom bits rest
    else .error .notADigit

/-- A type that a single name denotes. -/
inductive NamedType where
  | primitive (p : Primitive)
  | int (signedness : Signedness) (bits : Nat)
  deriving DecidableEq

/-- The sign an integer type's name starts with. -/
def Signedness.ofLetter? : Char → Option Signedness
  | 'i' => some .signed
  | 'u' => some .unsigned
  | _ => none

/-- The letter an integer type's name starts with. -/
def Signedness.letter : Signedness → String
  | .signed => "i"
  | .unsigned => "u"

/-- The type a name denotes: a primitive by its spelling, else an integer type if the name
is `i` or `u` and at least one more character, which must then be a width. Any other name
denotes none. -/
def NamedType.ofName? (name : String) : Except WidthError (Option NamedType) :=
  match Primitive.ofSpelling? name with
  | some p => .ok (some (.primitive p))
  | none =>
    match name.toList with
    | letter :: first :: rest =>
      match Signedness.ofLetter? letter with
      | some s => (widthFrom 0 (first :: rest)).map fun bits => some (.int s bits)
      | none => .ok none
    | _ => .ok none

end IncrementalBuild
