/-!
# Primitive types

The arithmetic types of C that cross a binding: truth values, integers of fixed width and the three
binary floating-point formats. Each has one size, which is also its alignment.
-/

namespace HostBinding

inductive IntegerKind where
  | u8 | u16 | u32 | u64 | i8 | i16 | i32 | i64
deriving DecidableEq, Repr, Inhabited

inductive FloatKind where
  | f16 | f32 | f64
deriving DecidableEq, Repr, Inhabited

inductive Primitive where
  | bool
  | integral (kind : IntegerKind)
  | floating (kind : FloatKind)
deriving DecidableEq, Repr, Inhabited

namespace IntegerKind

/-- The name under which the host language and the serialized form know the kind. -/
def name : IntegerKind → String
  | u8 => "u8" | u16 => "u16" | u32 => "u32" | u64 => "u64"
  | i8 => "i8" | i16 => "i16" | i32 => "i32" | i64 => "i64"

def all : List IntegerKind :=
  [u8, u16, u32, u64, i8, i16, i32, i64]

def size : IntegerKind → Nat
  | u8 | i8 => 1
  | u16 | i16 => 2
  | u32 | i32 => 4
  | u64 | i64 => 8

def canonicalSpelling : IntegerKind → String
  | u8 => "uint8_t" | u16 => "uint16_t" | u32 => "uint32_t" | u64 => "uint64_t"
  | i8 => "int8_t" | i16 => "int16_t" | i32 => "int32_t" | i64 => "int64_t"

def ofName? (name : String) : Option IntegerKind :=
  all.find? (·.name == name)

theorem ofName?_name (kind : IntegerKind) : ofName? kind.name = some kind := by
  cases kind <;> decide

end IntegerKind

namespace FloatKind

def name : FloatKind → String
  | f16 => "f16" | f32 => "f32" | f64 => "f64"

def all : List FloatKind :=
  [f16, f32, f64]

def size : FloatKind → Nat
  | f16 => 2 | f32 => 4 | f64 => 8

def canonicalSpelling : FloatKind → String
  | f16 => "_Float16" | f32 => "float" | f64 => "double"

def ofName? (name : String) : Option FloatKind :=
  all.find? (·.name == name)

theorem ofName?_name (kind : FloatKind) : ofName? kind.name = some kind := by
  cases kind <;> decide

end FloatKind

namespace Primitive

def size : Primitive → Nat
  | bool => 1
  | integral kind => kind.size
  | floating kind => kind.size

/-- The spelling of a primitive whose declaration gave none. -/
def canonicalSpelling : Primitive → String
  | bool => "bool"
  | integral kind => kind.canonicalSpelling
  | floating kind => kind.canonicalSpelling

def isIntegral : Primitive → Bool
  | integral _ => true
  | _ => false

/-- Half floats have no host counterpart and travel as their bits. -/
def isHalf : Primitive → Bool
  | floating .f16 => true
  | _ => false

def hostName : Primitive → String
  | bool => "bool"
  | integral kind => kind.name
  | floating .f16 => "u16"
  | floating kind => kind.name

/-- The part that stands for the primitive in a mangled name: unlike the host type it tells a half
float from the integer that carries its bits. -/
def mangled : Primitive → String
  | bool => "bool"
  | integral kind => kind.name
  | floating kind => kind.name

def builtins : List (String × Primitive) :=
  [("bool", bool), ("_Bool", bool),
    ("char", integral .i8), ("signed char", integral .i8), ("int8_t", integral .i8),
    ("unsigned char", integral .u8), ("uint8_t", integral .u8),
    ("short", integral .i16), ("short int", integral .i16), ("signed short", integral .i16),
    ("signed short int", integral .i16), ("int16_t", integral .i16),
    ("unsigned short", integral .u16), ("unsigned short int", integral .u16),
    ("uint16_t", integral .u16),
    ("int", integral .i32), ("signed", integral .i32), ("signed int", integral .i32),
    ("int32_t", integral .i32),
    ("unsigned", integral .u32), ("unsigned int", integral .u32), ("uint32_t", integral .u32),
    ("long", integral .i64), ("long int", integral .i64), ("signed long", integral .i64),
    ("signed long int", integral .i64), ("long long", integral .i64),
    ("long long int", integral .i64), ("signed long long", integral .i64),
    ("signed long long int", integral .i64), ("int64_t", integral .i64),
    ("ptrdiff_t", integral .i64), ("ssize_t", integral .i64), ("intptr_t", integral .i64),
    ("unsigned long", integral .u64), ("unsigned long int", integral .u64),
    ("unsigned long long", integral .u64), ("unsigned long long int", integral .u64),
    ("uint64_t", integral .u64), ("size_t", integral .u64), ("uintptr_t", integral .u64),
    ("float", floating .f32), ("double", floating .f64),
    ("half", floating .f16), ("__half", floating .f16), ("_Float16", floating .f16),
    ("__fp16", floating .f16)]

/-- The primitive that a builtin spelling names, its words separated by one space and without
qualifiers. -/
def ofSpelling? (spelling : String) : Option Primitive :=
  builtins.lookup spelling

end Primitive

end HostBinding
