import HostBinding.CType.Spelling
import HostBinding.FunctionBinding.Plan
import HostBinding.Text.Line

/-!
# The texts of a function binding

From one plan come the host declaration of the shim, the host function that calls it, and the shim itself.
Host and native parameters are written in the same order under the same names.
-/

namespace HostBinding.FunctionPlan

open Text

def externType (param : ParamPlan) : String :=
  match param.mode with
  | .direct => param.host.spell
  | .indirect => "*const " ++ param.host.spell
  | .mutable => "*mut " ++ param.host.spell

def externParam (param : ParamPlan) : String :=
  param.ident ++ ": " ++ externType param

def externParams (plan : FunctionPlan) : List String :=
  let out := match plan.ret with
    | .outParam _ host => ["retval: *mut " ++ host.spell]
    | _ => []
  out ++ plan.params.map externParam

def arrow (host : Option HostType) : String :=
  match host with
  | some host => " -> " ++ host.spell
  | none => ""

def externResult (plan : FunctionPlan) : String :=
  match plan.ret with
  | .byValue _ host => arrow (some host)
  | _ => ""

def externLines (plan : FunctionPlan) : List String :=
  ["unsafe extern \"C\" \x7b",
    "    fn " ++ plan.shimName ++ "(" ++ ", ".intercalate plan.externParams ++ ")" ++
      plan.externResult ++ ";",
    "\x7d"]

def callArgument (param : ParamPlan) : String :=
  match param.mode with
  | .direct | .mutable => param.ident
  | .indirect => "&" ++ param.ident

def callArguments (plan : FunctionPlan) : List String :=
  let out := match plan.ret with
    | .outParam _ _ => ["__retval.as_mut_ptr()"]
    | _ => []
  out ++ plan.params.map callArgument

def proxyBody (plan : FunctionPlan) : List String :=
  let call := plan.shimName ++ "(" ++ ", ".intercalate plan.callArguments ++ ")"
  match plan.ret with
  | .void => ["    unsafe \x7b " ++ call ++ " \x7d;"]
  | .byValue _ _ => ["    unsafe \x7b " ++ call ++ " \x7d"]
  | .outParam _ host =>
    ["    let mut __retval = MaybeUninit::<" ++ host.spell ++ ">::uninit();",
      "    unsafe \x7b " ++ call ++ " \x7d;",
      "    unsafe \x7b __retval.assume_init() \x7d"]

def proxyDocs (plan : FunctionPlan) (header : String) : List String :=
  let natives := ", ".intercalate (plan.params.map (·.native.spell))
  ("/// Calls native `" ++ plan.nativeName ++ "(" ++ natives ++ ")` (`" ++ header ++ "`).") ::
    if plan.isUnsafe then
      ["///", "/// # Safety", "///", "/// Raw pointers are handed to native code unchecked."]
    else []

def proxyParam (param : ParamPlan) : String :=
  param.ident ++ ": " ++ (if param.mode = .mutable then "&mut " else "") ++ param.host.spell

def proxyHead (plan : FunctionPlan) : String :=
  (if plan.isUnsafe then "pub unsafe fn " else "pub fn ") ++ plan.proxyName ++ "(" ++
    ", ".intercalate (plan.params.map proxyParam) ++ ")" ++ arrow plan.ret.host? ++ " \x7b"

/-- The host side: the declaration of the shim and the function that calls it. -/
def proxyText (plan : FunctionPlan) (header : String) : String :=
  unlines <| plan.externLines ++ [""] ++ plan.proxyDocs header ++ [plan.proxyHead] ++
    plan.proxyBody ++ ["\x7d"]

/-- The native type of a shim's parameter. Constness stands to the right, where it also fits a pointer
type. -/
def shimType (param : ParamPlan) : String :=
  match param.mode with
  | .direct => param.value.spell ++ " "
  | .indirect => param.value.spell ++ " const *"
  | .mutable => param.value.spell ++ " *"

def shimParams (plan : FunctionPlan) : List String :=
  let out := match plan.ret with
    | .outParam value _ => [value.spell ++ " *retval"]
    | _ => []
  out ++ plan.params.map fun param => shimType param ++ param.ident

def nativeCall (plan : FunctionPlan) : String :=
  let arguments := plan.params.map fun param =>
    match param.mode with
    | .direct => param.ident
    | .indirect | .mutable => "*" ++ param.ident
  match plan.operator with
  | none => plan.nativeName ++ "(" ++ ", ".intercalate arguments ++ ")"
  | some operator =>
    if operator.isUnary then operator.symbol ++ "(" ++ arguments.getD 0 "" ++ ")"
    else "(" ++ arguments.getD 0 "" ++ ") " ++ operator.symbol ++ " (" ++ arguments.getD 1 "" ++ ")"

def shimText (plan : FunctionPlan) (qualifiers : String) : String :=
  let params := if plan.shimParams.isEmpty then "void" else ", ".intercalate plan.shimParams
  let returned := match plan.ret with
    | .byValue value _ => value.spell
    | _ => "void"
  let qualifiers := trim qualifiers.toList
  let qualifiers := if qualifiers.isEmpty then "" else String.ofList qualifiers ++ " "
  let statement := match plan.ret with
    | .void => plan.nativeCall ++ ";"
    | .outParam _ _ => "*retval = " ++ plan.nativeCall ++ ";"
    | .byValue _ _ => "return " ++ plan.nativeCall ++ ";"
  unlines ["extern \"C\" " ++ qualifiers ++ returned ++ " " ++ plan.shimName ++ "(" ++ params ++
    ") \x7b", "    " ++ statement, "\x7d"]

end HostBinding.FunctionPlan
