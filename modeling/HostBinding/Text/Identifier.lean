import HostBinding.Text.Blank

/-!
# Host identifiers

Names in native declarations are free text as far as the host language is concerned. A name becomes an
identifier in two independent ways: `sanitize` replaces every character that no identifier may hold, and
`escapeKeyword` keeps a name that is an identifier already but is reserved by the host language.
-/

namespace HostBinding.Text

/-- Writes a qualified name with `_` in place of every `::`. -/
def flattenScopes (name : String) : String :=
  String.ofList (['_'].intercalate (scopes name.toList))

def isWordChar (c : Char) : Bool :=
  c.isAlphanum || c == '_'

/-- Whether a text can start an identifier: it is not empty and its first character is no digit. -/
def startsIdentifier : List Char → Bool
  | [] => false
  | c :: _ => !c.isDigit

/-- Whether a text is an identifier over the ASCII letters, the digits and the underscore. -/
def isIdentifier (text : List Char) : Bool :=
  startsIdentifier text && text.all isWordChar

def isQualifiedIdentifier (text : List Char) : Bool :=
  (scopes text).all isIdentifier

/-- The identifier that stands for a native name: scopes are flattened, every other character that is
not allowed becomes `_`, and a leading digit or an empty name is preceded by `_`. -/
def sanitize (name : String) : String :=
  let stem := (flattenScopes name).toList.map fun c => if isWordChar c then c else '_'
  String.ofList (if startsIdentifier stem then stem else '_' :: stem)

/-- Keywords of the host language that can be written as raw identifiers. -/
def keywords : List String :=
  ["as", "break", "const", "continue", "else", "enum", "extern", "false", "fn", "for", "if", "impl",
    "in", "let", "loop", "match", "mod", "move", "mut", "pub", "ref", "return", "static", "struct",
    "trait", "true", "type", "unsafe", "use", "where", "while", "async", "await", "dyn", "abstract",
    "become", "box", "do", "final", "gen", "macro", "override", "priv", "typeof", "unsized",
    "virtual", "yield", "try"]

def pathKeywords : List String :=
  ["crate", "self", "Self", "super", "_"]

def rawMark : String :=
  "r#"

/-- A name in a form that the host language does not reserve. -/
def escapeKeyword (name : String) : String :=
  if pathKeywords.contains name then name ++ "_"
  else if keywords.contains name then rawMark ++ name
  else name

end HostBinding.Text
