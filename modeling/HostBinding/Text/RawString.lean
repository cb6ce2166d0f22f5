/-!
# Raw string literals

A raw string literal ends at the first quote that as many hashes follow as stand before its opening
quote. One hash more than the longest run that follows a quote inside the text can therefore not end the
literal early.
-/

namespace HostBinding.Text

/-- The longest run of hashes that follows a quote. The state is the length of the run being read, when
there is one. -/
def longestRun : Option Nat → List Char → Nat
  | _, [] => 0
  | _, '"' :: rest => longestRun (some 0) rest
  | some run, '#' :: rest => max (run + 1) (longestRun (some (run + 1)) rest)
  | _, _ :: rest => longestRun none rest

def hashCount (text : List Char) : Nat :=
  longestRun none text + 1

def rawString (text : String) : String :=
  let hashes := String.ofList (List.replicate (hashCount text.toList) '#')
  "r" ++ hashes ++ "\"" ++ text ++ "\"" ++ hashes

end HostBinding.Text
