import HostBinding.Proofs.Text.Cut
import HostBinding.Proofs.Text.Lines
import HostBinding.StructBinding.Text

/-!
# Comments stay comments

The comment of a struct is free text, of many lines and perhaps with code in it. It goes into one place of a proxy, behind
the line that says what the proxy stands for. Every line that is written for it is documentation, whatever it looks
like: one for each line of the comment and an empty one before them. What comes before and behind is the same for every
comment.
-/

namespace HostBinding.StructBinding

open Text

/-- The documentation that a comment makes. -/
def commentLines : Option String → List String
  | none => []
  | some comment => "///" :: docLines comment

theorem isDocLine_of_mem_commentLines {comment : Option String} {line : String} (h : line ∈ commentLines comment) :
    IsDocLine line := by
  cases comment with
  | none => cases h
  | some text =>
    rcases List.mem_cons.mp h with rfl | hline
    · decide
    · exact isDocLine_of_mem_docLines hline

namespace ProxyText

def title : ProxyBody → String
  | .bytes => "Opaque proxy"
  | .fieldwise _ => "Proxy"

def opening (p : ProxyText) (body : ProxyBody) : String :=
  "/// " ++ title body ++ " for native `" ++ p.nativeName ++ "` (`" ++ p.header ++ "`)."

theorem docs_title (p : ProxyText) (body : ProxyBody) :
    p.docs (title body) = p.opening body :: commentLines p.comment := by
  rw [docs, opening]
  cases p.comment <;> rfl

def withComment (p : ProxyText) (comment : Option String) : ProxyText :=
  { p with comment := comment }

/-- The comment is written into the documentation and nowhere else. -/
theorem exists_write_eq (p : ProxyText) (body : ProxyBody) :
    ∃ code, ∀ comment, (p.withComment comment).write body =
      unlines ((p.withComment comment).docs (title body)) ++ code := by
  cases body with
  | bytes =>
    refine ⟨?behindBytes, fun comment => ?written⟩
    case written =>
      simp only [withComment, write, bytes, assertions, title, List.append_assoc, unlines_append]
      rfl
  | fieldwise fields =>
    refine ⟨?behindFields, fun comment => ?written⟩
    case written =>
      simp only [withComment, write, fieldwise, assertions, title, List.append_assoc, unlines_append]
      rfl

/-- **A comment cannot leave the documentation.** Whatever the comment is, the text of a proxy is the same first line,
then the lines that the comment makes, then the same code. Without a comment there are no such lines; a comment makes one
line more than it has, and each of them is a line of documentation. -/
theorem write_withComment (p : ProxyText) (body : ProxyBody) :
    (∃ code, ∀ comment, (p.withComment comment).write body =
      unlines [p.opening body] ++ unlines (commentLines comment) ++ code) ∧
    commentLines none = [] ∧
    ∀ text, (commentLines (some text)).length = lineCount text.toList + 1 ∧
      ∀ line ∈ commentLines (some text), IsDocLine line := by
  obtain ⟨code, hcode⟩ := p.exists_write_eq body
  refine ⟨⟨code, fun comment => ?_⟩, rfl, fun text => ⟨?_, fun line => isDocLine_of_mem_commentLines⟩⟩
  · have hopening : (p.withComment comment).docs (title body) = p.opening body :: commentLines comment :=
      (p.withComment comment).docs_title body
    rw [hcode, hopening, ← List.singleton_append, unlines_append]
  · rw [commentLines, List.length_cons, length_docLines]

namespace Sample

def marker : ProxyText where
  nativeName := "ns::Marker"
  hostName := "ns_Marker"
  header := "marker.h"
  comment := none
  layout := { name := "ns::Marker", fields := [], size := 1, alignment := 1 }

def sly : String :=
  "ends\r\n\x7d\n\n#[no_mangle] */ pub fn f() \x7b\x7d\r\n \t\n/// \\"

end Sample

open ProxyText.Sample in
theorem write_withComment_sly :
    commentLines (some sly) = ["///", "/// ends", "/// \x7d", "///", "/// #[no_mangle] */ pub fn f() \x7b\x7d", "///",
      "/// /// \\"] ∧
    (∀ line ∈ commentLines (some sly), IsDocLine line) ∧
    ∃ code, (marker.withComment none).write (.fieldwise []) = unlines [marker.opening (.fieldwise [])] ++ code ∧
      (marker.withComment (some sly)).write (.fieldwise []) =
        unlines [marker.opening (.fieldwise [])] ++ unlines (commentLines (some sly)) ++ code := by
  obtain ⟨⟨code, hcode⟩, hnone, hsome⟩ := marker.write_withComment (.fieldwise [])
  refine ⟨by decide +kernel, (hsome sly).2, code, ?_, hcode (some sly)⟩
  rw [hcode none, hnone]
  simp [unlines]

end ProxyText

end HostBinding.StructBinding
