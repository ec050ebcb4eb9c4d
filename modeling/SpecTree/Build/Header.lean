import SpecTree.Path.Basic
import SpecTree.Text.Lowercase

/-!
# Provenance headers

A generated file opens with a comment that says which node it comes from, in the comment style of
its language. An interpreter line stays first; files of other kinds are left alone.
-/

namespace SpecTree.Header

/-- How a comment of several lines is written. -/
structure Style where
  opener : Option String
  lead : String
  closer : Option String

def block : Style := ⟨some "/**", " * ", some " */"⟩
def hash : Style := ⟨none, "# ", none⟩
def dashes : Style := ⟨none, "-- ", none⟩
def markup : Style := ⟨some "<!--", "  ", some "-->"⟩

/-- The comment style for a file name extension in lower case. -/
def styleFor? (extension : String) : Option Style :=
  if ["ts", "tsx", "js", "jsx", "mjs", "cjs", "css", "scss", "less", "java", "c", "cpp", "h",
      "hpp", "go", "rs", "swift", "kt"].contains extension then some block
  else if ["py", "rb", "sh", "bash", "zsh", "yaml", "yml", "toml"].contains extension then
    some hash
  else if ["html", "xml", "svg"].contains extension then some markup
  else if extension = "sql" then some dashes
  else none

/-- The comment with a blank line after it. -/
def text (style : Style) (nodePath : String) : String :=
  let lines := style.opener.toList
    ++ [style.lead ++ "Generated by AIDef from: " ++ nodePath,
      style.lead ++ "DO NOT EDIT - changes will be overwritten"]
    ++ style.closer.toList
  String.intercalate "\n" lines ++ "\n\n"

/-- The content with the header in front, behind an interpreter line. -/
def insert (header : String) (content : List Char) : List Char :=
  if ['#', '!'].isPrefixOf content then
    content.takeWhile (· != '\n') ++ '\n' :: header.toList
      ++ (content.dropWhile (· != '\n')).drop 1
  else header.toList ++ content

/-- The content of a generated file with its provenance. -/
def add (content path nodePath : String) : String :=
  match styleFor? (Text.lower ((Path.extension? path).getD "")) with
  | none => content
  | some style => String.ofList (insert (text style nodePath) content.toList)

end SpecTree.Header
