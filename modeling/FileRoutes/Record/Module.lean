import FileRoutes.Page.Meta
import FileRoutes.FilePath

/-!
# Metadata modules

The part of a page that declares its metadata stands by itself in a module, so that it can be loaded
without the page.

* `MetaModule`: the module of a page, by its identifier and its code.
* `MetaModule.ofPage`: the module of a page with given metadata.
-/

namespace FileRoutes

/-- A module that exports the metadata object of a page. -/
structure MetaModule where
  id : String
  file : FilePath
  code : String
  deriving DecidableEq, Repr

namespace MetaModule

/-- The name of the object in the code of a module. -/
def binding : String := "__page_meta"

/-- What the identifier of a module adds to the path of its page. -/
def query : String := "?macro=true"

/-- The code that exports an object literal; without one, an empty object. -/
def codeOf : Option String → String
  | some definition =>
    "const " ++ binding ++ " = " ++ definition ++ "\nexport default " ++ binding ++ "\n"
  | none => "export default \x7b\x7d\n"

/-- The module of a page, given its metadata if it declares any. -/
def ofPage (file : FilePath) (found : Option PageMeta) : MetaModule where
  id := file.text ++ query
  file := file
  code := codeOf (found.bind PageMeta.definition)

/-- The modules differ in the spelling of their files at most. -/
def same (a b : MetaModule) : Bool :=
  a.id == b.id && decide (a.file.Same b.file) && a.code == b.code

end MetaModule

end FileRoutes
