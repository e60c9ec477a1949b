import Tinox.Syntax.Ast

/-!
# Source files

Paths, the file system, and what is checked of every source file before its
imports are resolved.
-/

namespace Tinox.Imports

open Tinox.Syntax

/-- The components of a path.  An absolute path starts with `/`. -/
abbrev Path := List String

namespace Path

/-- `display`. -/
def display : Path → String
  | "/" :: path => "/" ++ "/".intercalate path
  | path => "/".intercalate path

/-- `parent`. -/
def parent : Path → Option Path
  | [] => none
  | ["/"] => none
  | path => some path.dropLast

/-- The name before and behind its last dot.  A dot at the start does not
count. -/
def splitName (name : String) : String × Option String :=
  match name.toList.reverse.span fun c => c != '.' with
  | (extension, _ :: c :: stem) =>
      (String.ofList (c :: stem).reverse, some (String.ofList extension.reverse))
  | _ => (name, none)

/-- `file_stem`. -/
def fileStem (path : Path) : String :=
  (splitName (path.getLastD "")).1

/-- `extension`. -/
def extension (path : Path) : Option String :=
  (splitName (path.getLastD "")).2

end Path

/-- A file system: what its operations return, and its finitely many files.
Errors are texts. -/
structure FileSystem where
  canonicalize : Path → Except String Path
  isDir : Path → Bool
  readDir : Path → Except String (List Path)
  readToString : Path → Except String String
  files : List Path
  mem_files : ∀ path file, canonicalize path = .ok file → file ∈ files

mutual

/-- The names of the types in a declaration. -/
def typeDeclNames : Decl → List String
  | .class_ c => [c.name]
  | .interface i => [i.name]
  | .enum e => [e.name]
  | .namespace_ _ decls _ => collectTypeDeclNames decls
  | _ => []

/-- `collect_type_decl_names`. -/
def collectTypeDeclNames : List Decl → List String
  | [] => []
  | decl :: decls => typeDeclNames decl ++ collectTypeDeclNames decls

end

/-- `check_one_type_per_file`. -/
def checkOneTypePerFile (decls : List Decl) (path : Path) : Except String Unit :=
  match collectTypeDeclNames decls with
  | [] => .ok ()
  | [only] =>
      if only = path.fileStem then .ok ()
      else
        .error ("'" ++ path.display ++ "' declares '" ++ only ++ "', but the file must be named '" ++
          only ++ ".tnx' (one type per file, filename must match exactly)")
  | many =>
      .error ("'" ++ path.display ++ "' declares " ++ toString many.length ++ " types (" ++
        ", ".intercalate many ++
        "), but only one class/interface/enum is allowed per file — split it into separate files")

mutual

/-- The names of the functions with a body in a declaration. -/
def topLevelFnNames : Decl → List String
  | .function f =>
      match f.body with
      | .empty => []
      | _ => [f.name]
  | .namespace_ _ decls _ => collectTopLevelFnNames decls
  | _ => []

/-- `collect_top_level_fn_names`. -/
def collectTopLevelFnNames : List Decl → List String
  | [] => []
  | decl :: decls => topLevelFnNames decl ++ collectTopLevelFnNames decls

end

/-- `check_no_top_level_fn`. -/
def checkNoTopLevelFn (decls : List Decl) (path : Path) : Except String Unit :=
  match collectTopLevelFnNames decls with
  | [] => .ok ()
  | names =>
      .error ("'" ++ path.display ++ "' declares " ++ toString names.length ++
        " top-level function" ++ (if names.length = 1 then "" else "s") ++ " (" ++
        ", ".intercalate names ++
        ") — Tinox no longer allows free functions outside a class; move " ++
        (if names.length = 1 then "it" else "them") ++
        " into a class as a `fnc` (static) or `fn` (instance) method")

end Tinox.Imports
