import Mathlib.Data.List.Lex
import Mathlib.Data.String.Basic
import Tinox.Imports.Files
import Tinox.Search.PostOrder

/-!
# Resolution of imports

What file or directory an import stands for, the directories of installed
dependencies, and the recursive merge of `resolve_imports`.  The lexer and the
parser are one parameter.
-/

namespace Tinox.Imports

open Tinox.Syntax

/-- The fields of a `Dependency` that name it and its origin. -/
structure Dependency where
  group : String
  artifactId : String
  version : String
  url : Option String
  repository : Option String

/-- `MissingDep`. -/
structure MissingDep where
  group : String
  artifactId : String
  version : String

/-- `sanitize_path_component`. -/
def sanitizePathComponent (value field : String) : Except String Unit :=
  if value = "" ∨ value = "." ∨ value = ".." ∨ value.toList.contains '/' ∨
      value.toList.contains '\\' ∨ value.toList.contains '\x00' then
    .error ("invalid dependency " ++ field ++ ": " ++ value.quote ++
      " is not a valid path segment")
  else .ok ()

/-- `dep_install_dir`. -/
def depInstallDir (root : Path) (dep : Dependency) : Except String Path := do
  sanitizePathComponent dep.group "group"
  sanitizePathComponent dep.artifactId "artifactId"
  sanitizePathComponent dep.version "version"
  return root ++ [".tinox", "deps", dep.group, dep.artifactId, dep.version]

/-- `global_dep_install_dir`, with the tinox home directory if there is one. -/
def globalDepInstallDir (home : Option Path) (dep : Dependency) : Except String Path := do
  let repoId := dep.repository.getD "central"
  sanitizePathComponent repoId "repository"
  sanitizePathComponent dep.group "group"
  sanitizePathComponent dep.artifactId "artifactId"
  sanitizePathComponent dep.version "version"
  match home with
  | some home =>
      return home ++ [".tinox", "repository", repoId, dep.group, dep.artifactId, dep.version]
  | none => throw "Cannot determine home directory (HOME/TINOX_HOME unset)"

/-- `resolved_install_dir`. -/
def resolvedInstallDir (root : Path) (home : Option Path) (dep : Dependency) :
    Except String Path :=
  if dep.url.isSome then depInstallDir root dep
  else globalDepInstallDir home dep

/-- `dep_dir_coordinate`. -/
def depDirCoordinate (depDir : Path) : String :=
  match depDir.reverse.take 3 with
  | [version, artifactId, group] => group ++ ":" ++ artifactId ++ ":" ++ version
  | _ => depDir.display

theorem depInstallDir_eq_ok {root : Path} {dep : Dependency} {dir : Path}
    (installed : depInstallDir root dep = .ok dir) :
    dir = root ++ [".tinox", "deps", dep.group, dep.artifactId, dep.version] := by
  simp only [depInstallDir, bind, Except.bind] at installed
  repeat' split at installed
  all_goals cases installed
  rfl

theorem globalDepInstallDir_eq_ok {home : Option Path} {dep : Dependency} {dir : Path}
    (installed : globalDepInstallDir home dep = .ok dir) :
    ∃ front, home = some front ∧ dir = front ++ [".tinox", "repository",
      dep.repository.getD "central", dep.group, dep.artifactId, dep.version] := by
  simp only [globalDepInstallDir, bind, Except.bind] at installed
  repeat' split at installed
  all_goals cases installed
  exact ⟨_, rfl, rfl⟩

theorem resolvedInstallDir_suffix {root : Path} {home : Option Path} {dep : Dependency} {dir : Path}
    (installed : resolvedInstallDir root home dep = .ok dir) :
    ∃ front, dir = front ++ [dep.group, dep.artifactId, dep.version] := by
  rw [resolvedInstallDir] at installed
  split at installed
  · exact ⟨root ++ [".tinox", "deps"], (depInstallDir_eq_ok installed).trans
      (List.append_assoc root [".tinox", "deps"] [dep.group, dep.artifactId, dep.version]).symm⟩
  · rcases globalDepInstallDir_eq_ok installed with ⟨front, _, isDir⟩
    exact ⟨front ++ [".tinox", "repository", dep.repository.getD "central"], isDir.trans
      (List.append_assoc front [".tinox", "repository", dep.repository.getD "central"]
        [dep.group, dep.artifactId, dep.version]).symm⟩

/-- The errors of the lexer and the parser, as texts. -/
inductive SourceError where
  | lexer (e : String)
  | parse (e : String)

/-- The message about a file. -/
def SourceError.message (path : Path) : SourceError → String
  | .lexer e => "Lexer error in '" ++ path.display ++ "': " ++ e
  | .parse e => "Parse error in '" ++ path.display ++ "': " ++ e

/-- What the compiler runs in. -/
structure Env where
  fs : FileSystem
  /-- The lexer and the parser: the declarations of a text. -/
  parse : String → Except SourceError (List Decl)
  depDirs : List Path
  missingDeps : List MissingDep
  /-- The variable `TINOX_PATH`. -/
  tinoxPath : Option Path
  /-- The directory the compiler was built in. -/
  manifestDir : Path

/-- The core modules of the standard library. -/
def coreModules : List String :=
  ["array", "collections", "set", "queue", "heap", "trie", "graph", "iter",
   "sort", "option", "result", "cache", "pool",
   "math", "mathf", "mathx", "complex", "decimal",
   "string", "fmt", "format", "encoding",
   "io", "fs", "env", "process", "debug", "socket",
   "semaphore", "time", "cron", "events",
   "logger", "validation", "regex", "random", "hash", "uuid",
   "base64", "hex", "uri"]

/-- `stdlib_dir`. -/
def stdlibDir (env : Env) : Option Path :=
  match env.tinoxPath.filter env.fs.isDir with
  | some path => some path
  | none =>
      let dev := env.manifestDir ++ ["..", "..", "crates", "tinox-core"]
      if env.fs.isDir dev then (env.fs.canonicalize dev).toOption
      else
        let system := ["/", "usr", "share", "tinox", "core"]
        if env.fs.isDir system then some system else none

/-- `resolve_module_paths`. -/
def resolveModulePaths (fs : FileSystem) (base relFile relDir : Path) :
    Except String (Option (List Path)) :=
  match fs.canonicalize (base ++ relFile) with
  | .ok path => .ok (some [path])
  | .error _ =>
      let dir := base ++ relDir
      if fs.isDir dir then
        match fs.readDir dir with
        | .error e => .error ("Cannot read module directory '" ++ dir.display ++ "': " ++ e)
        | .ok entries =>
            let files := entries.filter fun path => path.extension == some "tnx"
            if files.isEmpty then
              .error ("Module directory '" ++ dir.display ++ "' contains no .tnx files")
            else
              ((files.mergeSort fun a b => decide (a ≤ b)).mapM fun path =>
                (fs.canonicalize path).mapError fun e =>
                  "Cannot resolve '" ++ path.display ++ "': " ++ e).map some
      else .ok none

/-- The dependency directories that have a module, each with its files. -/
def depMatches (env : Env) (relFile relDir : Path) : List (Path × List Path) :=
  env.depDirs.filterMap fun dir =>
    match resolveModulePaths env.fs dir relFile relDir with
    | .ok (some paths) => some (dir, paths)
    | _ => none

/-- `resolve_in_dep_dirs`. -/
def resolveInDepDirs (env : Env) (relFile relDir : Path) : Except String (Option (List Path)) :=
  match depMatches env relFile relDir with
  | [] => .ok none
  | [(_, paths)] => .ok (some paths)
  | (dir, paths) :: others =>
      if others.all fun other => depDirCoordinate other.1 == depDirCoordinate dir then
        .ok (some paths)
      else
        .error ("Ambiguous import '" ++ Path.display relFile ++
          "': resolves in more than one installed dependency (" ++
          ", ".intercalate (((dir, paths) :: others).map fun other => depDirCoordinate other.1) ++
          "). Remove or rename one of them so their module paths don't collide.")

/-- The file of a module, relative to the directory of its importer. -/
def relFile : List Ident → Path
  | [] => []
  | [name] => [name ++ ".tnx"]
  | name :: path => name :: relFile path

/-- The part of a standard library import that names a module, if the module is
a core one. -/
def stdlibTail (env : Env) : List Ident → Except String (List Ident)
  | _ :: "core" :: module :: rest =>
      if coreModules.contains module then .ok (module :: rest)
      else
        match env.missingDeps.find? fun m => m.group == "tinox.core" && m.artifactId == module with
        | some m =>
            .error ("tinox.toml declares tinox.core:" ++ m.artifactId ++ ":" ++ m.version ++
              " but it isn't installed — run `tinox install`.")
        | none =>
            .error ("Cannot resolve import 'tinox.core." ++ module ++ "...': '" ++ module ++
              "' is an extended-tier stdlib module, not part of the always-available core" ++
              " — declare it in tinox.toml:\n\n  [[dependencies]]\n  group = \"tinox.core\"\n" ++
              "  artifactId = \"" ++ module ++ "\"\n  version = \"1.0.0\"\n\n" ++
              "then run `tinox install`.")
  | path => .ok path.getLast?.toList

/-- What an import stands for, if it is neither beside its importer nor in a
dependency. -/
def resolveStdlib (env : Env) (path : List Ident) : Except String (List Path) :=
  if path.head? = some "tinox" then do
    let tail ← stdlibTail env path
    match stdlibDir env with
    | none =>
        throw ("Cannot resolve stdlib import '" ++ Path.display (relFile path) ++
          "': TINOX_PATH not set and dev path not found")
    | some dir =>
        match ← resolveModulePaths env.fs dir (relFile tail) tail with
        | some paths => return paths
        | none =>
            throw ("Cannot resolve stdlib import '" ++ Path.display (relFile tail) ++
              "': no such file or directory")
  else throw ("Cannot resolve import '" ++ Path.display (relFile path) ++ "': file not found")

/-- The files that an import stands for: beside the importing file, in an
installed dependency, or in the standard library. -/
def resolveImport (env : Env) (baseDir : Path) (path : List Ident) : Except String (List Path) := do
  match ← resolveModulePaths env.fs baseDir (relFile path) path with
  | some paths => return paths
  | none =>
      match ← resolveInDepDirs env (relFile path) path with
      | some paths => return paths
      | none => resolveStdlib env path

/-- The imports of a file. -/
def importsOf (decls : List Decl) : List ImportDecl :=
  decls.filterMap fun
    | .import_ i => some i
    | _ => none

/-- The declarations that stay: no imports and modules. -/
def ownDecls (decls : List Decl) : List Decl :=
  decls.filter fun
    | .import_ _ => false
    | .module _ => false
    | _ => true

/-- An imported file, read, parsed and checked. -/
def loadFile (env : Env) (path : Path) : Except String (List Decl) := do
  let source ← (env.fs.readToString path).mapError fun e =>
    "Failed to read import '" ++ path.display ++ "': " ++ e
  let decls ← (env.parse source).mapError fun e => e.message path
  checkOneTypePerFile decls path
  checkNoTopLevelFn decls path
  return decls

/-- Computations on the set of visited files that may fail, or run out of
fuel. -/
abbrev Run := StateT (List Path) (ExceptT String Option)

section Loops

variable (env : Env) (resolve : List Decl → Path → Run (List Decl))

/-- The files of one import, behind the declarations imported so far. -/
def importFiles : List Path → List Decl → Run (List Decl)
  | [], imported => return imported
  | path :: paths, imported => do
      let visited ← get
      if path ∈ visited then importFiles paths imported
      else
        set (path :: visited)
        let decls ← liftM (loadFile env path)
        let decls ← resolve decls (path.parent.getD ["."])
        importFiles paths (imported ++ decls)

/-- The imports of one file. -/
def importAll (baseDir : Path) : List ImportDecl → List Decl → Run (List Decl)
  | [], imported => return imported
  | i :: imports, imported => do
      let paths ← liftM (resolveImport env baseDir i.path)
      let imported ← importFiles env resolve paths imported
      importAll baseDir imports imported

end Loops

/-- `resolve_imports`: the merged declarations.  The recursion is `fuel` files
deep at most. -/
def resolveImports (env : Env) : Nat → List Decl → Path → Run (List Decl)
  | 0, _, _ => fun _ => (none : Option (Except String (List Decl × List Path)))
  | fuel + 1, decls, baseDir => do
      let imported ← importAll env (resolveImports env fuel) baseDir (importsOf decls) []
      return imported ++ ownDecls decls

end Tinox.Imports
