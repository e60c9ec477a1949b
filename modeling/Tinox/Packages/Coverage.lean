import Tinox.Packages.Install

/-!
# What is installed and what is found

`installed_dep_dirs` lists all directories below `.tinox/deps` and walks through the tinox home
directory, from the dependencies without a url to the dependencies without a url of their
packages.  It is compared with everything that a manifest needs.
-/

namespace Tinox.Packages

open Tinox.Imports (Path MissingDep depInstallDir globalDepInstallDir)

/-- The body of `collect_global_dep_dir`, with the directories and the missing dependencies so far. -/
def collectStep (env : Env) (store : Store) (dep : Dependency) (found : List Path × List MissingDep) :
    (List Path × List MissingDep) × List Dependency :=
  match globalDepInstallDir env.home dep.toDependency with
  | .error _ => (found, [])
  | .ok dir =>
      match store.lookup dir with
      | none => ((found.1, found.2 ++ [⟨dep.group, dep.artifactId, dep.version⟩]), [])
      | some inst =>
          ((found.1 ++ [dir], found.2),
            inst.package.manifest.dependencies.filter fun subDep => subDep.url.isNone)

/-- `global_dep_dirs`. -/
def globalDepDirs (env : Env) (store : Store) (manifest : TinoxManifest) (fuel : Nat) :
    Option (List Path × List MissingDep) :=
  (Guarded.visitAll Dependency.coordinate (collectStep env store) fuel
    (manifest.dependencies.filter fun dep => dep.url.isNone) ([], ([], []))).map Prod.snd

/-- A directory three levels below `.tinox/deps`. -/
def isBelowDeps (root dir : Path) : Bool :=
  dir.take (root.length + 2) == root ++ [".tinox", "deps"] && dir.length == root.length + 5

/-- `installed_dep_dirs`. -/
def installedDepDirs (env : Env) (store : Store) (manifest : TinoxManifest) (fuel : Nat) :
    Option (List Path × List MissingDep) :=
  (globalDepDirs env store manifest fuel).map fun found =>
    ((store.map Prod.fst).filter (isBelowDeps env.root) ++ found.1, found.2)

/-- The package that a URL stands for. -/
def registry (env : Env) (url : String) : Option Package :=
  match download env url with
  | .error _ => none
  | .ok (bytes, name) => (env.tools.extract name bytes).toOption.map fun manifest => ⟨bytes, manifest⟩

/-- The package that `effective_download_url` names for the manifest that declares a dependency. -/
def Declared.package (env : Env) (declared : Declared) : Option Package :=
  (effectiveDownloadUrl declared.dep declared.owningManifest).toOption.bind (registry env)

/-- Everything that a manifest needs. -/
inductive Needs (env : Env) (manifest : TinoxManifest) : Declared → Prop where
  | direct {declared : Declared} (member : declared ∈ manifest.declares) :
      Needs env manifest declared
  | nested {declared child : Declared} {package : Package} (needs : Needs env manifest declared)
      (isPackage : declared.package env = some package)
      (member : child ∈ package.manifest.declares) : Needs env manifest child

/-- What a manifest needs along dependencies without a url. -/
inductive NeedsGlobally (env : Env) (manifest : TinoxManifest) : Declared → Prop where
  | direct {declared : Declared} (member : declared ∈ manifest.declares)
      (isGlobal : declared.dep.url = none) : NeedsGlobally env manifest declared
  | nested {declared child : Declared} {package : Package}
      (needs : NeedsGlobally env manifest declared) (isPackage : declared.package env = some package)
      (member : child ∈ package.manifest.declares) (isGlobal : child.dep.url = none) :
      NeedsGlobally env manifest child

theorem NeedsGlobally.needs {env : Env} {manifest : TinoxManifest} {declared : Declared}
    (needs : NeedsGlobally env manifest declared) : Needs env manifest declared := by
  induction needs with
  | direct member _ => exact Needs.direct member
  | nested _ isPackage member _ ih => exact Needs.nested ih isPackage member

theorem NeedsGlobally.isGlobal {env : Env} {manifest : TinoxManifest} {declared : Declared}
    (needs : NeedsGlobally env manifest declared) : declared.dep.url = none := by
  cases needs with
  | direct _ isGlobal => exact isGlobal
  | nested _ _ _ isGlobal => exact isGlobal

/-- The directory of a dependency holds the package that it names. -/
def Holds (env : Env) (store : Store) (declared : Declared) : Prop :=
  ∃ dir inst, env.installDir declared.dep = .ok dir ∧ store.lookup dir = some inst ∧
    declared.package env = some inst.package

/-- Nothing is missing, and every directory that is needed is listed and holds the package that is
named. -/
def Covers (env : Env) (store : Store) (manifest : TinoxManifest)
    (found : List Path × List MissingDep) : Prop :=
  found.2 = [] ∧ ∀ declared, Needs env manifest declared →
    Holds env store declared ∧ ∃ dir ∈ found.1, env.installDir declared.dep = .ok dir

/-- What a manifest needs, in the order of a walk that goes to the first dependency of every
coordinate. -/
def walkOrder (env : Env) (manifest : TinoxManifest) (fuel : Nat) : Option (List Declared) :=
  (Guarded.visitAll Declared.coordinate (fun declared order =>
    (order ++ [declared],
      ((declared.package env).map fun package => package.manifest.declares).getD []))
    fuel manifest.declares ([], [])).map Prod.snd

/-- When what is needed is found: every dependency names a package and a directory; directories that
are there hold what is named; one directory stands for one package; a directory is there, or comes
first of its coordinate; and what has no url is needed along dependencies without a url, in one
directory for a coordinate. -/
structure Consistent (env : Env) (store : Store) (manifest : TinoxManifest) (order : List Declared) :
    Prop where
  named : ∀ d, Needs env manifest d →
    ∃ dir package, env.installDir d.dep = .ok dir ∧ d.package env = some package
  held : ∀ d, Needs env manifest d → ∀ dir inst, env.installDir d.dep = .ok dir →
    store.lookup dir = some inst → d.package env = some inst.package
  same : ∀ d e, Needs env manifest d → Needs env manifest e → ∀ dir,
    env.installDir d.dep = .ok dir → env.installDir e.dep = .ok dir → d.package env = e.package env
  there : ∀ d, Needs env manifest d → ∀ dir, env.installDir d.dep = .ok dir →
    (store.lookup dir).isSome ∨ ∃ first ∈ order, env.installDir first.dep = .ok dir
  listed : ∀ d, Needs env manifest d → d.dep.url = none →
    ∃ e, NeedsGlobally env manifest e ∧ env.installDir e.dep = env.installDir d.dep
  single : ∀ d e, NeedsGlobally env manifest d → NeedsGlobally env manifest e →
    d.coordinate = e.coordinate → env.installDir d.dep = env.installDir e.dep

theorem isBelowDeps_of_url {env : Env} {dep : Dependency} {dir : Path} (hasUrl : dep.url ≠ none)
    (isDir : env.installDir dep = .ok dir) : isBelowDeps env.root dir = true := by
  rw [Env.installDir, Imports.resolvedInstallDir, if_pos (Option.isSome_iff_ne_none.mpr hasUrl)] at isDir
  rw [Imports.depInstallDir_eq_ok isDir, isBelowDeps, Bool.and_eq_true, beq_iff_eq, beq_iff_eq]
  refine ⟨?_, by rw [List.length_append]; rfl⟩
  exact List.take_length_add_append 2

theorem not_isBelowDeps_of_global {env : Env} {dep : Dependency} {dir : Path}
    (isGlobal : dep.url = none) (isDir : env.installDir dep = .ok dir) :
    isBelowDeps env.root dir = false := by
  have noUrl : ¬ dep.url.isSome = true := by rw [isGlobal]; exact Bool.false_ne_true
  rw [Env.installDir, Imports.resolvedInstallDir, if_neg noUrl] at isDir
  rcases Imports.globalDepInstallDir_eq_ok isDir with ⟨front, _, isPath⟩
  apply Bool.eq_false_iff.mpr
  intro isBelow
  rw [isBelowDeps, Bool.and_eq_true, beq_iff_eq, beq_iff_eq] at isBelow
  have whole := List.take_append_drop (env.root.length + 2) dir
  have isRest : (dir.drop (env.root.length + 2)).length = 3 := by
    rw [List.length_drop, isBelow.2]
    omega
  rw [isBelow.1, isPath, List.append_assoc] at whole
  have isSplit : front ++ [".tinox", "repository", dep.repository.getD "central", dep.group,
      dep.artifactId, dep.version] = (front ++ [".tinox"]) ++ ["repository",
        dep.repository.getD "central", dep.group, dep.artifactId, dep.version] := by
    rw [List.append_assoc]
    rfl
  rw [isSplit] at whole
  have isTail := (List.append_inj' whole (by
    rw [isPath] at isRest
    rw [List.length_append, ← isSplit, isRest]
    rfl)).2
  rw [List.cons_append, List.cons.injEq] at isTail
  exact absurd isTail.1 (by decide)

end Tinox.Packages
