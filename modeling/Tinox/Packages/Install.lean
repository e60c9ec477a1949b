import Tinox.Packages.Manifests
import Tinox.Search.Guarded

/-!
# Installing dependencies

`install_dep` downloads a dependency, unless its install directory is there already, and
`install_dep_transitively` goes on with the manifest of the directory.  Files can be read and
written, and nothing but a download changes an install directory.
-/

namespace Tinox.Packages

open Tinox.Imports (Path resolvedInstallDir)

/-- A package: the bytes of an artifact, and the `tinox.toml` in it, which is empty when there is
none. -/
structure Package where
  bytes : List UInt8
  manifest : TinoxManifest

/-- An install directory: the package it was made from, and the checksum with which the bytes were
compared when it was made. -/
structure Installed where
  package : Package
  comparedWith : Option String

/-- The install directories that are there. -/
abbrev Store : Type :=
  List (Path × Installed)

/-- What was there is still there. -/
def Store.Grows (store after : Store) : Prop :=
  ∀ dir inst, store.lookup dir = some inst → after.lookup dir = some inst

theorem Store.Grows.cons {store : Store} {dir : Path} (notThere : store.lookup dir = none)
    (inst : Installed) : Store.Grows store ((dir, inst) :: store) := by
  intro other found isThere
  have apart : other ≠ dir := by
    rintro rfl
    rw [notThere] at isThere
    cases isThere
  rw [List.lookup_cons, beq_eq_false_iff_ne.mpr apart]
  exact isThere

/-- The parts that come from outside, or that only look at bytes. -/
structure Tools where
  /-- `sha256_hex`. -/
  sha256Hex : List UInt8 → String
  /-- `parse_registry_envelope`. -/
  parseRegistryEnvelope : List UInt8 → Option (String × List UInt8)
  /-- The extraction of an artifact by its name, and the manifest in it. -/
  extract : String → List UInt8 → Except String TinoxManifest
  /-- The text of a failed request. -/
  requestError : String → String

/-- What a run works with: a project, the tinox home directory, and what servers answer. -/
structure Env where
  tools : Tools
  root : Path
  home : Option Path
  server : List (String × List UInt8)

/-- `resolved_install_dir`. -/
def Env.installDir (env : Env) (dep : Dependency) : Except String Path :=
  resolvedInstallDir env.root env.home dep.toDependency

theorem coordinate_of_installDir {env : Env} {dep other : Dependency} {dir : Path}
    (isDir : env.installDir dep = .ok dir) (isOther : env.installDir other = .ok dir) :
    dep.coordinate = other.coordinate := by
  rcases Imports.resolvedInstallDir_suffix isDir with ⟨front, rfl⟩
  rcases Imports.resolvedInstallDir_suffix isOther with ⟨front', same⟩
  have isEnd := (List.append_inj' same rfl).2
  rw [List.cons.injEq, List.cons.injEq, List.cons.injEq] at isEnd
  rw [Dependency.coordinate, Dependency.coordinate, isEnd.1, isEnd.2.1, isEnd.2.2.1]

/-- What is behind the last slash. -/
def lastSegment (url : String) : String :=
  String.ofList (url.toList.reverse.takeWhile (· != '/')).reverse

/-- The bytes of an artifact and the name by which it is extracted. -/
def download (env : Env) (url : String) : Except String (List UInt8 × String) :=
  match env.server.lookup url with
  | none => .error ("Download failed (" ++ url ++ "): " ++ env.tools.requestError url)
  | some raw =>
      match env.tools.parseRegistryEnvelope raw with
      | some (filename, decoded) => .ok (decoded, filename)
      | none => .ok (raw, lastSegment url)

/-- `install_dep`: the checksum of what was downloaded, if anything was, and the directories
behind it. -/
def installDep (env : Env) (dep : Dependency) (effectiveUrl : String) (lock : TinoxLock)
    (update : Bool) (store : Store) : Except String (Option String × Store) :=
  match env.installDir dep with
  | .error e => .error e
  | .ok dir =>
      if (store.lookup dir).isSome then .ok (none, store)
      else
        match download env effectiveUrl with
        | .error e => .error e
        | .ok (bytes, name) =>
            match verifyChecksum dep effectiveUrl lock update (env.tools.sha256Hex bytes) with
            | .error e => .error e
            | .ok () =>
                match env.tools.extract name bytes with
                | .error e => .error e
                | .ok manifest =>
                    .ok (some (env.tools.sha256Hex bytes),
                      (dir, ⟨⟨bytes, manifest⟩, expectedChecksum dep effectiveUrl lock update⟩) :: store)

theorem installDep_cases {env : Env} {dep : Dependency} {url : String} {lock : TinoxLock}
    {update : Bool} {store store' : Store} {sha256 : Option String}
    (installed : installDep env dep url lock update store = .ok (sha256, store')) :
    ∃ dir, env.installDir dep = .ok dir ∧
      ((∃ inst, store.lookup dir = some inst ∧ sha256 = none ∧ store' = store) ∨
        ∃ bytes name manifest, store.lookup dir = none ∧ download env url = .ok (bytes, name) ∧
          verifyChecksum dep url lock update (env.tools.sha256Hex bytes) = .ok () ∧
          env.tools.extract name bytes = .ok manifest ∧ sha256 = some (env.tools.sha256Hex bytes) ∧
          store' = (dir, ⟨⟨bytes, manifest⟩, expectedChecksum dep url lock update⟩) :: store) := by
  rw [installDep] at installed
  cases isDir : env.installDir dep with
  | error e =>
      rw [isDir] at installed
      cases installed
  | ok dir =>
      rw [isDir] at installed
      dsimp only at installed
      refine ⟨dir, rfl, ?_⟩
      cases isThere : store.lookup dir with
      | some inst =>
          rw [isThere, if_pos Option.isSome_some] at installed
          cases installed
          exact Or.inl ⟨inst, rfl, rfl, rfl⟩
      | none =>
          rw [isThere, if_neg (by simp)] at installed
          cases isDownload : download env url with
          | error e =>
              rw [isDownload] at installed
              cases installed
          | ok artifact =>
              rw [isDownload] at installed
              dsimp only at installed
              cases isVerified : verifyChecksum dep url lock update (env.tools.sha256Hex artifact.1) with
              | error e =>
                  rw [isVerified] at installed
                  cases installed
              | ok _ =>
                  rw [isVerified] at installed
                  dsimp only at installed
                  cases isExtracted : env.tools.extract artifact.2 artifact.1 with
                  | error e =>
                      rw [isExtracted] at installed
                      cases installed
                  | ok manifest =>
                      rw [isExtracted] at installed
                      cases installed
                      exact Or.inr ⟨artifact.1, artifact.2, manifest, rfl, rfl, isVerified, isExtracted,
                        rfl, rfl⟩

/-- A dependency and the manifest that declares it. -/
structure Declared where
  dep : Dependency
  owningManifest : TinoxManifest

def Declared.coordinate (declared : Declared) : Coordinate :=
  declared.dep.coordinate

/-- The dependencies that a manifest declares. -/
def TinoxManifest.declares (manifest : TinoxManifest) : List Declared :=
  manifest.dependencies.map fun dep => ⟨dep, manifest⟩

/-- A run: the directories, the lock and whether it has changed, the numbers of dependencies that
were installed and that failed, and the dependencies that were reported as installed, each with its
effective URL. -/
structure Walk where
  store : Store
  lock : TinoxLock
  lockChanged : Bool
  ok : Nat
  fail : Nat
  reports : List (Dependency × String)

/-- The dependencies in the manifest of an install directory. -/
def subDependencies (env : Env) (store : Store) (dep : Dependency) : List Declared :=
  match env.installDir dep with
  | .error _ => []
  | .ok dir => ((store.lookup dir).map fun inst => inst.package.manifest.declares).getD []

/-- The body of `install_dep_transitively`: the dependencies that it goes on with come with it. -/
def installStep (env : Env) (update : Bool) (declared : Declared) (walk : Walk) :
    Walk × List Declared :=
  let dep := declared.dep
  match effectiveDownloadUrl dep declared.owningManifest with
  | .error _ => ({ walk with fail := walk.fail + 1 }, [])
  | .ok url =>
      match installDep env dep url walk.lock update walk.store with
      | .error _ => ({ walk with fail := walk.fail + 1 }, [])
      | .ok (some sha256, store) =>
          let entry : LockEntry :=
            ⟨dep.group, dep.artifactId, dep.version, url, sha256, (env.installDir dep).toOption⟩
          ({ walk with
              store := store
              lock := upsertLockEntry walk.lock entry
              lockChanged := true
              ok := walk.ok + 1
              reports := walk.reports ++ [(dep, url)] }, subDependencies env store dep)
      | .ok (none, store) =>
          ({ walk with
              store := store
              ok := walk.ok + 1
              reports := walk.reports ++ [(dep, url)] }, subDependencies env store dep)

/-- `install_dep_transitively` with the coordinates that have been visited; `none` when the
dependencies are nested deeper than the fuel. -/
def installDepTransitively (env : Env) (update : Bool) :
    Nat → List Coordinate × Walk → Declared → Option (List Coordinate × Walk) :=
  Guarded.visit Declared.coordinate (installStep env update)

/-- What one step of the walk can do: it fails, or it finds the directory, or it makes it. -/
inductive Stepped (env : Env) (update : Bool) (declared : Declared) (walk : Walk) :
    Walk × List Declared → Prop where
  | failed : Stepped env update declared walk ({ walk with fail := walk.fail + 1 }, [])
  | found (url : String) (dir : Path) (inst : Installed)
      (isUrl : effectiveDownloadUrl declared.dep declared.owningManifest = .ok url)
      (isDir : env.installDir declared.dep = .ok dir) (isThere : walk.store.lookup dir = some inst) :
      Stepped env update declared walk
        ({ walk with ok := walk.ok + 1, reports := walk.reports ++ [(declared.dep, url)] },
          inst.package.manifest.declares)
  | made (url : String) (dir : Path) (bytes : List UInt8) (name : String) (manifest : TinoxManifest)
      (isUrl : effectiveDownloadUrl declared.dep declared.owningManifest = .ok url)
      (isDir : env.installDir declared.dep = .ok dir) (notThere : walk.store.lookup dir = none)
      (isDownload : download env url = .ok (bytes, name))
      (isVerified :
        verifyChecksum declared.dep url walk.lock update (env.tools.sha256Hex bytes) = .ok ())
      (isExtracted : env.tools.extract name bytes = .ok manifest) :
      Stepped env update declared walk
        ({ walk with
            store := (dir, ⟨⟨bytes, manifest⟩,
              expectedChecksum declared.dep url walk.lock update⟩) :: walk.store
            lock := upsertLockEntry walk.lock ⟨declared.dep.group, declared.dep.artifactId,
              declared.dep.version, url, env.tools.sha256Hex bytes, some dir⟩
            lockChanged := true
            ok := walk.ok + 1
            reports := walk.reports ++ [(declared.dep, url)] }, manifest.declares)

theorem installStep_cases (env : Env) (update : Bool) (declared : Declared) (walk : Walk) :
    Stepped env update declared walk (installStep env update declared walk) := by
  rw [installStep]
  dsimp only
  cases isUrl : effectiveDownloadUrl declared.dep declared.owningManifest with
  | error e => exact Stepped.failed
  | ok url =>
      dsimp only
      cases isInstalled : installDep env declared.dep url walk.lock update walk.store with
      | error e => exact Stepped.failed
      | ok result =>
          rcases result with ⟨sha256, store⟩
          rcases installDep_cases isInstalled with ⟨dir, isDir, ⟨inst, isThere, rfl, rfl⟩ |
            ⟨bytes, name, manifest, notThere, isDownload, isVerified, isExtracted, rfl, rfl⟩⟩
          · have isSub : subDependencies env walk.store declared.dep =
                inst.package.manifest.declares := by
              rw [subDependencies, isDir]
              dsimp only
              rw [isThere]
              rfl
            dsimp only
            rw [isSub]
            exact Stepped.found url dir inst isUrl isDir isThere
          · have isSub : subDependencies env ((dir, ⟨⟨bytes, manifest⟩,
                expectedChecksum declared.dep url walk.lock update⟩) :: walk.store) declared.dep =
                  manifest.declares := by
              rw [subDependencies, isDir]
              dsimp only
              rw [List.lookup_cons_self]
              rfl
            dsimp only
            rw [isSub, isDir]
            exact Stepped.made url dir bytes name manifest isUrl isDir notThere isDownload isVerified
              isExtracted

/-- What a command leaves behind: whether it succeeded, the directories, `tinox.lock`, and what it
reported as installed. -/
structure Outcome where
  success : Bool
  store : Store
  lock : Except String TinoxLock
  reports : List (Dependency × String)

/-- The start of a run. -/
def Walk.start (store : Store) (lock : TinoxLock) : Walk :=
  ⟨store, lock, false, 0, 0, []⟩

/-- The end of a run: the lock is written when it has changed. -/
def Walk.outcome (walk : Walk) (lock : Except String TinoxLock) : Outcome :=
  ⟨walk.fail == 0, walk.store, if walk.lockChanged then .ok walk.lock else lock, walk.reports⟩

/-- `cmd_install`, with what `tinox.toml` and `tinox.lock` are read as. -/
def cmdInstall (env : Env) (update : Bool) (manifest : TinoxManifest)
    (lock : Except String TinoxLock) (store : Store) (fuel : Nat) : Option Outcome :=
  if manifest.dependencies.isEmpty then some ⟨true, store, lock, []⟩
  else
    match lock with
    | .error _ => some ⟨false, store, lock, []⟩
    | .ok read =>
        (Guarded.visitAll Declared.coordinate (installStep env update) fuel manifest.declares
          ([], Walk.start store read)).map fun after => after.2.outcome lock

/-- The dependency that `cmd_add` adds. -/
def addedDep (group artifactId version url : String) : Dependency :=
  { group, artifactId, version, url := some url, repository := none, sha256 := none }

/-- The manifest that `cmd_add` writes. -/
def addToManifest (manifest : TinoxManifest) (dep : Dependency) : TinoxManifest :=
  { manifest with
    dependencies := manifest.dependencies.filter (fun d =>
      !(d.group == dep.group && d.artifactId == dep.artifactId)) ++ [dep] }

/-- `tinox.lock` as `cmd_add` reads it. -/
def lockOrDefault (lock : Except String TinoxLock) : TinoxLock :=
  match lock with
  | .ok read => read
  | .error _ => ⟨[]⟩

/-- `cmd_add` behind the manifest that it has written. -/
def cmdAdd (env : Env) (dep : Dependency) (manifest : TinoxManifest)
    (lock : Except String TinoxLock) (store : Store) (fuel : Nat) : Option Outcome :=
  (installDepTransitively env false fuel ([], Walk.start store (lockOrDefault lock))
    ⟨dep, manifest⟩).map fun after => after.2.outcome lock

end Tinox.Packages
