import Tinox.Imports.Resolve

/-!
# Manifests and locks

What `tinox.toml` and `tinox.lock` say of a dependency: where it is downloaded from, and the
SHA-256 that its bytes must have.
-/

namespace Tinox.Packages

open Tinox.Imports (Path)

/-- `Dependency`. -/
structure Dependency extends Imports.Dependency where
  sha256 : Option String

/-- `Repository`. -/
structure Repository where
  id : String
  url : String

/-- What a `TinoxManifest` says of dependencies. -/
structure TinoxManifest where
  dependencies : List Dependency
  repositories : List Repository

/-- `DEFAULT_REPOSITORY_URL`. -/
def defaultRepositoryUrl : String :=
  "https://central.tinox-lang.de"

/-- `trim_end_matches`. -/
def trimEndMatches (s : String) (c : Char) : String :=
  String.ofList (s.toList.reverse.dropWhile (· == c)).reverse

/-- `effective_download_url`. -/
def effectiveDownloadUrl (dep : Dependency) (owningManifest : TinoxManifest) :
    Except String String :=
  match dep.url with
  | some url =>
      if dep.repository.isSome then
        .error ("dependency " ++ dep.group ++ ":" ++ dep.artifactId ++ " " ++ dep.version ++
          " specifies both `url` and `repository` — use only one")
      else .ok url
  | none =>
      let base : Except String String := match dep.repository with
        | some id =>
            match owningManifest.repositories.find? fun r => r.id == id with
            | some r => .ok r.url
            | none =>
                .error ("dependency " ++ dep.group ++ ":" ++ dep.artifactId ++ " " ++ dep.version ++
                  " references repository \"" ++ id ++
                  "\", but no [[repositories]] entry has that id")
        | none => .ok defaultRepositoryUrl
      base.map fun base => trimEndMatches base '/' ++ "/api/v1/" ++ dep.group ++ "/" ++
        dep.artifactId ++ "/" ++ dep.version

/-- A coordinate: group, artifact id and version. -/
abbrev Coordinate : Type :=
  String × String × String

def Dependency.coordinate (dep : Dependency) : Coordinate :=
  (dep.group, dep.artifactId, dep.version)

/-- `LockEntry`.  The file does not have `dir`: it is the install directory that was made when the
entry was written, if a run has written it. -/
structure LockEntry where
  group : String
  artifactId : String
  version : String
  url : String
  sha256 : String
  dir : Option Path

def LockEntry.coordinate (entry : LockEntry) : Coordinate :=
  (entry.group, entry.artifactId, entry.version)

/-- `TinoxLock`. -/
structure TinoxLock where
  dependencies : List LockEntry

/-- `lock_entry_for`. -/
def lockEntryFor (lock : TinoxLock) (dep : Dependency) : Option LockEntry :=
  lock.dependencies.find? fun e => e.coordinate == dep.coordinate

/-- `upsert_lock_entry`. -/
def upsertLockEntry (lock : TinoxLock) (entry : LockEntry) : TinoxLock :=
  ⟨lock.dependencies.filter (fun e => !e.coordinate == entry.coordinate) ++ [entry]⟩

/-- A lock with at most one entry for a coordinate. -/
def TinoxLock.OnePerCoordinate (lock : TinoxLock) : Prop :=
  (lock.dependencies.map LockEntry.coordinate).Nodup

variable {lock : TinoxLock} {dep : Dependency} {entry : LockEntry}

theorem mem_of_lockEntryFor (found : lockEntryFor lock dep = some entry) :
    entry ∈ lock.dependencies :=
  List.mem_of_find?_eq_some found

theorem mem_upsertLockEntry {other : LockEntry}
    (member : other ∈ (upsertLockEntry lock entry).dependencies) :
    other ∈ lock.dependencies ∨ other = entry := by
  rcases List.mem_append.mp member with old | isNew
  · exact Or.inl (List.mem_filter.mp old).1
  · exact Or.inr (List.mem_singleton.mp isNew)

theorem lockEntryFor_upsertLockEntry (apart : dep.coordinate ≠ entry.coordinate) :
    lockEntryFor (upsertLockEntry lock entry) dep = lockEntryFor lock dep := by
  have notEntry : (entry.coordinate == dep.coordinate) = false :=
    beq_eq_false_iff_ne.mpr (Ne.symm apart)
  rw [lockEntryFor, upsertLockEntry, List.find?_append, List.find?_filter, List.find?_cons, notEntry,
    List.find?_nil, Option.or_none, lockEntryFor]
  congr 1
  funext e
  by_cases isDep : e.coordinate = dep.coordinate
  · have notNew : (e.coordinate == entry.coordinate) = false :=
      beq_eq_false_iff_ne.mpr (isDep ▸ apart)
    rw [notNew]
    simp [isDep]
  · rw [beq_eq_false_iff_ne.mpr isDep]
    simp

theorem onePerCoordinate_upsertLockEntry (one : lock.OnePerCoordinate) (entry : LockEntry) :
    (upsertLockEntry lock entry).OnePerCoordinate := by
  rw [TinoxLock.OnePerCoordinate, upsertLockEntry, List.map_append, List.nodup_append]
  refine ⟨?_, List.nodup_singleton _, ?_⟩
  · exact one.sublist (List.filter_sublist.map _)
  · intro coordinate old other isNew
    rcases List.mem_map.mp old with ⟨e, member, rfl⟩
    rw [List.map_singleton, List.mem_singleton] at isNew
    have apart := (List.mem_filter.mp member).2
    rw [isNew]
    simpa using apart

/-- `eq_ignore_ascii_case`. -/
def eqIgnoreAsciiCase (s t : String) : Bool :=
  s.toList.map Char.toLower == t.toList.map Char.toLower

/-- `expected_checksum`. -/
def expectedChecksum (dep : Dependency) (effectiveUrl : String) (lock : TinoxLock) (update : Bool) :
    Option String :=
  dep.sha256.or <|
    if update then none
    else ((lockEntryFor lock dep).filter fun e => e.url == effectiveUrl).map LockEntry.sha256

/-- `verify_checksum`. -/
def verifyChecksum (dep : Dependency) (effectiveUrl : String) (lock : TinoxLock) (update : Bool)
    (actualSha256 : String) : Except String Unit :=
  match expectedChecksum dep effectiveUrl lock update with
  | some expected =>
      if eqIgnoreAsciiCase expected actualSha256 then .ok ()
      else .error ("checksum mismatch for " ++ dep.group ++ ":" ++ dep.artifactId ++ " " ++
        dep.version ++ " (" ++ effectiveUrl ++ "): expected sha256 " ++ expected ++ ", got " ++
        actualSha256 ++ " — refusing to install a dependency whose content doesn't match what was" ++
        " pinned (tinox.toml/tinox.lock). Pass --update to re-pin if this URL's content" ++
        " legitimately changed.")
  | none => .ok ()

theorem verifyChecksum_ok {effectiveUrl : String} {update : Bool} {actualSha256 expected : String}
    (verified : verifyChecksum dep effectiveUrl lock update actualSha256 = .ok ())
    (isPinned : expectedChecksum dep effectiveUrl lock update = some expected) :
    eqIgnoreAsciiCase expected actualSha256 = true := by
  rw [verifyChecksum, isPinned] at verified
  dsimp only at verified
  split at verified
  · assumption
  · cases verified

theorem expectedChecksum_congr {other : TinoxLock}
    (same : lockEntryFor lock dep = lockEntryFor other dep) (effectiveUrl : String) (update : Bool) :
    expectedChecksum dep effectiveUrl lock update = expectedChecksum dep effectiveUrl other update := by
  rw [expectedChecksum, expectedChecksum, same]

end Tinox.Packages
