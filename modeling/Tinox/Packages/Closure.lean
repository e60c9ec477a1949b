import Tinox.Data.Entries
import Tinox.Packages.Coverage

/-!
# Installing covers what is needed

When a run reports no failure, what it leaves behind covers a manifest exactly when the
dependencies that the manifest needs are consistent.
-/

namespace Tinox.Packages

open Tinox.Imports (Path MissingDep depInstallDir globalDepInstallDir)

variable {env : Env} {manifest : TinoxManifest} {store : Store}

/-- A walk that has gone through `order` and has found what it needs. -/
structure Followed (env : Env) (manifest : TinoxManifest) (store : Store)
    (visited : List Coordinate) (walk : Walk) (order : List Declared) : Prop where
  visited : ∀ d ∈ order, d.coordinate ∈ visited
  holds : ∀ d ∈ order, Needs env manifest d ∧ Holds env walk.store d
  origin : ∀ dir, (walk.store.lookup dir).isSome →
    (store.lookup dir).isSome ∨ ∃ d ∈ order, env.installDir d.dep = .ok dir
  grows : store.Grows walk.store

variable {after : Store} {d : Declared} {dir : Path} {update : Bool} {visited : List Coordinate}
  {walk : Walk} {order : List Declared} {lock : TinoxLock} {fuel : Nat}

theorem Holds.grows (holds : Holds env store d) (grows : store.Grows after) :
    Holds env after d := by
  rcases holds with ⟨dir, inst, isDir, isThere, isPackage⟩
  exact ⟨dir, inst, isDir, grows dir inst isThere, isPackage⟩

theorem Holds.of_installDir (holds : Holds env store d) (isDir : env.installDir d.dep = .ok dir) :
    ∃ inst, store.lookup dir = some inst ∧ d.package env = some inst.package := by
  rcases holds with ⟨other, inst, isOther, isThere, isPackage⟩
  rw [isDir] at isOther
  cases isOther
  exact ⟨inst, isThere, isPackage⟩

/-- What a directory holds at the end, it has held since it was there. -/
theorem Holds.before (holds : Holds env after d) (grows : store.Grows after) {inst : Installed}
    (isDir : env.installDir d.dep = .ok dir) (isThere : store.lookup dir = some inst) :
    d.package env = some inst.package := by
  rcases holds.of_installDir isDir with ⟨last, isLast, isPackage⟩
  rw [grows dir inst isThere] at isLast
  cases isLast
  exact isPackage

/-- A dependency whose directory holds its package has been visited. -/
theorem Followed.step {visited : List Coordinate} {walk : Walk} {order : List Declared}
    (followed : Followed env manifest store visited walk order) {d : Declared}
    (needs : Needs env manifest d) {after : Walk} (grows : walk.store.Grows after.store)
    (origin : ∀ dir, (after.store.lookup dir).isSome →
      (walk.store.lookup dir).isSome ∨ env.installDir d.dep = .ok dir)
    (holds : Holds env after.store d) :
    Followed env manifest store (d.coordinate :: visited) after (order ++ [d]) where
  visited e member := by
    rcases List.mem_append.mp member with old | isLast
    · exact List.mem_cons_of_mem _ (followed.visited e old)
    · rw [List.mem_singleton.mp isLast]
      exact List.mem_cons_self
  holds e member := by
    rcases List.mem_append.mp member with old | isLast
    · exact ⟨(followed.holds e old).1, (followed.holds e old).2.grows grows⟩
    · rw [List.mem_singleton.mp isLast]
      exact ⟨needs, holds⟩
  origin dir isThere := by
    rcases origin dir isThere with old | isDir
    · rcases followed.origin dir old with before | ⟨e, member, isDir⟩
      · exact Or.inl before
      · exact Or.inr ⟨e, List.mem_append_left _ member, isDir⟩
    · exact Or.inr ⟨d, List.mem_append_right _ (List.mem_singleton_self d), isDir⟩
  grows dir inst isThere := grows dir inst (followed.grows dir inst isThere)

theorem declared_package {url : String} {bytes : List UInt8} {name : String} {sub : TinoxManifest}
    (isUrl : effectiveDownloadUrl d.dep d.owningManifest = .ok url)
    (isDownload : download env url = .ok (bytes, name))
    (isExtracted : env.tools.extract name bytes = .ok sub) : d.package env = some ⟨bytes, sub⟩ := by
  have isRegistry : registry env url = some ⟨bytes, sub⟩ := by
    rw [registry, isDownload]
    dsimp only
    rw [isExtracted]
    rfl
  rw [Declared.package, isUrl]
  exact isRegistry

theorem installStep_followed
    (held : ∀ d, Needs env manifest d → ∀ dir inst, env.installDir d.dep = .ok dir → store.lookup dir = some inst → d.package env = some inst.package)
    (followed : Followed env manifest store visited walk order) (needs : Needs env manifest d)
    (isNew : d.coordinate ∉ visited) (whole : (installStep env update d walk).1.fail = 0) :
    Followed env manifest store (d.coordinate :: visited) (installStep env update d walk).1
        (order ++ [d]) ∧
      (installStep env update d walk).2 =
        ((d.package env).map fun package => package.manifest.declares).getD [] := by
  have stepped := installStep_cases env update d walk
  generalize installStep env update d walk = after at stepped whole ⊢
  cases stepped with
  | failed => exact absurd whole (Nat.succ_ne_zero _)
  | found url dir inst isUrl isDir isThere =>
      have isPackage : d.package env = some inst.package := by
        rcases followed.origin dir (by rw [isThere]; rfl) with before | ⟨e, member, isOther⟩
        · rcases Option.isSome_iff_exists.mp before with ⟨old, isOld⟩
          have same := followed.grows dir old isOld
          rw [isThere] at same
          cases same
          exact held d needs dir inst isDir isOld
        · have isVisited := followed.visited e member
          rw [Declared.coordinate, ← coordinate_of_installDir isDir isOther] at isVisited
          exact absurd isVisited isNew
      refine ⟨followed.step needs (fun _ _ isFound => isFound) (fun _ isFound => Or.inl isFound)
        ⟨dir, inst, isDir, isThere, isPackage⟩, ?_⟩
      rw [isPackage]
      rfl
  | made url dir bytes name sub isUrl isDir notThere isDownload isVerified isExtracted =>
      have isPackage := declared_package isUrl isDownload isExtracted
      refine ⟨followed.step needs (Store.Grows.cons notThere _) ?_
        ⟨dir, _, isDir, List.lookup_cons_self, isPackage⟩, ?_⟩
      · intro other isFound
        rw [List.lookup_cons] at isFound
        split at isFound
        · rename_i isDir'
          rw [beq_iff_eq.mp isDir']
          exact Or.inr isDir
        · exact Or.inl isFound
      · rw [isPackage]
        rfl

theorem installStep_simulates (update : Bool)
    (held : ∀ d, Needs env manifest d → ∀ dir inst, env.installDir d.dep = .ok dir →
      store.lookup dir = some inst → d.package env = some inst.package) :
    Guarded.Simulates Declared.coordinate (installStep env update)
      (fun declared (order : List Declared) => (order ++ [declared],
        ((declared.package env).map fun package => package.manifest.declares).getD []))
      (Needs env manifest) (fun walk => walk.fail ≠ 0) (Followed env manifest store) where
  persists d walk hasFailed := by
    have stepped := installStep_cases env update d walk
    generalize installStep env update d walk = after at stepped ⊢
    cases stepped with
    | failed => exact Nat.succ_ne_zero _
    | found _ _ _ _ _ _ | made _ _ _ _ _ _ _ _ _ _ _ => exact hasFailed
  state _ _ _ _ needs isNew followed whole :=
    (installStep_followed held followed needs isNew (not_not.mp whole)).1
  same _ _ _ _ needs isNew followed whole :=
    (installStep_followed held followed needs isNew (not_not.mp whole)).2
  next d order needs child member := by
    cases isPackage : d.package env with
    | none =>
        rw [isPackage] at member
        cases member
    | some package =>
        rw [isPackage] at member
        exact Needs.nested needs isPackage member

theorem followed_of_walk {after : List Coordinate × Walk}
    (held : ∀ d, Needs env manifest d → ∀ dir inst, env.installDir d.dep = .ok dir → store.lookup dir = some inst → d.package env = some inst.package)
    (walked : Guarded.visitAll Declared.coordinate (installStep env update) fuel manifest.declares ([], Walk.start store lock) = some after)
    (whole : after.2.fail = 0) : ∃ order, walkOrder env manifest fuel = some order ∧
      Followed env manifest store after.1 after.2 order := by
  have start : Followed env manifest store [] (Walk.start store lock) [] :=
    ⟨nofun, nofun, fun _ isThere => Or.inl isThere, fun _ _ isThere => isThere⟩
  rcases Guarded.visitAll_simulated (installStep_simulates update held) walked (not_not.mpr whole)
    (fun d member => Needs.direct member) start with ⟨order, isOrder, followed⟩
  refine ⟨order, ?_, followed⟩
  rw [walkOrder, isOrder]
  rfl

theorem grows_of_walk {after : List Coordinate × Walk}
    (walked : Guarded.visitAll Declared.coordinate (installStep env update) fuel manifest.declares ([], Walk.start store lock) = some after) :
    store.Grows after.2.store := by
  have preserves : Guarded.Preserves Declared.coordinate (installStep env update) (fun _ => True)
      (fun _ walk => store.Grows walk.store) := by
    refine ⟨?_, fun _ _ _ _ _ _ _ _ => trivial⟩
    intro d _ walk _ _ grows
    have stepped := installStep_cases env update d walk
    generalize installStep env update d walk = after at stepped ⊢
    cases stepped with
    | failed => exact grows
    | found _ _ _ _ _ _ => exact grows
    | made url dir bytes name sub _ _ notThere _ _ _ =>
        exact fun other inst isThere =>
          Store.Grows.cons notThere _ other inst (grows other inst isThere)
  exact (Guarded.visitAll_spec preserves walked (fun _ _ => trivial) (fun _ _ isThere => isThere)).1

variable {found : List Path × List MissingDep}

theorem collectStep_eq (isGlobal : d.dep.url = none) {inst : Installed}
    (isDir : env.installDir d.dep = .ok dir) (isThere : store.lookup dir = some inst)
    (found : List Path × List MissingDep) :
    collectStep env store d.dep found = ((found.1 ++ [dir], found.2),
      inst.package.manifest.dependencies.filter fun subDep => subDep.url.isNone) := by
  have noUrl : ¬ d.dep.url.isSome = true := by rw [isGlobal]; exact Bool.false_ne_true
  rw [Env.installDir, Imports.resolvedInstallDir, if_neg noUrl] at isDir
  rw [collectStep, isDir]
  dsimp only
  rw [isThere]

/-- What has been found: the directory of every coordinate that has been visited, and nothing else. -/
structure Collected (env : Env) (manifest : TinoxManifest) (visited : List Coordinate)
    (found : List Path × List MissingDep) : Prop where
  listed : ∀ k ∈ visited, ∃ d dir, NeedsGlobally env manifest d ∧ d.coordinate = k ∧
    env.installDir d.dep = .ok dir ∧ dir ∈ found.1
  needed : ∀ dir ∈ found.1, ∃ d, NeedsGlobally env manifest d ∧ env.installDir d.dep = .ok dir ∧
    d.coordinate ∈ visited
  single : ∀ d e : Declared, ∀ dir ∈ found.1, ∀ other ∈ found.1, env.installDir d.dep = .ok dir →
    env.installDir e.dep = .ok other → d.coordinate = e.coordinate → dir = other
  complete : found.2 = []

theorem Collected.add {visited : List Coordinate} {found : List Path × List MissingDep}
    (collected : Collected env manifest visited found) {d : Declared}
    (needs : NeedsGlobally env manifest d) (isNew : d.coordinate ∉ visited) {dir : Path}
    (isDir : env.installDir d.dep = .ok dir) :
    Collected env manifest (d.coordinate :: visited) (found.1 ++ [dir], found.2) := by
  -- A directory that was found before belongs to another coordinate.
  have apart : ∀ e : Declared, ∀ other ∈ found.1, env.installDir e.dep = .ok other →
      e.coordinate ≠ d.coordinate := by
    intro e other member isOther same
    rcases collected.needed other member with ⟨f, _, isSame, isVisited⟩
    have isCoordinate : f.coordinate = e.coordinate := coordinate_of_installDir isSame isOther
    rw [isCoordinate, same] at isVisited
    exact isNew isVisited
  constructor
  · intro k member
    rcases List.mem_cons.mp member with rfl | old
    · exact ⟨d, dir, needs, rfl, isDir, List.mem_append_right _ (List.mem_singleton_self dir)⟩
    · rcases collected.listed k old with ⟨e, other, needsE, isKey, isOther, isFound⟩
      exact ⟨e, other, needsE, isKey, isOther, List.mem_append_left _ isFound⟩
  · intro other member
    rcases List.mem_append.mp member with old | isLast
    · rcases collected.needed other old with ⟨e, needsE, isOther, isVisited⟩
      exact ⟨e, needsE, isOther, List.mem_cons_of_mem _ isVisited⟩
    · rw [List.mem_singleton.mp isLast]
      exact ⟨d, needs, isDir, List.mem_cons_self⟩
  · intro e f other memberOther another memberAnother isOther isAnother same
    rcases List.mem_append.mp memberOther with old | isLast
    · rcases List.mem_append.mp memberAnother with old' | isLast'
      · exact collected.single e f other old another old' isOther isAnother same
      · rw [List.mem_singleton.mp isLast'] at isAnother
        have isCoordinate : f.coordinate = d.coordinate := coordinate_of_installDir isAnother isDir
        exact absurd (same.trans isCoordinate) (apart e other old isOther)
    · rw [List.mem_singleton.mp isLast] at isOther ⊢
      rcases List.mem_append.mp memberAnother with old' | isLast'
      · have isCoordinate : e.coordinate = d.coordinate := coordinate_of_installDir isOther isDir
        exact absurd (same.symm.trans isCoordinate) (apart f another old' isAnother)
      · exact (List.mem_singleton.mp isLast').symm
  · exact collected.complete

/-- A dependency that is looked for. -/
def IsNeededGlobally (env : Env) (manifest : TinoxManifest) (dep : Dependency) : Prop :=
  ∃ d, NeedsGlobally env manifest d ∧ d.dep = dep

theorem isNeededGlobally_child (needs : NeedsGlobally env manifest d) {package : Package}
    (isPackage : d.package env = some package) {dep : Dependency}
    (member : dep ∈ package.manifest.dependencies.filter fun subDep => subDep.url.isNone) :
    IsNeededGlobally env manifest dep := by
  rw [List.mem_filter] at member
  exact ⟨⟨dep, package.manifest⟩, NeedsGlobally.nested needs isPackage
    (List.mem_map_of_mem member.1) (Option.isNone_iff_eq_none.mp member.2), rfl⟩

theorem isNeededGlobally_root {dep : Dependency}
    (member : dep ∈ manifest.dependencies.filter fun dep => dep.url.isNone) :
    IsNeededGlobally env manifest dep := by
  rw [List.mem_filter] at member
  exact ⟨⟨dep, manifest⟩, NeedsGlobally.direct (List.mem_map_of_mem member.1)
    (Option.isNone_iff_eq_none.mp member.2), rfl⟩

theorem collectStep_preserves (holds : ∀ d, Needs env manifest d → Holds env store d) :
    Guarded.Preserves Dependency.coordinate (collectStep env store)
      (IsNeededGlobally env manifest) (Collected env manifest) where
  state := by
    rintro _ visited found ⟨d, needs, rfl⟩ isNew collected
    rcases holds d needs.needs with ⟨dir, inst, isDir, isThere, _⟩
    rw [collectStep_eq needs.isGlobal isDir isThere]
    exact collected.add needs isNew isDir
  next := by
    rintro _ visited found ⟨d, needs, rfl⟩ _ _ dep member
    rcases holds d needs.needs with ⟨dir, inst, isDir, isThere, isPackage⟩
    rw [collectStep_eq needs.isGlobal isDir isThere] at member
    exact isNeededGlobally_child needs isPackage member

/-- What the walk through the home directory finds when every directory holds its package. -/
theorem collected_of_walk (holds : ∀ d, Needs env manifest d → Holds env store d)
    (isFound : globalDepDirs env store manifest fuel = some found) :
    ∃ visited, Collected env manifest visited found ∧
      ((∀ d e, NeedsGlobally env manifest d → NeedsGlobally env manifest e →
        d.coordinate = e.coordinate → env.installDir d.dep = env.installDir e.dep) →
        ∀ d, NeedsGlobally env manifest d → d.coordinate ∈ visited) := by
  rcases Option.map_eq_some_iff.mp isFound with ⟨after, walked, rfl⟩
  rcases Guarded.visitAll_spec (collectStep_preserves holds) walked
    (fun dep member => isNeededGlobally_root member) ⟨nofun, nofun, nofun, rfl⟩ with
    ⟨collected, log, explored, foundBy⟩
  refine ⟨after.1, collected, fun single d needs => ?_⟩
  induction needs with
  | @direct d member isGlobal =>
      rcases List.mem_map.mp member with ⟨dep, isDep, rfl⟩
      exact explored.roots_visited dep
        (List.mem_filter.mpr ⟨isDep, Option.isNone_iff_eq_none.mpr isGlobal⟩)
  | @nested d child package needs isPackage member isGlobal ih =>
      rcases (explored.visited_iff _).mp ih with old | ⟨entry, isEntry, isKey⟩
      · cases old
      · -- The entry of the coordinate has the same directory, and so the same package.
        rcases (foundBy entry isEntry).1 with ⟨e, needsE, isDep⟩
        rw [← isDep] at isKey
        have sameDir := single e d needsE needs isKey
        rcases holds d needs.needs with ⟨dir, inst, isDir, isThere, isInst⟩
        rw [isPackage] at isInst
        cases isInst
        rcases List.mem_map.mp member with ⟨dep, isChild, rfl⟩
        have next := explored.next_visited entry isEntry dep
        rw [← isDep, collectStep_eq needsE.isGlobal (sameDir.trans isDir) isThere] at next
        exact next (List.mem_filter.mpr ⟨isChild, Option.isNone_iff_eq_none.mpr isGlobal⟩)

theorem consistent_of_covers {globals : List Path × List MissingDep}
    {collectedKeys : List Coordinate} (covers : Covers env walk.store manifest found)
    (grows : store.Grows walk.store) (followed : Followed env manifest store visited walk order)
    (isFound : found.1 = (walk.store.map Prod.fst).filter (isBelowDeps env.root) ++ globals.1)
    (collected : Collected env manifest collectedKeys globals) :
    Consistent env store manifest order := by
  have isListed : ∀ d, Needs env manifest d → d.dep.url = none → ∀ dir,
      env.installDir d.dep = .ok dir → dir ∈ globals.1 := by
    intro d needs isGlobal dir isDir
    rcases (covers.2 d needs).2 with ⟨other, member, isOther⟩
    rw [isDir] at isOther
    cases isOther
    rw [isFound] at member
    rcases List.mem_append.mp member with isLocal | isGlobally
    · have isBelow := (List.mem_filter.mp isLocal).2
      rw [not_isBelowDeps_of_global isGlobal isDir] at isBelow
      cases isBelow
    · exact isGlobally
  constructor
  · intro d needs
    rcases (covers.2 d needs).1 with ⟨dir, inst, isDir, _, isPackage⟩
    exact ⟨dir, inst.package, isDir, isPackage⟩
  · intro d needs dir inst isDir isThere
    exact (covers.2 d needs).1.before grows isDir isThere
  · intro d e needsD needsE dir isDir isDir'
    rcases (covers.2 d needsD).1.of_installDir isDir with ⟨inst, isThere, isPackage⟩
    rcases (covers.2 e needsE).1.of_installDir isDir' with ⟨inst', isThere', isPackage'⟩
    rw [isThere] at isThere'
    cases isThere'
    rw [isPackage, isPackage']
  · intro d needs dir isDir
    rcases (covers.2 d needs).1.of_installDir isDir with ⟨inst, isThere, _⟩
    exact followed.origin dir (by rw [isThere]; rfl)
  · intro d needs isGlobal
    rcases (covers.2 d needs).1 with ⟨dir, _, isDir, _, _⟩
    rcases collected.needed dir (isListed d needs isGlobal dir isDir) with ⟨e, needsE, isSame, _⟩
    exact ⟨e, needsE, isSame.trans isDir.symm⟩
  · intro d e needsD needsE same
    rcases (covers.2 d needsD.needs).1 with ⟨dir, _, isDir, _, _⟩
    rcases (covers.2 e needsE.needs).1 with ⟨other, _, isOther, _, _⟩
    have isOne := collected.single d e dir (isListed d needsD.needs needsD.isGlobal dir isDir) other
      (isListed e needsE.needs needsE.isGlobal other isOther) isDir isOther same
    rw [isDir, isOther, isOne]

theorem holds_of_consistent (consistent : Consistent env store manifest order)
    (grows : store.Grows walk.store) (followed : Followed env manifest store visited walk order) :
    ∀ d, Needs env manifest d → Holds env walk.store d := by
  intro d needs
  rcases consistent.named d needs with ⟨dir, package, isDir, isPackage⟩
  rcases consistent.there d needs dir isDir with before | ⟨first, member, isFirst⟩
  · rcases Option.isSome_iff_exists.mp before with ⟨inst, isThere⟩
    exact ⟨dir, inst, isDir, grows dir inst isThere,
      consistent.held d needs dir inst isDir isThere⟩
  · rcases followed.holds first member with ⟨needsFirst, holds⟩
    rcases holds.of_installDir isFirst with ⟨inst, isThere, isInst⟩
    refine ⟨dir, inst, isDir, isThere, ?_⟩
    rw [consistent.same d first needs needsFirst dir isDir isFirst, isInst]

theorem covers_of_consistent {globals : List Path × List MissingDep}
    {collectedKeys : List Coordinate} (consistent : Consistent env store manifest order)
    (holds : ∀ d, Needs env manifest d → Holds env walk.store d)
    (isFound : found.1 = (walk.store.map Prod.fst).filter (isBelowDeps env.root) ++ globals.1)
    (isMissing : found.2 = globals.2) (collected : Collected env manifest collectedKeys globals)
    (all : ∀ d, NeedsGlobally env manifest d → d.coordinate ∈ collectedKeys) :
    Covers env walk.store manifest found := by
  refine ⟨isMissing.trans collected.complete, fun d needs => ⟨holds d needs, ?_⟩⟩
  rcases holds d needs with ⟨dir, inst, isDir, isThere, _⟩
  refine ⟨dir, ?_, isDir⟩
  rw [isFound]
  by_cases isGlobal : d.dep.url = none
  · rcases consistent.listed d needs isGlobal with ⟨e, needsE, isSame⟩
    rcases collected.listed _ (all e needsE) with ⟨f, other, needsF, same, isOther, member⟩
    have isOne := consistent.single f e needsF needsE same
    rw [isOther, isSame, isDir] at isOne
    cases isOne
    exact List.mem_append_right _ member
  · apply List.mem_append_left
    rw [List.mem_filter]
    refine ⟨?_, isBelowDeps_of_url isGlobal isDir⟩
    by_contra notThere
    rw [Entries.lookup_eq_none.mpr notThere] at isThere
    cases isThere

theorem covers_iff {after : List Coordinate × Walk}
    (walked : Guarded.visitAll Declared.coordinate (installStep env update) fuel manifest.declares ([], Walk.start store lock) = some after)
    (whole : after.2.fail = 0)
    (isFound : installedDepDirs env after.2.store manifest fuel = some found) :
    Covers env after.2.store manifest found ↔
      ∃ order, walkOrder env manifest fuel = some order ∧ Consistent env store manifest order := by
  have grows := grows_of_walk walked
  rcases Option.map_eq_some_iff.mp isFound with ⟨globals, isGlobals, rfl⟩
  constructor
  · intro covers
    have holds : ∀ d, Needs env manifest d → Holds env after.2.store d := fun d needs =>
      (covers.2 d needs).1
    have held : ∀ d, Needs env manifest d → ∀ dir inst, env.installDir d.dep = .ok dir →
        store.lookup dir = some inst → d.package env = some inst.package :=
      fun d needs dir inst isDir isThere => (holds d needs).before grows isDir isThere
    rcases followed_of_walk held walked whole with ⟨order, isOrder, followed⟩
    rcases collected_of_walk holds isGlobals with ⟨keys, collected, _⟩
    exact ⟨order, isOrder, consistent_of_covers covers grows followed rfl collected⟩
  · rintro ⟨order, isOrder, consistent⟩
    rcases followed_of_walk consistent.held walked whole with ⟨order', isOrder', followed⟩
    rw [isOrder] at isOrder'
    cases isOrder'
    have holds := holds_of_consistent consistent grows followed
    rcases collected_of_walk holds isGlobals with ⟨keys, collected, all⟩
    exact covers_of_consistent consistent holds rfl rfl collected (all consistent.single)

/-- The coordinates that a manifest, the directories that are there and the packages of the servers
declare. -/
def allCoordinates (env : Env) (store : Store) (manifest : TinoxManifest) : List Coordinate :=
  manifest.declares.map Declared.coordinate ++
    (store.flatMap fun entry => entry.2.package.manifest.declares.map Declared.coordinate) ++
    env.server.flatMap fun entry =>
      ((registry env entry.1).map fun package =>
        package.manifest.declares.map Declared.coordinate).getD []

/-- All directories declare known coordinates. -/
def Known (keys : Finset Coordinate) (store : Store) : Prop :=
  ∀ dir inst, store.lookup dir = some inst → ∀ d ∈ inst.package.manifest.declares, d.coordinate ∈ keys

theorem known_store (env : Env) (store : Store) (manifest : TinoxManifest) :
    Known (allCoordinates env store manifest).toFinset store := by
  intro dir inst isThere d member
  rw [List.mem_toFinset, allCoordinates]
  apply List.mem_append_left
  apply List.mem_append_right
  exact List.mem_flatMap.mpr ⟨(dir, inst), Entries.mem_of_lookup isThere, List.mem_map_of_mem member⟩

theorem known_registry {url : String} {package : Package}
    (isPackage : registry env url = some package) (store : Store) (manifest : TinoxManifest)
    (member : d ∈ package.manifest.declares) :
    d.coordinate ∈ (allCoordinates env store manifest).toFinset := by
  rw [List.mem_toFinset, allCoordinates]
  apply List.mem_append_right
  cases isServed : env.server.lookup url with
  | none =>
      rw [registry, download, isServed] at isPackage
      cases isPackage
  | some raw =>
      refine List.mem_flatMap.mpr ⟨(url, raw), Entries.mem_of_lookup isServed, ?_⟩
      dsimp only
      rw [isPackage]
      exact List.mem_map_of_mem member

theorem installStep_known (update : Bool) (store : Store) (manifest : TinoxManifest) :
    Guarded.Preserves Declared.coordinate (installStep env update)
      (fun d => d.coordinate ∈ (allCoordinates env store manifest).toFinset)
      (fun _ walk => Known (allCoordinates env store manifest).toFinset walk.store) := by
  constructor
  · intro d _ walk _ _ known
    have stepped := installStep_cases env update d walk
    generalize installStep env update d walk = after at stepped ⊢
    cases stepped with
    | failed => exact known
    | found _ _ _ _ _ _ => exact known
    | made url dir bytes name sub isUrl _ _ isDownload _ isExtracted =>
        intro other inst isThere e member
        rw [List.lookup_cons] at isThere
        split at isThere
        · cases isThere
          have isPackage := declared_package isUrl isDownload isExtracted
          rw [Declared.package, isUrl] at isPackage
          exact known_registry isPackage store manifest member
        · exact known other inst isThere e member
  · intro d _ walk _ _ known child member
    have stepped := installStep_cases env update d walk
    generalize installStep env update d walk = after at stepped member
    cases stepped with
    | failed => cases member
    | found url dir inst _ _ isThere => exact known dir inst isThere child member
    | made url dir bytes name sub isUrl _ _ isDownload _ isExtracted =>
        have isPackage := declared_package isUrl isDownload isExtracted
        rw [Declared.package, isUrl] at isPackage
        exact known_registry isPackage store manifest member

theorem collectStep_known {keys : Finset Coordinate} (known : Known keys store) :
    Guarded.Preserves Dependency.coordinate (collectStep env store) (fun dep => dep.coordinate ∈ keys)
      (fun _ _ => True) := by
  refine ⟨fun _ _ _ _ _ _ => trivial, ?_⟩
  intro dep _ found _ _ _ child member
  rw [collectStep] at member
  split at member
  · cases member
  · split at member
    · cases member
    · rename_i isThere
      have isChild := (List.mem_filter.mp member).1
      exact known _ _ isThere _ (List.mem_map_of_mem isChild)

theorem cmdInstall_walk {lock : Except String TinoxLock} {outcome : Outcome}
    (done : cmdInstall env update manifest lock store fuel = some outcome)
    (success : outcome.success = true) :
    ∃ after, Guarded.visitAll Declared.coordinate (installStep env update) fuel manifest.declares
        ([], Walk.start store (lockOrDefault lock)) = some after ∧ after.2.fail = 0 ∧
      outcome.store = after.2.store := by
  by_cases isEmpty : manifest.dependencies.isEmpty = true
  · have noDeps : manifest.declares = [] := by
      rw [TinoxManifest.declares, List.isEmpty_iff.mp isEmpty, List.map_nil]
    rw [cmdInstall.eq_def, if_pos isEmpty] at done
    cases done
    exact ⟨([], Walk.start store (lockOrDefault lock)), by rw [noDeps]; rfl, rfl, rfl⟩
  · rw [cmdInstall.eq_def, if_neg isEmpty] at done
    cases lock with
    | error e =>
        cases done
        cases success
    | ok read =>
        rcases Option.map_eq_some_iff.mp done with ⟨after, walked, rfl⟩
        exact ⟨after, walked, eq_of_beq success, rfl⟩

theorem cmdInstall_returns (env : Env) (update : Bool) (manifest : TinoxManifest)
    (lock : Except String TinoxLock) (store : Store)
    (enough : (allCoordinates env store manifest).length < fuel) :
    ∃ outcome, cmdInstall env update manifest lock store fuel = some outcome ∧
      Known (allCoordinates env store manifest).toFinset outcome.store := by
  have known := known_store env store manifest
  rw [cmdInstall.eq_def]
  by_cases isEmpty : manifest.dependencies.isEmpty = true
  · rw [if_pos isEmpty]
    exact ⟨_, rfl, known⟩
  · rw [if_neg isEmpty]
    cases lock with
    | error e => exact ⟨_, rfl, known⟩
    | ok read =>
        have roots : ∀ d ∈ manifest.declares,
            d.coordinate ∈ (allCoordinates env store manifest).toFinset := by
          intro d member
          rw [List.mem_toFinset, allCoordinates]
          apply List.mem_append_left
          exact List.mem_append_left _ (List.mem_map_of_mem member)
        have few := Nat.lt_of_le_of_lt (List.toFinset_card_le _) enough
        have preserves := @installStep_known env update store manifest
        have returns : (Guarded.visitAll Declared.coordinate (installStep env update) fuel
            manifest.declares ([], Walk.start store read)).isSome = true :=
          Guarded.visitAll_isSome preserves (fun _ inside => inside) few roots known
        rcases Option.isSome_iff_exists.mp returns with ⟨after, walked⟩
        refine ⟨_, Option.map_eq_some_iff.mpr ⟨after, walked, rfl⟩, ?_⟩
        exact (Guarded.visitAll_spec preserves walked roots known).1

theorem installedDepDirs_returns (env : Env) (manifest : TinoxManifest) {store : Store}
    (known : Known (allCoordinates env store manifest).toFinset after)
    (enough : (allCoordinates env store manifest).length < fuel) :
    ∃ found, installedDepDirs env after manifest fuel = some found := by
  have roots : ∀ dep ∈ manifest.dependencies.filter fun dep => dep.url.isNone,
      dep.coordinate ∈ (allCoordinates env store manifest).toFinset := by
    intro dep member
    rw [List.mem_toFinset, allCoordinates]
    apply List.mem_append_left
    apply List.mem_append_left
    exact List.mem_map.mpr ⟨⟨dep, manifest⟩,
      List.mem_map_of_mem (List.mem_filter.mp member).1, rfl⟩
  have few := Nat.lt_of_le_of_lt (List.toFinset_card_le _) enough
  have returns : (Guarded.visitAll Dependency.coordinate (collectStep env after) fuel
      (manifest.dependencies.filter fun dep => dep.url.isNone) ([], ([], []))).isSome = true :=
    Guarded.visitAll_isSome (collectStep_known known) (fun _ inside => inside) few roots trivial
  rcases Option.isSome_iff_exists.mp returns with ⟨final, walked⟩
  rw [installedDepDirs, globalDepDirs, walked]
  exact ⟨_, rfl⟩

/-- `cmd_install` and `installed_dep_dirs` return.  When the run reports no failure, nothing is
missing and every directory that the manifest needs is listed with its package, exactly when what it
needs is consistent. -/
theorem cmdInstall_covers_iff (env : Env) (update : Bool) (manifest : TinoxManifest)
    (lock : Except String TinoxLock) (store : Store) (more : Nat) :
    let fuel := (allCoordinates env store manifest).length + 1 + more
    ∃ outcome found, cmdInstall env update manifest lock store fuel = some outcome ∧
      installedDepDirs env outcome.store manifest fuel = some found ∧
      (outcome.success = true →
        (Covers env outcome.store manifest found ↔
          ∃ order, walkOrder env manifest fuel = some order ∧
            Consistent env store manifest order)) := by
  intro fuel
  have enough : (allCoordinates env store manifest).length < fuel := by omega
  rcases cmdInstall_returns env update manifest lock store enough with ⟨outcome, done, known⟩
  rcases installedDepDirs_returns env manifest known enough with ⟨found, isFound⟩
  refine ⟨outcome, found, done, isFound, fun success => ?_⟩
  rcases cmdInstall_walk done success with ⟨after, walked, whole, isStore⟩
  rw [isStore] at isFound ⊢
  exact covers_iff walked whole isFound

/-- A dependency with a url. -/
def webDep : Dependency :=
  ⟨⟨"com.example", "web", "1.0.0", some "https://example.com/web.tar.gz", none⟩, none⟩

/-- A dependency without a url, which only the package of the other one declares. -/
def jsonDep : Dependency :=
  ⟨⟨"com.example", "json", "2.0.0", none, none⟩, none⟩

def appManifest : TinoxManifest :=
  ⟨[webDep], []⟩

/-- The archive of the first package has a manifest; the other package is a single file. -/
def appTools : Tools where
  sha256Hex bytes := if bytes.isEmpty then "e3b0c442" else "4bf5122f"
  parseRegistryEnvelope _ := none
  extract name _ := .ok (if name = "web.tar.gz" then ⟨[jsonDep], []⟩ else ⟨[], []⟩)
  requestError _ := "status code 404"

def appEnv : Env where
  tools := appTools
  root := ["/", "app"]
  home := some ["/", "home"]
  server := [("https://example.com/web.tar.gz", [1]),
    ("https://central.tinox-lang.de/api/v1/com.example/json/2.0.0", [])]

def webDir : Path :=
  ["/", "app", ".tinox", "deps", "com.example", "web", "1.0.0"]

def jsonDir : Path :=
  ["/", "home", ".tinox", "repository", "central", "com.example", "json", "2.0.0"]

theorem cmdInstall_app :
    ∃ outcome, cmdInstall appEnv false appManifest (.ok ⟨[]⟩) [] 3 = some outcome ∧
      outcome.success = true ∧
      installedDepDirs appEnv outcome.store appManifest 3 = some ([webDir], []) :=
  ⟨_, rfl, rfl, rfl⟩

/-- Both packages are installed, but only the one with a url is found. -/
theorem jsonDep_notCovered :
    ∃ outcome found, cmdInstall appEnv false appManifest (.ok ⟨[]⟩) [] 3 = some outcome ∧
      outcome.success = true ∧ installedDepDirs appEnv outcome.store appManifest 3 = some found ∧
      ¬ Covers appEnv outcome.store appManifest found := by
  rcases cmdInstall_app with ⟨outcome, done, success, isFound⟩
  refine ⟨outcome, ([webDir], []), done, success, isFound, ?_⟩
  intro covers
  have needsWeb : Needs appEnv appManifest ⟨webDep, appManifest⟩ :=
    Needs.direct List.mem_cons_self
  have isPackage : Declared.package appEnv ⟨webDep, appManifest⟩ = some ⟨[1], ⟨[jsonDep], []⟩⟩ := rfl
  have needsJson : Needs appEnv appManifest ⟨jsonDep, ⟨[jsonDep], []⟩⟩ :=
    Needs.nested needsWeb isPackage List.mem_cons_self
  rcases (covers.2 _ needsJson).2 with ⟨dir, member, isDir⟩
  have isJson : appEnv.installDir jsonDep = .ok jsonDir := rfl
  rw [isJson] at isDir
  cases isDir
  have apart : jsonDir ∉ [webDir] := by decide
  exact apart member

end Tinox.Packages
