import Tinox.Data.Entries
import Tinox.Packages.Install

/-!
# Checksum pins

A download is compared with the checksum that pins it; a directory that is there already is not.
Over a history of runs a pin holds where the directory was compared with it when it was made, or
where the pin is the lock entry that was written then.
-/

namespace Tinox.Packages

open Tinox.Imports (Path)

/-- The bytes have the checksum. -/
def Tools.HasSha256 (tools : Tools) (bytes : List UInt8) (expected : String) : Prop :=
  eqIgnoreAsciiCase expected (tools.sha256Hex bytes) = true

/-- The bytes of every directory have the checksum with which they were compared. -/
def Checked (tools : Tools) (store : Store) : Prop :=
  ∀ dir inst, store.lookup dir = some inst → ∀ expected, inst.comparedWith = some expected →
    tools.HasSha256 inst.package.bytes expected

/-- The entries that runs have written have the checksums of the directories that were made. -/
def Recorded (tools : Tools) (lock : TinoxLock) (store : Store) : Prop :=
  ∀ entry ∈ lock.dependencies, ∀ dir, entry.dir = some dir →
    ∃ inst, store.lookup dir = some inst ∧ entry.sha256 = tools.sha256Hex inst.package.bytes

variable {tools : Tools} {store : Store} {update : Bool} {walk : Walk} {visited : List Coordinate}

theorem Recorded.grows {lock : TinoxLock} {after : Store} (recorded : Recorded tools lock store)
    (grows : store.Grows after) : Recorded tools lock after := by
  intro entry member dir isDir
  rcases recorded entry member dir isDir with ⟨inst, isThere, same⟩
  exact ⟨inst, grows dir inst isThere, same⟩

/-- What a dependency that is reported as installed leaves behind: its directory was there before,
or it was made of bytes that have the checksum that was expected. -/
def Reported (env : Env) (update : Bool) (before : Walk) (store : Store)
    (report : Dependency × String) : Prop :=
  ∃ dir inst, env.installDir report.1 = .ok dir ∧ store.lookup dir = some inst ∧
    (before.store.lookup dir = some inst ∨
      ∀ expected, expectedChecksum report.1 report.2 before.lock update = some expected →
        env.tools.HasSha256 inst.package.bytes expected)

/-- The invariant of a run.  A coordinate that has not been visited still has the entry and the
directories that it had before. -/
structure Kept (env : Env) (update : Bool) (before : Walk) (visited : List Coordinate)
    (walk : Walk) : Prop where
  checked : Checked env.tools walk.store
  recorded : Recorded env.tools walk.lock walk.store
  one : walk.lock.OnePerCoordinate
  grows : before.store.Grows walk.store
  sameEntry : ∀ dep : Dependency, dep.coordinate ∉ visited →
    lockEntryFor walk.lock dep = lockEntryFor before.lock dep
  sameDir : ∀ (dep : Dependency) dir, dep.coordinate ∉ visited → env.installDir dep = .ok dir →
    walk.store.lookup dir = before.store.lookup dir
  reported : ∀ report ∈ walk.reports, Reported env update before walk.store report

theorem Kept.start {env : Env} {update : Bool} {store : Store} {lock : TinoxLock}
    (checked : Checked env.tools store) (recorded : Recorded env.tools lock store)
    (one : lock.OnePerCoordinate) :
    Kept env update (Walk.start store lock) [] (Walk.start store lock) where
  checked := checked
  recorded := recorded
  one := one
  grows _ _ isThere := isThere
  sameEntry _ _ := rfl
  sameDir _ _ _ _ := rfl
  reported := nofun

theorem Kept.made {env : Env} {before : Walk} (kept : Kept env update before visited walk)
    {dep : Dependency} {url : String} {dir : Path} {bytes : List UInt8} {manifest : TinoxManifest}
    (isNew : dep.coordinate ∉ visited) (isDir : env.installDir dep = .ok dir)
    (notThere : walk.store.lookup dir = none)
    (isVerified : verifyChecksum dep url walk.lock update (env.tools.sha256Hex bytes) = .ok ())
    {lockChanged : Bool} {ok fail : Nat} : Kept env update before (dep.coordinate :: visited)
      ⟨(dir, ⟨⟨bytes, manifest⟩, expectedChecksum dep url walk.lock update⟩) :: walk.store,
        upsertLockEntry walk.lock ⟨dep.group, dep.artifactId, dep.version, url,
          env.tools.sha256Hex bytes, some dir⟩,
        lockChanged, ok, fail, walk.reports ++ [(dep, url)]⟩ := by
  have grows := Store.Grows.cons notThere
    ⟨⟨bytes, manifest⟩, expectedChecksum dep url walk.lock update⟩
  constructor
  · intro other inst isThere expected isExpected
    rw [List.lookup_cons] at isThere
    split at isThere
    · cases isThere
      exact verifyChecksum_ok isVerified isExpected
    · exact kept.checked other inst isThere expected isExpected
  · intro entry member other isOther
    rcases mem_upsertLockEntry member with old | rfl
    · exact kept.recorded.grows grows entry old other isOther
    · cases isOther
      exact ⟨_, List.lookup_cons_self, rfl⟩
  · exact onePerCoordinate_upsertLockEntry kept.one _
  · exact fun other inst isThere => grows other inst (kept.grows other inst isThere)
  · intro other notVisited
    rw [List.mem_cons, not_or] at notVisited
    rw [lockEntryFor_upsertLockEntry notVisited.1]
    exact kept.sameEntry other notVisited.2
  · intro other otherDir notVisited isOther
    rw [List.mem_cons, not_or] at notVisited
    have apart : otherDir ≠ dir := by
      rintro rfl
      exact notVisited.1 (coordinate_of_installDir isOther isDir)
    rw [List.lookup_cons, beq_eq_false_iff_ne.mpr apart]
    exact kept.sameDir other otherDir notVisited.2 isOther
  · intro report member
    rcases List.mem_append.mp member with old | isLast
    · rcases kept.reported report old with ⟨other, inst, isOther, isThere, held⟩
      exact ⟨other, inst, isOther, grows other inst isThere, held⟩
    · rw [List.mem_singleton.mp isLast]
      refine ⟨dir, _, isDir, List.lookup_cons_self, Or.inr ?_⟩
      intro expected isExpected
      rw [← expectedChecksum_congr (kept.sameEntry dep isNew)] at isExpected
      exact verifyChecksum_ok isVerified isExpected

theorem installStep_kept {env : Env} {before : Walk} {declared : Declared}
    (isNew : declared.coordinate ∉ visited) (kept : Kept env update before visited walk) :
    Kept env update before (declared.coordinate :: visited)
      (installStep env update declared walk).1 := by
  have later : ∀ dep : Dependency, dep.coordinate ∉ declared.coordinate :: visited →
      dep.coordinate ∉ visited := fun _ notVisited member =>
    notVisited (List.mem_cons_of_mem _ member)
  have stepped := installStep_cases env update declared walk
  generalize installStep env update declared walk = after at stepped ⊢
  cases stepped with
  | failed =>
      exact ⟨kept.checked, kept.recorded, kept.one, kept.grows,
        fun dep notVisited => kept.sameEntry dep (later dep notVisited),
        fun dep dir notVisited => kept.sameDir dep dir (later dep notVisited), kept.reported⟩
  | found url dir inst isUrl isDir isThere =>
      refine ⟨kept.checked, kept.recorded, kept.one, kept.grows,
        fun dep notVisited => kept.sameEntry dep (later dep notVisited),
        fun dep dir notVisited => kept.sameDir dep dir (later dep notVisited), ?_⟩
      intro report member
      rcases List.mem_append.mp member with old | isLast
      · exact kept.reported report old
      · rw [List.mem_singleton.mp isLast]
        refine ⟨dir, inst, isDir, isThere, Or.inl ?_⟩
        rw [← kept.sameDir declared.dep dir isNew isDir]
        exact isThere
  | made url dir bytes name manifest isUrl isDir notThere isDownload isVerified isExtracted =>
      exact kept.made isNew isDir notThere isVerified

/-- A lock file with what runs keep of it. -/
def LockSound (tools : Tools) (lock : Except String TinoxLock) (store : Store) : Prop :=
  ∀ read, lock = .ok read → Recorded tools read store ∧ read.OnePerCoordinate

variable {lock : Except String TinoxLock}

theorem LockSound.grows {after : Store} (sound : LockSound tools lock store)
    (grows : store.Grows after) : LockSound tools lock after :=
  fun read isRead => ⟨(sound read isRead).1.grows grows, (sound read isRead).2⟩

theorem lockSound_default (sound : LockSound tools lock store) :
    Recorded tools (lockOrDefault lock) store ∧ (lockOrDefault lock).OnePerCoordinate := by
  cases lock with
  | error e => exact ⟨nofun, List.nodup_nil⟩
  | ok read => exact sound read rfl

/-- What a command leaves behind. -/
structure Left (env : Env) (update : Bool) (lock : Except String TinoxLock) (store : Store)
    (outcome : Outcome) : Prop where
  checked : Checked env.tools outcome.store
  grows : store.Grows outcome.store
  sound : LockSound env.tools outcome.lock outcome.store
  reported : ∀ report ∈ outcome.reports,
    Reported env update (Walk.start store (lockOrDefault lock)) outcome.store report

theorem Left.unchanged {env : Env} {success : Bool} (checked : Checked env.tools store)
    (sound : LockSound env.tools lock store) :
    Left env update lock store ⟨success, store, lock, []⟩ :=
  ⟨checked, fun _ _ isThere => isThere, sound, nofun⟩

theorem Kept.left {env : Env} (sound : LockSound env.tools lock store)
    (kept : Kept env update (Walk.start store (lockOrDefault lock)) visited walk) :
    Left env update lock store (walk.outcome lock) := by
  refine ⟨kept.checked, kept.grows, ?_, kept.reported⟩
  intro read isRead
  rw [Walk.outcome] at isRead
  dsimp only at isRead
  split at isRead
  · cases isRead
    exact ⟨kept.recorded, kept.one⟩
  · exact sound.grows kept.grows read isRead

theorem installStep_preserves (env : Env) (update : Bool) (before : Walk) :
    Guarded.Preserves Declared.coordinate (installStep env update) (fun _ => True)
      (Kept env update before) where
  state _ _ _ _ isNew kept := installStep_kept isNew kept
  next _ _ _ _ _ _ _ _ := trivial

theorem cmdInstall_left {env : Env} {update : Bool} {manifest : TinoxManifest}
    {lock : Except String TinoxLock} {store : Store} {fuel : Nat} {outcome : Outcome}
    (checked : Checked env.tools store) (sound : LockSound env.tools lock store)
    (done : cmdInstall env update manifest lock store fuel = some outcome) :
    Left env update lock store outcome := by
  cases lock with
  | error e =>
      rw [cmdInstall] at done
      split at done
      all_goals
        cases done
        exact Left.unchanged checked sound
  | ok read =>
      rw [cmdInstall] at done
      split at done
      · cases done
        exact Left.unchanged checked sound
      · rcases Option.map_eq_some_iff.mp done with ⟨after, walked, rfl⟩
        have start := @Kept.start env update _ _ checked (sound read rfl).1 (sound read rfl).2
        exact (Guarded.visitAll_spec (installStep_preserves env update _) walked
          (fun _ _ => trivial) start).1.left sound

theorem cmdAdd_left {env : Env} {dep : Dependency} {manifest : TinoxManifest}
    {lock : Except String TinoxLock} {store : Store} {fuel : Nat} {outcome : Outcome}
    (checked : Checked env.tools store) (sound : LockSound env.tools lock store)
    (done : cmdAdd env dep manifest lock store fuel = some outcome) :
    Left env false lock store outcome := by
  rcases Option.map_eq_some_iff.mp done with ⟨after, walked, rfl⟩
  have start := @Kept.start env false _ _ checked (lockSound_default sound).1
    (lockSound_default sound).2
  exact (Guarded.visit_spec (installStep_preserves env false _) walked trivial start).1.left sound

/-- All projects that share a tinox home directory, and the servers. -/
structure Machine where
  server : List (String × List UInt8)
  store : Store
  manifests : Path → TinoxManifest
  locks : Path → Except String TinoxLock

/-- What happens: servers answer something else, a manifest is edited, or a command runs. -/
inductive Event where
  | serve (server : List (String × List UInt8))
  | edit (root : Path) (manifest : TinoxManifest)
  | install (root : Path) (update : Bool)
  | add (root : Path) (group artifactId version url : String)

/-- The project in which a command runs without `--update`. -/
def Event.pinned : Event → Option Path
  | .install root false => some root
  | .add root _ _ _ _ => some root
  | _ => none

section Histories

variable (tools : Tools) (home : Option Path)

def Machine.env (m : Machine) (root : Path) : Env :=
  ⟨tools, root, home, m.server⟩

/-- A command has run in a project. -/
def Machine.leave (m : Machine) (root : Path) (outcome : Outcome) : Machine :=
  { m with store := outcome.store, locks := Function.update m.locks root outcome.lock }

/-- One event, and what it reports as installed. -/
def step (fuel : Nat) (m : Machine) : Event → Option (Machine × List (Dependency × String))
  | .serve server => some ({ m with server := server }, [])
  | .edit root manifest =>
      some ({ m with manifests := Function.update m.manifests root manifest }, [])
  | .install root update =>
      (cmdInstall (m.env tools home root) update (m.manifests root) (m.locks root) m.store fuel).map
        fun outcome => (m.leave root outcome, outcome.reports)
  | .add root group artifactId version url =>
      let dep := addedDep group artifactId version url
      let manifest := addToManifest (m.manifests root) dep
      (cmdAdd (m.env tools home root) dep manifest (m.locks root) m.store fuel).map fun outcome =>
        ({ m.leave root outcome with manifests := Function.update m.manifests root manifest },
          outcome.reports)

/-- A step of a history. -/
structure Step where
  before : Machine
  event : Event
  after : Machine
  reports : List (Dependency × String)

/-- The steps that lead from one machine to another. -/
inductive History (start : Machine) : List Step → Machine → Prop where
  | nil : History start [] start
  | snoc {steps : List Step} {m m' : Machine} {event : Event} {fuel : Nat}
      {reports : List (Dependency × String)} (history : History start steps m)
      (stepped : step tools home fuel m event = some (m', reports)) :
      History start (steps ++ [⟨m, event, m', reports⟩]) m'

/-- A machine before all runs: no directory has been compared with anything, no run has written an
entry, and the locks are well formed. -/
structure Start (m : Machine) : Prop where
  notCompared : ∀ dir inst, m.store.lookup dir = some inst → inst.comparedWith = none
  notWritten : ∀ root lock, m.locks root = .ok lock → ∀ entry ∈ lock.dependencies, entry.dir = none
  one : ∀ root lock, m.locks root = .ok lock → lock.OnePerCoordinate

/-- What a run without `--update` reports as installed although it is pinned has the checksum. -/
def Step.PinsHold (s : Step) : Prop :=
  ∀ root, s.event.pinned = some root → ∀ report ∈ s.reports, ∀ expected,
    expectedChecksum report.1 report.2 (lockOrDefault (s.before.locks root)) false = some expected →
    ∃ dir inst, (s.before.env tools home root).installDir report.1 = .ok dir ∧
      s.after.store.lookup dir = some inst ∧ tools.HasSha256 inst.package.bytes expected

/-- No lock has two entries for a coordinate. -/
def Step.LocksOne (s : Step) : Prop :=
  ∀ root lock, s.after.locks root = .ok lock → lock.OnePerCoordinate

/-- A directory that a run without `--update` finds for a pinned dependency was compared with the
pin when it was made, or the pin is the lock entry that was written then. -/
def Step.Compared (s : Step) : Prop :=
  ∀ root, s.event.pinned = some root → ∀ report ∈ s.reports, ∀ dir inst expected,
    (s.before.env tools home root).installDir report.1 = .ok dir →
    s.before.store.lookup dir = some inst →
    expectedChecksum report.1 report.2 (lockOrDefault (s.before.locks root)) false = some expected →
    (∃ compared, inst.comparedWith = some compared ∧ eqIgnoreAsciiCase compared expected = true) ∨
      report.1.sha256 = none ∧ ∃ entry,
        lockEntryFor (lockOrDefault (s.before.locks root)) report.1 = some entry ∧
          entry.dir = some dir

variable {tools home}

/-- What every step keeps. -/
structure Machine.Sound (tools : Tools) (m : Machine) : Prop where
  checked : Checked tools m.store
  locks : ∀ root, LockSound tools (m.locks root) m.store

variable {m : Machine}

theorem Start.sound (isStart : Start m) : m.Sound tools where
  checked dir inst isThere expected isExpected := by
    rw [isStart.notCompared dir inst isThere] at isExpected
    cases isExpected
  locks root read isRead := by
    refine ⟨?_, isStart.one root read isRead⟩
    intro entry member dir isDir
    rw [isStart.notWritten root read isRead entry member] at isDir
    cases isDir

theorem Machine.leave_locks (m : Machine) (root : Path) (outcome : Outcome) (other : Path) :
    (m.leave root outcome).locks other = if other = root then outcome.lock else m.locks other :=
  Function.update_apply ..

theorem Machine.Sound.leave (sound : m.Sound tools) {env : Env} {root : Path} {outcome : Outcome}
    (isTools : env.tools = tools) (left : Left env update (m.locks root) m.store outcome) :
    (m.leave root outcome).Sound tools := by
  subst isTools
  refine ⟨left.checked, fun other => ?_⟩
  rw [Machine.leave_locks]
  split
  · exact left.sound
  · exact (sound.locks other).grows left.grows

theorem step_sound {fuel : Nat} {m' : Machine} {event : Event}
    {reports : List (Dependency × String)} (sound : m.Sound tools)
    (stepped : step tools home fuel m event = some (m', reports)) :
    m'.Sound tools ∧ ∀ root, event.pinned = some root → ∀ report ∈ reports,
      Reported (m.env tools home root) false (Walk.start m.store (lockOrDefault (m.locks root)))
        m'.store report := by
  cases event with
  | serve server | edit root manifest =>
      cases stepped
      exact ⟨⟨sound.checked, sound.locks⟩, nofun⟩
  | install root update =>
      rcases Option.map_eq_some_iff.mp stepped with ⟨outcome, done, isStep⟩
      cases isStep
      have left := @cmdInstall_left (m.env tools home root) _ _ _ _ _ _ sound.checked
        (sound.locks root) done
      refine ⟨sound.leave rfl left, ?_⟩
      intro other isPinned
      cases update with
      | true => cases isPinned
      | false =>
          cases isPinned
          exact left.reported
  | add root group artifactId version url =>
      rcases Option.map_eq_some_iff.mp stepped with ⟨outcome, done, isStep⟩
      cases isStep
      have left := @cmdAdd_left (m.env tools home root) _ _ _ _ _ _ sound.checked
        (sound.locks root) done
      have kept := sound.leave rfl left
      refine ⟨⟨kept.checked, kept.locks⟩, ?_⟩
      intro other isPinned
      cases isPinned
      exact left.reported

theorem hasSha256_of_compared {bytes : List UInt8} {compared expected : String}
    (held : tools.HasSha256 bytes compared) (same : eqIgnoreAsciiCase compared expected = true) :
    tools.HasSha256 bytes expected := by
  rw [Tools.HasSha256, eqIgnoreAsciiCase, beq_iff_eq] at held
  rw [eqIgnoreAsciiCase, beq_iff_eq] at same
  rw [Tools.HasSha256, eqIgnoreAsciiCase, beq_iff_eq, ← same, held]

theorem eqIgnoreAsciiCase_refl (s : String) : eqIgnoreAsciiCase s s = true := by
  rw [eqIgnoreAsciiCase, beq_self_eq_true]

theorem pinsHold_of_compared {s : Step} {fuel : Nat} (sound : s.before.Sound tools)
    (stepped : step tools home fuel s.before s.event = some (s.after, s.reports))
    (compared : s.Compared tools home) : s.PinsHold tools home := by
  intro root isPinned report member expected isExpected
  rcases (step_sound sound stepped).2 root isPinned report member with
    ⟨dir, inst, isDir, isThere, wasThere | verified⟩
  · refine ⟨dir, inst, isDir, isThere, ?_⟩
    rcases compared root isPinned report member dir inst expected isDir wasThere isExpected with
      ⟨with', isCompared, same⟩ | ⟨notDeclared, entry, isEntry, isWritten⟩
    · exact hasSha256_of_compared (sound.checked dir inst wasThere with' isCompared) same
    · have found := mem_of_lockEntryFor isEntry
      rcases (lockSound_default (sound.locks root)).1 entry found dir isWritten with
        ⟨other, isOther, isSha256⟩
      rw [show s.before.store.lookup dir = some inst from wasThere] at isOther
      cases isOther
      rw [expectedChecksum, notDeclared, isEntry] at isExpected
      rcases Option.map_eq_some_iff.mp isExpected with ⟨used, isUsed, rfl⟩
      rw [Option.filter_eq_some_iff] at isUsed
      cases isUsed.1
      rw [Tools.HasSha256, isSha256]
      exact eqIgnoreAsciiCase_refl _
  · exact ⟨dir, inst, isDir, isThere, verified expected isExpected⟩

theorem History.sound {start : Machine} {steps : List Step} (isStart : Start start)
    (history : History tools home start steps m) :
    m.Sound tools ∧ ∀ s ∈ steps, s.before.Sound tools ∧ s.after.Sound tools ∧
      ∃ fuel, step tools home fuel s.before s.event = some (s.after, s.reports) := by
  induction history with
  | nil => exact ⟨isStart.sound, nofun⟩
  | @snoc steps m m' event fuel reports _ stepped ih =>
      have kept := (step_sound ih.1 stepped).1
      refine ⟨kept, ?_⟩
      intro s member
      rcases List.mem_append.mp member with old | isLast
      · exact ih.2 s old
      · rw [List.mem_singleton.mp isLast]
        exact ⟨ih.1, kept, fuel, stepped⟩

/-- In every history the locks have one entry for a coordinate, and the pins hold in every step that
meets the condition. -/
theorem pinsHold_of_history {start m : Machine} {steps : List Step} (isStart : Start start)
    (history : History tools home start steps m) :
    ∀ s ∈ steps, s.LocksOne ∧ (s.Compared tools home → s.PinsHold tools home) := by
  intro s member
  rcases (history.sound isStart).2 s member with ⟨before, after, fuel, stepped⟩
  exact ⟨fun root lock isLock => (after.locks root lock isLock).2, pinsHold_of_compared before stepped⟩

end Histories

/-- The SHA-256 of no bytes. -/
def emptySha256 : String :=
  "e3b0c44298fc1c149afbf4c8996fb92427ae41e4649b934ca495991b7852b855"

/-- The tools on an artifact without bytes. -/
def emptyTools : Tools :=
  ⟨fun _ => emptySha256, fun _ => none, fun _ _ => .ok ⟨[], []⟩, fun _ => "status code 404"⟩

def lib (sha256 : Option String) : Dependency :=
  ⟨⟨"com.example", "lib", "1.0.0", none, none⟩, sha256⟩

def libUrl : String :=
  "https://central.tinox-lang.de/api/v1/com.example/lib/1.0.0"

def libDir : Path :=
  ["/", "home", ".tinox", "repository", "central", "com.example", "lib", "1.0.0"]

/-- Two projects whose manifests pin the same dependency or not. -/
def twoProjects (pin pin' : Option String) : Machine :=
  ⟨[(libUrl, [])], [],
    fun root => if root = ["/", "other"] then ⟨[lib pin], []⟩ else ⟨[lib pin'], []⟩, fun _ => .ok ⟨[]⟩⟩

/-- The other project has installed it. -/
def otherInstalled (pin pin' : Option String) : Machine :=
  (twoProjects pin pin').leave ["/", "other"] ⟨true, [(libDir, ⟨⟨[], ⟨[], []⟩⟩, pin⟩)],
    .ok ⟨[⟨"com.example", "lib", "1.0.0", libUrl, emptySha256, some libDir⟩]⟩, [(lib pin, libUrl)]⟩

/-- The project finds it. -/
def libFound (pin pin' : Option String) : Step where
  before := otherInstalled pin pin'
  event := .install ["/", "project"] false
  after := (otherInstalled pin pin').leave ["/", "project"]
    ⟨true, (otherInstalled pin pin').store, .ok ⟨[]⟩, [(lib pin', libUrl)]⟩
  reports := [(lib pin', libUrl)]

def libSteps (pin pin' : Option String) : List Step :=
  [⟨twoProjects pin pin', .install ["/", "other"] false, otherInstalled pin pin', [(lib pin, libUrl)]⟩,
    libFound pin pin']

theorem start_twoProjects (pin pin' : Option String) : Start (twoProjects pin pin') where
  notCompared _ _ isThere := by cases isThere
  notWritten _ _ isLock entry member := by
    cases isLock
    cases member
  one _ _ isLock := by
    cases isLock
    exact List.nodup_nil

theorem history_libSteps {pin pin' : Option String}
    (first : step emptyTools (some ["/", "home"]) 2 (twoProjects pin pin')
      (.install ["/", "other"] false) = some (otherInstalled pin pin', [(lib pin, libUrl)]))
    (second : step emptyTools (some ["/", "home"]) 2 (otherInstalled pin pin')
      (.install ["/", "project"] false) = some ((libFound pin pin').after, [(lib pin', libUrl)])) :
    History emptyTools (some ["/", "home"]) (twoProjects pin pin') (libSteps pin pin')
      (libFound pin pin').after :=
  History.snoc (History.snoc History.nil first) second

theorem pinsHold_of_history_found :
    (libFound (some emptySha256) (some emptySha256)).PinsHold emptyTools (some ["/", "home"]) := by
  have history := @history_libSteps (some emptySha256) (some emptySha256) rfl rfl
  apply (pinsHold_of_history (start_twoProjects _ _) history _
    (List.mem_cons_of_mem _ List.mem_cons_self)).2
  -- The directory was compared with the same pin.
  intro root isPinned report member dir inst expected _ isThere isExpected
  rw [List.mem_singleton.mp member] at isExpected
  cases isExpected
  refine Or.inl ⟨emptySha256, ?_, eqIgnoreAsciiCase_refl _⟩
  have isOnly : [(libDir, (⟨⟨[], ⟨[], []⟩⟩, some emptySha256⟩ : Installed))].lookup dir = some inst :=
    isThere
  rw [Entries.lookup_entry] at isOnly
  split at isOnly
  · cases isOnly
    rfl
  · cases isOnly

/-- The SHA-256 of other bytes. -/
def otherSha256 : String :=
  "ca978112ca1bbdcafac231b39a23dc4da786eff8147c4e72b9807785afee48bb"

/-- A pinned dependency is reported as installed although its directory was made of other bytes, for
a project that does not pin it. -/
theorem otherBytes_notHeld :
    Start (twoProjects none (some otherSha256)) ∧
      History emptyTools (some ["/", "home"]) (twoProjects none (some otherSha256))
        (libSteps none (some otherSha256)) (libFound none (some otherSha256)).after ∧
      ¬ ∀ s ∈ libSteps none (some otherSha256), s.PinsHold emptyTools (some ["/", "home"]) := by
  refine ⟨start_twoProjects _ _, @history_libSteps none (some otherSha256) rfl rfl, ?_⟩
  intro hold
  rcases hold (libFound none (some otherSha256)) (List.mem_cons_of_mem _ List.mem_cons_self)
    ["/", "project"] rfl (lib (some otherSha256), libUrl) List.mem_cons_self otherSha256 rfl with
    ⟨dir, inst, _, _, held⟩
  have notEqual : eqIgnoreAsciiCase otherSha256 emptySha256 = false := by decide
  exact Bool.false_ne_true (notEqual.symm.trans held)

end Tinox.Packages
