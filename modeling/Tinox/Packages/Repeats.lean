import Tinox.Packages.Closure

/-!
# Installing again

A run that has installed everything leaves nothing for a later one to do.
-/

namespace Tinox.Packages

open Tinox.Imports (Path)

variable {env : Env} {update : Bool} {manifest : TinoxManifest} {fuel : Nat}

/-- The environment of a later run: other tools may read what other servers answer. -/
def Env.later (env : Env) (tools : Tools) (server : List (String × List UInt8)) : Env :=
  { env with tools, server }

/-- What was found or made is found in a store that has grown. -/
theorem installStep_again {d : Declared} {walk found : Walk} {final : Store} (tools : Tools)
    (server : List (String × List UInt8)) (update' : Bool)
    (whole : ¬ ((installStep env update d walk).1.fail ≠ 0 ∨
      ¬ (installStep env update d walk).1.store.Grows final))
    (isStore : found.store = final) :
    ∃ (url : String) (inst : Installed),
      (installStep env update d walk).1.reports = walk.reports ++ [(d.dep, url)] ∧
      (installStep env update d walk).2 = inst.package.manifest.declares ∧
      installStep (env.later tools server) update' d found =
        ({ found with ok := found.ok + 1, reports := found.reports ++ [(d.dep, url)] },
          inst.package.manifest.declares) := by
  have isFound : ∀ {url : String} {dir : Path} {inst : Installed},
      effectiveDownloadUrl d.dep d.owningManifest = .ok url →
      env.installDir d.dep = .ok dir → final.lookup dir = some inst →
      installStep (env.later tools server) update' d found =
        ({ found with ok := found.ok + 1, reports := found.reports ++ [(d.dep, url)] },
          inst.package.manifest.declares) := by
    intro url dir inst isUrl isDir isThere
    have isSame : (env.later tools server).installDir d.dep = .ok dir := isDir
    rw [← isStore] at isThere
    rw [installStep, isUrl]
    dsimp only
    rw [installDep, isSame]
    dsimp only
    rw [isThere, if_pos Option.isSome_some]
    dsimp only
    rw [subDependencies, isSame]
    dsimp only
    rw [isThere]
    rfl
  rw [not_or, not_not, not_not] at whole
  have stepped := installStep_cases env update d walk
  generalize installStep env update d walk = after at stepped whole ⊢
  cases stepped with
  | failed => exact absurd whole.1 (Nat.succ_ne_zero _)
  | found url dir inst isUrl isDir isThere =>
      exact ⟨url, inst, rfl, rfl, isFound isUrl isDir (whole.2 dir inst isThere)⟩
  | made url dir bytes name sub isUrl isDir _ _ _ _ =>
      exact ⟨url, _, rfl, rfl, isFound isUrl isDir (whole.2 dir _ List.lookup_cons_self)⟩

/-- The walk of a later run, which has found all that the first one reports. -/
structure Repeats (final : Store) (walk found : Walk) : Prop where
  store : found.store = final
  lock : found.lockChanged = false
  fail : found.fail = 0
  reports : found.reports = walk.reports

theorem installStep_repeats (final : Store) (tools : Tools) (server : List (String × List UInt8))
    (update' : Bool) :
    Guarded.Simulates Declared.coordinate (installStep env update)
      (installStep (env.later tools server) update') (fun _ => True)
      (fun walk => walk.fail ≠ 0 ∨ ¬ walk.store.Grows final)
      (fun _ walk found => Repeats final walk found) where
  persists d walk isBroken := by
    have stepped := installStep_cases env update d walk
    generalize installStep env update d walk = after at stepped ⊢
    cases stepped with
    | failed => exact Or.inl (Nat.succ_ne_zero _)
    | found _ _ _ _ _ _ => exact isBroken
    | made url dir bytes name sub _ _ notThere _ _ _ =>
        refine isBroken.imp_right fun notGrown grows => notGrown fun other inst isThere => ?_
        exact grows other inst (Store.Grows.cons notThere _ other inst isThere)
  state d _ walk found _ _ related whole := by
    rcases installStep_again tools server update' whole related.store with
      ⟨url, inst, areReports, _, isFound⟩
    rw [isFound]
    exact ⟨related.store, related.lock, related.fail, by rw [areReports, related.reports]⟩
  same d _ walk found _ _ related whole := by
    rcases installStep_again tools server update' whole related.store with
      ⟨url, inst, _, areNext, isFound⟩
    rw [isFound, areNext]
  next _ _ _ _ _ := trivial

/-- A second `cmd_install` leaves everything as a first one without a failure has left it, with or
without `--update` and whatever the servers answer then. -/
theorem cmdInstall_repeats {lock : Except String TinoxLock} {store : Store} {outcome : Outcome}
    (done : cmdInstall env update manifest lock store fuel = some outcome)
    (success : outcome.success = true) (tools : Tools) (server : List (String × List UInt8))
    (update' : Bool) :
    cmdInstall (env.later tools server) update' manifest outcome.lock outcome.store fuel =
      some outcome := by
  rw [cmdInstall.eq_def] at done ⊢
  split at done
  next isEmpty =>
    cases done
    exact if_pos isEmpty
  next notEmpty =>
    rw [if_neg notEmpty]
    cases lock with
    | error e =>
        cases done
        cases success
    | ok read =>
        rcases Option.map_eq_some_iff.mp done with ⟨after, walked, rfl⟩
        have isLock : ∃ last, (after.2.outcome (.ok read)).lock = .ok last := by
          rw [Walk.outcome]
          dsimp only
          split <;> exact ⟨_, rfl⟩
        rcases isLock with ⟨last, isLock⟩
        have whole : ¬ (after.2.fail ≠ 0 ∨ ¬ after.2.store.Grows after.2.store) := by
          rw [not_or, not_not, not_not]
          exact ⟨eq_of_beq success, fun _ _ isThere => isThere⟩
        have start : Repeats after.2.store (Walk.start store read) (Walk.start after.2.store last) :=
          ⟨rfl, rfl, rfl, rfl⟩
        rcases Guarded.visitAll_simulated (installStep_repeats after.2.store tools server update')
          walked whole (fun _ _ => trivial) start with ⟨final, repeated, repeats⟩
        have isOutcome : final.outcome (after.2.outcome (.ok read)).lock = after.2.outcome (.ok read) := by
          rw [Walk.outcome, repeats.store, repeats.lock, repeats.fail, repeats.reports, Walk.outcome,
            eq_of_beq success]
          rfl
        rw [isLock] at isOutcome ⊢
        dsimp only
        have isRun : Guarded.visitAll Declared.coordinate
          (installStep (env.later tools server) update') fuel manifest.declares
            ([], Walk.start after.2.store last) = some (after.1, final) := repeated
        have isStart : (after.2.outcome (.ok read)).store = after.2.store := rfl
        rw [isStart, isRun, Option.map_some, isOutcome]

/-- After `appManifest` has been installed, a run for which no server answers leaves the same. -/
theorem cmdInstall_repeats_app :
    ∃ outcome, cmdInstall appEnv false appManifest (.ok ⟨[]⟩) [] 3 = some outcome ∧
      cmdInstall (appEnv.later appTools []) true appManifest outcome.lock outcome.store 3 =
        some outcome := by
  rcases cmdInstall_app with ⟨outcome, isOutcome, success, -⟩
  exact ⟨outcome, isOutcome, cmdInstall_repeats isOutcome success appTools [] true⟩

end Tinox.Packages
