import Tinox.Imports.Resolve
import Tinox.Lexer.Readers
import Tinox.Parser.Declarations

/-!
# The merged declarations

`resolve_imports` is a depth-first traversal of the files, so the merged
declarations are those of all reachable files, in post-order.  What an import
stands for is right unless dependencies disagree on a module without an error.
-/

namespace Tinox.Imports

open Tinox.Syntax

section Run

variable {α β : Type}

theorem run_bind (x : Run α) (f : α → Run β) (visited : List Path) :
    (x >>= f) visited =
      match x visited with
      | none => (none : Option (Except String (β × List Path)))
      | some (.error e) => some (.error e)
      | some (.ok (a, visited)) => f a visited := by
  rcases found : x visited with _ | _ | ⟨a, visited'⟩
  all_goals
    change Option.bind (x visited) _ = _
    rw [found]
    rfl

theorem run_liftM (x : Except String α) (visited : List Path) :
    (liftM x : Run α) visited =
      match x with
      | .error e => (some (.error e) : Option (Except String (α × List Path)))
      | .ok a => some (.ok (a, visited)) := by
  cases x <;> rfl

end Run

/-- A file as a node: its imports, and the declarations that stay. -/
def contents (env : Env) (baseDir : Path) (decls : List Decl) :
    PostOrder.Contents Path String Decl where
  edges := (importsOf decls).map fun i => resolveImport env baseDir i.path
  own := ownDecls decls

/-- The directory that the imports of a file are relative to. -/
def baseOf (path : Path) : Path :=
  path.parent.getD ["."]

/-- An imported file as a node. -/
def loadNode (env : Env) (path : Path) : Except String (PostOrder.Contents Path String Decl) :=
  (loadFile env path).map (contents env (baseOf path))

section Traversal

variable {env : Env} {resolve : List Decl → Path → Run (List Decl)}
  {visit : PostOrder.Contents Path String Decl → List Path → PostOrder.Result Path String Decl}

theorem importFiles_eq
    (same : ∀ decls baseDir visited,
      resolve decls baseDir visited = visit (contents env baseDir decls) visited)
    (paths : List Path) (imported : List Decl) (visited : List Path) :
    importFiles env resolve paths imported visited =
      PostOrder.visitTargets (loadNode env) visit paths imported visited := by
  induction paths generalizing imported visited with
  | nil => rfl
  | cons path paths ih =>
      rw [importFiles, PostOrder.visitTargets, run_bind]
      change (if path ∈ visited then importFiles env resolve paths imported else _) visited = _
      by_cases old : path ∈ visited
      · rw [if_pos old, if_pos old]
        exact ih imported visited
      · rw [if_neg old, if_neg old, run_bind]
        change ((liftM (loadFile env path) : Run (List Decl)) >>= _) (path :: visited) = _
        rw [run_bind, run_liftM, loadNode]
        cases loadFile env path with
        | error e => rfl
        | ok decls =>
            simp only [Except.map]
            rw [run_bind, same]
            change _ = PostOrder.Result.next (visit (contents env (baseOf path) decls)
              (path :: visited)) _
            rw [baseOf]
            rcases visit (contents env (path.parent.getD ["."]) decls) (path :: visited) with
              _ | _ | ⟨inner, after⟩
            · rfl
            · rfl
            · exact ih (imported ++ inner) after

theorem importAll_eq
    (same : ∀ decls baseDir visited,
      resolve decls baseDir visited = visit (contents env baseDir decls) visited)
    (baseDir : Path) (imports : List ImportDecl) (imported : List Decl) (visited : List Path) :
    importAll env resolve baseDir imports imported visited =
      PostOrder.visitEdges (loadNode env) visit
        (imports.map fun i => resolveImport env baseDir i.path) imported visited := by
  induction imports generalizing imported visited with
  | nil => rfl
  | cons i imports ih =>
      rw [importAll, run_bind, run_liftM, List.map_cons]
      cases resolveImport env baseDir i.path with
      | error e => rfl
      | ok paths =>
          simp only
          rw [run_bind, importFiles_eq same, PostOrder.visitEdges]
          rcases PostOrder.visitTargets (loadNode env) visit paths imported visited with
            _ | _ | ⟨inner, after⟩
          · rfl
          · rfl
          · exact ih inner after

end Traversal

theorem resolveImports_eq (env : Env) (fuel : Nat) (decls : List Decl) (baseDir : Path)
    (visited : List Path) :
    resolveImports env fuel decls baseDir visited =
      PostOrder.visit (loadNode env) fuel (contents env baseDir decls) visited := by
  induction fuel generalizing decls baseDir visited with
  | zero => rfl
  | succ fuel ih =>
      rw [resolveImports, run_bind, importAll_eq ih, PostOrder.visit, contents]
      simp only
      generalize PostOrder.visitEdges (loadNode env) _ _ [] visited = result
      rcases result with _ | _ | ⟨inner, after⟩
      all_goals rfl

/-- An entry file: its canonical path, the directory that it is named in, and its
declarations. -/
structure Entry where
  path : Path
  baseDir : Path
  decls : List Decl

section Graph

variable (env : Env) (entry : Entry)

/-- A file as the compiler reads it: the directory of its imports, and its
declarations. -/
def sourceFile (path : Path) : Except String (Path × List Decl) :=
  if path = entry.path then .ok (entry.baseDir, entry.decls)
  else (loadFile env path).map fun decls => (baseOf path, decls)

/-- The declarations of a file that stay. -/
def fileDecls (path : Path) : List Decl :=
  match sourceFile env entry path with
  | .ok (_, decls) => ownDecls decls
  | .error _ => []

/-- A file imports another one. -/
def ImportsFrom (path target : Path) : Prop :=
  ∃ baseDir decls, sourceFile env entry path = .ok (baseDir, decls) ∧
    ∃ i ∈ importsOf decls, ∃ paths, resolveImport env baseDir i.path = .ok paths ∧ target ∈ paths

/-- The files reachable through imports. -/
def Reachable : Path → Prop :=
  Relation.ReflTransGen (ImportsFrom env entry) entry.path

/-- The import graph of the reachable files has no cycle. -/
def Acyclic : Prop :=
  ∀ path, Reachable env entry path → ¬ Relation.TransGen (ImportsFrom env entry) path path

/-- Two dependency directories have a module, with different content. -/
def Conflicting (path : List Ident) : Prop :=
  ∃ first ∈ env.depDirs, ∃ second ∈ env.depDirs, ∃ paths paths',
    resolveModulePaths env.fs first (relFile path) path = .ok (some paths) ∧
      resolveModulePaths env.fs second (relFile path) path = .ok (some paths') ∧
      paths.map env.fs.readToString ≠ paths'.map env.fs.readToString

/-- The merged declarations are those of the files in some order. -/
structure MergedFrom (order : List Path) (merged : List Decl) : Prop where
  merged_eq : merged = order.flatMap (fileDecls env entry)
  nodup : order.Nodup
  mem_iff : ∀ path, path ∈ order ↔ Reachable env entry path
  /-- Without cycles, a file comes behind all files that it imports. -/
  sorted : Acyclic env entry → ∀ front path back, order = front ++ path :: back →
    ∀ target, ImportsFrom env entry path target → target ∈ front

/-- Imports bring in every file once, in dependency order, and conflicts between
dependencies are errors. -/
structure ImportsSound : Prop where
  terminates : ∃ bound, ∀ fuel, bound < fuel →
    (resolveImports env fuel entry.decls entry.baseDir [entry.path]).isSome
  merged : ∀ fuel merged visited,
    resolveImports env fuel entry.decls entry.baseDir [entry.path] =
        some (.ok (merged, visited)) →
      ∃ order, MergedFrom env entry order merged
  reported : ∀ path baseDir decls, Reachable env entry path →
    sourceFile env entry path = .ok (baseDir, decls) → ∀ i ∈ importsOf decls,
      Conflicting env i.path →
        (∃ e, resolveImport env baseDir i.path = .error e) ∧
          ∀ fuel result,
            resolveImports env fuel entry.decls entry.baseDir [entry.path] = some result →
              ∃ e, result = .error e

/-- An import that dependencies disagree on is noticed: looking beside the
importing file fails, or finds nothing while the labels of the dependencies
differ. -/
def Noticed (baseDir : Path) (path : List Ident) : Prop :=
  (∃ e, resolveModulePaths env.fs baseDir (relFile path) path = .error e) ∨
    resolveModulePaths env.fs baseDir (relFile path) path = .ok none ∧
      ∃ first ∈ depMatches env (relFile path) path, ∃ second ∈ depMatches env (relFile path) path,
        depDirCoordinate first.1 ≠ depDirCoordinate second.1

end Graph

variable {file rel baseDir : Path} {paths : List Path} {path : List Ident}

section Conflicts

variable {env : Env}

theorem mem_depMatches {dir : Path} : (dir, paths) ∈ depMatches env file rel ↔
      dir ∈ env.depDirs ∧ resolveModulePaths env.fs dir file rel = .ok (some paths) := by
  rw [depMatches, List.mem_filterMap]
  constructor
  · rintro ⟨found, member, matched⟩
    cases resolved : resolveModulePaths env.fs found file rel with
    | error e =>
        rw [resolved] at matched
        cases matched
    | ok result =>
        cases result with
        | none =>
            rw [resolved] at matched
            cases matched
        | some paths =>
            rw [resolved] at matched
            cases matched
            exact ⟨member, resolved⟩
  · rintro ⟨member, resolved⟩
    refine ⟨dir, member, ?_⟩
    rw [resolved]

theorem resolveInDepDirs_of_conflicting (conflicting : Conflicting env path) :
    ((∃ paths, resolveInDepDirs env (relFile path) path = .ok (some paths)) ∧
        ∀ first ∈ depMatches env (relFile path) path,
          ∀ second ∈ depMatches env (relFile path) path,
            depDirCoordinate first.1 = depDirCoordinate second.1) ∨
      (∃ e, resolveInDepDirs env (relFile path) path = .error e) ∧
        ∃ first ∈ depMatches env (relFile path) path,
          ∃ second ∈ depMatches env (relFile path) path,
            depDirCoordinate first.1 ≠ depDirCoordinate second.1 := by
  rcases conflicting with ⟨first, memberFirst, second, memberSecond, paths, paths', found, found',
    differ⟩
  have matchFirst := mem_depMatches.mpr ⟨memberFirst, found⟩
  have matchSecond := mem_depMatches.mpr ⟨memberSecond, found'⟩
  rw [resolveInDepDirs]
  rcases all : depMatches env (relFile path) path with _ | ⟨head, _ | ⟨next, others⟩⟩
  · rw [all] at matchFirst
    cases matchFirst
  · rw [all, List.mem_singleton] at matchFirst matchSecond
    rw [← matchSecond] at matchFirst
    cases matchFirst
    exact absurd rfl differ
  · by_cases same : ((next :: others).all fun other =>
        depDirCoordinate other.1 == depDirCoordinate head.1) = true
    · left
      have label : ∀ other ∈ head :: next :: others,
          depDirCoordinate other.1 = depDirCoordinate head.1 := by
        intro other member
        rcases List.mem_cons.mp member with rfl | member
        · rfl
        · exact beq_iff_eq.mp (List.all_eq_true.mp same other member)
      refine ⟨⟨head.2, if_pos same⟩, ?_⟩
      intro first memberFirst second memberSecond
      rw [label first memberFirst, label second memberSecond]
    · right
      refine ⟨⟨_, if_neg same⟩, ?_⟩
      rw [List.all_eq_true] at same
      push Not at same
      rcases same with ⟨other, member, differ⟩
      exact ⟨other, List.mem_cons_of_mem head member, head, List.mem_cons_self,
        fun equal => differ (beq_iff_eq.mpr equal)⟩

theorem resolveImport_error_iff (conflicting : Conflicting env path) :
    (∃ e, resolveImport env baseDir path = .error e) ↔ Noticed env baseDir path := by
  rw [Noticed, resolveImport]
  cases beside : resolveModulePaths env.fs baseDir (relFile path) path with
  | error e =>
      constructor
      · exact fun _ => .inl ⟨e, rfl⟩
      · exact fun _ => ⟨e, rfl⟩
  | ok found =>
      cases found with
      | some paths =>
          constructor
          · rintro ⟨e, failed⟩
            cases failed
          · rintro (⟨e, failed⟩ | ⟨nothing, _⟩)
            · cases failed
            · cases nothing
      | none =>
          rcases resolveInDepDirs_of_conflicting conflicting with
            ⟨⟨paths, resolved⟩, same⟩ | ⟨⟨e, failed⟩, differ⟩
          · constructor
            · rintro ⟨e, failed⟩
              change (resolveInDepDirs env (relFile path) path >>= _) = _ at failed
              rw [resolved] at failed
              cases failed
            · rintro (⟨e, failed⟩ | ⟨_, first, memberFirst, second, memberSecond, differ⟩)
              · cases failed
              · exact absurd (same first memberFirst second memberSecond) differ
          · constructor
            · exact fun _ => .inr ⟨rfl, differ⟩
            · intro _
              refine ⟨e, ?_⟩
              change (resolveInDepDirs env (relFile path) path >>= _) = _
              rw [failed]
              rfl

end Conflicts

section Targets

variable {env : Env}

theorem mem_of_mapM {α β ε : Type} {f : α → Except ε β} {list : List α} {results : List β}
    (mapped : list.mapM f = .ok results) : ∀ b ∈ results, ∃ a ∈ list, f a = .ok b := by
  induction list generalizing results with
  | nil =>
      cases mapped
      intro b member
      cases member
  | cons head list ih =>
      rw [List.mapM_cons] at mapped
      cases first : f head with
      | error e =>
          rw [first] at mapped
          cases mapped
      | ok b =>
          rw [first] at mapped
          cases rest : list.mapM f with
          | error e =>
              rw [rest] at mapped
              cases mapped
          | ok bs =>
              rw [rest] at mapped
              cases mapped
              intro b' member
              rcases List.mem_cons.mp member with rfl | member
              · exact ⟨head, List.mem_cons_self, first⟩
              · rcases ih rest b' member with ⟨a, memberA, found⟩
                exact ⟨a, List.mem_cons_of_mem head memberA, found⟩

theorem mem_files_of_resolveModulePaths {base : Path}
    (resolved : resolveModulePaths env.fs base file rel = .ok (some paths)) :
    ∀ path ∈ paths, path ∈ env.fs.files := by
  rw [resolveModulePaths] at resolved
  cases single : env.fs.canonicalize (base ++ file) with
  | ok found =>
      rw [single] at resolved
      cases resolved
      intro path member
      rw [List.mem_singleton.mp member]
      exact env.fs.mem_files _ _ single
  | error e =>
      rw [single] at resolved
      simp only at resolved
      split at resolved
      · split at resolved
        · cases resolved
        · split at resolved
          · cases resolved
          · cases mapped : List.mapM (fun path : Path =>
                (env.fs.canonicalize path).mapError fun e =>
                  "Cannot resolve '" ++ path.display ++ "': " ++ e) _ with
            | error e =>
                rw [mapped] at resolved
                cases resolved
            | ok found =>
                rw [mapped] at resolved
                cases resolved
                intro path member
                rcases mem_of_mapM mapped path member with ⟨name, _, canonical⟩
                cases file : env.fs.canonicalize name with
                | error e =>
                    rw [file] at canonical
                    cases canonical
                | ok _ =>
                    rw [file] at canonical
                    cases canonical
                    exact env.fs.mem_files _ _ file
      · cases resolved

theorem mem_depMatches_of_resolveInDepDirs
    (resolved : resolveInDepDirs env file rel = .ok (some paths)) :
    ∃ dir, (dir, paths) ∈ depMatches env file rel := by
  rw [resolveInDepDirs] at resolved
  split at resolved
  · cases resolved
  · rename_i single
    cases resolved
    rw [single]
    exact ⟨_, List.mem_singleton_self _⟩
  · rename_i several
    rw [several]
    split at resolved
    · cases resolved
      exact ⟨_, List.mem_cons_self⟩
    · cases resolved

theorem mem_files_of_resolveStdlib (resolved : resolveStdlib env path = .ok paths) :
    ∀ target ∈ paths, target ∈ env.fs.files := by
  rw [resolveStdlib] at resolved
  split at resolved
  · cases named : stdlibTail env path with
    | error e =>
        rw [named] at resolved
        cases resolved
    | ok tail =>
        rw [named] at resolved
        simp only [bind, Except.bind] at resolved
        cases library : stdlibDir env with
        | none =>
            rw [library] at resolved
            cases resolved
        | some dir =>
            rw [library] at resolved
            simp only at resolved
            cases found : resolveModulePaths env.fs dir (relFile tail) tail with
            | error e =>
                rw [found] at resolved
                cases resolved
            | ok result =>
                rw [found] at resolved
                cases result with
                | none => cases resolved
                | some paths =>
                    cases resolved
                    exact mem_files_of_resolveModulePaths found
  · cases resolved

theorem mem_files_of_resolveImport (resolved : resolveImport env baseDir path = .ok paths) :
    ∀ target ∈ paths, target ∈ env.fs.files := by
  rw [resolveImport] at resolved
  cases beside : resolveModulePaths env.fs baseDir (relFile path) path with
  | error e =>
      rw [beside] at resolved
      cases resolved
  | ok found =>
      rw [beside] at resolved
      cases found with
      | some found =>
          cases resolved
          exact mem_files_of_resolveModulePaths beside
      | none =>
          change (resolveInDepDirs env (relFile path) path >>= _) = _ at resolved
          cases dependency : resolveInDepDirs env (relFile path) path with
          | error e =>
              rw [dependency] at resolved
              cases resolved
          | ok found =>
              rw [dependency] at resolved
              cases found with
              | some found =>
                  cases resolved
                  rcases mem_depMatches_of_resolveInDepDirs dependency with ⟨dir, member⟩
                  exact mem_files_of_resolveModulePaths (mem_depMatches.mp member).2
              | none => exact mem_files_of_resolveStdlib resolved

end Targets

section Main

variable {env : Env} {entry : Entry}

/-- The files as nodes, with the entry file. -/
def graph (env : Env) (entry : Entry) (path : Path) :
    Except String (PostOrder.Contents Path String Decl) :=
  (sourceFile env entry path).map fun file => contents env file.1 file.2

variable {merged : List Decl}

theorem graph_entry :
    graph env entry entry.path = .ok (contents env entry.baseDir entry.decls) := by
  rw [graph, sourceFile, if_pos rfl]
  rfl

theorem loadNode_eq {path : Path} (other : path ≠ entry.path) :
    loadNode env path = graph env entry path := by
  rw [loadNode, graph, sourceFile, if_neg other]
  cases loadFile env path <;> rfl

theorem graph_eq_ok {path : Path} {found : PostOrder.Contents Path String Decl} :
    graph env entry path = .ok found ↔ ∃ baseDir decls,
      sourceFile env entry path = .ok (baseDir, decls) ∧ contents env baseDir decls = found := by
  rw [graph]
  cases sourceFile env entry path with
  | error e =>
      constructor
      · intro failed
        cases failed
      · rintro ⟨_, _, failed, _⟩
        cases failed
  | ok file =>
      constructor
      · intro same
        cases same
        exact ⟨file.1, file.2, rfl, rfl⟩
      · rintro ⟨baseDir, decls, same, rfl⟩
        cases same
        rfl

theorem leads_contents {decls : List Decl} {target : Path} :
    (contents env baseDir decls).Leads target ↔ ∃ i ∈ importsOf decls, ∃ paths,
      resolveImport env baseDir i.path = .ok paths ∧ target ∈ paths := by
  constructor
  · rintro ⟨paths, member, inside⟩
    rcases List.mem_map.mp member with ⟨i, memberImport, resolved⟩
    exact ⟨i, memberImport, paths, resolved, inside⟩
  · rintro ⟨i, memberImport, paths, resolved, inside⟩
    exact ⟨paths, List.mem_map.mpr ⟨i, memberImport, resolved⟩, inside⟩

theorem edge_graph : PostOrder.Edge (graph env entry) = ImportsFrom env entry := by
  funext path target
  rw [PostOrder.Edge, ImportsFrom]
  apply propext
  constructor
  · rintro ⟨found, loaded, leads⟩
    rcases graph_eq_ok.mp loaded with ⟨baseDir, decls, source, rfl⟩
    exact ⟨baseDir, decls, source, leads_contents.mp leads⟩
  · rintro ⟨baseDir, decls, source, leads⟩
    exact ⟨_, graph_eq_ok.mpr ⟨baseDir, decls, source, rfl⟩, leads_contents.mpr leads⟩

theorem reaches_graph {path : Path} :
    PostOrder.Reaches (graph env entry) entry.path path ↔ Reachable env entry path := by
  rw [PostOrder.Reaches, Reachable, edge_graph]

theorem ownOutput_graph : PostOrder.ownOutput (graph env entry) = fileDecls env entry := by
  funext path
  rw [PostOrder.ownOutput, fileDecls, graph]
  cases sourceFile env entry path <;> rfl

theorem within_contents (baseDir : Path) (decls : List Decl) :
    (contents env baseDir decls).Within env.fs.files.toFinset := by
  intro target leads
  rcases leads_contents.mp leads with ⟨_, _, _, resolved, inside⟩
  rw [List.mem_toFinset]
  exact mem_files_of_resolveImport resolved target inside

theorem resolveImports_graph (fuel : Nat) :
    resolveImports env fuel entry.decls entry.baseDir [entry.path] =
      PostOrder.visit (graph env entry) fuel (contents env entry.baseDir entry.decls)
        [entry.path] := by
  rw [resolveImports_eq]
  apply PostOrder.visit_congr
  intro path new
  apply loadNode_eq
  rintro rfl
  exact new (List.mem_singleton_self entry.path)

theorem resolveImports_isSome {fuel : Nat} (enough : env.fs.files.toFinset.card < fuel) :
    (resolveImports env fuel entry.decls entry.baseDir [entry.path]).isSome := by
  rw [resolveImports_eq]
  apply PostOrder.visit_isSome
  · intro path found loaded
    rw [loadNode] at loaded
    cases source : loadFile env path with
    | error e =>
        rw [source] at loaded
        cases loaded
    | ok decls =>
        rw [source] at loaded
        cases loaded
        exact within_contents _ _
  · exact within_contents _ _
  · exact Nat.lt_of_le_of_lt (Finset.card_le_card Finset.sdiff_subset) enough

theorem postOrdered_of_resolveImports {fuel : Nat} {visited : List Path}
    (done : resolveImports env fuel entry.decls entry.baseDir [entry.path] = some (.ok (merged, visited))) :
    ∃ order, PostOrder.PostOrdered (graph env entry) entry.path order merged := by
  rw [resolveImports_graph] at done
  exact PostOrder.visit_postOrdered graph_entry done

theorem mergedFrom_of_postOrdered {order : List Path}
    (ordered : PostOrder.PostOrdered (graph env entry) entry.path order merged) :
    MergedFrom env entry order merged where
  merged_eq := by
    rw [ordered.output_eq, ownOutput_graph]
  nodup := ordered.nodup
  mem_iff path := by
    rw [ordered.mem_iff, reaches_graph]
  sorted acyclic front path back split target imports := by
    rw [← edge_graph] at imports
    refine ordered.sorted ?_ front path back split target imports
    intro path reaches
    rw [edge_graph]
    exact acyclic path (reaches_graph.mp reaches)

theorem resolved_of_postOrdered {order : List Path}
    (ordered : PostOrder.PostOrdered (graph env entry) entry.path order merged) {path : Path}
    {decls : List Decl} (reachable : Reachable env entry path)
    (source : sourceFile env entry path = .ok (baseDir, decls)) {i : ImportDecl}
    (member : i ∈ importsOf decls) : ∃ paths, resolveImport env baseDir i.path = .ok paths := by
  have inside := (ordered.mem_iff path).mpr (reaches_graph.mpr reachable)
  rcases ordered.loaded path inside with ⟨found, loaded, edges⟩
  rw [graph_eq_ok.mpr ⟨baseDir, decls, source, rfl⟩] at loaded
  cases loaded
  exact edges _ (List.mem_map.mpr ⟨i, member, rfl⟩)

/-- Imports are sound exactly if all conflicts between dependencies are
noticed. -/
theorem importsSound_iff (env : Env) (entry : Entry) :
    ImportsSound env entry ↔
      ∀ path baseDir decls, Reachable env entry path →
        sourceFile env entry path = .ok (baseDir, decls) → ∀ i ∈ importsOf decls,
          Conflicting env i.path → Noticed env baseDir i.path := by
  constructor
  · intro sound path baseDir decls reachable source i member conflicting
    rw [← resolveImport_error_iff conflicting]
    exact (sound.reported path baseDir decls reachable source i member conflicting).1
  · intro noticed
    refine ⟨⟨_, fun fuel enough => resolveImports_isSome enough⟩, ?_, ?_⟩
    · intro fuel merged visited done
      rcases postOrdered_of_resolveImports done with ⟨order, ordered⟩
      exact ⟨order, mergedFrom_of_postOrdered ordered⟩
    · intro path baseDir decls reachable source i member conflicting
      have failed := (resolveImport_error_iff conflicting).mpr
        (noticed path baseDir decls reachable source i member conflicting)
      refine ⟨failed, ?_⟩
      intro fuel result done
      cases result with
      | error e => exact ⟨e, rfl⟩
      | ok final =>
          rcases failed with ⟨e, failed⟩
          rcases postOrdered_of_resolveImports done with ⟨order, ordered⟩
          rcases resolved_of_postOrdered ordered reachable source member with ⟨paths, resolved⟩
          rw [failed] at resolved
          cases resolved

end Main

/-- A dependency on an archive, which is installed in the project. -/
def archiveDep : Dependency where
  group := "com.example"
  artifactId := "lib"
  version := "1.0.0"
  url := some "https://example.com/lib1.tar.gz"
  repository := none

/-- A dependency on the same coordinate, which is installed in the global
cache. -/
def centralDep : Dependency :=
  { archiveDep with url := none }

/-- The project's directory of the dependency. -/
def archiveDir : Path :=
  ["/", "project", ".tinox", "deps", "com.example", "lib", "1.0.0"]

/-- The cache's directory of the dependency. -/
def centralDir : Path :=
  ["/", "home", ".tinox", "repository", "central", "com.example", "lib", "1.0.0"]

/-- The declarations of a short text. -/
def parseText (text : String) : Except SourceError (List Decl) :=
  match Lexer.tokenKinds text with
  | none => .error (.lexer text)
  | some kinds =>
      match Parser.parse Lexer.tokenKinds 10 kinds with
      | some (.ok file) => .ok file.decls
      | _ => .error (.parse text)

/-- A file system with `Util.tnx` in both directories. -/
def utilFiles : FileSystem where
  canonicalize path :=
    if path = archiveDir ++ ["Util.tnx"] ∨ path = centralDir ++ ["Util.tnx"] then .ok path
    else .error "not found"
  isDir _ := false
  readDir _ := .error "not found"
  readToString path :=
    if path = archiveDir ++ ["Util.tnx"] then .ok "class Util { var a: Int64; }"
    else if path = centralDir ++ ["Util.tnx"] then .ok "class Util { var b: Int64; }"
    else .error "not found"
  files := [archiveDir ++ ["Util.tnx"], centralDir ++ ["Util.tnx"]]
  mem_files path file found := by
    split at found
    · next isUtil =>
        cases found
        rcases isUtil with rfl | rfl
        · exact List.mem_cons_self
        · exact List.mem_cons_of_mem _ List.mem_cons_self
    · cases found

/-- A project with both dependencies. -/
def utilEnv : Env where
  fs := utilFiles
  parse := parseText
  depDirs := [archiveDir, centralDir]
  missingDeps := []
  tinoxPath := none
  manifestDir := ["/", "build"]

/-- `import Util;` in `/project/src/Main.tnx`. -/
def mainEntry : Entry where
  path := ["/", "project", "src", "Main.tnx"]
  baseDir := ["/", "project", "src"]
  decls := [.import_ { path := ["Util"], importAlias := none }]

/-- The import of `Util` is resolved although the two installations differ. -/
theorem utilEnv_not_importsSound :
    resolvedInstallDir ["/", "project"] (some ["/", "home"]) archiveDep = .ok archiveDir ∧
      resolvedInstallDir ["/", "project"] (some ["/", "home"]) centralDep = .ok centralDir ∧
      Option.map Except.isOk
        (resolveImports utilEnv 3 mainEntry.decls mainEntry.baseDir [mainEntry.path]) =
          some true ∧
      ¬ ImportsSound utilEnv mainEntry := by
  refine ⟨rfl, rfl, by decide +kernel, ?_⟩
  intro sound
  have conflicting : Conflicting utilEnv ["Util"] := by
    refine ⟨archiveDir, List.mem_cons_self, centralDir, List.mem_cons_of_mem _ List.mem_cons_self,
      [archiveDir ++ ["Util.tnx"]], [centralDir ++ ["Util.tnx"]], rfl, rfl, ?_⟩
    intro same
    have texts := Except.ok.inj (List.cons.inj same).1
    exact absurd texts (by decide)
  rcases (sound.reported mainEntry.path mainEntry.baseDir mainEntry.decls
    Relation.ReflTransGen.refl rfl _ List.mem_cons_self conflicting).1 with ⟨e, failed⟩
  have resolved : resolveImport utilEnv mainEntry.baseDir ["Util"] =
      .ok [archiveDir ++ ["Util.tnx"]] := rfl
  rw [resolved] at failed
  cases failed

end Tinox.Imports
