import GatewayPolicy.Proofs.Command.Changes
import GatewayPolicy.Proofs.Document.Locations
import GatewayPolicy.Proofs.Document.Names

/-! # A command is completed or changes nothing

  All sources are found, loaded and compiled before anything is written.

  - `Workspace.sources` and `Workspace.load` say which sources a command finds and what it
    loads. Both leave the workspace as it is (`findSources_run`, `loadSources_run`). How
    directories are walked over is left open.
  - `runCompile_completes` says how a `compile` command ends. With a source that cannot be
    used nothing is changed. Else there is a directory for the output, and in it a file for
    each name of a document.
-/

namespace GatewayPolicy

/-! ## Reading -/

namespace Workspace

/-- The source files that a command finds at a path: the file that is named, or the files
    with the extension `cs` that are met in the directory that is named. -/
def sources (walk : Walk) (w : Workspace) (path : String) : Except Failure (List String) :=
  if w.isKind .file path then .ok [path]
  else if w.isKind .directory path then
    match walk w path with
    | .ok found => .ok ((found.filter fun x =>
        x.2 == .file && (Path.fileName? x.1).bind Path.extension? == some "cs").map (·.1))
    | .error (place, fault) => .error (.listing place fault)
  else .error (.missingSource path)

/-- The source file that is loaded from a path. -/
def load (w : Workspace) (path : String) : Except Failure SourceFile :=
  match w.read path with
  | .ok text => .ok (.ofPath path text)
  | .error fault => .error (.load path fault)

variable {walk : Walk}

theorem findSources_run (walk : Walk) (w : Workspace) (path : String) :
    (findSources (diskWith walk) path).run w = (w.sources walk path, w) := by
  have hfile : (diskWith walk).isFile path w = (w.isKind .file path, w) := rfl
  have hdirectory : (diskWith walk).isDirectory path w = (w.isKind .directory path, w) := rfl
  have hwalk : (diskWith walk).walk path w = (walk w path, w) := rfl
  unfold findSources sources
  rw [run_bind_of_ok (run_lift hfile)]
  split
  · rfl
  · rw [run_bind_of_ok (run_lift hdirectory)]
    split
    · rw [run_bind_of_ok (run_lift hwalk)]
      cases walk w path <;> rfl
    · rfl

theorem loadSource_run (walk : Walk) (w : Workspace) (path : String) :
    (loadSource (diskWith walk) path).run w = (w.load path, w) := by
  have hread : (diskWith walk).read path w = (w.read path, w) := rfl
  unfold loadSource load
  rw [run_bind_of_ok (run_lift hread)]
  cases w.read path <;> rfl

/-- All sources are loaded, or the first that cannot be is reported. -/
theorem loadSources_run (walk : Walk) (w : Workspace) (paths : List String) :
    (paths.mapM (loadSource (diskWith walk))).run w = (paths.mapM w.load, w) := by
  induction paths with
  | nil => rfl
  | cons path paths ih =>
    have hload := loadSource_run walk w path
    rw [List.mapM_cons, List.mapM_cons]
    cases hfile : w.load path with
    | error f =>
      rw [hfile] at hload
      rw [run_bind_of_error hload]
      rfl
    | ok file =>
      rw [hfile] at hload
      rw [run_bind_of_ok hload]
      cases hfiles : paths.mapM w.load with
      | error f =>
        rw [hfiles] at ih
        rw [run_bind_of_error ih]
        rfl
      | ok files =>
        rw [hfiles] at ih
        rw [run_bind_of_ok ih]
        rfl

/-- No sources are found at a path that leads nowhere. -/
theorem sources_of_missing {w : Workspace} {path : String} (h : ∀ t, w.find path ≠ .ok t) :
    w.sources walk path = .error (.missingSource path) := by
  have hkind : ∀ kind, w.isKind kind path = false := by
    intro kind
    unfold isKind
    split
    · rename_i t ht
      exact absurd ht (h t)
    · rfl
  rw [sources, hkind, hkind]
  rfl

/-- A source that can be loaded and parsed. -/
def IsUsable (w : Workspace) (path : String) : Prop :=
  ∃ file tree, w.load path = .ok file ∧ SourceTree.parse file = .ok tree

/-- A path with something wrong about its sources: it leads nowhere, they cannot be found,
    or one of them cannot be used. -/
def HasBadSource (walk : Walk) (w : Workspace) (path : String) : Prop :=
  (∀ t, w.find path ≠ .ok t) ∨ (∃ f, w.sources walk path = .error f) ∨
    ∃ paths, w.sources walk path = .ok paths ∧ ∃ p ∈ paths, ¬ w.IsUsable p

end Workspace

/-! ## Compiling -/

section Compiling

variable {c : CompileCommand} {w : Workspace} {paths : List String} {files : List SourceFile}
  {walk : Workspace.Walk}

theorem compileSources_of_load_error {f : Failure} (h : paths.mapM w.load = .error f) :
    (compileSources (Workspace.diskWith walk) c paths).run w = (.error f, w) := by
  have hload := Workspace.loadSources_run walk w paths
  rw [h] at hload
  exact run_bind_of_error hload

theorem compileSources_of_parse_error {e : ParseError} (h : paths.mapM w.load = .ok files)
    (hcompile : compile files = .error e) :
    (compileSources (Workspace.diskWith walk) c paths).run w = (.error (.parse e), w) := by
  have hload := Workspace.loadSources_run walk w paths
  rw [h] at hload
  unfold compileSources
  rw [run_bind_of_ok hload, hcompile]
  rfl

theorem compileSources_of_ok {documents : List CompiledDocument}
    (h : paths.mapM w.load = .ok files) (hcompile : compile files = .ok documents) :
    (compileSources (Workspace.diskWith walk) c paths).run w =
      (do
        makeOutput (Workspace.diskWith walk) c.output
        documents.mapM (writeDocument (Workspace.diskWith walk) c)
        : ExceptT Failure (StateM Workspace) _).run w := by
  have hload := Workspace.loadSources_run walk w paths
  rw [h] at hload
  unfold compileSources
  rw [run_bind_of_ok hload, hcompile]

/-- Sources are loaded and compiled if each of them can be used. -/
theorem usable_iff : (∀ p ∈ paths, w.IsUsable p) ↔
    ∃ files documents, paths.mapM w.load = .ok files ∧ compile files = .ok documents := by
  constructor
  · intro h
    obtain ⟨files, hfiles⟩ := exists_mapM (f := w.load) fun p hp => by
      obtain ⟨file, -, hload, -⟩ := h p hp
      exact ⟨file, hload⟩
    obtain ⟨trees, htrees⟩ := exists_mapM (f := SourceTree.parse) fun file hfile => by
      obtain ⟨p, hp, hload⟩ := (mem_of_mapM hfiles).2 file hfile
      obtain ⟨file', tree, hload', hparse⟩ := h p hp
      rw [hload] at hload'
      cases hload'
      exact ⟨tree, hparse⟩
    refine ⟨files, Model.documents { trees }, hfiles, ?_⟩
    rw [compile, parseAll, htrees]
    rfl
  · intro h p hp
    obtain ⟨files, documents, hfiles, hcompile⟩ := h
    obtain ⟨trees, htrees, -⟩ := ok_of_bind hcompile
    obtain ⟨file, hfile, hload⟩ := (mem_of_mapM hfiles).1 p hp
    obtain ⟨tree, -, hparse⟩ := (mem_of_mapM htrees).1 file hfile
    exact ⟨file, tree, hload, hparse⟩

end Compiling

/-! ## Writing -/

section Writing

variable {c : CompileCommand} {w w' : Workspace} {walk : Workspace.Walk}

/-- A name with an extension is a step of a path if it has no slash. -/
theorem isName_document {name : String} (hname : isFileName name = true) :
    Path.IsName (name ++ ".xml") := by
  have hslash : '/' ∉ (name ++ ".xml").toList := by
    unfold isFileName at hname
    simp_all
  refine ⟨?_, hslash⟩
  intro hempty
  have hlength := congrArg String.length hempty
  rw [String.length_append] at hlength
  exact absurd hlength (Nat.succ_ne_zero _)

/-- A step to a name with an extension leads down. -/
theorem stepFrom_document (place : List String) (name : String) :
    Path.stepFrom place (name ++ ".xml") = place ++ [name ++ ".xml"] := by
  have hne : ∀ s : String, s.length < 4 → name ++ ".xml" ≠ s := by
    rintro _ hs rfl
    rw [String.length_append] at hs
    exact absurd hs (Nat.not_lt.mpr (Nat.le_add_left 4 _))
  unfold Path.stepFrom
  rw [if_neg, if_neg]
  · simpa using hne ".." (by decide)
  · simpa using hne "." (by decide)

/-- A document is written to a file in the output directory, also if that is named by the
    empty path. -/
theorem placeOf_pathOf (c : CompileCommand) (w : Workspace) {d : CompiledDocument}
    (hname : isFileName d.marker.name = true) :
    w.placeOf (c.pathOf d) = w.placeOf c.output ++ [d.marker.name ++ ".xml"] := by
  have hstart : w.start (c.pathOf d) = w.start c.output := by
    unfold Workspace.start CompileCommand.pathOf
    rw [Path.isAbsolute_join _ (isName_document hname)]
  unfold Workspace.placeOf
  rw [hstart, CompileCommand.pathOf, Path.names_join _ (isName_document hname),
    Path.resolve_append]
  exact stepFrom_document _ _

theorem makeOutput_run (walk : Workspace.Walk) (path : String) (w : Workspace) :
    (makeOutput (Workspace.diskWith walk) path).run w =
      match (Workspace.diskWith walk).makeDirectories path w with
      | (.ok (), w') => (.ok (), w')
      | (.error fault, w') => (.error (.outputDirectory path fault), w') := by
  cases hmade : (Workspace.diskWith walk).makeDirectories path w with
  | mk r v => cases r <;> exact run_bind_of_ok (run_lift hmade)

theorem makeOutput_eq_ok {path : String} {u : Unit}
    (h : (makeOutput (Workspace.diskWith walk) path).run w = (.ok u, w')) :
    (Workspace.diskWith walk).makeDirectories path w = (.ok (), w') := by
  rw [makeOutput_run] at h
  split at h
  · rename_i hmade
    cases h
    exact hmade
  · cases h

/-- The changes of a command that writes its documents: there are directories on the way
    to the output, and in it a file for each name of a document, with the last document of
    that name. -/
def CompileCommand.Written (c : CompileCommand) (documents : List CompiledDocument)
    (w w' : Workspace) : Prop :=
  w'.home = w.home ∧ ∀ q, w'.look q =
    c.overlay (fun d => w.placeOf c.output ++ [d.marker.name ++ ".xml"]) documents
      (fun q => if q ∈ w.wayTo c.output then some .directory else w.look q) q

theorem written_of_ok {documents : List CompiledDocument}
    (hnames : ∀ d ∈ documents, isFileName d.marker.name = true) {xs : List WrittenDocument}
    (h : (do
        makeOutput (Workspace.diskWith walk) c.output
        documents.mapM (writeDocument (Workspace.diskWith walk) c)
        : ExceptT Failure (StateM Workspace) _).run w = (.ok xs, w')) :
    xs.map (·.document) = documents ∧ c.Written documents w w' := by
  obtain ⟨u, v, hmade, h⟩ := ok_of_run_bind h
  obtain ⟨hhome, hlook⟩ := Workspace.look_makeDirectories (makeOutput_eq_ok hmade)
  obtain ⟨hdocuments, hhomes, hlooks⟩ := writeDocuments_eq_ok h
  refine ⟨hdocuments, hhomes.trans hhome, ?_⟩
  intro q
  rw [hlooks q, funext hlook]
  apply overlay_congr
  intro d hd
  rw [Workspace.placeOf_eq hhome, placeOf_pathOf c w (hnames d hd)]

end Writing

/-! ## Outcomes -/

/-- Whether a directory or a file could not be made. -/
def Failure.isOfWriting : Failure → Bool
  | outputDirectory _ _ | write _ _ => true
  | _ => false

/-- Whether everything was written that was to be written. -/
def Outcome.wroteAll : Outcome → Bool
  | finished _ (some f) => !f.isOfWriting
  | _ => true

section Outcomes

variable {c : CompileCommand} {w w' : Workspace} {f : Failure} {paths : List String}
  {files : List SourceFile} {documents : List CompiledDocument} {walk : Workspace.Walk}

theorem isOfWriting_of_makeOutput {path : String}
    (h : (makeOutput (Workspace.diskWith walk) path).run w = (.error f, w')) :
    f.isOfWriting = true := by
  rw [makeOutput_run] at h
  split at h
  · cases h
  · cases h
    rfl

theorem isOfWriting_of_writeDocument {d : CompiledDocument}
    (h : (writeDocument (Workspace.diskWith walk) c d).run w = (.error f, w')) :
    f.isOfWriting = true := by
  rw [writeDocument_run] at h
  split at h
  · cases h
  · cases h
    rfl

theorem isOfWriting_of_writeDocuments
    (h : (documents.mapM (writeDocument (Workspace.diskWith walk) c)).run w = (.error f, w')) :
    f.isOfWriting = true := by
  induction documents generalizing w with
  | nil => cases h
  | cons d ds ih =>
    rw [List.mapM_cons] at h
    rcases error_of_run_bind h with h | ⟨x, v, -, h⟩
    · exact isOfWriting_of_writeDocument h
    · rcases error_of_run_bind h with h | ⟨xs, v', -, h⟩
      · exact ih h
      · cases h

/-- Once the sources are compiled, only writing can fail. -/
theorem isOfWriting_of_error
    (h : (do
        makeOutput (Workspace.diskWith walk) c.output
        documents.mapM (writeDocument (Workspace.diskWith walk) c)
        : ExceptT Failure (StateM Workspace) _).run w = (.error f, w')) :
    f.isOfWriting = true := by
  rcases error_of_run_bind h with h | ⟨-, v, -, h⟩
  · exact isOfWriting_of_makeOutput h
  · exact isOfWriting_of_writeDocuments h

theorem runCompile_of_error (h : w.sources walk c.source = .error f) :
    runCompile (Workspace.diskWith walk) c w = (.finished "" (some f), w) := by
  rw [runCompile, bind_apply, Workspace.findSources_run walk, h]
  rfl

theorem runCompile_of_nil (h : w.sources walk c.source = .ok []) :
    ∃ printed, runCompile (Workspace.diskWith walk) c w = (.finished printed none, w) := by
  rw [runCompile, bind_apply, Workspace.findSources_run walk, h]
  exact ⟨_, rfl⟩

/-- A command with sources ends as their compilation does. -/
theorem runCompile_of_compile (h : w.sources walk c.source = .ok paths) (hne : paths ≠ [])
    {r : Except Failure (List WrittenDocument)}
    (hcompile : (compileSources (Workspace.diskWith walk) c paths).run w = (r, w')) :
    runCompile (Workspace.diskWith walk) c w = (c.outcome r, w') := by
  obtain ⟨p, ps, rfl⟩ := List.exists_cons_of_ne_nil hne
  rw [runCompile, bind_apply, Workspace.findSources_run, h]
  show ((compileSources (Workspace.diskWith walk) c (p :: ps)).run >>= _ : StateM _ _) w = _
  rw [bind_apply, hcompile]
  rfl

/-- A compilation that is written fails on diagnostics, unless they are forgiven. -/
theorem exitCode_conclude (c : CompileCommand) (xs : List WrittenDocument) :
    (c.conclude xs).exitCode ≤ 1 ∧ ((c.conclude xs).exitCode = 1 ↔
      c.noFail = false ∧ ∃ d ∈ xs.map (·.document), d.diagnostics ≠ []) := by
  have hfailed : c.options.hasFailed (xs.map (·.document)) = true ↔
      c.noFail = false ∧ ∃ d ∈ xs.map (·.document), d.diagnostics ≠ [] := by
    simp [Options.hasFailed, CompileCommand.options, CompiledDocument.isClean]
  rw [← hfailed]
  by_cases hf : c.options.hasFailed (xs.map (·.document)) = true
  · have hcode : (c.conclude xs).exitCode = 1 := by
      simp [CompileCommand.conclude, Outcome.exitCode, hf]
    exact ⟨hcode.le, iff_of_true hcode hf⟩
  · have hcode : (c.conclude xs).exitCode = 0 := by
      simp [CompileCommand.conclude, Outcome.exitCode, hf]
    rw [hcode]
    exact ⟨Nat.zero_le 1, iff_of_false Nat.zero_ne_one hf⟩

/-- A command with a bad source fails before anything is written. -/
theorem runCompile_of_bad (h : w.HasBadSource walk c.source) :
    ∃ f, runCompile (Workspace.diskWith walk) c w = (.finished "" (some f), w) := by
  rcases h with hmissing | ⟨f, hf⟩ | ⟨paths, hpaths, p, hp, hunusable⟩
  · exact ⟨_, runCompile_of_error (Workspace.sources_of_missing hmissing)⟩
  · exact ⟨f, runCompile_of_error hf⟩
  · have hne : paths ≠ [] := List.ne_nil_of_mem hp
    cases hload : paths.mapM w.load with
    | error f =>
      exact ⟨f, runCompile_of_compile hpaths hne (compileSources_of_load_error hload)⟩
    | ok files =>
      cases hcompile : compile files with
      | error e =>
        exact ⟨_, runCompile_of_compile hpaths hne (compileSources_of_parse_error hload hcompile)⟩
      | ok documents =>
        exact absurd (usable_iff.mpr ⟨files, documents, hload, hcompile⟩ p hp) hunusable

/-- Documents that are compiled have names that files can have. -/
theorem compile_isFileName (h : compile files = .ok documents) :
    ∀ d ∈ documents, isFileName d.marker.name = true := by
  obtain ⟨trees, htrees, h⟩ := ok_of_bind h
  cases h
  intro d hd
  exact (Model.documents_isFileName (fun t ht => (mem_parseAll htrees t ht).2) hd).1

/-- A command with sources that compile makes the changes of writing the documents, unless
    writing fails. -/
theorem runCompile_of_ok (hpaths : w.sources walk c.source = .ok paths) (hne : paths ≠ [])
    (hload : paths.mapM w.load = .ok files) (hcompile : compile files = .ok documents) :
    let x := runCompile (Workspace.diskWith walk) c w
    x.1.wroteAll = true → c.Written documents w x.2 ∧ x.1.exitCode ≤ 1 ∧
      (x.1.exitCode = 1 ↔ c.noFail = false ∧ ∃ d ∈ documents, d.diagnostics ≠ []) := by
  intro x hwrote
  have hsources : (compileSources (Workspace.diskWith walk) c paths).run w = _ :=
    compileSources_of_ok hload hcompile
  cases hwritten : (compileSources (Workspace.diskWith walk) c paths).run w with
  | mk r w' =>
    rw [hwritten] at hsources
    have hx : x = _ := runCompile_of_compile hpaths hne hwritten
    cases r with
    | error f =>
      -- only writing could fail, and it did not
      rw [hx] at hwrote
      have hfailed : (!f.isOfWriting) = true := hwrote
      rw [isOfWriting_of_error hsources.symm] at hfailed
      cases hfailed
    | ok xs =>
      obtain ⟨rfl, hchanges⟩ := written_of_ok (compile_isFileName hcompile) hsources.symm
      rw [hx]
      exact ⟨hchanges, exitCode_conclude c xs⟩

end Outcomes

/-- A `compile` command with a bad source fails and leaves everything as it is. Else, it
    ends well and changes nothing when there are no sources. When there are and all is
    written, the only changes are those of writing the documents, and the command fails
    just when there are diagnostics and they are not forgiven. This holds of every command,
    and whatever is met on a walk over the directory that is named. -/
theorem runCompile_completes (walk : Workspace.Walk) (c : CompileCommand) (w : Workspace) :
    let x := runCompile (Workspace.diskWith walk) c w
    (w.HasBadSource walk c.source → x.1.exitCode = 1 ∧ x.2 = w) ∧
    (¬ w.HasBadSource walk c.source → ∃ paths, w.sources walk c.source = .ok paths ∧
      (paths = [] → x.1.exitCode = 0 ∧ x.2 = w) ∧
      (paths ≠ [] → ∃ files documents, paths.mapM w.load = .ok files ∧
        compile files = .ok documents ∧
        (x.1.wroteAll = true → c.Written documents w x.2 ∧ x.1.exitCode ≤ 1 ∧
          (x.1.exitCode = 1 ↔ c.noFail = false ∧ ∃ d ∈ documents, d.diagnostics ≠ [])))) := by
  intro x
  refine ⟨?_, ?_⟩
  · intro hbad
    obtain ⟨f, hx⟩ := runCompile_of_bad hbad
    rw [show x = _ from hx]
    exact ⟨rfl, rfl⟩
  · intro hgood
    cases hpaths : w.sources walk c.source with
    | error f => exact absurd (.inr (.inl ⟨f, hpaths⟩)) hgood
    | ok paths =>
      refine ⟨paths, rfl, ?_, ?_⟩
      · rintro rfl
        obtain ⟨printed, hx⟩ := runCompile_of_nil hpaths
        rw [show x = _ from hx]
        exact ⟨rfl, rfl⟩
      · intro hne
        have husable : ∀ p ∈ paths, w.IsUsable p := by
          intro p hp
          by_contra hunusable
          exact hgood (.inr (.inr ⟨paths, hpaths, p, hp, hunusable⟩))
        obtain ⟨files, documents, hload, hcompile⟩ := usable_iff.mp husable
        exact ⟨files, documents, hload, hcompile, runCompile_of_ok hpaths hne hload hcompile⟩

namespace Overwriting

/-- A class with a section that has no body, and a fragment that has the same name as the
    document of that class. -/
def workspace : Workspace where
  tree := .directory [("s", .directory
    [("b.cs", .file "[Fragment(\"d\")]class B\x7b\x7d".toUTF8),
      ("a.cs", .file "[Document(\"d\")]class A\x7bA Inbound(B c);\x7d".toUTF8)])]
  home := []

def command : CompileCommand where
  source := "s"
  output := "x/o"
  format := false
  indent := 4
  json := false
  noFail := false

end Overwriting

open Overwriting in
/-- Two documents have one name: the file holds the second, and the diagnostic of the
    first makes the command fail. -/
theorem runCompile_completes_overwriting :
    let x := runCompile Workspace.disk command workspace
    ¬ workspace.HasBadSource Workspace.walkListed command.source ∧ x.1.wroteAll = true ∧
      x.1.exitCode = 1 ∧ x.2.look ["x", "o", "d.xml"] = some (.file "<fragment />".toUTF8) ∧
      ∃ documents, command.Written documents workspace x.2 ∧
        ∃ d ∈ documents, d.diagnostics ≠ [] := by
  have hrun : (fun x : Outcome × Workspace =>
      (x.1.wroteAll, x.1.exitCode, x.2.look ["x", "o", "d.xml"]))
        (runCompile Workspace.disk command workspace) =
      (true, 1, some (.file "<fragment />".toUTF8)) := by
    decide +kernel
  obtain ⟨hwrote, hrun⟩ := Prod.mk.inj hrun
  obtain ⟨hcode, hlook⟩ := Prod.mk.inj hrun
  obtain ⟨hbad, hgood⟩ := runCompile_completes Workspace.walkListed command workspace
  have husable : ¬ workspace.HasBadSource Workspace.walkListed command.source := by
    intro h
    rw [(hbad h).2] at hlook
    cases hlook
  obtain ⟨paths, -, hempty, hpaths⟩ := hgood husable
  have hne : paths ≠ [] := by
    intro hnil
    rw [(hempty hnil).1] at hcode
    cases hcode
  obtain ⟨files, documents, -, -, hwritten⟩ := hpaths hne
  obtain ⟨hchanges, -, hfails⟩ := hwritten hwrote
  exact ⟨husable, hwrote, hcode, hlook, documents, hchanges, (hfails.mp hcode).2⟩

end GatewayPolicy
