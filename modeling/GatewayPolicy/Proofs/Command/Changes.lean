import GatewayPolicy.Command.Run
import GatewayPolicy.Proofs.Command.Places

/-! # What a command changes

  - `Workspace.GrownAt` says that there are new directories at some places, and no other
    changes. `Workspace.makes_makeDirectories` says that making a directory and all above
    it does no more than that, and that the directory is there when it succeeds.
  - `writeDocuments_eq_ok` says what stands where after a list of documents was written.
-/

namespace GatewayPolicy

theorem bind_apply {σ α β : Type} (x : StateM σ α) (f : α → StateM σ β) (s : σ) :
    (x >>= f) s = f (x s).1 (x s).2 := rfl

/-! ## Computations that can fail -/

section Failing

variable {ε σ α β : Type} {x : ExceptT ε (StateM σ) α} {f : α → ExceptT ε (StateM σ) β} {s s' : σ}

theorem run_bind_of_ok {a : α} (h : x.run s = (.ok a, s')) : (x >>= f).run s = (f a).run s' := by
  show (ExceptT.bindCont f (x.run s).1) (x.run s).2 = _
  rw [h]
  rfl

theorem run_bind_of_error {e : ε} (h : x.run s = (.error e, s')) :
    (x >>= f).run s = (.error e, s') := by
  show (ExceptT.bindCont f (x.run s).1) (x.run s).2 = _
  rw [h]
  rfl

theorem run_lift {y : StateM σ α} {a : α} (h : y s = (a, s')) :
    (liftM y : ExceptT ε (StateM σ) α).run s = (.ok a, s') := by
  show (Except.ok (y s).1, (y s).2) = _
  rw [h]

theorem ok_of_run_bind {b : β} {s'' : σ} (h : (x >>= f).run s = (.ok b, s'')) :
    ∃ a s', x.run s = (.ok a, s') ∧ (f a).run s' = (.ok b, s'') := by
  cases hx : x.run s with
  | mk r s' =>
    cases r with
    | error e =>
      rw [run_bind_of_error hx] at h
      cases h
    | ok a =>
      rw [run_bind_of_ok hx] at h
      exact ⟨a, s', rfl, h⟩

theorem error_of_run_bind {e : ε} {s'' : σ} (h : (x >>= f).run s = (.error e, s'')) :
    x.run s = (.error e, s'') ∨ ∃ a s', x.run s = (.ok a, s') ∧ (f a).run s' = (.error e, s'') := by
  cases hx : x.run s with
  | mk r s' =>
    cases r with
    | error e' =>
      rw [run_bind_of_error hx] at h
      cases h
      exact .inl rfl
    | ok a =>
      rw [run_bind_of_ok hx] at h
      exact .inr ⟨a, s', rfl, h⟩

end Failing

/-! ## Directories -/

namespace Workspace

variable {w w' w'' : Workspace} {path : String} {places : List (List String)} {walk : Walk}

/-- New directories at some of these places, and no other changes. -/
structure GrownAt (places : List (List String)) (w w' : Workspace) : Prop where
  home : w'.home = w.home
  look : ∀ q, w'.look q = w.look q ∨
    q ∈ places ∧ w.look q = none ∧ w'.look q = some .directory

theorem GrownAt.refl (w : Workspace) : GrownAt places w w := ⟨rfl, fun _ => .inl rfl⟩

theorem GrownAt.trans (h : GrownAt places w w') (h' : GrownAt places w' w'') :
    GrownAt places w w'' where
  home := h'.home.trans h.home
  look q := by
    rcases h'.look q with hq' | ⟨hmem, hnone, hq'⟩
    · rw [hq']
      exact h.look q
    · -- what is missing after the first growth was missing before it
      rcases h.look q with hq | ⟨-, -, hq⟩
      · exact .inr ⟨hmem, hq ▸ hnone, hq'⟩
      · rw [hq] at hnone
        cases hnone

theorem grownAt_of_makeDirectory (h : w.makeDirectory path = .ok w')
    (hplace : w.placeOf path ∈ places) : GrownAt places w w' := by
  obtain ⟨hhome, hnone, hlook, -⟩ := makeDirectory_eq_ok h
  refine ⟨hhome, ?_⟩
  intro q
  rw [hlook q]
  split
  · rename_i hq
    rw [hq]
    exact .inr ⟨hplace, hnone, rfl⟩
  · exact .inl rfl

/-- A way over directories only. -/
def IsReached (w : Workspace) (path : String) : Prop :=
  ∀ r ∈ w.wayTo path, w.look r = some .directory

theorem isReached_of_makeDirectory (h : w.makeDirectory path = .ok w') : w'.IsReached path := by
  obtain ⟨hhome, -, -, hway⟩ := makeDirectory_eq_ok h
  unfold IsReached
  rw [wayTo_eq hhome]
  exact hway

/-- What an attempt to make a directory may do: directories grow at these places only,
    and when it succeeds there is a way to the directory. -/
def Makes (places : List (List String)) (path : String) (w : Workspace)
    (x : Except Fault Unit × Workspace) : Prop :=
  GrownAt places w x.2 ∧ (x.1 = .ok () → x.2.IsReached path)

theorem Makes.after (h : GrownAt places w w') {x : Except Fault Unit × Workspace}
    (hx : Makes places path w' x) : Makes places path w x := ⟨h.trans hx.1, hx.2⟩

theorem disk_makeDirectory_of_ok (h : w.makeDirectory path = .ok w') :
    (diskWith walk).makeDirectory path w = (.ok (), w') := by
  show change (·.makeDirectory path) w = _
  rw [change, h]

theorem disk_makeDirectory_of_error {fault : Fault} (h : w.makeDirectory path = .error fault) :
    (diskWith walk).makeDirectory path w = (.error fault, w) := by
  show change (·.makeDirectory path) w = _
  rw [change, h]

theorem makes_of_makeDirectory (h : w.makeDirectory path = .ok w')
    (hplace : w.placeOf path ∈ places) : Makes places path w (.ok (), w') :=
  ⟨grownAt_of_makeDirectory h hplace, fun _ => isReached_of_makeDirectory h⟩

theorem makes_unlessDirectory (w : Workspace) (path : String) (fault : Fault) :
    Makes places path w ((diskWith walk).unlessDirectory path fault w) := by
  rw [Disk.unlessDirectory, bind_apply]
  show Makes places path w ((if w.isKind .directory path then _ else _ : StateM _ _) w)
  split
  · rename_i h
    exact ⟨.refl w, fun _ => isKind_directory h⟩
  · exact ⟨.refl w, nofun⟩

/-- Making a directory, after those above it when they are missing. -/
theorem makes_makeLineage_cons {above : List String} (hplace : w.placeOf path ∈ places)
    (habove : GrownAt places w ((diskWith walk).makeLineage above w).2) :
    Makes places path w ((diskWith walk).makeLineage (path :: above) w) := by
  rw [Disk.makeLineage, bind_apply]
  cases hmade : w.makeDirectory path with
  | ok v =>
    rw [disk_makeDirectory_of_ok hmade]
    exact makes_of_makeDirectory hmade hplace
  | error fault =>
    rw [disk_makeDirectory_of_error hmade]
    cases fault with
    | notFound =>
      show Makes places path w (((diskWith walk).makeLineage above >>= _) w)
      rw [bind_apply]
      revert habove
      generalize (diskWith walk).makeLineage above w = x
      obtain ⟨r, v⟩ := x
      intro habove
      cases r with
      | error fault => exact ⟨habove, nofun⟩
      | ok _ =>
        -- the second attempt, in the workspace that has grown
        apply Makes.after habove
        show Makes places path v (((diskWith walk).makeDirectory path >>= _) v)
        rw [bind_apply]
        cases hagain : v.makeDirectory path with
        | ok v' =>
          rw [disk_makeDirectory_of_ok hagain]
          exact makes_of_makeDirectory hagain (placeOf_eq habove.home path ▸ hplace)
        | error fault =>
          rw [disk_makeDirectory_of_error hagain]
          exact makes_unlessDirectory v path fault
    | _ => exact makes_unlessDirectory w path _

theorem grownAt_makeLineage {paths : List String} (h : ∀ p ∈ paths, w.placeOf p ∈ places) :
    GrownAt places w ((diskWith walk).makeLineage paths w).2 := by
  induction paths with
  | nil => exact .refl w
  | cons path above ih =>
    obtain ⟨hpath, habove⟩ := List.forall_mem_cons.mp h
    exact (makes_makeLineage_cons hpath (ih habove)).1

/-- The directories above a path stand on the way to it. -/
theorem placeOf_mem_wayTo_of_mem_lineage (w : Workspace) {path p : String}
    (h : p ∈ Path.lineage path) : w.placeOf p ∈ w.wayTo path := by
  rcases List.mem_cons.mp h with rfl | h
  · exact w.placeOf_mem_wayTo p
  · obtain ⟨ns, hns, rfl⟩ := List.mem_map.mp h
    obtain ⟨k, hk, rfl⟩ := List.mem_map.mp hns
    obtain ⟨hrange, hpositive⟩ := List.mem_filter.mp hk
    have hlength : k < (Path.essentialNames path).length := by
      simpa using hrange
    have hnames : ∀ n ∈ (Path.essentialNames path).take k, Path.IsName n := by
      intro n hn
      have hmem := Path.mem_names_of_mem_essentialNames (List.mem_of_mem_take hn)
      exact Path.isName_of_mem_names hmem
    have hne : (Path.essentialNames path).take k ≠ [] := by
      apply List.ne_nil_of_length_pos
      rw [List.length_take]
      have : 0 < k := of_decide_eq_true hpositive
      omega
    have hstart :
        w.start (Path.ofNames (Path.isAbsolute path) ((Path.essentialNames path).take k)) =
          w.start path := by
      unfold start
      rw [Path.isAbsolute_ofNames _ hne hnames]
    unfold placeOf wayTo
    rw [hstart, Path.names_ofNames _ hnames]
    exact Path.resolve_take_essentialNames_mem_way _ path k

/-- Making a directory and all above it makes directories on the way to it, and
    changes nothing else. -/
theorem makes_makeDirectories (walk : Walk) (w : Workspace) (path : String) :
    Makes (w.wayTo path) path w ((diskWith walk).makeDirectories path w) := by
  have hplaces : ∀ p ∈ Path.lineage path, w.placeOf p ∈ w.wayTo path :=
    fun p hp => w.placeOf_mem_wayTo_of_mem_lineage hp
  obtain ⟨hpath, habove⟩ := List.forall_mem_cons.mp hplaces
  exact makes_makeLineage_cons hpath (grownAt_makeLineage habove)

/-- When the directory of a path has been made, there are directories on the way to it,
    and everything else is as before. -/
theorem look_makeDirectories (h : (diskWith walk).makeDirectories path w = (.ok (), w')) :
    w'.home = w.home ∧
      ∀ q, w'.look q = if q ∈ w.wayTo path then some .directory else w.look q := by
  have hmakes := makes_makeDirectories walk w path
  rw [h] at hmakes
  obtain ⟨hgrown, hreached⟩ := hmakes
  refine ⟨hgrown.home, ?_⟩
  intro q
  split
  · rename_i hq
    apply hreached rfl
    rwa [wayTo_eq hgrown.home]
  · rename_i hq
    exact (hgrown.look q).resolve_right fun hnew => hq hnew.1

end Workspace

/-! ## Documents -/

section Documents

variable {c : CompileCommand} {w w' : Workspace} {walk : Workspace.Walk}

/-- A document that cannot be written leaves everything as it was. -/
theorem writeDocument_run (c : CompileCommand) (d : CompiledDocument) (w : Workspace) :
    (writeDocument (Workspace.diskWith walk) c d).run w =
      match w.write (c.pathOf d) (c.options.write d) with
      | .ok w' => (.ok { document := d, path := c.pathOf d }, w')
      | .error fault => (.error (.write (c.pathOf d) fault), w) := by
  have hdisk : (Workspace.diskWith walk).write (c.pathOf d) (c.options.write d) w =
      Workspace.change (·.write (c.pathOf d) (c.options.write d)) w := rfl
  rw [Workspace.change] at hdisk
  cases hwrite : w.write (c.pathOf d) (c.options.write d) with
  | error fault =>
    rw [hwrite] at hdisk
    exact run_bind_of_ok (run_lift hdisk)
  | ok w' =>
    rw [hwrite] at hdisk
    exact run_bind_of_ok (run_lift hdisk)

theorem writeDocument_eq_ok {d : CompiledDocument} {x : WrittenDocument}
    (h : (writeDocument (Workspace.diskWith walk) c d).run w = (.ok x, w')) :
    x.document = d ∧ w.write (c.pathOf d) (c.options.write d) = .ok w' := by
  rw [writeDocument_run] at h
  split at h
  · rename_i hwrite
    cases h
    exact ⟨rfl, hwrite⟩
  · cases h

/-- The layout that a command asks for. -/
def CompileCommand.layout (c : CompileCommand) : Layout :=
  if c.format then .indented c.indent else .compact

/-- What stands at a place when documents have been written, each at its own place, over
    what stood there before. The last that is written to a place counts. -/
def CompileCommand.overlay (c : CompileCommand) (placeOf : CompiledDocument → List String)
    (ds : List CompiledDocument) (before : List String → Option FileTree.Item)
    (q : List String) : Option FileTree.Item :=
  match ds.reverse.find? (fun d => placeOf d = q) with
  | some d => some (.file (d.root.toXml c.layout).toUTF8)
  | none => before q

theorem overlay_cons (placeOf : CompiledDocument → List String) (d : CompiledDocument)
    (ds : List CompiledDocument) (before : List String → Option FileTree.Item)
    (q : List String) :
    c.overlay placeOf (d :: ds) before q =
      c.overlay placeOf ds (fun q =>
        if q = placeOf d then some (.file (d.root.toXml c.layout).toUTF8) else before q) q := by
  unfold CompileCommand.overlay
  rw [List.reverse_cons, List.find?_append]
  cases ds.reverse.find? (fun d => placeOf d = q) with
  | some d' => rfl
  | none =>
    by_cases hq : q = placeOf d
    · simp [hq]
    · simp [hq, Ne.symm hq]

theorem overlay_congr {placeOf placeOf' : CompiledDocument → List String}
    {ds : List CompiledDocument} (h : ∀ d ∈ ds, placeOf d = placeOf' d)
    (before : List String → Option FileTree.Item) (q : List String) :
    c.overlay placeOf ds before q = c.overlay placeOf' ds before q := by
  have hfind : ds.reverse.find? (fun d => placeOf d = q) =
      ds.reverse.find? (fun d => placeOf' d = q) := by
    rw [← List.head?_filter, ← List.head?_filter]
    congr 1
    apply List.filter_congr
    intro d hd
    rw [h d (List.mem_reverse.mp hd)]
  unfold CompileCommand.overlay
  rw [hfind]

/-- When all documents have been written, the last of those that are written to one place
    stands there, and everything else is as before. -/
theorem writeDocuments_eq_ok {ds : List CompiledDocument} {xs : List WrittenDocument}
    (h : (ds.mapM (writeDocument (Workspace.diskWith walk) c)).run w = (.ok xs, w')) :
    xs.map (·.document) = ds ∧ w'.home = w.home ∧
      ∀ q, w'.look q = c.overlay (fun d => w.placeOf (c.pathOf d)) ds w.look q := by
  induction ds generalizing w xs with
  | nil =>
    cases h
    exact ⟨rfl, rfl, fun _ => rfl⟩
  | cons d ds ih =>
    rw [List.mapM_cons] at h
    obtain ⟨x, v, hx, h⟩ := ok_of_run_bind h
    obtain ⟨ys, v', hys, h⟩ := ok_of_run_bind h
    cases h
    obtain ⟨hdocument, hwrite⟩ := writeDocument_eq_ok hx
    obtain ⟨hhome, hlook⟩ := Workspace.write_eq_ok hwrite
    obtain ⟨hdocuments, hhomes, hlooks⟩ := ih hys
    refine ⟨?_, hhomes.trans hhome, ?_⟩
    · rw [List.map_cons, hdocument, hdocuments]
    · intro q
      rw [hlooks q, funext hlook, overlay_cons]
      exact overlay_congr (fun d _ => Workspace.placeOf_eq hhome _) _ q

end Documents

end GatewayPolicy
