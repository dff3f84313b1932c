import GatewayPolicy.Proofs.Command.Completion
import GatewayPolicy.Proofs.Document.Markers

/-! # Where documents are written

  A source says in the marker of a class what its document is called, and the document is
  written to a file of that name. Whatever the source says, the file stands directly in the
  output directory, and no other file is touched.

  - `CompileCommand.WritesInside` says what writing a document may change.
  - `Part.ReportsOn` says what may be reported on a name.
  - `Model.marker_writes_inside` puts this together with the names that markers give and
    with what is reported on names that are not taken.
-/

namespace GatewayPolicy

/-- A document is written to the file of its name in the output directory. -/
structure CompileCommand.WritesInside (c : CompileCommand) (d : CompiledDocument)
    (w : Workspace) : Prop where
  target : w.placeOf (c.pathOf d) = w.placeOf c.output ++ [d.marker.name ++ ".xml"]
  /-- Nothing but this file changes. -/
  written : ∀ x w', (writeDocument Workspace.disk c d).run w = (.ok x, w') →
    ∀ place, w'.look place =
      if place = w.placeOf c.output ++ [d.marker.name ++ ".xml"] then
        some (.file (d.root.toXml c.layout).toUTF8)
      else w.look place
  /-- If it cannot be written, nothing changes. -/
  failed : ∀ f w', (writeDocument Workspace.disk c d).run w = (.error f, w') → w' = w

theorem writesInside_of_isFileName (c : CompileCommand) {d : CompiledDocument}
    (hname : isFileName d.marker.name = true) (w : Workspace) : c.WritesInside d w where
  target := placeOf_pathOf c w hname
  written x w' h := by
    obtain ⟨-, hwrite⟩ := writeDocument_eq_ok h
    rw [← placeOf_pathOf c w hname]
    exact (Workspace.write_eq_ok hwrite).2
  failed f w' h := by
    rw [writeDocument_run] at h
    split at h
    · cases h
    · cases h
      rfl

/-- What is reported at the place of an argument that gives a name: one diagnostic if it is
    no constant, or if it is neither empty nor safe, and otherwise none. -/
structure Part.ReportsOn (p : Part) (m : Model) (x : Argument) (ds : List Diagnostic) : Prop where
  notConstant : ∀ error, m.evaluate p.decl.name x.value = .error error →
    ds = [Problem.locatedAt (.documentNameNotConstant error) (p.file.location x.value.span)]
  refused : ∀ name, m.evaluate p.decl.name x.value = .ok name → name ≠ "" → ¬ SafeName name →
    ds = [Problem.locatedAt (.documentNameNotPlain name) (p.file.location x.value.span)]
  accepted : ∀ name, m.evaluate p.decl.name x.value = .ok name → name = "" ∨ SafeName name →
    ds = []

theorem Part.reportsOn_marker {p : Part} {m : Model} {a : AttributeUse} {kind : DocumentKind}
    (hmark : p.decl.mark? = some (a, kind))
    (hapart : (a.arguments.map fun x => p.file.location x.value.span).Nodup) {x : Argument}
    (hx : x ∈ a.arguments) (hgives : x.GivesName) :
    p.ReportsOn m x ((p.marker m).diagnostics.filter fun d =>
      d.location = p.file.location x.value.span) := by
  rw [p.marker_reports m hmark hapart hx, p.argumentReports_of_givesName m hgives,
    p.markerName_diagnostics m]
  constructor
  · intro error herror
    rw [herror]
  · intro name hvalue hempty hunsafe
    rw [hvalue]
    exact if_neg (mt (isFileName_iff hempty).mp hunsafe)
  · rintro name hvalue (rfl | hsafe)
    · rw [hvalue]
      rfl
    · rw [hvalue]
      exact if_pos ((isFileName_iff hsafe.nonempty).mpr hsafe)

/-- Whatever names the arguments of a marker give, the document gets a safe one and is
    written to a file directly in the output directory. A name that is no constant and one
    that is refused are reported once each, where they stand. -/
theorem Model.marker_writes_inside {files : List SourceFile} {ts : List SourceTree}
    (hparsed : parseAll files = .ok ts) {p : Part} (hp : p ∈ Model.parts { trees := ts }) :
    (∀ marker, (p.marker { trees := ts }).value = some marker →
      SafeName marker.name ∧
      ∀ (c : CompileCommand) (d : CompiledDocument), d.marker = marker →
        ∀ w, c.WritesInside d w) ∧
    ∀ a kind, p.decl.mark? = some (a, kind) → ∀ x ∈ a.arguments, x.GivesName →
      p.ReportsOn { trees := ts } x ((p.marker { trees := ts }).diagnostics.filter fun d =>
        d.location = p.file.location x.value.span) := by
  obtain ⟨t, ht, hp⟩ := List.mem_flatMap.mp hp
  obtain ⟨decl, hdecl, rfl⟩ := List.mem_map.mp hp
  obtain ⟨-, hparse⟩ := mem_parseAll hparsed t ht
  constructor
  · intro marker hmarker
    obtain ⟨hname, hempty⟩ :=
      Part.marker_isFileName (SourceTree.className_isFileName hparse hdecl) hmarker
    refine ⟨(isFileName_iff hempty).mp hname, ?_⟩
    rintro c d rfl
    exact writesInside_of_isFileName c hname
  · intro a kind hmark x hx hgives
    have ha := ClassDecl.mem_of_mark? hmark
    exact Part.reportsOn_marker hmark (SourceTree.arguments_apart hparse hdecl ha) hx hgives

/-- A name that leads out of the output directory, and behind it a constant. -/
def overriddenName : SourceFile where
  name := "a"
  text := "[Document(\"../x\",K)]class C\x7bconst string K=\"d\";\x7d"

/-- The constant counts, and the name in front of it is reported where it stands. -/
theorem Model.marker_writes_inside_overridden :
    ∃ ts, parseAll [overriddenName] = .ok ts ∧ ∃ p ∈ Model.parts { trees := ts },
      (p.marker { trees := ts }).value = some ⟨"d", anyScope, .document⟩ ∧
      (p.marker { trees := ts }).diagnostics =
        [Problem.locatedAt (.documentNameNotPlain "../x") ⟨"a", 1, 11⟩] ∧
      (∀ marker, (p.marker { trees := ts }).value = some marker →
        SafeName marker.name ∧
        ∀ (c : CompileCommand) (d : CompiledDocument), d.marker = marker →
          ∀ w, c.WritesInside d w) ∧
      ∀ a kind, p.decl.mark? = some (a, kind) → ∀ x ∈ a.arguments, x.GivesName →
        p.ReportsOn { trees := ts } x ((p.marker { trees := ts }).diagnostics.filter fun d =>
          d.location = p.file.location x.value.span) := by
  have hread : (parseAll [overriddenName]).toOption.map (fun ts =>
      (Model.parts { trees := ts }).map fun p =>
        ((p.marker { trees := ts }).value, (p.marker { trees := ts }).diagnostics)) =
      some [(some ⟨"d", anyScope, .document⟩,
        [Problem.locatedAt (.documentNameNotPlain "../x") ⟨"a", 1, 11⟩])] := by
    decide +kernel
  cases hparse : parseAll [overriddenName] with
  | error e =>
    rw [hparse] at hread
    cases hread
  | ok ts =>
    rw [hparse] at hread
    obtain ⟨p, hparts, hmarker⟩ := List.map_eq_singleton_iff.mp (Option.some.inj hread)
    have hp : p ∈ Model.parts { trees := ts } := by
      rw [hparts]
      exact List.mem_singleton_self p
    obtain ⟨hvalue, hdiagnostics⟩ := Prod.mk.inj hmarker
    exact ⟨ts, rfl, p, hp, hvalue, hdiagnostics, Model.marker_writes_inside hparse hp⟩

end GatewayPolicy
