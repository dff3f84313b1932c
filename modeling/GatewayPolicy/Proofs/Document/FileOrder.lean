import GatewayPolicy.Proofs.Document.Dependence
import GatewayPolicy.Proofs.Document.Discovery
import GatewayPolicy.Proofs.Model.Agreement
import GatewayPolicy.Proofs.Policy.Locality

/-! # The order of files

  All files of a compilation share one list of parts, and whatever is looked up is the
  first of its name in that list. If no class is spread over several files, the first
  of a name is found in the one file that declares its class, wherever that file stands.

  - `Undivided` says that no class is declared in two different files.
  - `Model.partsOf_of_perm` says that a class then has the same parts in every order of
    the files, and `Model.document?_of_perm` that it becomes the same document.
  - `Model.documents_of_perm` is the result.
-/

namespace GatewayPolicy

/-- No class is declared in two different files. The same file may be given twice. -/
def Undivided (ts : List SourceTree) : Prop :=
  ∀ t ∈ ts, ∀ t' ∈ ts, t ≠ t' → ∀ name ∈ t.classNames, name ∉ t'.classNames

/-- The documents of the classes that a file declares, in order. -/
def SourceTree.documentsAmong (t : SourceTree) (ds : List CompiledDocument) :
    List CompiledDocument :=
  ds.filter (·.className ∈ t.classNames)

/-! ## Lists in another order -/

/-- Lists that are put together in another order give the same, if all that are not
    empty are equal. -/
theorem flatMap_eq_of_perm {α β : Type} {f : α → List β} {xs ys : List α} (h : xs.Perm ys)
    (hone : ∀ x ∈ xs, ∀ y ∈ xs, f x ≠ [] → f y ≠ [] → f x = f y) :
    xs.flatMap f = ys.flatMap f := by
  induction h with
  | nil => rfl
  | cons x h ih =>
    rw [List.flatMap_cons, List.flatMap_cons, ih]
    intro y hy z hz
    exact hone y (List.mem_cons_of_mem _ hy) z (List.mem_cons_of_mem _ hz)
  | swap x y zs =>
    have hxy := hone x (by simp) y (by simp)
    simp only [List.flatMap_cons]
    -- Either one of the two is empty or both are the same.
    by_cases hx : f x = []
    · simp [hx]
    · by_cases hy : f y = []
      · simp [hy]
      · rw [hxy hx hy]
  | trans h _ ih ih' =>
    rw [ih hone, ih']
    intro x hx y hy
    exact hone x (h.mem_iff.mpr hx) y (h.mem_iff.mpr hy)

/-- A name is declared in one file at most. -/
theorem Undivided.eq_of_mem {ts : List SourceTree} (hone : Undivided ts) {t t' : SourceTree}
    (ht : t ∈ ts) (ht' : t' ∈ ts) {name : String} (h : name ∈ t.classNames)
    (h' : name ∈ t'.classNames) : t = t' := by
  by_contra hne
  exact hone t ht t' ht' hne name h h'

namespace Model

variable {ts ts' : List SourceTree}

/-! ## Lookups -/

/-- A class has the same parts in every order of the files. -/
theorem partsOf_of_perm (hone : Undivided ts) (hperm : ts.Perm ts') (className : String) :
    partsOf { trees := ts } className = partsOf { trees := ts' } className := by
  unfold partsOf parts
  rw [List.filter_flatMap, List.filter_flatMap]
  -- A file that adds a part declares the class.
  have hdeclares : ∀ t : SourceTree, t.parts.filter (·.decl.name == className) ≠ [] →
      className ∈ t.classNames := by
    intro t hne
    obtain ⟨p, hp⟩ := List.exists_mem_of_ne_nil _ hne
    obtain ⟨hmem, hname⟩ := List.mem_filter.mp hp
    obtain ⟨decl, hdecl, rfl⟩ := List.mem_map.mp hmem
    exact List.mem_map.mpr ⟨decl, hdecl, eq_of_beq hname⟩
  apply flatMap_eq_of_perm hperm
  intro t ht t' ht' hne hne'
  rw [hone.eq_of_mem ht ht' (hdeclares t hne) (hdeclares t' hne')]

/-- Constants have the same values in every order of the files. -/
theorem evaluate_of_perm (hone : Undivided ts) (hperm : ts.Perm ts') :
    evaluate { trees := ts } = evaluate { trees := ts' } := by
  apply evaluate_of_fields
  funext className field
  rw [field?, field?, partsOf_of_perm hone hperm]

/-- Calls mean the same methods in every order of the files. -/
theorem resolve_of_perm (hone : Undivided ts) (hperm : ts.Perm ts') :
    resolve { trees := ts } = resolve { trees := ts' } := by
  have hmethods : methodsNamed { trees := ts } = methodsNamed { trees := ts' } := by
    funext className method
    rw [methodsNamed, methodsNamed, partsOf_of_perm hone hperm]
  funext className target count
  rw [resolve, resolve, hmethods]

end Model

/-! ## Documents -/

/-- Code emits the same at sites that it cannot tell apart. -/
theorem SectionMethod.emission_of_alike {s : SectionMethod} {m m' : Model}
    (hsite : (s.site m).Alike (s.site m')) (b : Bindings) : s.emission m b = s.emission m' b := by
  have hstatements : ∀ statements, emitAll (s.site m) allKinds b statements =
      emitAll (s.site m') allKinds b statements := by
    intro statements
    have halike : emitAll (s.site m) allKinds (b ++ []) statements =
        emitAll (s.site m') allKinds b statements := emitAll_alike hsite fun _ _ => rfl
    rwa [List.append_nil] at halike
  unfold emission
  simp only [hstatements]
  rfl

namespace Model

variable {ts ts' : List SourceTree}

/-- A class becomes the same document in every order of the files. -/
theorem document?_of_perm (hone : Undivided ts) (hperm : ts.Perm ts') :
    document? { trees := ts } = document? { trees := ts' } := by
  have hevaluate := evaluate_of_perm hone hperm
  have hresolve := resolve_of_perm hone hperm
  funext className
  apply document?_eq (partsOf_of_perm hone hperm className)
  · intro p _
    apply Part.marker_eq
    intro a _ x _
    rw [hevaluate]
  · intro kind s _ b
    apply SectionMethod.emission_of_alike
    constructor
    · rfl
    · rfl
    · intro e
      exact congrFun (congrFun hevaluate _) e
    · intro target count
      exact congrArg (·.bind Helper.code?) (congrFun (congrFun (congrFun hresolve _) target) count)

theorem classNames_of_perm (hperm : ts.Perm ts') :
    (classNames { trees := ts }).Perm (classNames { trees := ts' }) := by
  unfold classNames
  rw [List.perm_ext_iff_of_nodup (nodup_eraseDups _) (nodup_eraseDups _)]
  intro name
  rw [List.mem_eraseDups, List.mem_eraseDups]
  exact ((hperm.flatMap_right _).map _).mem_iff

/-- The documents of a file come from the classes of the file, in their order. -/
theorem documentsAmong_documents (m : Model) (t : SourceTree) :
    t.documentsAmong m.documents =
      ((m.parts.map (·.decl.name)).filter (· ∈ t.classNames)).eraseDups.filterMap m.document? := by
  unfold SourceTree.documentsAmong documents classNames
  rw [eraseDups_filter, List.filterMap_filter, List.filter_filterMap]
  congr 1
  funext name
  cases hd : m.document? name with
  | none => simp
  | some d => simp [Option.filter, (document?_eq_some hd).1]

/-- Files that share no class may be given in any order: the documents are the same,
    and those of one file stand in the same order. The files that declare the class of a
    document include the one that it is compiled from. -/
theorem documents_of_perm (hone : Undivided ts) (hperm : ts.Perm ts') :
    (documents { trees := ts }).Perm (documents { trees := ts' }) ∧
    (∀ t ∈ ts, t.documentsAmong (documents { trees := ts }) =
      t.documentsAmong (documents { trees := ts' })) ∧
    (∀ d ∈ documents { trees := ts }, ∃ t ∈ ts, d.className ∈ t.classNames ∧
      d.source = t.file.name) := by
  have hdocument := document?_of_perm hone hperm
  refine ⟨?_, ?_, ?_⟩
  · rw [documents, documents, hdocument]
    exact (classNames_of_perm hperm).filterMap _
  · intro t ht
    rw [documentsAmong_documents, documentsAmong_documents, hdocument, map_name_parts,
      map_name_parts, List.filter_flatMap, List.filter_flatMap]
    -- Only `t` itself declares a class of `t`.
    have hself : ∀ u ∈ ts, u.classNames.filter (· ∈ t.classNames) ≠ [] → u = t := by
      intro u hu hne
      obtain ⟨name, hname⟩ := List.exists_mem_of_ne_nil _ hne
      obtain ⟨hmem, hmem'⟩ := List.mem_filter.mp hname
      exact hone.eq_of_mem hu ht hmem (of_decide_eq_true hmem')
    congr 2
    apply flatMap_eq_of_perm hperm
    intro u hu u' hu' hne hne'
    rw [hself u hu hne, hself u' hu' hne']
  · intro d hd
    obtain ⟨p, hfirst, hcompiles⟩ := (document?_eq_some (mem_documents.mp hd)).2
    obtain ⟨t, ht, hp⟩ := List.mem_flatMap.mp hfirst.mem_parts
    obtain ⟨decl, hdecl, rfl⟩ := List.mem_map.mp hp
    exact ⟨t, ht, List.mem_map.mpr ⟨decl, hdecl, hfirst.name⟩, hcompiles.source⟩

end Model

/-! ## A constant of another file -/

namespace Apart

open Spread

/-- The class `A` is named by a constant of the class `C`. -/
def named : ClassDecl :=
  { part "A" [] with attributes := [{ name := "Document", span := default, arguments :=
    [.mk none (.member (.name "C" default) "Title" false default) default] }] }

/-- The class `C` declares the constant. -/
def titled : ClassDecl :=
  { part "C" ["Fragment"] with members := [.field { (default : FieldDecl) with
    name := "Title", isConst := true, initializer := some (.literal ⟨.string, "t", default⟩) }] }

/-- The file that uses the constant. -/
def user : SourceTree :=
  { file := { name := "user", text := "" }, classes := [named, part "B" ["Document"]] }

/-- The file that declares the constant. -/
def owner : SourceTree :=
  { file := { name := "owner", text := "" }, classes := [titled] }

theorem undivided : Undivided [user, owner] := by
  have huser : ∀ name ∈ user.classNames, name ∉ owner.classNames := by decide
  have howner : ∀ name ∈ owner.classNames, name ∉ user.classNames := by decide
  intro t ht t' ht' hne
  rcases List.mem_pair.mp ht with rfl | rfl
  · rcases List.mem_pair.mp ht' with rfl | rfl
    · exact absurd rfl hne
    · exact huser
  · rcases List.mem_pair.mp ht' with rfl | rfl
    · exact howner
    · exact absurd rfl hne

end Apart

open Apart in
/-- The constant is found in both orders, and the documents of one file stay together
    in their order. -/
theorem Model.documents_of_perm_constant :
    Undivided [user, owner] ∧ [user, owner].Perm [owner, user] ∧
    (documents { trees := [user, owner] }).map (fun d => (d.marker.name, d.source)) =
      [("t", "user"), ("B", "user"), ("C", "owner")] ∧
    (documents { trees := [owner, user] }).map (fun d => (d.marker.name, d.source)) =
      [("C", "owner"), ("t", "user"), ("B", "user")] ∧
    (documents { trees := [user, owner] }).Perm (documents { trees := [owner, user] }) ∧
    user.documentsAmong (documents { trees := [user, owner] }) =
      user.documentsAmong (documents { trees := [owner, user] }) := by
  have hperm : [user, owner].Perm [owner, user] := .swap _ _ _
  obtain ⟨hdocuments, hamong, -⟩ := documents_of_perm undivided hperm
  refine ⟨undivided, hperm, ?_, ?_, hdocuments, hamong user (List.mem_cons_self ..)⟩
  · decide +kernel
  · decide +kernel

end GatewayPolicy
