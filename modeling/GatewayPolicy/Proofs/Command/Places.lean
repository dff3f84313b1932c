import GatewayPolicy.Command.FileTree
import Mathlib.Data.List.Basic
import Mathlib.Data.String.Basic

/-! # Places in a tree of files

  A path is a text, and a place is the list of names from the root to a file or a
  directory. What a command does to a tree is said place by place: `FileTree.look` tells
  what stands at a place.

  - `Path.resolve` leads from one place to another along the steps of a path, and
    `Path.way` lists the places on the way. Neither looks at a tree.
  - A path that can be followed in a tree leads where `Path.resolve` says, over
    directories only (`FileTree.follow_eq_ok`).
  - Making a directory and writing a file change what stands at one place
    (`Workspace.makeDirectory_eq_ok`, `Workspace.write_eq_ok`).
-/

namespace GatewayPolicy

/-! ## Names -/

namespace Path

/-- A text that can stand between two slashes. -/
def IsName (name : String) : Prop := name ≠ "" ∧ '/' ∉ name.toList

theorem splitSlashes_slash (part cs ds : List Char) :
    splitSlashes part (cs ++ '/' :: ds) = splitSlashes part cs ++ splitSlashes [] ds := by
  induction cs generalizing part with
  | nil => by_cases h : part.isEmpty = true <;> simp [splitSlashes, h]
  | cons c cs ih => grind [splitSlashes]

/-- Characters without a slash are one part, unless there are none. -/
theorem splitSlashes_of_notMem {cs : List Char} (h : '/' ∉ cs) (part : List Char) :
    splitSlashes part cs = if part.isEmpty && cs.isEmpty then [] else [part.reverse ++ cs] := by
  induction cs generalizing part with
  | nil => simp [splitSlashes]
  | cons c cs ih =>
    obtain ⟨hc, hcs⟩ := List.ne_and_not_mem_of_not_mem_cons h
    rw [splitSlashes, if_neg (Ne.symm hc), ih hcs]
    simp

theorem mem_splitSlashes {part cs ds : List Char} (hpart : '/' ∉ part)
    (h : ds ∈ splitSlashes part cs) : ds ≠ [] ∧ '/' ∉ ds := by
  induction cs generalizing part with
  | nil =>
    unfold splitSlashes at h
    split at h
    · cases h
    · rename_i hne
      rw [List.mem_singleton] at h
      simp_all
  | cons c cs ih =>
    unfold splitSlashes at h
    split at h
    · split at h
      · exact ih List.not_mem_nil h
      · rename_i hne
        rcases List.mem_cons.mp h with rfl | h
        · simp_all
        · exact ih List.not_mem_nil h
    · rename_i hc
      exact ih (List.not_mem_cons_of_ne_of_not_mem (Ne.symm hc) hpart) h

theorem isName_of_mem_names {path name : String} (h : name ∈ names path) : IsName name := by
  obtain ⟨cs, hcs, rfl⟩ := List.mem_map.mp h
  obtain ⟨hne, hslash⟩ := mem_splitSlashes List.not_mem_nil hcs
  refine ⟨?_, by rwa [String.toList_ofList]⟩
  intro hempty
  apply hne
  rw [← String.toList_ofList (l := cs), hempty]
  rfl

theorem splitSlashes_name {name : String} (h : IsName name) :
    (splitSlashes [] name.toList).map String.ofList = [name] := by
  have hne : name.toList ≠ [] := by
    intro hempty
    exact h.1 (String.toList_eq_nil_iff.mp hempty)
  rw [splitSlashes_of_notMem h.2]
  simp [hne]

/-- Adding a name to a path adds it to the names of the path. -/
theorem names_join (path : String) {name : String} (h : IsName name) :
    names (join path name) = names path ++ [name] := by
  unfold join
  split
  · rename_i hnothing
    rcases Bool.or_eq_true .. ▸ hnothing with hempty | hslash
    · obtain rfl := String.isEmpty_iff.mp hempty
      rw [String.empty_append]
      exact splitSlashes_name h
    obtain ⟨cs, hcs⟩ := List.getLast?_eq_some_iff.mp (eq_of_beq hslash)
    unfold names
    rw [String.toList_append, hcs, List.append_assoc, List.singleton_append, splitSlashes_slash,
      splitSlashes_slash, List.map_append, splitSlashes_name h]
    simp [splitSlashes]
  · unfold names
    rw [String.toList_append, String.toList_append, List.append_assoc,
      show "/".toList = ['/'] from rfl, List.singleton_append, splitSlashes_slash, List.map_append,
      splitSlashes_name h]

/-- A path of names has these names. -/
theorem names_ofNames (absolute : Bool) {ns : List String} (h : ∀ n ∈ ns, IsName n) :
    names (ofNames absolute ns) = ns := by
  have hrelative : (splitSlashes [] ("/".intercalate ns).toList).map String.ofList = ns := by
    rw [String.toList_intercalate, show "/".toList = ['/'] from rfl]
    induction ns with
    | nil => simp [splitSlashes]
    | cons n ns ih =>
      obtain ⟨hn, hns⟩ := List.forall_mem_cons.mp h
      cases ns with
      | nil => simpa using splitSlashes_name hn
      | cons n' ns =>
        have hrest := ih hns
        rw [List.map_cons] at hrest
        rw [List.map_cons, List.map_cons, List.intercalate_cons_cons, List.append_assoc,
          List.singleton_append, splitSlashes_slash, List.map_append, splitSlashes_name hn, hrest]
        rfl
  unfold names ofNames
  rw [String.toList_append]
  cases absolute with
  | false => simpa using hrelative
  | true => simpa [splitSlashes] using hrelative

theorem isAbsolute_ofNames (absolute : Bool) {ns : List String} (hne : ns ≠ [])
    (h : ∀ n ∈ ns, IsName n) : isAbsolute (ofNames absolute ns) = absolute := by
  obtain ⟨n, ns, rfl⟩ := List.exists_cons_of_ne_nil hne
  obtain ⟨hn, -⟩ := List.forall_mem_cons.mp h
  obtain ⟨c, cs, hcs⟩ := List.exists_cons_of_ne_nil (mt String.toList_eq_nil_iff.mp hn.1)
  have hc : c ≠ '/' := by
    rintro rfl
    exact hn.2 (hcs ▸ List.mem_cons_self)
  unfold isAbsolute ofNames
  cases absolute with
  | true => simp [String.toList_append]
  | false =>
    cases ns with
    | nil => simp [hcs, hc]
    | cons n' ns => simp [String.toList_append, String.toList_intercalate, hcs, hc]

/-- Adding a name to a path does not change where the path starts. -/
theorem isAbsolute_join (path : String) {name : String} (h : IsName name) :
    isAbsolute (join path name) = isAbsolute path := by
  by_cases hpath : path = ""
  · subst hpath
    have hname : join "" name = ofNames false [name] := by simp [join, ofNames]
    rw [hname, isAbsolute_ofNames false (List.cons_ne_nil _ _) (List.forall_mem_singleton.mpr h)]
    rfl
  · obtain ⟨c, cs, hcs⟩ := List.exists_cons_of_ne_nil (mt String.toList_eq_nil_iff.mp hpath)
    unfold isAbsolute join
    split <;> simp [String.toList_append, hcs]

/-! ## Steps -/

/-- Where one step leads. -/
def stepFrom (place : List String) (step : String) : List String :=
  if step == "." then place else if step == ".." then place.dropLast else place ++ [step]

/-- Where steps lead, one after the other. -/
def resolve (place : List String) (steps : List String) : List String := steps.foldl stepFrom place

/-- The places that are left by a step. -/
def passed (place : List String) : List String → List (List String)
  | [] => []
  | step :: steps => place :: passed (stepFrom place step) steps

/-- All places on the way along some steps, from the first to the last. -/
def way (place : List String) (steps : List String) : List (List String) :=
  passed place steps ++ [resolve place steps]

theorem resolve_append (place steps more : List String) :
    resolve place (steps ++ more) = resolve (resolve place steps) more := List.foldl_append

theorem passed_append (place steps more : List String) :
    passed place (steps ++ more) = passed place steps ++ passed (resolve place steps) more := by
  induction steps generalizing place with
  | nil => rfl
  | cons step steps ih => rw [List.cons_append, passed, passed, ih, List.cons_append]; rfl

/-- The way is passed as soon as one step more is taken. -/
theorem passed_concat (place steps : List String) (step : String) :
    passed place (steps ++ [step]) = way place steps := passed_append place steps [step]

theorem resolve_mem_way (place steps : List String) : resolve place steps ∈ way place steps :=
  List.mem_append_right _ (List.mem_singleton_self _)

theorem way_cons (place : List String) (step : String) (steps : List String) :
    way place (step :: steps) = place :: way (stepFrom place step) steps := rfl

theorem mem_way_self (place steps : List String) : place ∈ way place steps := by
  cases steps with
  | nil => exact List.mem_singleton_self _
  | cons step steps => exact List.mem_cons_self

/-- Leaving out steps that stay in place leads to no other places. -/
theorem resolve_take_filter_mem_way (place steps : List String) (k : Nat) :
    resolve place ((steps.filter (· != ".")).take k) ∈ way place steps := by
  induction steps generalizing place k with
  | nil =>
    rw [List.filter_nil, List.take_nil]
    exact resolve_mem_way place []
  | cons step steps ih =>
    rw [way_cons]
    by_cases hstep : step = "."
    · subst hstep
      exact List.mem_cons_of_mem _ (ih place k)
    · rw [List.filter_cons_of_pos (by simpa using hstep)]
      cases k with
      | zero => exact List.mem_cons_self
      | succ k => exact List.mem_cons_of_mem _ (ih (stepFrom place step) k)

theorem resolve_take_essentialNames_mem_way (place : List String) (path : String) (k : Nat) :
    resolve place ((essentialNames path).take k) ∈ way place (names path) := by
  unfold essentialNames
  cases names path with
  | nil =>
    rw [List.take_nil]
    exact resolve_mem_way place []
  | cons n ns =>
    dsimp only
    split
    · rename_i hfirst
      have hn : n = "." := eq_of_beq (Bool.and_eq_true_iff.mp hfirst).1
      subst hn
      exact List.mem_cons_of_mem _ (resolve_take_filter_mem_way place ns k)
    · cases k with
      | zero => exact mem_way_self place (n :: ns)
      | succ k => exact List.mem_cons_of_mem _ (resolve_take_filter_mem_way (stepFrom place n) ns k)

theorem mem_names_of_mem_essentialNames {path n : String} (h : n ∈ essentialNames path) :
    n ∈ names path := by
  unfold essentialNames at h
  split at h
  · cases h
  · rename_i first ns hnames
    rw [hnames]
    dsimp only at h
    split at h
    · exact List.mem_cons_of_mem _ (List.mem_of_mem_filter h)
    · rcases List.mem_cons.mp h with rfl | h
      · exact List.mem_cons_self
      · exact List.mem_cons_of_mem _ (List.mem_of_mem_filter h)

end Path

/-! ## Trees -/

namespace FileTree

/-- What stands at a place, apart from what lies below it. -/
inductive Item where
  | file (content : ByteArray)
  | directory

theorem Item.file_eq_file {a b : ByteArray} : file a = file b ↔ a.data = b.data := by
  rw [file.injEq, ByteArray.ext_iff]

instance : DecidableEq Item
  | .file _, .file _ => decidable_of_iff' _ Item.file_eq_file
  | .file _, .directory => isFalse nofun
  | .directory, .file _ => isFalse nofun
  | .directory, .directory => isTrue rfl

/-- What a tree is itself. -/
def top : FileTree → Item
  | file content => .file content
  | directory _ => .directory

/-- What stands at a place. -/
def look (t : FileTree) (place : List String) : Option Item := (t.at? place).map top

variable {t new : FileTree}

theorem look_eq_directory {place : List String} :
    t.look place = some .directory ↔ ∃ es, t.at? place = some (directory es) := by
  unfold look
  cases t.at? place with
  | none => simp
  | some u => cases u <;> simp [top]

theorem at?_append (t : FileTree) (p q : List String) :
    t.at? (p ++ q) = (t.at? p).bind (·.at? q) := by
  induction p generalizing t with
  | nil => rfl
  | cons n ns ih =>
    cases t with
    | file content => rfl
    | directory entries =>
      rw [List.cons_append, at?, at?]
      cases entries.lookup n with
      | none => rfl
      | some u => exact ih u

/-- Nothing lies below a place that is no directory. -/
theorem look_below {p : List String} (h : t.look p ≠ some .directory) (n : String)
    (ns : List String) : t.look (p ++ n :: ns) = none := by
  unfold look
  rw [at?_append]
  cases hp : t.at? p with
  | none => rfl
  | some u =>
    cases u with
    | file content => rfl
    | directory es => exact absurd (look_eq_directory.mpr ⟨es, hp⟩) h

theorem lookup_setEntry (name n : String) (t : FileTree) (es : List (String × FileTree)) :
    (setEntry name t es).lookup n = if n = name then some t else es.lookup n := by
  induction es with
  | nil => grind [setEntry]
  | cons e es ih => grind [setEntry]

theorem look_directory_cons (es : List (String × FileTree)) (n : String) (ns : List String) :
    (directory es).look (n :: ns) = (es.lookup n).bind (·.look ns) := by
  unfold look
  rw [at?]
  cases es.lookup n <;> rfl

/-- Putting something that has nothing below it in a directory, where no directory
    stands, changes what stands at that place and nowhere else. -/
theorem look_put {place : List String} {name : String} (hparent : t.look place = some .directory)
    (hold : t.look (place ++ [name]) ≠ some .directory)
    (hnew : ∀ n ns, new.look (n :: ns) = none) (q : List String) :
    (t.put new (place ++ [name])).look q =
      if q = place ++ [name] then some new.top else t.look q := by
  -- along the names of the place; the rest of each directory passed is kept
  induction place generalizing t q with
  | nil =>
    obtain ⟨es, hes⟩ := look_eq_directory.mp hparent
    cases hes
    cases q with
    | nil => simp [put, look, at?, top]
    | cons n ns =>
      have hbelow := look_below hold
      rw [List.nil_append, put, look_directory_cons, lookup_setEntry, look_directory_cons, put]
      by_cases hn : n = name
      · subst hn
        cases ns with
        | nil => simp [look, at?]
        | cons n' ns =>
          have hnone := hbelow n' ns
          rw [List.nil_append, List.singleton_append, look_directory_cons] at hnone
          simp [hnew, hnone]
      · simp [hn]
  | cons m ms ih =>
    cases t with
    | file content => cases hparent
    | directory es =>
      rw [look_directory_cons] at hparent
      obtain ⟨u, hu, hbelow⟩ := Option.bind_eq_some_iff.mp hparent
      rw [List.cons_append, look_directory_cons, hu] at hold
      cases q with
      | nil => simp [put, look, at?, top]
      | cons n ns =>
        rw [List.cons_append, put, look_directory_cons, lookup_setEntry, look_directory_cons, hu]
        by_cases hn : n = m
        · subst hn
          simpa [hu] using ih hbelow hold ns
        · simp [hn]

/-- Steps that can be followed lead where they say, over directories. -/
theorem follow_eq_ok {place steps q : List String} (h : t.follow place steps = .ok q) :
    q = Path.resolve place steps ∧ ∀ r ∈ Path.passed place steps, t.look r = some .directory := by
  induction steps generalizing place with
  | nil =>
    cases h
    exact ⟨rfl, List.forall_mem_nil _⟩
  | cons step steps ih =>
    rw [Path.passed, List.forall_mem_cons]
    unfold follow at h
    split at h
    · cases h
    · cases h
    · rename_i es hes
      have hplace : t.look place = some .directory := look_eq_directory.mpr ⟨es, hes⟩
      have hnext : t.follow (Path.stepFrom place step) steps = .ok q := by
        unfold Path.stepFrom
        split at h
        · rwa [if_pos ‹_›]
        · rw [if_neg ‹_›]
          split at h
          · rwa [if_pos ‹_›]
          · rw [if_neg ‹_›]
            split at h
            · cases h
            · split at h
              · exact h
              · cases h
      obtain ⟨hq, hpassed⟩ := ih hnext
      exact ⟨hq, hplace, hpassed⟩

end FileTree

/-! ## Workspaces -/

theorem ok_of_bind {ε α β : Type} {x : Except ε α} {f : α → Except ε β} {b : β}
    (h : x >>= f = .ok b) : ∃ a, x = .ok a ∧ f a = .ok b := by
  cases x with
  | error e => cases h
  | ok a => exact ⟨a, rfl, h⟩

namespace Workspace

variable {w w' : Workspace} {path : String}

/-- What stands at a place. -/
def look (w : Workspace) (place : List String) : Option FileTree.Item := w.tree.look place

/-- The place that a path names. -/
def placeOf (w : Workspace) (path : String) : List String :=
  Path.resolve (w.start path) (Path.names path)

/-- The places on the way to the place that a path names, that one last. -/
def wayTo (w : Workspace) (path : String) : List (List String) :=
  Path.way (w.start path) (Path.names path)

theorem start_eq (h : w'.home = w.home) (path : String) : w'.start path = w.start path := by
  unfold start
  rw [h]

theorem placeOf_eq (h : w'.home = w.home) (path : String) : w'.placeOf path = w.placeOf path := by
  unfold placeOf
  rw [start_eq h]

theorem wayTo_eq (h : w'.home = w.home) (path : String) : w'.wayTo path = w.wayTo path := by
  unfold wayTo
  rw [start_eq h]

theorem placeOf_mem_wayTo (w : Workspace) (path : String) : w.placeOf path ∈ w.wayTo path :=
  Path.resolve_mem_way _ _

/-- An entry that is located stands in a directory, and so do all places on the way. -/
theorem locate_eq_ok {place : List String} {name : String}
    (h : w.locate path = .ok (place, name)) :
    w.placeOf path = place ++ [name] ∧
      w.wayTo path = Path.way (w.start path) (Path.names path).dropLast ++ [w.placeOf path] ∧
      place ∈ Path.way (w.start path) (Path.names path).dropLast ∧
      ∀ r ∈ Path.way (w.start path) (Path.names path).dropLast, w.look r = some .directory := by
  unfold locate at h
  obtain ⟨-, -, h⟩ := ok_of_bind h
  cases hlast : (Path.names path).getLast? with
  | none =>
    rw [hlast] at h
    cases h
  | some last =>
    obtain ⟨names, hnames⟩ := List.getLast?_eq_some_iff.mp hlast
    rw [hnames, List.dropLast_concat]
    rw [hlast, hnames, List.dropLast_concat] at h
    obtain ⟨q, hfollow, h⟩ := ok_of_bind h
    obtain ⟨hq, hway⟩ := FileTree.follow_eq_ok hfollow
    rw [Path.passed_concat] at hway
    -- the step that stays in place makes sure that a directory is there
    have hplace : q = Path.resolve (w.start path) names := by
      rw [hq, Path.resolve_append]
      rfl
    split at h
    · cases h
    · rename_i hdots
      split at h
      · cases h
      · cases h
        have hresolve : w.placeOf path = place ++ [name] := by
          unfold placeOf
          rw [hnames, Path.resolve_append, ← hplace]
          show Path.stepFrom place name = _
          simp only [Bool.or_eq_true, not_or] at hdots
          rw [Path.stepFrom, if_neg hdots.1, if_neg hdots.2]
        refine ⟨hresolve, ?_, ?_, hway⟩
        · rw [wayTo, Path.way, hnames, Path.passed_concat, placeOf, hnames]
        · rw [hplace]
          exact Path.resolve_mem_way _ _

/-- A path that leads to something leads there over directories. -/
theorem find_eq_ok {t : FileTree} (h : w.find path = .ok t) :
    w.tree.at? (w.placeOf path) = some t ∧
      ∀ r ∈ Path.passed (w.start path) (Path.names path), w.look r = some .directory := by
  unfold find at h
  obtain ⟨-, -, h⟩ := ok_of_bind h
  obtain ⟨q, hfollow, h⟩ := ok_of_bind h
  obtain ⟨hq, hpassed⟩ := FileTree.follow_eq_ok hfollow
  -- a slash at the end is a step that stays in place
  have hplace : q = w.placeOf path := by
    rw [hq, Path.steps, Path.resolve_append]
    split <;> rfl
  rw [Path.steps, Path.passed_append] at hpassed
  refine ⟨?_, (List.forall_mem_append.mp hpassed).1⟩
  rw [← hplace]
  split at h
  · cases h
  · cases h
    assumption

/-- A path to a directory leads over directories only. -/
theorem isKind_directory (h : w.isKind .directory path = true) :
    ∀ r ∈ w.wayTo path, w.look r = some .directory := by
  unfold isKind at h
  split at h
  · rename_i t hfind
    obtain ⟨hplace, hpassed⟩ := find_eq_ok hfind
    have htop : w.look (w.placeOf path) = some .directory := by
      unfold look FileTree.look
      rw [hplace]
      cases t with
      | file content => cases h
      | directory es => rfl
    rw [wayTo, Path.way, List.forall_mem_append, List.forall_mem_singleton]
    exact ⟨hpassed, htop⟩
  · cases h

/-- A directory that is made is new and has directories on the way to it. Nothing else
    changes. -/
theorem makeDirectory_eq_ok (h : w.makeDirectory path = .ok w') :
    w'.home = w.home ∧ w.look (w.placeOf path) = none ∧
      (∀ q, w'.look q = if q = w.placeOf path then some .directory else w.look q) ∧
      ∀ r ∈ w.wayTo path, w'.look r = some .directory := by
  unfold makeDirectory at h
  obtain ⟨⟨place, name⟩, hlocate, h⟩ := ok_of_bind h
  obtain ⟨hplace, hway, hmem, hdirectories⟩ := locate_eq_ok hlocate
  dsimp only at h
  split at h
  · cases h
  · rename_i hnone
    cases h
    have hold : w.look (place ++ [name]) = none := by
      unfold look FileTree.look
      rw [hnone]
      rfl
    have hchange : ∀ q, (w.tree.put (.directory []) (place ++ [name])).look q =
        if q = w.placeOf path then some .directory else w.look q := by
      intro q
      rw [hplace]
      apply FileTree.look_put (hdirectories place hmem)
      · show w.look (place ++ [name]) ≠ _
        rw [hold]
        exact nofun
      · intro n ns
        rfl
    refine ⟨rfl, hplace ▸ hold, hchange, ?_⟩
    intro r hr
    rw [hway] at hr
    refine (hchange r).trans ?_
    split
    · rfl
    · rename_i hne
      rcases List.mem_append.mp hr with hr | hr
      · exact hdirectories r hr
      · exact absurd (List.mem_singleton.mp hr) hne

/-- A file that is written has its text. Nothing else changes. -/
theorem write_eq_ok {text : String} (h : w.write path text = .ok w') :
    w'.home = w.home ∧
      ∀ q, w'.look q = if q = w.placeOf path then some (.file text.toUTF8) else w.look q := by
  unfold write at h
  obtain ⟨⟨place, name⟩, hlocate, h⟩ := ok_of_bind h
  obtain ⟨hplace, -, hmem, hdirectories⟩ := locate_eq_ok hlocate
  dsimp only at h
  split at h
  · cases h
  · rename_i hnone
    cases h
    refine ⟨rfl, ?_⟩
    intro q
    rw [hplace]
    apply FileTree.look_put (hdirectories place hmem)
    · intro hdirectory
      obtain ⟨es, hes⟩ := FileTree.look_eq_directory.mp hdirectory
      exact hnone es hes
    · intro n ns
      rfl

end Workspace

end GatewayPolicy
