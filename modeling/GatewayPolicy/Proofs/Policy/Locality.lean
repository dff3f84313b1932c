import GatewayPolicy.Proofs.Policy.Frame

/-! # What the code of a section depends on

  A section is compiled in the light of the whole compilation and of all names
  bound before it. Little of that is ever looked at.

  - `Site.Alike` says that two sites have the same file and receiver, give every
    constant the same value, and every call of a helper the same code.
  - `Expr.names` lists the names that are looked up for the value of an
    expression, and `extract_alike` says that nothing else of the bindings counts.
  - `openNames` lists the names that a statement looks up where it has not bound
    them itself. `emit_alike` says that bindings of other names, made before, do
    not change what a statement emits.
-/

namespace GatewayPolicy

/-! ## Sites -/

/-- Sites that code cannot tell apart. -/
structure Site.Alike (site site' : Site) : Prop where
  file : site.part.file = site'.part.file
  receiver : site.receiver = site'.receiver
  constant : ∀ e, site.model.evaluate site.className e = site'.model.evaluate site'.className e
  code : ∀ target count, (site.model.resolve site.className target count).bind Helper.code? =
    (site'.model.resolve site'.className target count).bind Helper.code?

theorem Site.Alike.refl (site : Site) : site.Alike site :=
  ⟨rfl, rfl, fun _ => rfl, fun _ _ => rfl⟩

/-- A site of which nothing is known but the file. -/
def SourceFile.site (file : SourceFile) : Site :=
  { model := default, part := { file, decl := default }, receiver := "" }

/-- What looks at nothing but the file of a site is the same at two sites in one
    file. -/
theorem Site.eq_of_file {α : Type} {site site' : Site} {f : Site → α}
    (hf : ∀ s, f s = f s.part.file.site) (h : site.part.file = site'.part.file) :
    f site = f site' := by
  rw [hf site, hf site', h]

/-! ## Values -/

mutual

/-- The names that are looked up for the value of an expression. -/
def Expr.names : Expr → List String
  | .name n _ => [n]
  | .paren inner _ => inner.names
  | .array _ elements _ => namesInAll elements
  | .object _ _ (.fields fields) _ => namesInFields fields
  | .object _ _ (.elements elements) _ => namesInAll elements
  | .object _ (some (a :: as)) .absent _ => namesInArguments (a :: as)
  | _ => []

/-- The names that are looked up for some expressions. -/
def namesInAll : List Expr → List String
  | [] => []
  | e :: es => e.names ++ namesInAll es

/-- The names that are looked up for some fields. -/
def namesInFields : List FieldValue → List String
  | [] => []
  | .mk _ e _ :: fields => e.names ++ namesInFields fields

/-- The names that are looked up for some arguments. -/
def namesInArguments : List Argument → List String
  | [] => []
  | .mk _ e _ :: arguments => e.names ++ namesInArguments arguments

end

/-- Bindings under which these names stand for the same. -/
def Bindings.Agree (names : List String) (b b' : Bindings) : Prop :=
  ∀ n ∈ names, b.lookup? n = b'.lookup? n

theorem Bindings.agree_append {names others : List String} {b b' : Bindings} :
    Agree (names ++ others) b b' ↔ Agree names b b' ∧ Agree others b b' :=
  List.forall_mem_append

section

variable {site site' : Site} {b b' : Bindings}

theorem Site.Alike.refuse (hs : site.Alike site') (p : Problem) (span : Span) :
    site.refuse p span = site'.refuse p span :=
  Site.eq_of_file (f := fun s => s.refuse p span) (fun _ => rfl) hs.file

theorem extractConstant_alike (hs : site.Alike site') (e : Expr) :
    extractConstant site e = extractConstant site' e := by
  unfold extractConstant
  rw [hs.constant e]
  split
  · rfl
  · exact hs.refuse _ _

theorem extractCall_alike (hs : site.Alike site') (target : Expr) (count : Nat) (span : Span) :
    extractCall site target count span = extractCall site' target count span := by
  have hslice : site.slice target.span = site'.slice target.span := by
    unfold Site.slice
    rw [hs.file]
  unfold extractCall
  rw [hs.code target count, hslice]
  split
  · rfl
  · exact hs.refuse _ _

mutual

/-- The value of an expression depends on the names in it, not on other bindings. -/
theorem extract_alike (hs : site.Alike site') {e : Expr} (h : Bindings.Agree e.names b b') :
    extract site b e = extract site' b' e := by
  cases e with
  | literal l =>
    have hslice : site.slice l.span = site'.slice l.span := by
      unfold Site.slice
      rw [hs.file]
    rw [extract, extract, hslice]
  | name n span =>
    have hn : b.lookup? n = b'.lookup? n := h n (List.mem_singleton_self n)
    rw [extract, extract, hn, extractConstant_alike hs]
  | paren inner span =>
    rw [extract, extract]
    exact extract_alike hs h
  | array type elements span =>
    rw [extract, extract, extractAll_alike hs h]
  | object type arguments initializer span =>
    cases initializer with
    | fields fields => rw [extract, extract, extractFields_alike hs h]
    | elements elements => rw [extract, extract, extractAll_alike hs h]
    | absent =>
      cases arguments with
      | none => rfl
      | some xs =>
        cases xs with
        | nil => rfl
        | cons x xs => rw [extract, extract, extractArguments_alike hs h]
  | call target types arguments span =>
    rw [extract, extract, extractCall_alike hs]
  | member _ _ _ span | binary _ _ _ span | unary _ _ span | cast _ _ span =>
    exact extractConstant_alike hs _
  | index _ _ span | lambda _ _ span | blockLambda _ _ span | assign _ _ _ span
  | conditional _ _ _ span | typeOperator _ span | typeName _ span | unparsed span =>
    exact hs.refuse _ span
termination_by sizeOf e

theorem extractAll_alike (hs : site.Alike site') {es : List Expr}
    (h : Bindings.Agree (namesInAll es) b b') :
    extractAll site b es = extractAll site' b' es := by
  cases es with
  | nil => rfl
  | cons e es =>
    obtain ⟨he, hes⟩ := Bindings.agree_append.mp h
    rw [extractAll, extractAll, extract_alike hs he, extractAll_alike hs hes]
termination_by sizeOf es

theorem extractFields_alike (hs : site.Alike site') {fs : List FieldValue}
    (h : Bindings.Agree (namesInFields fs) b b') :
    extractFields site b fs = extractFields site' b' fs := by
  cases fs with
  | nil => rfl
  | cons f fs =>
    cases f with
    | mk name e span =>
      obtain ⟨he, hfs⟩ := Bindings.agree_append.mp h
      rw [extractFields, extractFields, extract_alike hs he, extractFields_alike hs hfs]
termination_by sizeOf fs

theorem extractArguments_alike (hs : site.Alike site') {xs : List Argument}
    (h : Bindings.Agree (namesInArguments xs) b b') :
    extractArguments site b xs = extractArguments site' b' xs := by
  cases xs with
  | nil => rfl
  | cons x xs =>
    cases x with
    | mk name e span =>
      obtain ⟨he, hxs⟩ := Bindings.agree_append.mp h
      rw [extractArguments, extractArguments, extract_alike hs he, extractArguments_alike hs hxs]
termination_by sizeOf xs

end

/-- The names that are looked up for the arguments of an expression that is a call. -/
def Expr.argumentNames : Expr → List String
  | .call _ _ arguments _ => namesInArguments arguments
  | _ => []

/-- The value of each of some arguments depends on the names in them only. -/
theorem extract_argument_alike (hs : site.Alike site') {xs : List Argument}
    (h : Bindings.Agree (namesInArguments xs) b b') :
    ∀ x ∈ xs, extract site b x.value = extract site' b' x.value := by
  induction xs with
  | nil => simp
  | cons x xs ih =>
    obtain ⟨name, e, span⟩ := x
    obtain ⟨he, hxs⟩ := Bindings.agree_append.mp h
    rw [List.forall_mem_cons]
    exact ⟨extract_alike hs he, ih hxs⟩

end

/-! ## Operations

  Past the values of its arguments an operation looks at the file only, to
  locate its reports. -/

section

variable {site site' : Site} {b b' : Bindings} (hfile : site.part.file = site'.part.file)

include hfile

theorem Form.readTiers_file (f : Form) (tiers : List Tier) (config : Value) :
    f.readTiers site tiers config = f.readTiers site' tiers config := by
  have hread : ∀ (f : Form) (config : Value), f.read site config = f.read site' config :=
    fun f config => Site.eq_of_file (f := fun s => f.read s config) (fun _ => rfl) hfile
  have hreport : site.report = site'.report :=
    Site.eq_of_file (f := fun s => s.report) (fun _ => rfl) hfile
  induction tiers generalizing f config with
  | nil => exact hread f config
  | cons tier below ih =>
    have hentries : (fun entry => (tier.form.readTiers site below entry).run) =
        fun entry => (tier.form.readTiers site' below entry).run :=
      funext fun entry => congrArg OptionT.run (ih tier.form entry)
    rw [Form.readTiers, Form.readTiers, hread, hentries, hreport]

theorem Site.checkCount_file (call : Call) (range : ArgumentRange) :
    site.checkCount call range = site'.checkCount call range :=
  Site.eq_of_file (f := fun s => s.checkCount call range) (fun _ => rfl) hfile

theorem Site.textArgument_alike {a : Argument}
    (ha : extract site b a.value = extract site' b' a.value) :
    site.textArgument b a = site'.textArgument b' a := by
  have htext : site.singleText = site'.singleText :=
    Site.eq_of_file (f := fun s => s.singleText) (fun _ => rfl) hfile
  unfold Site.textArgument
  rw [ha, htext]

theorem Site.configuration_alike (call : Call) (expected : String) {a : Argument}
    (ha : extract site b a.value = extract site' b' a.value) :
    site.configuration b call expected a = site'.configuration b' call expected a := by
  have hreject : (site.reject : Problem → Span → Attempt Value) = site'.reject :=
    Site.eq_of_file (f := fun s => (s.reject : Problem → Span → Attempt Value)) (fun _ => rfl) hfile
  unfold Site.configuration
  rw [ha, hreject]

theorem entryValues_alike {arguments : List Argument}
    (h : ∀ a ∈ arguments, extract site b a.value = extract site' b' a.value) :
    entryValues site b arguments = entryValues site' b' arguments := by
  have htexts : site.texts = site'.texts :=
    Site.eq_of_file (f := fun s => s.texts) (fun _ => rfl) hfile
  have hcollect : Reported.collect (fun a => extract site b a.value >>= site.texts) arguments =
      Reported.collect (fun a => extract site' b' a.value >>= site'.texts) arguments := by
    rw [htexts]
    induction arguments with
    | nil => rfl
    | cons a as ih =>
      obtain ⟨ha, has⟩ := List.forall_mem_cons.mp h
      rw [Reported.collect, Reported.collect, ha, ih has]
  unfold entryValues
  rw [hcollect]

theorem positionalAttributes_alike (names : List String) {arguments : List Argument}
    (h : ∀ a ∈ arguments, extract site b a.value = extract site' b' a.value) :
    positionalAttributes site b names arguments =
      positionalAttributes site' b' names arguments := by
  induction names generalizing arguments with
  | nil => rfl
  | cons name names ih =>
    cases arguments with
    | nil => rfl
    | cons a as =>
      obtain ⟨ha, has⟩ := List.forall_mem_cons.mp h
      rw [positionalAttributes, positionalAttributes, Site.textArgument_alike hfile ha, ih has]

variable {call : Call}
  (h : ∀ a ∈ call.arguments, extract site b a.value = extract site' b' a.value)

include h

theorem Site.onlyConfiguration_alike (expected : String) :
    site.onlyConfiguration b call expected = site'.onlyConfiguration b' call expected := by
  unfold Site.onlyConfiguration
  rw [Site.checkCount_file hfile]
  cases harguments : call.arguments with
  | nil => rfl
  | cons a as =>
    have ha := h a (harguments ▸ List.mem_cons_self ..)
    dsimp only
    rw [Site.configuration_alike hfile call expected ha]

theorem readEntry_alike (element action : String) (takesValues : Bool) :
    readEntry site b call element action takesValues =
      readEntry site' b' call element action takesValues := by
  unfold readEntry
  rw [Site.checkCount_file hfile]
  cases harguments : call.arguments with
  | nil => rfl
  | cons a as =>
    rw [harguments] at h
    obtain ⟨ha, has⟩ := List.forall_mem_cons.mp h
    dsimp only
    rw [Site.textArgument_alike hfile ha, entryValues_alike hfile has]

theorem onlyText_alike : onlyText site b call = onlyText site' b' call := by
  unfold onlyText
  rw [Site.checkCount_file hfile]
  cases harguments : call.arguments with
  | nil => rfl
  | cons a as =>
    have ha := h a (harguments ▸ List.mem_cons_self ..)
    dsimp only
    rw [Site.textArgument_alike hfile ha]

theorem Schema.read_alike (s : Schema) : s.read site b call = s.read site' b' call := by
  unfold Schema.read
  rw [Site.checkCount_file hfile]
  cases harguments : call.arguments with
  | nil => rfl
  | cons a as =>
    have ha := h a (harguments ▸ List.mem_cons_self ..)
    have htiers : s.form.readTiers site s.tiers = s.form.readTiers site' s.tiers :=
      funext fun config => Form.readTiers_file hfile s.form s.tiers config
    dsimp only
    rw [Site.configuration_alike hfile call s.type ha, htiers]

/-- What an operation adds depends on the values of its arguments and the file. -/
theorem Operation.run_alike (o : Operation) : o.run site b call = o.run site' b' call := by
  cases o with
  | bare element => rw [run, run, Site.checkCount_file hfile]
  | entry element action takesValues => rw [run, run, readEntry_alike hfile h]
  | text element => rw [run, run, onlyText_alike hfile h]
  | positional element needed names =>
    rw [run, run, readPositional, readPositional, Site.checkCount_file hfile,
      positionalAttributes_alike hfile names h]
  | markup => rw [run, run, onlyText_alike hfile h]
  | configured schema => rw [run, run, Schema.read_alike hfile h]
  | headerCheck =>
    have hread : readHeaderCheck site = readHeaderCheck site' :=
      Site.eq_of_file (f := readHeaderCheck) (fun _ => rfl) hfile
    rw [run, run, Site.onlyConfiguration_alike hfile h, hread]
  | addressFilter =>
    have hread : readAddressFilter site = readAddressFilter site' :=
      Site.eq_of_file (f := readAddressFilter) (fun _ => rfl) hfile
    rw [run, run, Site.onlyConfiguration_alike hfile h, hread]
  | response =>
    have hread : readResponse site = readResponse site' :=
      Site.eq_of_file (f := readResponse) (fun _ => rfl) hfile
    rw [run, run, Site.onlyConfiguration_alike hfile h, hread]

theorem BoundOperation.run_alike (name : String) (o : BoundOperation) :
    o.run site b call name = o.run site' b' call name := by
  have hread : ∀ f : Form, f.read site = f.read site' :=
    fun f => Site.eq_of_file (f := f.read) (fun _ => rfl) hfile
  cases o with
  | managedIdentity =>
    have hcheck : checkOutputName site = checkOutputName site' :=
      Site.eq_of_file (f := checkOutputName) (fun _ => rfl) hfile
    rw [run, run, Site.onlyConfiguration_alike hfile h, hcheck, hread]
  | cachedValue => rw [run, run, Site.onlyConfiguration_alike hfile h, hread]

end

/-! ## Open names -/

namespace Bindings

/-- The names among some that are not bound. -/
def unbound (b : Bindings) (names : List String) : List String :=
  names.filter fun n => (b.lookup? n).isNone

/-- Bindings made before do not count where every name is bound again, or was
    not bound before. -/
theorem agree_of_unbound {own before : Bindings} {names : List String}
    (h : ∀ n ∈ own.unbound names, before.lookup? n = none) : Agree names (own ++ before) own := by
  intro n hn
  rw [lookup?_append]
  cases hown : own.lookup? n with
  | some holder => rfl
  | none =>
    have hopen : n ∈ own.unbound names := List.mem_filter.mpr ⟨hn, by rw [hown]; rfl⟩
    rw [h n hopen]
    rfl

end Bindings

mutual

/-- The names that a statement looks up where neither `b` nor the statement itself
    has bound them. -/
def openNames (site : Site) (kinds : List StatementKind) (b : Bindings) : Stmt → List String
  | .expression (.call _ _ arguments _) _ => b.unbound (namesInArguments arguments)
  | .declaration _ _ (some (.call _ _ arguments _)) _ => b.unbound (namesInArguments arguments)
  | .block statements _ => openNamesInAll site kinds b statements
  | .conditional condition thenBranch elseBranch _ =>
    openNames site kinds b thenBranch ++
      openNamesInElse site kinds ((emitWhen site kinds b condition thenBranch).bindings ++ b)
        elseBranch
  | _ => []

/-- The names that a branch leaves open, if it is there. -/
def openNamesInElse (site : Site) (kinds : List StatementKind) (b : Bindings) :
    Option Stmt → List String
  | none => []
  | some s => openNames site kinds b s

/-- The names that some statements leave open. -/
def openNamesInAll (site : Site) (kinds : List StatementKind) (b : Bindings) :
    List Stmt → List String
  | [] => []
  | s :: ss =>
    openNames site kinds b s ++
      openNamesInAll site kinds ((emit site kinds b s).bindings ++ b) ss

end

theorem openNames_expression (site : Site) (kinds : List StatementKind) (b : Bindings) (e : Expr)
    (span : Span) : openNames site kinds b (.expression e span) = b.unbound e.argumentNames := by
  cases e <;> rfl

theorem openNames_declaration (site : Site) (kinds : List StatementKind) (b : Bindings)
    (type name : String) (initializer : Option Expr) (span : Span) :
    openNames site kinds b (.declaration type name initializer span) =
      b.unbound (initializer.elim [] Expr.argumentNames) := by
  cases initializer with
  | none => rfl
  | some e => cases e <;> rfl

/-! ## Statements -/

section

variable {site site' : Site} {kinds : List StatementKind} {before b b' : Bindings}

theorem operationName?_alike (hs : site.Alike site') (target : Expr) :
    operationName? site target = operationName? site' target := by
  unfold operationName?
  rw [hs.receiver]

theorem Site.Alike.diagnostic (hs : site.Alike site') : site.diagnostic = site'.diagnostic :=
  Site.eq_of_file (f := fun s => s.diagnostic) (fun _ => rfl) hs.file

theorem emitNoOperation_alike (hs : site.Alike site') (target : Expr) (span : Span) :
    emitNoOperation site target span = emitNoOperation site' target span :=
  Site.eq_of_file (f := fun s => emitNoOperation s target span) (fun _ => rfl) hs.file

theorem emitNoCall_alike (hs : site.Alike site') (e : Expr) :
    emitNoCall site e = emitNoCall site' e :=
  Site.eq_of_file (f := fun s => emitNoCall s e) (fun _ => rfl) hs.file

theorem emitBranchBody_alike (hs : site.Alike site') (s : Stmt) :
    emitBranchBody site s = emitBranchBody site' s :=
  Site.eq_of_file (f := fun x => emitBranchBody x s) (fun _ => rfl) hs.file

theorem emitUnsupported_alike (hs : site.Alike site') (s : Stmt) :
    emitUnsupported site s = emitUnsupported site' s :=
  Site.eq_of_file (f := fun x => emitUnsupported x s) (fun _ => rfl) hs.file

theorem emitExpression_alike (hs : site.Alike site') {e : Expr}
    (h : Bindings.Agree e.argumentNames b b') :
    emitExpression site b e = emitExpression site' b' e := by
  cases e with
  | call target types arguments callSpan =>
    have hvalues := extract_argument_alike hs h
    rw [emitExpression, emitExpression, operationName?_alike hs, emitNoOperation_alike hs]
    split
    · rfl
    · split
      · rfl
      · rw [Operation.run_alike hs.file hvalues]
  | _ => exact emitNoCall_alike hs _

theorem emitDeclaration_alike (hs : site.Alike site') (name : String) (span : Span)
    {initializer : Option Expr}
    (h : Bindings.Agree (initializer.elim [] Expr.argumentNames) b b') :
    emitDeclaration site b name span initializer =
      emitDeclaration site' b' name span initializer := by
  cases initializer with
  | none => rw [emitDeclaration, emitDeclaration, hs.diagnostic]
  | some e =>
    cases e with
    | call target types arguments callSpan =>
      have hvalues := extract_argument_alike hs h
      rw [emitDeclaration, emitDeclaration, operationName?_alike hs, emitNoOperation_alike hs]
      split
      · rfl
      · split
        · rfl
        · rw [BoundOperation.run_alike hs.file hvalues]
    | _ => exact emitNoCall_alike hs _

mutual

/-- What a statement emits depends on the names that it leaves open, not on other
    bindings made before it. -/
theorem emit_alike (hs : site.Alike site') {own : Bindings} {s : Stmt}
    (h : ∀ n ∈ openNames site' kinds own s, before.lookup? n = none) :
    emit site kinds (own ++ before) s = emit site' kinds own s := by
  cases s with
  | malformed fault span => rw [emit, emit, hs.diagnostic]
  | other which span =>
    rw [emit, emit]
    exact emitUnsupported_alike hs _
  | expression e span =>
    rw [openNames_expression] at h
    rw [emit, emit, emitExpression_alike hs (Bindings.agree_of_unbound h),
      emitUnsupported_alike hs]
  | declaration type name initializer span =>
    rw [openNames_declaration] at h
    rw [emit, emit, emitDeclaration_alike hs name span (Bindings.agree_of_unbound h),
      emitUnsupported_alike hs]
  | block statements span =>
    rw [openNames] at h
    rw [emit, emit, emitAll_alike hs h, emitUnsupported_alike hs]
  | conditional condition thenBranch elseBranch span =>
    rw [openNames, List.forall_mem_append] at h
    rw [emit, emit, emitWhen_alike hs h.1, emitUnsupported_alike hs]
    dsimp only
    rw [← List.append_assoc, emitElse_alike hs h.2]

theorem emitWhen_alike (hs : site.Alike site') {own : Bindings} {condition : Expr} {s : Stmt}
    (h : ∀ n ∈ openNames site' kinds own s, before.lookup? n = none) :
    emitWhen site kinds (own ++ before) condition s = emitWhen site' kinds own condition s := by
  cases s with
  | block statements span =>
    rw [openNames] at h
    cases condition with
    | call target types arguments callSpan =>
      -- The value of a call is code, for which no name is looked up.
      have hcondition : extract site (own ++ before) (.call target types arguments callSpan) =
          extract site' own (.call target types arguments callSpan) :=
        extract_alike hs fun n hn => absurd hn List.not_mem_nil
      rw [emitWhen, emitWhen, hcondition, emitAll_alike hs h]
    | _ => exact emitNoCall_alike hs _
  | _ => exact emitBranchBody_alike hs _

theorem emitElse_alike (hs : site.Alike site') {own : Bindings} {s : Option Stmt}
    (h : ∀ n ∈ openNamesInElse site' kinds own s, before.lookup? n = none) :
    emitElse site kinds (own ++ before) s = emitElse site' kinds own s := by
  cases s with
  | none => rw [emitElse, emitElse]
  | some s =>
    rw [openNamesInElse] at h
    cases s with
    | conditional condition thenBranch elseBranch span =>
      rw [openNames, List.forall_mem_append] at h
      rw [emitElse, emitElse, emitWhen_alike hs h.1, ← List.append_assoc, emitElse_alike hs h.2]
    | block statements span =>
      rw [openNames] at h
      rw [emitElse, emitElse, emitAll_alike hs h]
    | _ => exact emitBranchBody_alike hs _

theorem emitAll_alike (hs : site.Alike site') {own : Bindings} {ss : List Stmt}
    (h : ∀ n ∈ openNamesInAll site' kinds own ss, before.lookup? n = none) :
    emitAll site kinds (own ++ before) ss = emitAll site' kinds own ss := by
  cases ss with
  | nil => rw [emitAll, emitAll]
  | cons s ss =>
    rw [openNamesInAll, List.forall_mem_append] at h
    rw [emitAll, emitAll, emit_alike hs h.1, ← List.append_assoc, emitAll_alike hs h.2]

end

end

end GatewayPolicy
