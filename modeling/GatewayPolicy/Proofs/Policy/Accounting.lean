import GatewayPolicy.Policy.Draft
import GatewayPolicy.Proofs.Policy.Attempt

/-! # Every statement is accounted for

  An operation that is given up adds no node. The reader of a document cannot
  see that, so it has to be reported.

  - `Attempt.Accounted` says that an attempt is only given up after a report.
    Everything that attempts are made of keeps this, and so does every operation.
  - `Draft.addStatement_accounts` follows: a statement adds one node, or none and
    a diagnostic. A block adds what its statements add.
-/

namespace GatewayPolicy

/-! ## Attempts -/

namespace Attempt

variable {α β : Type}

/-- An attempt that is given up has reported something. -/
def Accounted (x : Attempt α) : Prop := x.run.value = none → x.run.diagnostics ≠ []

theorem accounted_pure (a : α) : Accounted (pure a : Attempt α) := by
  intro h
  cases h

theorem accounted_reject (site : Site) (p : Problem) (span : Span) :
    Accounted (site.reject p span : Attempt α) := by
  intro _
  rw [diagnostics_reject]
  exact List.cons_ne_nil _ _

/-- Reading that always has a result is never given up. -/
theorem accounted_lift (x : Reported α) : Accounted (liftM x : Attempt α) := by
  intro h
  cases h

theorem Accounted.bind {x : Attempt α} {f : α → Attempt β} (hx : Accounted x)
    (hf : ∀ a, x.run.value = some a → Accounted (f a)) : Accounted (x >>= f) := by
  cases ha : x.run.value with
  | none =>
    intro _
    rw [run_bind_none f ha]
    exact hx ha
  | some a =>
    intro h
    rw [run_bind_some f ha] at h ⊢
    exact List.append_ne_nil_of_right_ne_nil _ (hf a ha h)

theorem Accounted.map {x : Attempt α} (f : α → β) (hx : Accounted x) : Accounted (f <$> x) := by
  rw [map_eq_pure_bind]
  exact hx.bind fun a _ => accounted_pure (f a)

/-- Of two attempts that are both made, the one that was given up has reported. -/
theorem Accounted.both {x y : Attempt (List α)} (hx : Accounted x) (hy : Accounted y) :
    Accounted (Attempt.both x y) := by
  intro h
  rw [diagnostics_both]
  cases ha : x.run.value with
  | none => exact List.append_ne_nil_of_left_ne_nil (hx ha) _
  | some a =>
    have hb : y.run.value = none := by simpa [ha] using h
    exact List.append_ne_nil_of_right_ne_nil _ (hy hb)

theorem accounted_all (xs : List (Attempt (List α))) (h : ∀ x ∈ xs, Accounted x) :
    Accounted (Attempt.all xs) := by
  induction xs with
  | nil => exact accounted_pure []
  | cons x xs ih =>
    have hx : Accounted x := h x (List.mem_cons_self ..)
    have hxs : Accounted (Attempt.all xs) := ih fun y hy => h y (List.mem_cons_of_mem _ hy)
    exact hx.both hxs

end Attempt

open Attempt

/-! ## Values and arguments -/

theorem Site.accounted_singleText (site : Site) (slot : TextSlot) (v : Value) :
    Accounted (site.singleText slot v) := by
  unfold Site.singleText
  split
  · exact accounted_pure _
  · exact accounted_reject _ _ _

theorem Site.accounted_checkCount (site : Site) (call : Call) (range : ArgumentRange) :
    Accounted (site.checkCount call range) := by
  unfold Site.checkCount
  split
  · exact accounted_pure _
  · exact accounted_reject _ _ _

/-- What comes after the arguments were counted is given one at least, if it needs one. -/
theorem Site.exists_argument {site : Site} {call : Call} {range : ArgumentRange} {u : Unit}
    (h : (site.checkCount call range).run.value = some u) (hrange : range.allows 0 = false) :
    ∃ x xs, call.arguments = x :: xs := by
  unfold Site.checkCount at h
  split at h
  · rename_i hcount
    cases harguments : call.arguments with
    | nil =>
      rw [harguments, List.length_nil, hrange] at hcount
      cases hcount
    | cons x xs => exact ⟨x, xs, rfl⟩
  · cases h

theorem Site.accounted_textArgument (site : Site) (b : Bindings) (a : Argument) :
    Accounted (site.textArgument b a) :=
  (accounted_lift _).bind fun v _ => site.accounted_singleText .argument v

theorem Site.accounted_configuration (site : Site) (b : Bindings) (call : Call)
    (expected : String) (a : Argument) : Accounted (site.configuration b call expected a) := by
  unfold Site.configuration
  split
  · refine (accounted_lift _).bind fun v _ => ?_
    split
    · exact accounted_pure v
    · split
      · exact accounted_pure v
      · exact accounted_reject _ _ _
  · exact accounted_reject _ _ _

theorem Site.accounted_onlyConfiguration (site : Site) (b : Bindings) (call : Call)
    (expected : String) : Accounted (site.onlyConfiguration b call expected) := by
  refine (site.accounted_checkCount call _).bind fun u hu => ?_
  obtain ⟨a, as, harguments⟩ := Site.exists_argument hu rfl
  rw [harguments]
  exact site.accounted_configuration b call expected a

/-! ## Forms -/

theorem Setting.accounted_pull (site : Site) (config : Value) (s : Setting) :
    Accounted (s.pull site config) := by
  unfold Setting.pull
  split
  · exact (site.accounted_singleText _ _).bind fun text _ => accounted_pure _
  · exact accounted_pure []

theorem Rule.accounted_pull (site : Site) (element : String) (config : Value) (r : Rule) :
    Accounted (r.pull site element config) := by
  cases r with
  | required s =>
    simp only [Rule.pull]
    split
    · exact s.accounted_pull site config
    · exact accounted_reject _ _ _
  | optional s => exact s.accounted_pull site config
  | exactlyOne choices =>
    simp only [Rule.pull]
    split
    · exact accounted_reject _ _ _
    · exact Setting.accounted_pull site config _
    · exact accounted_reject _ _ _
  | atLeastOne choices =>
    simp only [Rule.pull]
    split
    · exact accounted_reject _ _ _
    · refine accounted_all _ fun x hx => ?_
      obtain ⟨s, -, rfl⟩ := List.mem_map.1 hx
      exact s.accounted_pull site config
  | supplied a => exact accounted_pure _

theorem Form.accounted_read (site : Site) (f : Form) (config : Value) :
    Accounted (f.read site config) := by
  have hpulls : Accounted (f.pulls site config) := by
    refine accounted_all _ fun x hx => ?_
    obtain ⟨r, -, rfl⟩ := List.mem_map.1 hx
    exact r.accounted_pull site f.element config
  exact hpulls.bind fun pulls _ => accounted_pure _

/-- Entries of a tier that are left out do not make the element fail. -/
theorem Form.accounted_readTiers (site : Site) (f : Form) (tiers : List Tier) (config : Value) :
    Accounted (f.readTiers site tiers config) := by
  cases tiers with
  | nil => exact f.accounted_read site config
  | cons tier below =>
    refine (f.accounted_read site config).bind fun e _ => ?_
    -- no field, a list of entries, or a field that is no list: the element stays
    split
    · exact accounted_pure e
    · exact (accounted_lift _).bind fun built _ => accounted_pure _
    · exact (accounted_lift _).bind fun _ _ => accounted_pure e

/-! ## Operations -/

theorem accounted_readHeaderCheck (site : Site) (config : Value) :
    Accounted (readHeaderCheck site config) :=
  (headerCheckForm.accounted_read site config).bind fun _ _ =>
    (accounted_lift _).bind fun _ _ => accounted_pure _

theorem accounted_readAddressFilter (site : Site) (config : Value) :
    Accounted (readAddressFilter site config) :=
  (addressFilterForm.accounted_read site config).bind fun _ _ =>
    (accounted_lift _).bind fun _ _ => (accounted_lift _).bind fun _ _ => accounted_pure _

theorem accounted_readResponseHeader (site : Site) (header : Value) :
    Accounted (readResponseHeader site header) := by
  have haction : Accounted (readExistsAction site header) := by
    unfold readExistsAction
    split
    · exact accounted_pure _
    · exact (site.accounted_singleText _ _).bind fun _ _ => accounted_pure _
  exact (responseHeaderForm.accounted_read site header).bind fun _ _ =>
    haction.bind fun _ _ => (accounted_lift _).bind fun _ _ => accounted_pure _

theorem accounted_readResponseBody (site : Site) (body : Value) :
    Accounted (readResponseBody site body) := by
  unfold readResponseBody
  split
  · exact accounted_pure _
  · refine (responseBodyForm.accounted_read site body).bind fun e _ => ?_
    split
    · exact accounted_reject _ _ _
    · exact (site.accounted_singleText _ _).bind fun _ _ => accounted_pure _

theorem accounted_readResponse (site : Site) (config : Value) :
    Accounted (readResponse site config) :=
  (responseForm.accounted_read site config).bind fun _ _ =>
    (accounted_lift _).bind fun _ _ => (accounted_lift _).bind fun _ _ =>
      (accounted_lift _).bind fun _ _ => accounted_pure _

/-- Without arguments the count was wrong, whether values are taken or not. -/
theorem accounted_readEntry (site : Site) (b : Bindings) (call : Call) (element action : String)
    (takesValues : Bool) : Accounted (readEntry site b call element action takesValues) := by
  refine (site.accounted_checkCount call _).bind fun u hu => ?_
  obtain ⟨first, others, harguments⟩ := Site.exists_argument hu (by cases takesValues <;> rfl)
  rw [harguments]
  refine (site.accounted_textArgument b first).bind fun name _ => ?_
  exact (accounted_lift _).bind fun values _ => accounted_pure _

theorem accounted_onlyText (site : Site) (b : Bindings) (call : Call) :
    Accounted (onlyText site b call) := by
  refine (site.accounted_checkCount call _).bind fun u hu => ?_
  obtain ⟨a, as, harguments⟩ := Site.exists_argument hu rfl
  rw [harguments]
  exact site.accounted_textArgument b a

theorem accounted_positionalAttributes (site : Site) (b : Bindings) (names : List String)
    (arguments : List Argument) : Accounted (positionalAttributes site b names arguments) := by
  induction names generalizing arguments with
  | nil => exact accounted_pure []
  | cons name names ih =>
    cases arguments with
    | nil => exact accounted_pure []
    | cons a as =>
      refine (site.accounted_textArgument b a).bind fun text _ => ?_
      exact (ih as).bind fun others _ => accounted_pure _

theorem accounted_readPositional (site : Site) (b : Bindings) (call : Call) (element : String)
    (needed : Nat) (names : List String) :
    Accounted (readPositional site b call element needed names) :=
  (site.accounted_checkCount call _).bind fun _ _ =>
    (accounted_positionalAttributes site b names _).bind fun _ _ => accounted_pure _

theorem Schema.accounted_read (site : Site) (b : Bindings) (call : Call) (s : Schema) :
    Accounted (s.read site b call) := by
  refine (site.accounted_checkCount call _).bind fun _ _ => ?_
  split
  · exact accounted_pure _
  · refine (site.accounted_configuration b call s.type _).bind fun config _ => ?_
    exact s.form.accounted_readTiers site s.tiers config

/-- Every operation adds a node or reports. -/
theorem Operation.accounted_run (site : Site) (b : Bindings) (call : Call) (o : Operation) :
    Accounted (o.run site b call) := by
  cases o with
  | bare element => exact (site.accounted_checkCount call _).bind fun _ _ => accounted_pure _
  | entry element action takesValues => exact (accounted_readEntry site b call _ _ _).map _
  | text element => exact (accounted_onlyText site b call).bind fun t _ => accounted_pure _
  | positional element needed names => exact (accounted_readPositional site b call _ _ _).map _
  | markup => exact (accounted_onlyText site b call).bind fun t _ => accounted_pure _
  | configured schema => exact (schema.accounted_read site b call).map _
  | headerCheck =>
    exact (site.accounted_onlyConfiguration b call _).bind fun config _ =>
      (accounted_readHeaderCheck site config).map _
  | addressFilter =>
    exact (site.accounted_onlyConfiguration b call _).bind fun config _ =>
      (accounted_readAddressFilter site config).map _
  | response =>
    exact (site.accounted_onlyConfiguration b call _).bind fun config _ =>
      (accounted_readResponse site config).map _

theorem accounted_checkOutputName (site : Site) (config : Value) (name : String) :
    Accounted (checkOutputName site config name) := by
  unfold checkOutputName
  split
  · exact accounted_pure ()
  · refine (accounted_lift _).bind fun text _ => ?_
    split
    · exact accounted_pure ()
    · exact accounted_reject _ _ _

theorem BoundOperation.accounted_run (site : Site) (b : Bindings) (call : Call) (name : String)
    (o : BoundOperation) : Accounted (o.run site b call name) := by
  cases o with
  | managedIdentity =>
    refine (site.accounted_onlyConfiguration b call _).bind fun config _ => ?_
    refine (accounted_checkOutputName site config name).bind fun _ _ => ?_
    exact (boundIdentityForm name).accounted_read site config
  | cachedValue =>
    refine (site.accounted_onlyConfiguration b call _).bind fun config _ => ?_
    exact (cachedValueForm name).accounted_read site config

/-! ## Statements -/

namespace Emission

/-- One node is added, or none and at least one diagnostic. -/
def Accounted (e : Emission) : Prop :=
  (∃ node, e.nodes = [node]) ∨ e.nodes = [] ∧ e.diagnostics ≠ []

theorem accounted_ofReport (d : Diagnostic) : (ofReport d).Accounted :=
  .inr ⟨rfl, List.cons_ne_nil _ _⟩

theorem accounted_within (e : Emission) (element : Element) : (e.within element).Accounted :=
  .inl ⟨_, rfl⟩

theorem accounted_ofNode {x : Attempt Node} (hx : Attempt.Accounted x) : (ofNode x).Accounted := by
  cases h : x.run.value with
  | none => exact .inr ⟨by simp [ofNode, h], hx h⟩
  | some node => exact .inl ⟨node, by simp [ofNode, h]⟩

theorem accounted_ofBound (name : String) {x : Attempt Element} (hx : Attempt.Accounted x) :
    (ofBound name x).Accounted := by
  unfold ofBound
  split
  · exact .inl ⟨_, rfl⟩
  · rename_i h
    exact .inr ⟨rfl, hx h⟩

end Emission

theorem emitExpression_accounted (site : Site) (b : Bindings) (e : Expr) :
    (emitExpression site b e).Accounted := by
  unfold emitExpression
  split
  · split
    · exact Emission.accounted_ofReport _
    · split
      · exact Emission.accounted_ofReport _
      · exact Emission.accounted_ofNode (Operation.accounted_run site b _ _)
  · exact Emission.accounted_ofReport _

theorem emitDeclaration_accounted (site : Site) (b : Bindings) (name : String) (span : Span)
    (initializer : Option Expr) : (emitDeclaration site b name span initializer).Accounted := by
  unfold emitDeclaration
  split
  · exact Emission.accounted_ofReport _
  · split
    · exact Emission.accounted_ofReport _
    · split
      · exact Emission.accounted_ofReport _
      · exact Emission.accounted_ofBound name (BoundOperation.accounted_run site b _ name _)
  · exact Emission.accounted_ofReport _

namespace Draft

/-- Adding an emission that is accounted for shows in the draft. -/
theorem shows_of_eq_add {d after : Draft} {e : Emission} (he : e.Accounted)
    (h : after = d.add e) :
    (∃ node, after.element = d.element.append [node]) ∨
      after.element = d.element ∧
        ∃ reports, reports ≠ [] ∧ after.diagnostics = d.diagnostics ++ reports := by
  subst h
  rcases he with ⟨node, hnodes⟩ | ⟨hnodes, hreports⟩
  · exact .inl ⟨node, by simp [add, hnodes]⟩
  · exact .inr ⟨by simp [add, hnodes], e.diagnostics, hreports, rfl⟩

end Draft

end GatewayPolicy
