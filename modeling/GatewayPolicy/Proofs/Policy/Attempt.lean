import GatewayPolicy.Policy.Rule

/-! # What attempts give and report

  The result and the diagnostics of each way to make an attempt. An attempt that
  follows another reports what the other reports, and then, if the other was not
  given up, what it reports itself.
-/

namespace GatewayPolicy

namespace Attempt

variable {α β : Type}

@[simp] theorem value_pure (a : α) : (pure a : Attempt α).run.value = some a := rfl

@[simp] theorem diagnostics_pure (a : α) : (pure a : Attempt α).run.diagnostics = [] := rfl

@[simp] theorem value_lift (x : Reported α) : (liftM x : Attempt α).run.value = some x.value := rfl

@[simp] theorem diagnostics_lift (x : Reported α) :
    (liftM x : Attempt α).run.diagnostics = x.diagnostics :=
  List.append_nil _

@[simp] theorem diagnostics_reject (site : Site) (p : Problem) (span : Span) :
    (site.reject p span : Attempt α).run.diagnostics = [site.diagnostic p span] := rfl

theorem run_bind_none {x : Attempt α} (f : α → Attempt β) (h : x.run.value = none) :
    (x >>= f).run = { value := none, diagnostics := x.run.diagnostics } := by
  rw [OptionT.run_bind, Option.elimM]
  show Reported.mk _ _ = _
  rw [h]
  simp

theorem run_bind_some {x : Attempt α} (f : α → Attempt β) {a : α} (h : x.run.value = some a) :
    (x >>= f).run =
      { value := (f a).run.value, diagnostics := x.run.diagnostics ++ (f a).run.diagnostics } := by
  rw [OptionT.run_bind, Option.elimM]
  show Reported.mk _ _ = _
  rw [h]
  rfl

theorem run_lift_bind (x : Reported α) (f : α → Attempt β) :
    ((liftM x : Attempt α) >>= f).run =
      { value := (f x.value).run.value
        diagnostics := x.diagnostics ++ (f x.value).run.diagnostics } := by
  rw [run_bind_some f (value_lift x), diagnostics_lift]

theorem run_lift_map (x : Reported α) (g : α → β) :
    ((liftM x : Attempt α) >>= fun a => pure (g a)).run =
      { value := some (g x.value), diagnostics := x.diagnostics } := by
  rw [run_lift_bind, diagnostics_pure, List.append_nil]
  rfl

@[simp] theorem value_map (f : α → β) (x : Attempt α) :
    (f <$> x).run.value = x.run.value.map f := by
  rw [map_eq_pure_bind]
  cases h : x.run.value with
  | none => rw [run_bind_none _ h, Option.map_none]
  | some a => rw [run_bind_some _ h]; rfl

@[simp] theorem diagnostics_map (f : α → β) (x : Attempt α) :
    (f <$> x).run.diagnostics = x.run.diagnostics := by
  rw [map_eq_pure_bind]
  cases h : x.run.value with
  | none => rw [run_bind_none _ h]
  | some a => rw [run_bind_some _ h]; exact List.append_nil _

@[simp] theorem value_both (x y : Attempt (List α)) :
    (Attempt.both x y).run.value =
      x.run.value.bind fun a => y.run.value.map fun b => a ++ b := by
  obtain ⟨u, ds⟩ := x
  obtain ⟨v, es⟩ := y
  cases u with
  | none => rfl
  | some a => cases v <;> rfl

@[simp] theorem diagnostics_both (x y : Attempt (List α)) :
    (Attempt.both x y).run.diagnostics = x.run.diagnostics ++ y.run.diagnostics := by
  show x.run.diagnostics ++ (y.run.diagnostics ++ []) = _
  rw [List.append_nil]

end Attempt

end GatewayPolicy
