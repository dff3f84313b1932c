import GatewayPolicy.Diagnostic

/-! # Results with diagnostics

  Reading policy code always gives a result. What is wrong with the code is
  reported on the way, in the order in which it is found.

  `Reported` is a result with the diagnostics it took. It is a monad: one after
  the other, the diagnostics are appended.
-/

namespace GatewayPolicy

/-- A result and what was reported on the way to it. -/
structure Reported (α : Type) where
  value : α
  diagnostics : List Diagnostic := []

namespace Reported

variable {α β : Type}

instance : Monad Reported where
  pure a := { value := a }
  bind x f :=
    let y := f x.value
    { value := y.value, diagnostics := x.diagnostics ++ y.diagnostics }

/-- Reports one diagnostic. -/
def report (d : Diagnostic) : Reported Unit := { value := (), diagnostics := [d] }

/-- The results for all members of a list, in order. -/
def collect (f : α → Reported β) : List α → Reported (List β)
  | [] => pure []
  | a :: as => do
    let b ← f a
    let bs ← collect f as
    return b :: bs

@[simp] theorem value_pure (a : α) : (pure a : Reported α).value = a := rfl

@[simp] theorem diagnostics_pure (a : α) : (pure a : Reported α).diagnostics = [] := rfl

@[simp] theorem value_bind (x : Reported α) (f : α → Reported β) :
    (x >>= f).value = (f x.value).value := rfl

@[simp] theorem diagnostics_bind (x : Reported α) (f : α → Reported β) :
    (x >>= f).diagnostics = x.diagnostics ++ (f x.value).diagnostics := rfl

@[simp] theorem value_map (f : α → β) (x : Reported α) : (f <$> x).value = f x.value := rfl

@[simp] theorem diagnostics_map (f : α → β) (x : Reported α) :
    (f <$> x).diagnostics = x.diagnostics := List.append_nil _

instance : LawfulMonad Reported := LawfulMonad.mk' Reported
  (fun x => by
    show (⟨x.value, x.diagnostics ++ []⟩ : Reported _) = x
    simp)
  (fun a f => by
    show (⟨(f a).value, [] ++ (f a).diagnostics⟩ : Reported _) = f a
    simp)
  (fun x f g => by
    show (⟨_, (x.diagnostics ++ (f x.value).diagnostics) ++ _⟩ : Reported _) = ⟨_, _ ++ (_ ++ _)⟩
    simp)

end Reported

end GatewayPolicy
