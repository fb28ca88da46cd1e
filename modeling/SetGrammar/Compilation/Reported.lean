import SetGrammar.Diagnostic

/-!
# Results with diagnostics

A result together with the findings reported on the way to it, in order.
-/
namespace SetGrammar

/-- A result and what was reported while it was computed. -/
structure Reported (α : Type) where
  value : α
  diagnostics : List Diagnostic

namespace Reported

instance : Monad Reported where
  pure value := ⟨value, []⟩
  bind first next :=
    let second := next first.value
    ⟨second.value, first.diagnostics ++ second.diagnostics⟩

/-- Reports findings. -/
def report (found : List Diagnostic) : Reported Unit := ⟨(), found⟩

@[simp] theorem value_pure {α : Type} (a : α) : (pure a : Reported α).value = a := rfl

@[simp] theorem diagnostics_pure {α : Type} (a : α) : (pure a : Reported α).diagnostics = [] := rfl

@[simp] theorem value_bind {α β : Type} (x : Reported α) (f : α → Reported β) :
    (x >>= f).value = (f x.value).value := rfl

@[simp] theorem diagnostics_bind {α β : Type} (x : Reported α) (f : α → Reported β) :
    (x >>= f).diagnostics = x.diagnostics ++ (f x.value).diagnostics := rfl

@[simp] theorem diagnostics_report (found : List Diagnostic) :
    (report found).diagnostics = found := rfl

end Reported

end SetGrammar
