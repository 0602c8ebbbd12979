import GradualScript.Error.Basic
import GradualScript.Proofs.Run

/-!
# Two runs side by side

A computation may be run twice: from two states that differ in what it should not look at, or with two numbers of
steps. Facts about one run are those about it beside itself.

* `Alike` : two results with one value and related states, or with one failure and related states;
* `Alike.bind`, `Alike.ite` : one computation after another, and one of two computations;
* `Failure.Plain` : an error of the program, as opposed to a broken invariant.
-/

set_option autoImplicit false

namespace GradualScript

variable {ε σ α β : Type}

/-- Both runs succeed with one value, which has the property `V`, in states that are related by `R`; or both fail
with one failure, which has the property `F`, in states that are related by `E`. -/
inductive Alike (F : ε → Prop) (E R : σ → σ → Prop) (V : α → Prop) :
    EStateM.Result ε σ α → EStateM.Result ε σ α → Prop where
  | ok {a : α} {s t : σ} : V a → R s t → Alike F E R V (.ok a s) (.ok a t)
  | error {failure : ε} {s t : σ} : F failure → E s t → Alike F E R V (.error failure s) (.error failure t)

namespace Alike

variable {F F' : ε → Prop} {E E' R R' : σ → σ → Prop} {V V' : α → Prop} {W : β → Prop}

theorem imp {result other : EStateM.Result ε σ α} (h : Alike F E R V result other)
    (hF : ∀ failure, F failure → F' failure) (hE : ∀ s t, E s t → E' s t) (hR : ∀ s t, R s t → R' s t)
    (hV : ∀ a, V a → V' a) : Alike F' E' R' V' result other := by
  cases h with
  | ok hv hr => exact .ok (hV _ hv) (hR _ _ hr)
  | error hf he => exact .error (hF _ hf) (hE _ _ he)

/-- One computation after another, where the second may build on how the first one ran. -/
theorem bindRun {m m' : EStateM ε σ α} {f f' : α → EStateM ε σ β} {s t : σ} (h : Alike F E R V (m s) (m' t))
    (hf : ∀ a s' t', m s = .ok a s' → V a → R s' t' → Alike F E R' W (f a s') (f' a t')) :
    Alike F E R' W ((m >>= f) s) ((m' >>= f') t) := by
  generalize hm : m s = result, hm' : m' t = other at h
  cases h with
  | ok hv hr =>
    rw [bind_of_ok hm, bind_of_ok hm']
    exact hf _ _ _ hm hv hr
  | error hfailure he =>
    rw [bind_of_error hm, bind_of_error hm']
    exact .error hfailure he

theorem bind {m m' : EStateM ε σ α} {f f' : α → EStateM ε σ β} {s t : σ} (h : Alike F E R V (m s) (m' t))
    (hf : ∀ a s' t', V a → R s' t' → Alike F E R' W (f a s') (f' a t')) :
    Alike F E R' W ((m >>= f) s) ((m' >>= f') t) :=
  h.bindRun fun a s' t' _ => hf a s' t'

/-- Both runs take the same branch. -/
theorem ite {c : Prop} [Decidable c] {m m' n n' : EStateM ε σ α} {s t : σ} (hpos : c → Alike F E R V (m s) (m' t))
    (hneg : ¬c → Alike F E R V (n s) (n' t)) :
    Alike F E R V ((if c then m else n) s) ((if c then m' else n') t) := by
  by_cases hc : c
  · rw [if_pos hc, if_pos hc]
    exact hpos hc
  · rw [if_neg hc, if_neg hc]
    exact hneg hc

/-- Runs that are alike from one state, and end in one state, are the same. -/
theorem eq {result other : EStateM.Result ε σ α} (h : Alike F E R V result other) (hE : ∀ s t, E s t → t = s)
    (hR : ∀ s t, R s t → t = s) : other = result := by
  cases h with
  | ok _ hr => rw [hR _ _ hr]
  | error _ he => rw [hE _ _ he]

end Alike

/-- The failure is an error of the program. -/
def Failure.Plain (failure : Failure) : Prop :=
  ∃ error, failure = .error error

end GradualScript
