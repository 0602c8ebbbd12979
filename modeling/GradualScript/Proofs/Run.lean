/-!
# Runs of computations

A computation with a state and failures is a function from the state to a result, which holds the state at the end.

* `bind_of_ok`, `bind_of_error`, `bind_eq_ok` : one computation after another;
* `endState` : the state at the end, of a success or a failure;
* `Keeps` : a computation ends in a state related to the one it started in; `Keeps.bind` puts such computations
  together, for a relation that is `Lasting`;
* `Meets` : a computation keeps a property of states, and what it succeeds or fails with has a property too
  (`Meets.bind`); `exists_throw_after` is about what is done after a failure.
-/

set_option autoImplicit false

namespace GradualScript

variable {ε σ α β : Type}

theorem bind_of_ok {m : EStateM ε σ α} {f : α → EStateM ε σ β} {s t : σ} {a : α} (h : m s = .ok a t) :
    (m >>= f) s = f a t := by
  change EStateM.bind m f s = f a t
  rw [EStateM.bind, h]

theorem bind_of_error {m : EStateM ε σ α} {f : α → EStateM ε σ β} {s t : σ} {failure : ε}
    (h : m s = .error failure t) : (m >>= f) s = .error failure t := by
  change EStateM.bind m f s = _
  rw [EStateM.bind, h]

/-- A computation that looks at the state first. -/
theorem bind_get {f : σ → EStateM ε σ β} (s : σ) : (MonadState.get >>= f) s = f s s :=
  rfl

/-- Two computations in a row succeed if the first does and the second does from where that ended. -/
theorem bind_eq_ok {m : EStateM ε σ α} {f : α → EStateM ε σ β} {s u : σ} {b : β} :
    (m >>= f) s = .ok b u ↔ ∃ a t, m s = .ok a t ∧ f a t = .ok b u := by
  cases h : m s with
  | ok a t =>
    rw [bind_of_ok h]
    constructor
    · exact fun hb => ⟨a, t, rfl, hb⟩
    · rintro ⟨a', t', heq, hb⟩
      cases heq
      exact hb
  | error failure t =>
    rw [bind_of_error h]
    constructor
    · intro hb
      cases hb
    · rintro ⟨a', t', heq, hb⟩
      cases heq

/-- The state at the end. -/
def endState : EStateM.Result ε σ α → σ
  | .ok _ s => s
  | .error _ s => s

/-- The computation ends in a state that `R` relates to the one it started in, whether it succeeds or fails. -/
def Keeps (R : σ → σ → Prop) (m : EStateM ε σ α) : Prop :=
  ∀ s, R s (endState (m s))

/-- A relation that holds over several steps if it holds over each of them. -/
class Lasting (R : σ → σ → Prop) : Prop where
  refl : ∀ s, R s s
  trans : ∀ {s t u}, R s t → R t u → R s u

namespace Keeps

variable {R : σ → σ → Prop}

theorem ok {m : EStateM ε σ α} (h : Keeps R m) {s t : σ} {a : α} (hm : m s = .ok a t) : R s t := by
  have hs := h s
  rw [hm] at hs
  exact hs

theorem error {m : EStateM ε σ α} (h : Keeps R m) {s t : σ} {failure : ε} (hm : m s = .error failure t) :
    R s t := by
  have hs := h s
  rw [hm] at hs
  exact hs

theorem mono {S : σ → σ → Prop} {m : EStateM ε σ α} (h : Keeps R m) (hle : ∀ s t, R s t → S s t) : Keeps S m :=
  fun s => hle s _ (h s)

theorem pure [hR : Lasting R] (a : α) : Keeps R (Pure.pure a : EStateM ε σ α) :=
  fun s => hR.refl s

theorem throw [hR : Lasting R] (failure : ε) : Keeps R (MonadExcept.throw failure : EStateM ε σ α) :=
  fun s => hR.refl s

theorem get [hR : Lasting R] : Keeps R (MonadState.get : EStateM ε σ σ) :=
  fun s => hR.refl s

theorem bind [hR : Lasting R] {m : EStateM ε σ α} {f : α → EStateM ε σ β} (hm : Keeps R m)
    (hf : ∀ a, Keeps R (f a)) : Keeps R (m >>= f) := by
  intro s
  cases h : m s with
  | ok a t =>
    rw [bind_of_ok h]
    exact hR.trans (hm.ok h) (hf a t)
  | error failure t =>
    rw [bind_of_error h]
    exact hm.error h

end Keeps

/-- From a state with the property `I`, the computation succeeds with a value in `V` and in such a state again, or fails
with a failure in `F`. -/
def Meets (I : σ → Prop) (F : ε → Prop) (V : α → Prop) (m : EStateM ε σ α) : Prop :=
  ∀ s, I s →
    match m s with
    | .ok a t => V a ∧ I t
    | .error failure _ => F failure

namespace Meets

variable {I : σ → Prop} {F : ε → Prop} {V : α → Prop} {W : β → Prop}

theorem ok {m : EStateM ε σ α} (h : Meets I F V m) {s t : σ} {a : α} (hs : I s) (hm : m s = .ok a t) :
    V a ∧ I t := by
  have hmeets := h s hs
  rw [hm] at hmeets
  exact hmeets

theorem error {m : EStateM ε σ α} (h : Meets I F V m) {s t : σ} {failure : ε} (hs : I s)
    (hm : m s = .error failure t) : F failure := by
  have hmeets := h s hs
  rw [hm] at hmeets
  exact hmeets

theorem pure {a : α} (h : V a) : Meets I F V (Pure.pure a : EStateM ε σ α) :=
  fun _ hs => ⟨h, hs⟩

theorem throw {failure : ε} (h : F failure) : Meets I F V (MonadExcept.throw failure : EStateM ε σ α) :=
  fun _ _ => h

theorem get : Meets I F I (MonadState.get : EStateM ε σ σ) :=
  fun _ hs => ⟨hs, hs⟩

theorem bind {m : EStateM ε σ α} {f : α → EStateM ε σ β} (hm : Meets I F V m) (hf : ∀ a, V a → Meets I F W (f a)) :
    Meets I F W (m >>= f) := by
  intro s hs
  cases h : m s with
  | ok a t =>
    obtain ⟨hv, ht⟩ := hm.ok hs h
    rw [bind_of_ok h]
    exact hf a hv t ht
  | error failure t =>
    rw [bind_of_error h]
    exact hm.error hs h

end Meets

/-- A way out that is taken after a failure may fail itself. -/
theorem exists_throw_after {F : ε → Prop} {leave : EStateM ε σ Unit}
    (hleave : ∀ s failure t, leave s = .error failure t → F failure) {failure : ε} (h : F failure) (s : σ) :
    ∃ other t, (do leave; throw failure : EStateM ε σ α) s = .error other t ∧ F other := by
  cases hout : leave s with
  | ok _ t => exact ⟨failure, t, bind_of_ok hout, h⟩
  | error other t => exact ⟨other, t, bind_of_error hout, hleave s other t hout⟩

end GradualScript
