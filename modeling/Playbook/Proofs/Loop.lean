import Playbook.Loop

/-!
# Playbook — drivers side by side

How a playbook is run is the same for every driver. So two drivers whose
operations are related run every playbook in a related way, whatever is meant by
that, as long as it holds over sequences.

Main results:

* `Driver.Relates.run` — related drivers run a playbook in a related way.
-/

namespace Playbook.Driver

variable {m n : Type → Type}

/-- What is related either way is related. -/
theorem related_ite {R : ∀ {α : Type}, m α → n α → Prop} {α : Type} {b : Bool}
    {x x' : m α} {y y' : n α} (hx : R x y) (hx' : R x' y') :
    R (if b = true then x else x') (if b = true then y else y') := by
  cases b with
  | false => exact hx'
  | true => exact hx

variable [Monad m] [Monad n]

/-- The operations of two drivers are related, in a way that
holds over sequences. -/
structure Relates (R : ∀ {α : Type}, m α → n α → Prop) (d : Driver m)
    (e : Driver n) : Prop where
  pure : ∀ {α : Type} (a : α), R (Pure.pure a) (Pure.pure a)
  bind : ∀ {α β : Type} {x : m α} {y : n α} {f : α → m β} {g : α → n β}, R x y →
    (∀ a, R (f a) (g a)) →
    R (x >>= f) (y >>= g)
  execute : ∀ phase number step, R (d.execute phase number step)
    (e.execute phase number step)
  running : R d.running e.running
  count : R d.count e.count
  giveUp : R d.giveUp e.giveUp

namespace Relates

variable {R : ∀ {α : Type}, m α → n α → Prop} {d : Driver m} {e : Driver n}
  (h : Relates R d e)

include h

theorem all (phase : String) (number : Nat) (steps : List Step) :
    R (d.all phase number steps) (e.all phase number steps) := by
  induction steps generalizing number with
  | nil => exact h.pure ()
  | cons step steps ih => exact h.bind (h.execute ..) fun _ => ih _

theorem pass (phase : String) (number : Nat) (steps : List Step) :
    R (d.pass phase number steps) (e.pass phase number steps) := by
  induction steps generalizing number with
  | nil => exact h.running
  | cons step steps ih =>
    exact h.bind h.running fun _ =>
      related_ite (h.bind (h.execute ..) fun _ => ih _) (h.pure false)

theorem loop (body : List Step) (left : Nat) :
    R (d.loop body left) (e.loop body left) := by
  induction left with
  | zero => exact h.bind h.running fun _ => related_ite h.giveUp (h.pure ())
  | succ left ih =>
    refine h.bind h.running fun _ =>
      related_ite (h.bind (h.pass ..) fun _ => ?_) (h.pure ())
    exact related_ite (h.bind h.count fun _ => ih) ih

theorem run (limit : Nat) (plan : Plan) :
    R (d.run limit plan) (e.run limit plan) := by
  refine h.bind (h.all ..) fun _ => ?_
  cases plan.body with
  | none => exact h.pure ()
  | some body => exact h.loop body limit

end Relates

end Playbook.Driver
