import TracePlayback.Proofs.Playback.Operation

/-!
# The turns of a run

All that a run plays is played by turns of the loop, whichever calls the loop runs in. Here they are
in order, each with the timeline that takes it.

* `firings`: the turns that a run takes. They account for every event (`calls_firings`).
* `firings_invariant`: what every edit and every turn keeps holds whenever a turn is taken.
-/
namespace TracePlayback

/-- A turn of the loop: the timeline that takes it, and the channel whose step is due. -/
structure Firing where
  before : Timeline
  name : ChannelName
  due : Nat

namespace Firing

def events (x : Firing) : List Event := (x.before.fire x.name x.due).1

def after (x : Firing) : Timeline := (x.before.fire x.name x.due).2

def channel (x : Firing) : Channel := x.before.channel x.name

end Firing

namespace Timeline

/-! ## The turns of a run -/

/-- The turns that the loop takes. -/
def dueFirings (target : Nat) : Nat → Timeline → List Firing
  | 0, _ => []
  | budget + 1, t =>
    match t.earliest? with
    | none => []
    | some (name, due) =>
      if target < due then []
      else ⟨t, name, due⟩ :: dueFirings target budget (t.fire name due).2

/-- The turns that a run takes. -/
def firings (t : Timeline) : List Operation → List Firing
  | [] => []
  | op :: ops =>
    (t.target? op).elim []
        (fun target => dueFirings (min target Clock.last) maxSteps (t.edit op)) ++
      (t.perform op).2.firings ops

theorem dueFirings_stop {t : Timeline} {target : Nat} (h : t.hasBacklog target = false) (n : Nat) :
    dueFirings target n t = [] := by
  cases n with
  | zero => rfl
  | succ n =>
    unfold dueFirings
    cases he : t.earliest? with
    | none => rfl
    | some p =>
      obtain ⟨name, due⟩ := p
      exact if_pos (hasBacklog_eq_false_iff.mp h name due (earliest?_due he))

theorem dueFirings_step {t : Timeline} {target : Nat} {name : ChannelName} {due : Nat}
    (he : t.earliest? = some (name, due)) (hle : due ≤ target) (n : Nat) :
    dueFirings target (n + 1) t = ⟨t, name, due⟩ :: dueFirings target n (t.fire name due).2 := by
  rw [dueFirings, he]
  exact if_neg (Nat.not_lt.mpr hle)

theorem runDue_firings (target n : Nat) (t : Timeline) :
    (runDue target n t).1 = (dueFirings target n t).flatMap Firing.events := by
  induction n generalizing t with
  | zero => rfl
  | succ n ih =>
    rcases backlog_cases t target with hb | ⟨name, due, he, hle⟩
    · rw [runDue_stop hb, dueFirings_stop hb]; rfl
    · rw [runDue_step he hle, dueFirings_step he hle, List.flatMap_cons, ih]; rfl

theorem calls_firings (t : Timeline) (ops : List Operation) :
    (t.calls ops).flatMap (·.2) = (t.firings ops).flatMap Firing.events := by
  induction ops generalizing t with
  | nil => rfl
  | cons op ops ih =>
    rw [calls, firings, List.flatMap_cons, List.flatMap_append, ih]
    congr 1
    rw [perform_eq]
    cases t.target? op with
    | none => rfl
    | some target => simp only [advanceTo_eq, runDue_firings, Option.elim_some]

/-- What every edit and every turn keeps holds whenever a turn is taken. The clock does not
matter to it. -/
theorem firings_invariant {P : Timeline → Prop} (hclock : ∀ t now, P t → P (t.atTime now))
    (hfire : ∀ t name due, P t → t.earliest? = some (name, due) → P (t.fire name due).2)
    (ops : List Operation) (hedit : ∀ op ∈ ops, ∀ t, P t → P (t.edit op)) {t : Timeline}
    (ht : P t) : ∀ x ∈ t.firings ops, P x.before ∧ x.channel.due = some x.due := by
  have hdue : ∀ target n u, P u →
      ∀ x ∈ dueFirings target n u, P x.before ∧ x.channel.due = some x.due := by
    intro target n
    induction n with
    | zero => intro u _ x hx; cases hx
    | succ n ih =>
      intro u hu x hx
      rcases backlog_cases u target with hb | ⟨name, due, he, hle⟩
      · rw [dueFirings_stop hb] at hx; cases hx
      · rw [dueFirings_step he hle] at hx
        rcases List.mem_cons.mp hx with rfl | hx
        · exact ⟨hu, earliest?_due he⟩
        · exact ih _ (hfire u name due hu he) x hx
  induction ops generalizing t with
  | nil => intro x hx; cases hx
  | cons op ops ih =>
    intro x hx
    have hu := hedit op List.mem_cons_self t ht
    rcases List.mem_append.mp hx with hx | hx
    · cases htarget : t.target? op with
      | none => rw [htarget] at hx; cases hx
      | some target => rw [htarget] at hx; exact hdue _ _ _ hu x hx
    · refine ih (fun op hop => hedit op (List.mem_cons_of_mem _ hop)) ?_ x hx
      rw [perform_eq]
      cases t.target? op with
      | none => exact hu
      | some target =>
        simp only [advanceTo_eq]
        exact hclock _ _
          (runDue_invariant _ (fun u name due hu he _ => hfire u name due hu he) _ _ hu)

end Timeline
end TracePlayback
