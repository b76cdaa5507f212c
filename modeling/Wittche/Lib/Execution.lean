import Mathlib.Logic.Function.Iterate

/-! Guarded executions of a deterministic step function, and the rules that carry
a property of one step to a whole run. -/

namespace Wittche.Execution

variable {State Action : Type} {ok : State → Action → Prop} {step : State → Action → State}

/-- `Exec ok step s as t`: the actions `as` lead from `s` to `t`, and each is
allowed in the state it is taken in. -/
inductive Exec (ok : State → Action → Prop) (step : State → Action → State) :
    State → List Action → State → Prop
  | nil (s) : Exec ok step s [] s
  | cons {s a as t} (allowed : ok s a) (rest : Exec ok step (step s a) as t) :
      Exec ok step s (a :: as) t

theorem Exec.invariant {Inv : State → Prop}
    (keep : ∀ s a, Inv s → ok s a → Inv (step s a)) {s t : State} {as : List Action}
    (run : Exec ok step s as t) (start : Inv s) : Inv t := by
  induction run with
  | nil s => exact start
  | cons allowed rest ih => exact ih (keep _ _ start allowed)

theorem Exec.append {s t u : State} {as bs : List Action}
    (first : Exec ok step s as t) (second : Exec ok step t bs u) :
    Exec ok step s (as ++ bs) u := by
  induction first with
  | nil s => exact second
  | cons allowed rest ih => exact .cons allowed (ih second)

/-- Actions that are allowed in every state. -/
theorem exec_foldl {as : List Action} (all : ∀ a ∈ as, ∀ s, ok s a) (s : State) :
    Exec ok step s as (as.foldl step s) := by
  induction as generalizing s with
  | nil => exact .nil s
  | cons a as ih =>
    have rest := ih (fun b inside => all b (List.mem_cons_of_mem a inside)) (step s a)
    exact .cons (all a List.mem_cons_self s) rest

/-- A run of which each step is looked at in the state that the steps before it lead to. -/
theorem exec_of_prefixes {as : List Action} {s : State}
    (all : ∀ k (lt : k < as.length), ok ((as.take k).foldl step s) as[k]) : Exec ok step s as (as.foldl step s) := by
  induction as generalizing s with
  | nil => exact .nil s
  | cons a as ih => exact .cons (all 0 (Nat.zero_lt_succ _)) (ih fun k lt => all (k + 1) (Nat.succ_lt_succ lt))

section Outputs

variable {Seen : Type} (see : State → Action → Seen)

/-- What is seen of the actions of a run, one after the other. -/
def seen (step : State → Action → State) : State → List Action → List Seen
  | _, [] => []
  | s, a :: as => see s a :: seen step (step s a) as

theorem Exec.seen_eq {R : State → State → Prop} {see : State → Action → Seen}
    (keep : ∀ s t a, R s t → ok s a → see s a = see t a ∧ R (step s a) (step t a)) {s t u : State} {as : List Action}
    (run : Exec ok step s as u) (start : R s t) : seen see step s as = seen see step t as := by
  induction run generalizing t with
  | nil s => rfl
  | cons allowed rest ih =>
    obtain ⟨same, next⟩ := keep _ _ _ start allowed
    rw [seen, seen, same, ih next]

variable {Abstract : Type}

/-- Abstract steps under which the actions show what is seen. -/
inductive Explained (law : Abstract → Action → Seen → Abstract → Prop) : Abstract → List Action → List Seen → Abstract → Prop
  | nil (F) : Explained law F [] [] F
  | cons {F G H a o as os} (here : law F a o G) (rest : Explained law G as os H) : Explained law F (a :: as) (o :: os) H

/-- A run shows what an abstract state explains, when each of its steps does. -/
theorem Exec.explained {R : State → Abstract → Prop} {see : State → Action → Seen}
    {law : Abstract → Action → Seen → Abstract → Prop}
    (keep : ∀ s F a, R s F → ok s a → ∃ G, law F a (see s a) G ∧ R (step s a) G) {s t : State} {as : List Action}
    (run : Exec ok step s as t) {F : Abstract} (start : R s F) :
    ∃ G, Explained law F as (seen see step s as) G ∧ R t G := by
  induction run generalizing F with
  | nil s => exact ⟨F, .nil F, start⟩
  | cons allowed rest ih =>
    obtain ⟨G, here, next⟩ := keep _ _ _ start allowed
    obtain ⟨H, others, last⟩ := ih next
    exact ⟨H, .cons here others, last⟩

end Outputs

section Interleaving

variable {S : Type} {step : S → S} {event R : S → S → Prop}

/-- `n` steps of a program lead from one state to another, with events in between. -/
inductive Interleaved (step : S → S) (event : S → S → Prop) : S → Nat → S → Prop
  | nil (s) : Interleaved step event s 0 s
  | step {s t n} (rest : Interleaved step event (step s) n t) : Interleaved step event s (n + 1) t
  | event {s t u n} (here : event s t) (rest : Interleaved step event t n u) : Interleaved step event s n u

/-- What events do not change and steps do not depend on is, behind every interleaving, as the
program alone leaves it. -/
theorem Interleaved.absorbed (refl : ∀ s, R s s) (trans : ∀ s t u, R s t → R t u → R s u)
    (keep : ∀ s t, R s t → R (step s) (step t)) (absorb : ∀ s t, event s t → R s t) {s t : S} {n : Nat}
    (run : Interleaved step event s n t) : R (step^[n] s) t := by
  have iterate : ∀ n s t, R s t → R (step^[n] s) (step^[n] t) := by
    intro n
    induction n with
    | zero => exact fun s t related => related
    | succ n ih => exact fun s t related => ih _ _ (keep s t related)
  induction run with
  | nil s => exact refl s
  | step rest ih => exact ih
  | event here rest ih => exact trans _ _ _ (iterate _ _ _ (absorb _ _ here)) ih

theorem Interleaved.invariant {Inv : S → Prop} (keep : ∀ s, Inv s → Inv (step s))
    (through : ∀ s t, Inv s → event s t → Inv t) {s t : S} {n : Nat} (run : Interleaved step event s n t)
    (start : Inv s) : Inv t := by
  induction run with
  | nil s => exact start
  | step rest ih => exact ih (keep _ start)
  | event here rest ih => exact ih (through _ _ start here)

theorem Interleaved.guarded {Inv : S → Prop} (keep : ∀ s, Inv s → Inv (step s))
    (through : ∀ s t, Inv s → event s t → Inv t) {s t : S} {n : Nat} (run : Interleaved step event s n t)
    (start : Inv s) : Interleaved step (fun s t => Inv s ∧ event s t) s n t := by
  induction run with
  | nil s => exact .nil s
  | step rest ih => exact .step (ih (keep _ start))
  | event here rest ih => exact .event ⟨start, here⟩ (ih (through _ _ start here))

end Interleaving

end Wittche.Execution
