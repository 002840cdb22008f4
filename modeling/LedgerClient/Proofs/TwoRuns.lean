import LedgerClient.Proofs.Run
/-!
# Two runs side by side

Two runs are compared by how they stop and by what they leave behind (`Comparison`).  They relate if, after traces that
compare, both bring values that are related or both stop alike, and their traces still compare; a run that stops with
an excuse relates to any other (`Comparison.Relates`).  Runs that are put together from parts that relate do so
themselves (`Relates.bind`, `Relates.observe`).
-/
namespace LedgerClient

variable {α α' β β' : Type}

/-- How two runs are compared. -/
structure Comparison where
  traces : Trace → Trace → Prop
  stops : Stop → Stop → Prop
  /-- After such a stop of one run nothing is said of the other. -/
  excuse : Stop → Prop

namespace Comparison

/-- How two runs can end side by side. -/
inductive Ends (C : Comparison) (V : α → α' → Prop) : Except Stop α × Trace → Except Stop α' × Trace → Prop where
  | ok {a : α} {a' : α'} {t t' : Trace} (h : V a a') (ht : C.traces t t') : Ends C V (.ok a, t) (.ok a', t')
  | stopped {x x' : Stop} {t t' : Trace} (h : C.stops x x') (ht : C.traces t t') :
      Ends C V (.error x, t) (.error x', t')
  | left {x : Stop} {t : Trace} {ran : Except Stop α' × Trace} (h : C.excuse x) : Ends C V (.error x, t) ran
  | right {x : Stop} {t : Trace} {ran : Except Stop α × Trace} (h : C.excuse x) : Ends C V ran (.error x, t)

/-- **The runs relate**: after traces that compare, they end side by side. -/
def Relates (C : Comparison) (V : α → α' → Prop) (r : Run α) (r' : Run α') : Prop :=
  ∀ t t', C.traces t t' → C.Ends V (Run.after t r) (Run.after t' r')

variable {C : Comparison} {V : α → α' → Prop} {W : β → β' → Prop}

theorem relates_pure {a : α} {a' : α'} (h : V a a') : C.Relates V (pure a) (pure a') := fun _ _ ht => .ok h ht

theorem relates_fail {e e' : CallError} (h : C.stops (.failed e) (.failed e')) :
    C.Relates V (Run.fail e) (Run.fail e') := fun _ _ ht => .stopped h ht

theorem Relates.imp {V' : α → α' → Prop} {r : Run α} {r' : Run α'} (h : C.Relates V r r')
    (hv : ∀ a a', V a a' → V' a a') : C.Relates V' r r' := by
  intro t t' ht
  have hends := h t t' ht
  generalize Run.after t r = ran, Run.after t' r' = ran' at hends
  cases hends with
  | ok h ht => exact .ok (hv _ _ h) ht
  | stopped h ht => exact .stopped h ht
  | left h => exact .left h
  | right h => exact .right h

/-- **Runs one after the other relate** if their parts do. -/
theorem Relates.bind {r : Run α} {r' : Run α'} {k : α → Run β} {k' : α' → Run β'} (h : C.Relates V r r')
    (hk : ∀ a a', V a a' → C.Relates W (k a) (k' a')) : C.Relates W (r >>= k) (r' >>= k') := by
  intro t t' ht
  have hends := h t t' ht
  rw [Run.after_bind, Run.after_bind]
  generalize Run.after t r = ran, Run.after t' r' = ran' at hends
  -- what stops does not go on, so what follows counts in the first case only
  cases hends with
  | ok h ht => exact hk _ _ h _ _ ht
  | stopped h ht => exact .stopped h ht
  | left h => exact .left h
  | right h => exact .right h

theorem Relates.bind_eq {r r' : Run α} {k : α → Run β} {k' : α → Run β'} (h : C.Relates Eq r r')
    (hk : ∀ a, C.Relates W (k a) (k' a)) : C.Relates W (r >>= k) (r' >>= k') :=
  h.bind fun a a' ha => by rw [← ha]; exact hk a

/-- What is looked at may be followed by anything that keeps the traces in step. -/
def InStep (C : Comparison) (r r' : Run Unit) : Prop :=
  ∀ t t', C.traces t t' → C.traces (Run.after t r).2 (Run.after t' r').2

/-- **Runs that are looked at relate** if they do so themselves and the looks keep their traces in step. -/
theorem Relates.observe {r : Run α} {r' : Run α'} {k : Except Stop α → Run Unit} {k' : Except Stop α' → Run Unit}
    (h : C.Relates V r r') (hok : ∀ a a', V a a' → C.InStep (k (.ok a)) (k' (.ok a')))
    (hstop : ∀ x x', C.stops x x' → C.InStep (k (.error x)) (k' (.error x'))) :
    C.Relates V (Run.observe r k) (Run.observe r' k') := by
  intro t t' ht
  have hends := h t t' ht
  rw [Run.after_observe, Run.after_observe]
  generalize Run.after t r = ran, Run.after t' r' = ran' at hends
  cases hends with
  | ok h ht => exact .ok h (hok _ _ h _ _ ht)
  | stopped h ht => exact .stopped h (hstop _ _ h _ _ ht)
  | left h => exact .left h
  | right h => exact .right h

end Comparison
end LedgerClient
