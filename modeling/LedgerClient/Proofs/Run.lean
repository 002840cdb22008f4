import LedgerClient.Trace.Run
/-!
# Runs, step by step

Carrying out a run after a trace, one operation at a time: a bind goes on with what the first part left behind, or
stops where it stopped (`after_bind`).  Everything said about a session or a call is put together from these.
-/
namespace LedgerClient.Run

variable {α β : Type}

/-- Runs that do the same after every trace are the same. -/
theorem ext {r r' : Run α} (h : ∀ t, after t r = after t r') : r = r' := funext h

@[simp] theorem after_pure (t : Trace) (a : α) : after t (pure a) = (.ok a, t) := rfl

@[simp] theorem after_fail (t : Trace) (e : CallError) : after t (fail e : Run α) = (.error (.failed e), t) := rfl

@[simp] theorem after_halt (t : Trace) : after t (halt : Run α) = (.error .panicked, t) := rfl

@[simp] theorem after_ofExcept (t : Trace) (r : Except CallError α) :
    after t (ofExcept r) = (r.mapError .failed, t) := by
  cases r <;> rfl

theorem ofExcept_ok (a : α) : ofExcept (.ok a) = pure a := rfl

theorem ofExcept_error_bind (e : CallError) (k : α → Run β) : ofExcept (.error e) >>= k = fail e := rfl

theorem ofExcept_bind (r : Except CallError α) (f : α → Except CallError β) :
    ofExcept (r.bind f) = ofExcept r >>= fun a => ofExcept (f a) := by
  cases r <;> rfl

theorem ofExcept_map (r : Except CallError α) (f : α → β) :
    (ofExcept r >>= fun a => pure (f a)) = ofExcept (r.map f) := by
  cases r <;> rfl

theorem of_after_ofExcept {t u : Trace} {r : Except CallError α} {a : α} (h : after t (ofExcept r) = (.ok a, u)) :
    r = .ok a ∧ t = u := by
  cases r with
  | error e => cases h
  | ok b => cases h; exact ⟨rfl, rfl⟩

@[simp] theorem after_report (t : Trace) (e : Event) :
    after t (report e) = (.ok (), { t with events := t.events ++ [e] }) := rfl

/-- Reports some events, or none. -/
def reports (es : List Event) : Run Unit := modify fun t => { t with events := t.events ++ es }

@[simp] theorem after_reports (t : Trace) (es : List Event) :
    after t (reports es) = (.ok (), { t with events := t.events ++ es }) := rfl

@[simp] theorem after_measure (t : Trace) (m : Metric) :
    after t (measure m) = (.ok (), { t with metrics := t.metrics ++ [m] }) := rfl

@[simp] theorem after_recordCall (t : Trace) (c : Gateway.Call) :
    after t (recordCall c) = (.ok (), { t with calls := t.calls ++ [c] }) := rfl

@[simp] theorem after_nextSignature (t : Trace) :
    after t nextSignature = (.ok t.signatures, { t with signatures := t.signatures + 1 }) := rfl

/-- **A bind goes on after its first part, or stops with it.** -/
theorem after_bind (t : Trace) (r : Run α) (k : α → Run β) :
    after t (r >>= k) = match after t r with
      | (.ok a, u) => after u (k a)
      | (.error x, u) => (.error x, u) := by
  have h : after t (r >>= k) = (ExceptT.bindCont k (after t r).1).run (after t r).2 := rfl
  rw [h]
  rcases after t r with ⟨x | a, u⟩ <;> rfl

theorem after_bind_ok {t u : Trace} {r : Run α} {a : α} (h : after t r = (.ok a, u)) (k : α → Run β) :
    after t (r >>= k) = after u (k a) := by
  rw [after_bind, h]

theorem after_bind_error {t u : Trace} {r : Run α} {x : Stop} (h : after t r = (.error x, u)) (k : α → Run β) :
    after t (r >>= k) = (.error x, u) := by
  rw [after_bind, h]

/-- A bind that was carried out went on or stopped. -/
theorem of_after_bind {t u : Trace} {r : Run α} {k : α → Run β} {x : Except Stop β}
    (h : after t (r >>= k) = (x, u)) :
    (∃ y, after t r = (.error y, u) ∧ x = .error y) ∨
      ∃ a t₁, after t r = (.ok a, t₁) ∧ after t₁ (k a) = (x, u) := by
  rw [after_bind] at h
  rcases hr : after t r with ⟨y | a, t₁⟩
  · rw [hr] at h
    cases h
    exact .inl ⟨y, rfl, rfl⟩
  · rw [hr] at h
    exact .inr ⟨a, t₁, rfl, h⟩

/-- A run without what it brings. -/
theorem after_discard (t : Trace) (r : Run α) :
    after t (r >>= fun _ => pure ()) = ((after t r).1.map fun _ => (), (after t r).2) := by
  rw [after_bind]
  rcases after t r with ⟨x | a, u⟩ <;> rfl

/-- Observing changes what a run leaves behind, not how it ends. -/
theorem after_observe (t : Trace) (r : Run α) (k : Except Stop α → Run Unit) :
    after t (observe r k) = ((after t r).1, (after (after t r).2 (k (after t r).1)).2) := rfl

end LedgerClient.Run
