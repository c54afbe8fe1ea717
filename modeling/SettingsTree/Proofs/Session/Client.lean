import SettingsTree.Session.Memory

/-! # How operations of clients run

An operation takes a world to a result and another world. Operations that are put together run one
after the other until one fails; what was done until then stays done.
-/

namespace SettingsTree.Client

variable {σ τ α β : Type}

/-- What a sequence does over any state. -/
theorem bind_run_state (x : ExceptT ClientError (StateM τ) α)
    (f : α → ExceptT ClientError (StateM τ) β) (s : τ) :
    (x >>= f) s = match x s with
      | (.ok a, t) => f a t
      | (.error fault, t) => (.error fault, t) := by
  change StateT.bind x (ExceptT.bindCont f) s = _
  change (match x s with | (a, t) => ExceptT.bindCont f a t) = _
  rcases x s with ⟨_ | _, _⟩ <;> rfl

theorem bind_run (x : Client σ α) (f : α → Client σ β) (w : World σ) :
    (x >>= f) w = match x w with
      | (.ok a, v) => f a v
      | (.error fault, v) => (.error fault, v) := by
  rw [bind_run_state]
  rcases x w with ⟨_ | _, _⟩ <;> rfl

@[simp] theorem pure_run (a : α) (w : World σ) : (pure a : Client σ α) w = (.ok a, w) := rfl

@[simp] theorem throw_run (fault : ClientError) (w : World σ) :
    (throw fault : Client σ α) w = (.error fault, w) := rfl

theorem map_run_state (f : α → β) (x : ExceptT ClientError (StateM τ) α) (s : τ) :
    (f <$> x) s = ((x s).1.map f, (x s).2) := by
  change (x >>= fun a => pure (f a)) s = _
  rw [bind_run_state]
  rcases x s with ⟨_ | _, _⟩ <;> rfl

theorem map_run (f : α → β) (x : Client σ α) (w : World σ) :
    (f <$> x) w = ((x w).1.map f, (x w).2) := map_run_state f x w

@[simp] theorem consult_run (f : Memory → Except ClientError α) (w : World σ) :
    consult f w = (f w.memory, w) := rfl

theorem consult_map (look : Memory → Except ClientError α) (f : α → β) :
    (consult fun memory => (look memory).map f : Client σ β) = f <$> consult look := by
  funext w
  rw [map_run, consult_run, consult_run]

theorem ask_run (remote : Remote σ) (c : Call) (w : World σ) :
    ask remote c w = ((remote.call c w.remote).1.mapError .transport,
      { w with remote := (remote.call c w.remote).2 }) := by
  unfold ask
  dsimp only
  cases (remote.call c w.remote).1 <;> rfl

theorem bind_run_ok {x : Client σ α} {f : α → Client σ β} {w v : World σ} {a : α}
    (h : x w = (.ok a, v)) : (x >>= f) w = f a v := by rw [bind_run, h]

theorem bind_run_error {x : Client σ α} {f : α → Client σ β} {w v : World σ} {fault : ClientError}
    (h : x w = (.error fault, v)) : (x >>= f) w = (.error fault, v) := by rw [bind_run, h]

theorem consult_bind_ok {look : Memory → Except ClientError α} {f : α → Client σ β} {w : World σ}
    {a : α} (h : look w.memory = .ok a) : (consult look >>= f) w = f a w :=
  bind_run_ok (by rw [consult_run, h])

theorem consult_bind_error {look : Memory → Except ClientError α} {f : α → Client σ β} {w : World σ}
    {fault : ClientError} (h : look w.memory = .error fault) :
    (consult look >>= f) w = (.error fault, w) :=
  bind_run_error (by rw [consult_run, h])

/-- What a run over any state does: its first turn, and then the others. -/
theorem mapM_cons_run (f : α → StateM τ β) (a : α) (as : List α) (s : τ) :
    (a :: as).mapM f s =
      ((f a s).1 :: (as.mapM f (f a s).2).1, (as.mapM f (f a s).2).2) := by
  rw [List.mapM_cons]
  rfl

/-! ### Operations that remember nothing -/

/-- The operation changes nothing that is remembered. -/
def Quiet (x : Client σ α) : Prop := ∀ w, (x w).2.memory = w.memory

namespace Quiet

theorem pure (a : α) : Quiet (Pure.pure a : Client σ α) := fun _ => rfl

theorem throw (fault : ClientError) : Quiet (MonadExcept.throw fault : Client σ α) := fun _ => rfl

theorem consult (f : Memory → Except ClientError α) : Quiet (Client.consult f : Client σ α) :=
  fun _ => rfl

theorem ask (remote : Remote σ) (c : Call) : Quiet (Client.ask remote c) := fun w => by
  rw [ask_run]

theorem bind {x : Client σ α} {f : α → Client σ β} (hx : x.Quiet) (hf : ∀ a, (f a).Quiet) :
    (x >>= f).Quiet := by
  intro w
  rcases hrun : x w with ⟨_ | a, v⟩
  · rw [bind_run_error hrun, ← hx w, hrun]
  · rw [bind_run_ok hrun, hf a v, ← hx w, hrun]

theorem map {x : Client σ α} (hx : x.Quiet) (f : α → β) : (f <$> x).Quiet := fun w => by
  rw [map_run, hx w]

end Quiet

end SettingsTree.Client
