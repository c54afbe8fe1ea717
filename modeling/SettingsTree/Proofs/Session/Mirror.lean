import SettingsTree.Proofs.Session.Client
import SettingsTree.Proofs.Session.Direct

/-! # Operations that mirror one another

An operation mirrors one of a client that remembers nothing if both do the same to the remote and
give the same. What is put together from such operations mirrors what is put together in the same
way.
-/

namespace SettingsTree.Client

variable {σ α β γ δ : Type} {remote : Remote σ}

/-- Where `pre` holds of what is remembered, the operation leaves the remote as the one that
remembers nothing does, and gives what that one gives, up to `f`; `post` holds afterwards if it
succeeds. -/
def Mirrors (pre : Memory → Prop) (f : α → β) (x : Client σ α) (y : Direct σ β)
    (post : α → Memory → Prop) : Prop :=
  ∀ w, pre w.memory → y w.remote = ((x w).1.map f, (x w).2.remote) ∧
    ∀ a, (x w).1 = .ok a → post a (x w).2.memory

namespace Mirrors

variable {pre : Memory → Prop} {f : α → β} {x : Client σ α} {y : Direct σ β}
  {post : α → Memory → Prop}

theorem weaken {pre' : Memory → Prop} {post' : α → Memory → Prop} (h : Mirrors pre f x y post)
    (hpre : ∀ m, pre' m → pre m) (hpost : ∀ a m, post a m → post' a m) :
    Mirrors pre' f x y post' := by
  intro w hw
  obtain ⟨heq, h'⟩ := h w (hpre _ hw)
  exact ⟨heq, fun a ha => hpost a _ (h' a ha)⟩

theorem bind {g : γ → δ} {k : α → Client σ γ} {l : β → Direct σ δ} {last : γ → Memory → Prop}
    (h : Mirrors pre f x y post) (hk : ∀ a, Mirrors (post a) g (k a) (l (f a)) last) :
    Mirrors pre g (x >>= k) (y >>= l) last := by
  intro w hw
  obtain ⟨heq, h'⟩ := h w hw
  rw [bind_run_state, heq]
  rcases hrun : x w with ⟨fault | a, v⟩
  · rw [bind_run_error hrun]
    exact ⟨rfl, fun _ hb => nomatch hb⟩
  · rw [bind_run_ok hrun]
    rw [hrun] at h'
    exact hk a v (h' a rfl)

theorem pure {a : α} (h : ∀ m, pre m → post a m) :
    Mirrors (σ := σ) pre f (Pure.pure a) (Pure.pure (f a)) post :=
  fun _ hw => ⟨rfl, fun _ ha => Except.ok.inj ha ▸ h _ hw⟩

theorem throw (fault : ClientError) :
    Mirrors (σ := σ) pre f (MonadExcept.throw fault) (MonadExcept.throw fault) post :=
  fun _ _ => ⟨rfl, fun _ ha => nomatch ha⟩

theorem map {g : γ → δ} {u : α → γ} {v : β → δ} (h : Mirrors pre f x y post)
    (huv : ∀ a, g (u a) = v (f a)) : Mirrors pre g (u <$> x) (v <$> y) fun _ _ => True := by
  refine bind (k := fun a => Pure.pure (u a)) (l := fun b => Pure.pure (v b)) h fun a => ?_
  rw [← huv]
  exact .pure fun _ _ => trivial

/-- What is at hand needs no look at what is remembered. -/
theorem consulted {g : γ → δ} {look : Memory → Except ClientError α} {a : α} {k : α → Client σ γ}
    {z : Direct σ δ} {last : γ → Memory → Prop} (h : ∀ m, pre m → look m = .ok a)
    (hk : Mirrors pre g (k a) z last) : Mirrors pre g (consult look >>= k) z last := by
  intro w hw
  have hlook : consult look w = (.ok a, w) := by rw [consult_run, h _ hw]
  rw [bind_run_ok hlook]
  exact hk w hw

theorem consult {look : Memory → Except ClientError α} {result : Except ClientError β}
    (h : ∀ m, pre m → (look m).map f = result) (hpost : ∀ a m, pre m → look m = .ok a → post a m) :
    Mirrors (σ := σ) pre f (Client.consult look) (fun s => (result, s)) post :=
  fun _ hw => ⟨by rw [consult_run, h _ hw], fun a ha => hpost a _ hw ha⟩

theorem known {look : Memory → Except ClientError α} {a : α} {b : β}
    (h : ∀ m, pre m → look m = .ok a) (hf : f a = b) :
    Mirrors (σ := σ) pre f (Client.consult look) (Pure.pure b) fun _ _ => True :=
  .consult (fun m hm => by rw [h m hm, ← hf]; rfl) fun _ _ _ _ => trivial

theorem refused {look : Memory → Except ClientError α} {fault : ClientError}
    (h : ∀ m, pre m → look m = .error fault) :
    Mirrors (σ := σ) pre f (Client.consult look) (MonadExcept.throw fault) post := by
  refine .consult (fun m hm => by rw [h m hm]; rfl) fun a m hm ha => ?_
  rw [h m hm] at ha
  cases ha

theorem ask {call : Call} {post : call.Answer → Memory → Prop} (h : ∀ a m, pre m → post a m) :
    Mirrors pre id (Client.ask remote call) (Direct.ask remote call) post := by
  intro w hw
  rw [ask_run]
  refine ⟨?_, fun a _ => h a _ hw⟩
  rw [Except.map_id]
  rfl

theorem forM {f : α → Client σ Unit} {g : α → Direct σ Unit} {as : List α}
    (h : ∀ a, Mirrors pre id (f a) (g a) fun _ m => pre m) :
    Mirrors pre id (as.forM f) (as.forM g) fun _ m => pre m := by
  induction as with
  | nil => exact pure fun _ hm => hm
  | cons a rest ih => exact bind (h a) fun _ => ih

end Mirrors

end SettingsTree.Client
