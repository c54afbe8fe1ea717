import SettingsTree.Proofs.Path.Written
import SettingsTree.Proofs.Session.Linked
import SettingsTree.Proofs.Session.Reachable

/-! # What a path leads to

Following a path from a root that is linked leads to objects that are linked, and each step of the
path is a step to the next one. So the path of the object at the end is the path that was followed.
-/

namespace SettingsTree

open Client

variable {σ : Type} {remote : Remote σ}

/-- A member that is got is one of the collection, and is in its index then. -/
theorem Collection.member_of_get {reg : Registry} {d : Collection} {name : String}
    {member : Container} {v v' : World σ} (sound : v.memory.Sound reg)
    (fits : d.Fits reg v.memory.fresh) (h : d.get remote name v = (.ok member, v')) :
    (∃ serial, member = d.member name serial) ∧
      Keyed.get? name (d.known v'.memory) = some member ∧
      Memory.ChangedAt d.address v.memory v'.memory := by
  obtain ⟨said, trace, hknown⟩ := get_traced remote d name v [] v .start trivial
  rw [h] at trace hknown
  have hget := hknown member rfl
  obtain ⟨later, agree, sound'⟩ := trace.sound sound fits
  have hindexed := sound'.known (fits.mono agree trace.changedAt.fresh)
  obtain ⟨serial, hmember, -⟩ := hindexed.2 name member (Keyed.mem_of_get? hget)
  exact ⟨⟨serial, hmember⟩, hget, trace.changedAt⟩

namespace Session

/-- One step leads to an object of the same session that is linked and one step further. -/
theorem follow_linked {reg : Registry} {path : String} {n m : Node} {step : Step} {v v' : World σ}
    (sound : v.memory.Sound reg) (fits : n.Fits reg v.memory.fresh)
    (linked : n.home.Linked v.memory) (h : follow remote path n step v = (.ok m, v')) :
    m.home.Linked v'.memory ∧ m.steps = n.steps ++ [step] ∧ m.home.session = n.home.session := by
  rcases follow_cases remote path n step with
    ⟨c, d, name, rfl, hoffers, hremote, hname, heq⟩ |
    ⟨c, m', rfl, hoffers, hremote, hname, heq⟩ | heq
  · have hd : d.Fits reg v.memory.fresh := Container.Fits.offers fits hoffers
    obtain rfl := hoffers.owner_of_collection
    obtain ⟨type, name'⟩ := step
    obtain rfl : name' = some name := hname
    obtain rfl : d.descriptor.remote = type := hremote
    rw [heq, map_run, Prod.mk.injEq] at h
    obtain ⟨hm, rfl⟩ := h
    obtain ⟨member, hmember, rfl⟩ := map_eq_ok_iff.1 hm
    obtain ⟨⟨serial, rfl⟩, hget, changed⟩ :=
      Collection.member_of_get sound hd (Prod.ext hmember rfl)
    have hbelow : d.owner.address.length ≤ d.address.length := by simp [Collection.address]
    exact ⟨⟨Container.Linked.of_changedAt linked changed hbelow, hget⟩, rfl, rfl⟩
  · rw [heq, pure_run, Prod.mk.injEq, Except.ok.injEq] at h
    obtain ⟨rfl, rfl⟩ := h
    refine ⟨hoffers.linked linked, ?_, hoffers.session⟩
    rw [hoffers.steps, hremote, ← hname]
    rfl
  · rw [heq, throw_run] at h
    cases h

theorem linked_of_kept {memory : Memory} {key : String} {s : Session}
    (kept : Keyed.get? key memory.sessions = some s) : s.root.Linked memory :=
  List.mem_append_left _ (List.mem_map.2 ⟨(key, s), Keyed.mem_of_get? kept, rfl⟩)

/-- What each step keeps is kept by all steps. The induction carries along that memory is sound and
that the object is as the registry has it. -/
theorem foldlM_follow_keeps {path : String} {motive : Path → Node → World σ → Prop}
    (keeps : ∀ {reg front n step v m v'}, v.memory.Sound reg → n.Fits reg v.memory.fresh →
      motive front n v → follow remote path n step v = (.ok m, v') → motive (front ++ [step]) m v')
    (front : Path) {steps : Path} {reg : Registry} {n m : Node} {v v' : World σ}
    (sound : v.memory.Sound reg) (fits : n.Fits reg v.memory.fresh) (start : motive front n v)
    (h : steps.foldlM (follow remote path) n v = (.ok m, v')) : motive (front ++ steps) m v' := by
  induction steps generalizing reg front n v with
  | nil =>
    rw [List.foldlM_nil, pure_run, Prod.mk.injEq, Except.ok.injEq] at h
    obtain ⟨rfl, rfl⟩ := h
    rwa [List.append_nil]
  | cons step rest ih =>
    rw [List.foldlM_cons] at h
    rcases hfirst : follow remote path n step v with ⟨fault | next, u⟩
    · rw [bind_run_error hfirst] at h
      cases h
    · rw [bind_run_ok hfirst] at h
      obtain ⟨later, grows, hnext⟩ := follow_sane remote path n step reg v sound fits
      rw [hfirst] at grows hnext
      have hall := ih _ grows.sound (hnext next rfl).1 (keeps sound fits start hfirst) h
      rwa [List.append_assoc] at hall

theorem foldlM_follow_linked {path : String} {steps : Path} {reg : Registry} {n m : Node}
    {v v' : World σ} (sound : v.memory.Sound reg) (fits : n.Fits reg v.memory.fresh)
    (linked : n.home.Linked v.memory)
    (h : steps.foldlM (follow remote path) n v = (.ok m, v')) :
    m.home.Linked v'.memory ∧ m.steps = n.steps ++ steps := by
  refine foldlM_follow_keeps
    (motive := fun front m v => m.home.Linked v.memory ∧ m.steps = n.steps ++ front)
    (fun sound fits ⟨linked, hsteps⟩ hstep => ?_) [] sound fits ⟨linked, (List.append_nil _).symm⟩ h
  obtain ⟨hlinked, hnext, -⟩ := follow_linked sound fits linked hstep
  exact ⟨hlinked, by rw [hnext, hsteps, List.append_assoc]⟩

/-- What a path leads to has this path. -/
theorem path_of_resolve {reg : Registry} {w w' : World σ} {s : Session} {path : String} {n : Node}
    (sound : w.memory.Sound reg) (fits : s.root.Fits reg w.memory.fresh)
    (linked : s.root.Linked w.memory) (h : s.resolve remote path w = (.ok n, w')) :
    n.path w'.memory = .ok path := by
  rcases resolve_cases remote s path with ⟨rest, hcheck, hparse, heq⟩ | ⟨fault, heq⟩
  · rw [heq] at h
    obtain ⟨hlinked, hsteps⟩ := foldlM_follow_linked (n := .container s.root) sound fits linked h
    have hread : (Node.container s.root).steps ++ rest = Path.parse path := hparse.symm
    rw [Node.path_of_rooted hlinked.rooted, Node.place, hsteps, hread,
      Path.render_parse_of_check hcheck hparse]
  · rw [heq, throw_run] at h
    cases h

end Session

end SettingsTree
