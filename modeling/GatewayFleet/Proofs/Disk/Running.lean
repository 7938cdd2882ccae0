import GatewayFleet.Disk
import GatewayFleet.Proofs.Tree.Keeping

/-! Steps on a tree, run one after the other. Steps that only touch some entries and are only ever
refused by the system stay so when they are put together. -/

namespace GatewayFleet.Disk

open GatewayFleet.Tree (Grows Keeps Opens)

variable {α β : Type} {d : Disk α} {f : α → Disk β} {t t' : Tree} {ls ls' : List Location}
variable {p : Path} {l : Location} {action : Action}

theorem run_ask (q : Tree → Except Failure α) (t : Tree) : run (ask q) t = (q t, t) := rfl

theorem run_bind (d : Disk α) (f : α → Disk β) (t : Tree) :
    run (d >>= f) t =
      match run d t with
      | (.ok a, u) => run (f a) u
      | (.error e, u) => (.error e, u) := by
  change (match run d t with | (outcome, u) => (ExceptT.bindCont f outcome).run u) = _
  rcases run d t with ⟨outcome, u⟩
  cases outcome <;> rfl

theorem run_bind_of_ok {a : α} {u : Tree} (h : run d t = (.ok a, u)) :
    run (d >>= f) t = run (f a) u := by
  rw [run_bind, h]

theorem run_bind_of_error {e : Failure} {u : Tree} (h : run d t = (.error e, u)) :
    run (d >>= f) t = (.error e, u) := by
  rw [run_bind, h]

theorem run_bind_eq_ok {b : β} (h : run (d >>= f) t = (.ok b, t')) :
    ∃ a u, run d t = (.ok a, u) ∧ run (f a) u = (.ok b, t') := by
  rcases hd : run d t with ⟨outcome, u⟩
  cases outcome with
  | error e =>
    rw [run_bind_of_error hd] at h
    cases h
  | ok a =>
    rw [run_bind_of_ok hd] at h
    exact ⟨a, u, rfl, h⟩

theorem run_bind_eq_error {e : Failure} (h : run (d >>= f) t = (.error e, t')) :
    run d t = (.error e, t') ∨ ∃ a u, run d t = (.ok a, u) ∧ run (f a) u = (.error e, t') := by
  rcases hd : run d t with ⟨outcome, u⟩
  cases outcome with
  | error e' =>
    rw [run_bind_of_error hd] at h
    obtain ⟨he, rfl⟩ := Prod.mk.inj h
    exact .inl (by rw [Except.error.inj he])
  | ok a =>
    rw [run_bind_of_ok hd] at h
    exact .inr ⟨a, u, rfl, h⟩

theorem run_change (action : Action) (p : Path) (step : Tree → Except OsError Tree) (t : Tree) :
    run (change action p step) t =
      match step t with
      | .ok u => (.ok (), u)
      | .error reason => (.error (.refused action p reason), t) := by
  unfold change
  rw [run_bind]
  change run (match step t with | .ok u => set u | .error reason => throw _) t = _
  cases step t <;> rfl

theorem run_makeDirectories (action : Action) (p : Path) (t : Tree) :
    run (makeDirectories action p) t =
      ((t.mkdirs p).1.mapError (.refused action p), (t.mkdirs p).2) := by
  have hget : run (get : Disk Tree) t = (.ok t, t) := rfl
  unfold makeDirectories
  rw [run_bind_of_ok hget]
  dsimp only
  rcases t.mkdirs p with ⟨result, u⟩
  cases result <;> rfl

theorem run_requireDirectory (action : Action) (p : Path) (t : Tree) :
    run (requireDirectory action p) t =
      if t.isPresent p then (.ok (), t) else run (makeDirectories action p) t := by
  unfold requireDirectory
  rw [run_bind]
  change run (if !t.isPresent p then _ else _) t = _
  cases t.isPresent p <;> rfl

theorem run_moveOver (temporary target : Path) (t : Tree) :
    run (moveOver temporary target) t =
      match t.rename temporary target with
      | .ok u => (.ok (), u)
      | .error reason => (.error (.refused .replace target reason), t.remove temporary) := by
  unfold moveOver
  rw [run_bind]
  change run (match t.rename temporary target with | .ok u => set u | .error reason => _) t = _
  cases t.rename temporary target <;> rfl

theorem opens_of_makeDirectories (h : run (makeDirectories action p) t = (.ok (), t')) :
    Keeps [] t t' ∧ Opens t' p p.locate := by
  rw [run_makeDirectories] at h
  obtain ⟨hok, rfl⟩ := Prod.mk.inj h
  exact ⟨Tree.mkdirs_keeps t p, Tree.opens_of_mkdirs (Outcome.mapError_eq_ok hok)⟩

theorem makeDirectories_of_opens (h : Opens t p l) :
    run (makeDirectories action p) t = (.ok (), t) := by
  rw [run_makeDirectories, h.mkdirs]
  rfl

theorem requireDirectory_of_opens (h : Opens t p l) :
    run (requireDirectory action p) t = (.ok (), t) := by
  rw [run_requireDirectory, makeDirectories_of_opens h, ite_self]

theorem grows_requireDirectory (action : Action) (p : Path) (t : Tree) :
    Grows p t (run (requireDirectory action p) t).2 := by
  rw [run_requireDirectory, run_makeDirectories]
  split
  · exact .refl p t
  · exact Tree.mkdirs_grows t p

/-- The steps touch no other entries, and nothing but the system stops them. -/
structure Confined (ls : List Location) (d : Disk α) : Prop where
  keeps : ∀ t, Keeps ls t (run d t).2
  io : ∀ t e, (run d t).1 = .error e → e.category = .io

theorem Confined.of_run (h : ∀ t outcome u, run d t = (outcome, u) →
    Keeps ls t u ∧ ∀ e, outcome = .error e → e.category = .io) : Confined ls d :=
  ⟨fun t => (h t _ _ rfl).1, fun t => (h t _ _ rfl).2⟩

theorem confined_pure (ls : List Location) (a : α) : Confined ls (pure a : Disk α) :=
  ⟨fun t => .refl ls t, nofun⟩

theorem Confined.bind (h : Confined ls d) (h' : ∀ a, Confined ls (f a)) :
    Confined ls (d >>= f) := by
  apply Confined.of_run
  intro t outcome u hrun
  rcases hd : run d t with ⟨first, v⟩
  have hfirst := h.keeps t
  rw [hd] at hfirst
  cases first with
  | error e =>
    rw [run_bind_of_error hd] at hrun
    obtain ⟨rfl, rfl⟩ := Prod.mk.inj hrun
    refine ⟨hfirst, fun e' he => ?_⟩
    rw [← Except.error.inj he]
    exact h.io t e (congrArg Prod.fst hd)
  | ok a =>
    rw [run_bind_of_ok hd] at hrun
    have hrest := (h' a).keeps v
    rw [hrun] at hrest
    exact ⟨hfirst.trans hrest, fun e he => (h' a).io v e ((congrArg Prod.fst hrun).trans he)⟩

theorem forM_nil (step : β → Disk Unit) : [].forM step = pure () := rfl

theorem forM_cons (x : β) (xs : List β) (step : β → Disk Unit) :
    (x :: xs).forM step = step x >>= fun _ => xs.forM step := rfl

theorem confined_forM {xs : List β} {step : β → Disk Unit} (h : ∀ x ∈ xs, Confined ls (step x)) :
    Confined ls (xs.forM step) := by
  induction xs with
  | nil => exact confined_pure ls ()
  | cons x xs ih =>
    rw [forM_cons]
    exact (h x List.mem_cons_self).bind fun _ => ih fun y hy => h y (List.mem_cons_of_mem _ hy)

theorem Confined.mono (h : Confined ls d) (hsub : ls ⊆ ls') : Confined ls' d :=
  ⟨fun t => (h.keeps t).mono hsub, h.io⟩

theorem confined_makeDirectories (action : Action) (p : Path) :
    Confined [] (makeDirectories action p) := by
  constructor
  · intro t
    rw [run_makeDirectories]
    exact Tree.mkdirs_keeps t p
  · intro t e he
    rw [run_makeDirectories] at he
    cases hmade : (t.mkdirs p).1 with
    | ok _ =>
      rw [hmade] at he
      cases he
    | error reason =>
      rw [hmade] at he
      rw [← Except.error.inj he]
      rfl

theorem confined_requireDirectory (action : Action) (p : Path) :
    Confined [] (requireDirectory action p) := by
  have hmake := confined_makeDirectories action p
  constructor
  · intro t
    exact (grows_requireDirectory action p t).keeps
  · intro t e he
    rw [run_requireDirectory] at he
    split at he
    · cases he
    · exact hmake.io t e he

end GatewayFleet.Disk
