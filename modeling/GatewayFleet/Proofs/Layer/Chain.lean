import GatewayFleet.Proofs.Layer.Reachability

/-! One chain of open files for a whole load. Every call works on the same chain: it puts its file
at the end before it turns to the includes and takes it off behind them. A call that succeeds gives
the chain back as it was, so each call meets the files that wait for it and no others. -/

namespace GatewayFleet.Layer

variable {t : Tree} {n : Nat} {chain left : List Location} {l : Location} {layer : Layer}
  {failure : Failure} {α β : Type}

/-- A computation on the shared chain. A failure leaves the chain as it is at that moment; there is
no result at all where files are opened deeper than allowed. -/
abbrev Chained := ExceptT Failure (StateT (List Location) Option)

def overlayWith (load : Location → Chained Value) (base : Value) (l : Location) :
    Chained Value := do
  let included ← load l
  return base.merge included

def loadOnChain (t : Tree) : Nat → Location → Chained Value
  | 0, _ => ExceptT.mk fun _ => none
  | n + 1, l => do
    let chain ← get
    if l ∈ chain then throw (.includeCycle chain l)
    else
      match readAt t l with
      | .error failure => throw failure
      | .ok none => throw (.missing (if chain.isEmpty then .layer else .includedLayer) l.toPath)
      | .ok (some layer) => do
        modify (· ++ [l])
        let base ← (targets l layer).foldlM (overlayWith (loadOnChain t n)) (.mapping [])
        modify List.dropLast
        return base.merge (.mapping layer.body)

theorem Chained.bind_of_ok {x : Chained α} {f : α → Chained β} {a : α}
    (h : x chain = some (.ok a, left)) : (x >>= f) chain = f a left := by
  simp [bind, ExceptT.bind, ExceptT.mk, StateT.bind, ExceptT.bindCont, h]

theorem Chained.bind_of_error {x : Chained α} {f : α → Chained β}
    (h : x chain = some (.error failure, left)) :
    (x >>= f) chain = some (.error failure, left) := by
  simp [bind, ExceptT.bind, ExceptT.mk, StateT.bind, ExceptT.bindCont, h]
  rfl

/-- What a call makes of the chain: after a success it is the chain from before, and a failure
leaves the files on it that were opened on the way, which are those a cycle is reported with. -/
structure Leaves (chain : List Location) (outcome : Except Failure α) (left : List Location) :
    Prop where
  extended : chain <+: left
  restored : ∀ a, outcome = .ok a → left = chain
  reported : ∀ opened again, outcome = .error (.includeCycle opened again) → left = opened

theorem Leaves.ok (chain : List Location) (a : α) : Leaves chain (.ok a) chain where
  extended := List.prefix_rfl
  restored _ _ := rfl
  reported := nofun

theorem Leaves.stopped (h : ∀ opened again, failure ≠ .includeCycle opened again)
    (chain : List Location) : Leaves (α := α) chain (.error failure) chain where
  extended := List.prefix_rfl
  restored := nofun
  reported opened again heq := absurd (Except.error.inj heq) (h opened again)

theorem Leaves.cycle (chain : List Location) (l : Location) :
    Leaves (α := α) chain (.error (.includeCycle chain l)) chain where
  extended := List.prefix_rfl
  restored := nofun
  reported _ _ heq := (Failure.includeCycle.inj (Except.error.inj heq)).1

theorem Leaves.error {before : List Location}
    (h : Leaves (α := α) chain (.error failure) left) (hbefore : before <+: chain) :
    Leaves (α := β) before (.error failure) left where
  extended := hbefore.trans h.extended
  restored := nofun
  reported opened again heq := h.reported opened again (congrArg _ (Except.error.inj heq))

def Yields (x : Chained α) (chain : List Location) (outcome : Except Failure α) : Prop :=
  ∃ left, x chain = some (outcome, left) ∧ Leaves chain outcome left

theorem yields_overlays {f : Location → Chained Value} {g : Location → Except Failure Value}
    {ms : List Location} (h : ∀ m ∈ ms, Yields (f m) chain (g m)) (base : Value) :
    Yields (ms.foldlM (overlayWith f) base) chain
      ((ms.mapM g).map fun below => below.foldl Value.merge base) := by
  induction ms generalizing base with
  | nil => exact ⟨chain, rfl, .ok chain base⟩
  | cons m ms ih =>
    obtain ⟨hm, hms⟩ := List.forall_mem_cons.1 h
    obtain ⟨left, hrun, hleaves⟩ := hm
    rw [List.foldlM_cons]
    cases hg : g m with
    | error failure =>
      rw [hg] at hrun hleaves
      rw [Outcome.mapM_cons_error ms hg]
      exact ⟨left, Chained.bind_of_error (Chained.bind_of_error hrun),
        hleaves.error List.prefix_rfl⟩
    | ok v =>
      -- the next include is loaded on the chain that the first one gives back
      rw [hg] at hrun hleaves
      obtain rfl := hleaves.restored v rfl
      obtain ⟨left', hrest, hleaves'⟩ := ih hms (base.merge v)
      have hfirst : overlayWith f base m left = some (.ok (base.merge v), left) :=
        Chained.bind_of_ok hrun
      have houtcome : (((m :: ms).mapM g).map fun below => below.foldl Value.merge base) =
          ((ms.mapM g).map fun below => below.foldl Value.merge (base.merge v)) := by
        rw [Outcome.mapM_cons_ok ms hg]
        cases ms.mapM g <;> rfl
      rw [houtcome]
      exact ⟨left', (Chained.bind_of_ok hfirst).trans hrest, hleaves'⟩

theorem loadOnChain_opened (n : Nat) (h : l ∈ chain) :
    loadOnChain t (n + 1) l chain = some (.error (.includeCycle chain l), chain) := by
  rw [loadOnChain, Chained.bind_of_ok (a := chain) rfl, if_pos h]
  rfl

theorem loadOnChain_error (n : Nat) (hl : l ∉ chain) (h : readAt t l = .error failure) :
    loadOnChain t (n + 1) l chain = some (.error failure, chain) := by
  rw [loadOnChain, Chained.bind_of_ok (a := chain) rfl, if_neg hl, h]
  rfl

theorem loadOnChain_missing (n : Nat) (hl : l ∉ chain) (h : readAt t l = .ok none) :
    loadOnChain t (n + 1) l chain =
      some (.error (.missing (if chain.isEmpty then .layer else .includedLayer) l.toPath),
        chain) := by
  rw [loadOnChain, Chained.bind_of_ok (a := chain) rfl, if_neg hl, h]
  rfl

theorem loadOnChain_layer (n : Nat) (hl : l ∉ chain) (h : readAt t l = .ok (some layer)) :
    loadOnChain t (n + 1) l chain =
      ((targets l layer).foldlM (overlayWith (loadOnChain t n)) (.mapping []) >>= fun base => do
        modify List.dropLast
        return base.merge (.mapping layer.body)) (chain ++ [l]) := by
  rw [loadOnChain, Chained.bind_of_ok (a := chain) rfl, if_neg hl, h]
  exact Chained.bind_of_ok (a := ()) rfl

theorem pop_concat (chain : List Location) (l : Location) :
    (modify List.dropLast : Chained Unit) (chain ++ [l]) = some (.ok (), chain) := by
  have hpop : (modify List.dropLast : Chained Unit) (chain ++ [l]) =
      some (.ok (), (chain ++ [l]).dropLast) := rfl
  rw [hpop, List.dropLast_concat]

theorem yields_of_includes (hl : l ∉ chain) (hread : readAt t l = .ok (some layer))
    (hall : ∀ m ∈ targets l layer,
      Yields (loadOnChain t n m) (chain ++ [l]) (loadInto t (chain ++ [l]) m)) :
    Yields (loadOnChain t (n + 1) l) chain (loadInto t chain l) := by
  obtain ⟨left, hrun, hleaves⟩ := yields_overlays hall (.mapping [])
  rw [loadInto_layer hl (readAt_eq_some_iff.1 hread)]
  cases hbelow : (targets l layer).mapM (loadInto t (chain ++ [l])) with
  | error failure =>
    rw [hbelow] at hrun hleaves
    refine ⟨left, ?_, hleaves.error (List.prefix_append chain [l])⟩
    rw [loadOnChain_layer n hl hread, Chained.bind_of_error hrun]
    rfl
  | ok below =>
    rw [hbelow] at hrun hleaves
    obtain rfl := hleaves.restored _ rfl
    have hvalue : Value.mergeAll (below ++ [.mapping layer.body]) =
        (below.foldl Value.merge (.mapping [])).merge (.mapping layer.body) :=
      List.foldl_concat ..
    refine ⟨chain, ?_, .ok chain _⟩
    rw [loadOnChain_layer n hl hread, Chained.bind_of_ok hrun,
      Chained.bind_of_ok (pop_concat chain l), Except.map, hvalue]
    rfl

/-- On the shared chain a load comes to what it comes to with the open files given to it. -/
theorem yields_loadOnChain (h : unopened t chain < n) (l : Location) :
    Yields (loadOnChain t n l) chain (loadInto t chain l) := by
  induction n generalizing chain l with
  | zero => omega
  | succ n ih =>
    by_cases hl : l ∈ chain
    · rw [loadInto_opened hl]
      exact ⟨chain, loadOnChain_opened n hl, .cycle chain l⟩
    · cases hread : readAt t l with
      | error failure =>
        rw [loadInto_error hl hread]
        exact ⟨chain, loadOnChain_error n hl hread, .stopped (readAt_not_cycle hread) chain⟩
      | ok found =>
        cases found with
        | none =>
          rw [loadInto_missing hl hread]
          refine ⟨chain, loadOnChain_missing n hl hread, .stopped (fun _ _ heq => ?_) chain⟩
          cases heq
        | some layer =>
          obtain ⟨content, hcontent⟩ := content?_of_readAt hread
          have hfewer : unopened t (chain ++ [l]) < n := by
            have hlt := unopened_lt hl hcontent
            omega
          exact yields_of_includes hl hread fun m _ => ih hfewer m

theorem exists_loadOnChain_eq (t : Tree) (l : Location) : ∃ left,
    loadOnChain t (t.entries.length + 1) l [] = some (load t l, left) ∧
      Leaves [] (load t l) left :=
  yields_loadOnChain (unopened_lt_length t) l

end GatewayFleet.Layer
