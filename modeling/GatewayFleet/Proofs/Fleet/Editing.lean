import GatewayFleet.Proofs.Fleet.Registration
import GatewayFleet.Proofs.Fleet.Rereading

/-! Operations that change an instance where it stands, one piece after the other. Nothing takes
pieces back: whatever was changed before a failure stays changed. Every operation that can fail
does so before its first change, hence a failure leaves the instance alone. -/

namespace GatewayFleet.Fleet

/-- Changes of an instance in place, of which the next one may fail. -/
abbrev Editing := ExceptT Failure (StateM Instance)

inductive Answer
  | done
  | removed (a : Agent)
  | pruned (count : Nat)
deriving DecidableEq

def Instance.appoint (i : Instance) (a : Agent) : Instance := { i with agents := i.agents ++ [a] }

def Instance.dismiss (i : Instance) (id : String) : Instance :=
  { i with agents := i.agents.eraseP (·.id = id) }

namespace Editing

def refuseIf (test : Bool) (failure : Failure) : Editing Unit :=
  if test then throw failure else pure ()

def register (a : Account) : Editing Unit := modify fun i => i.register a.channel a.account

def registerAll : List Account → Editing Unit
  | [] => pure ()
  | a :: accounts => do
    register a
    registerAll accounts

def prune : Editing Nat := do
  let i ← get
  set i.prune
  pure i.prunedCount

def add (spec : AgentSpec) : Editing Unit := do
  let id := Text.trim spec.id
  refuseIf (id = "") .blankAgentId
  let i ← get
  refuseIf (i.find? id).isSome (.agentTaken i.id id)
  let accounts ← ofExcept (spec.accounts.mapM Account.parse)
  registerAll accounts
  modify (·.appoint (spec.agent id accounts))

def remove (id : String) (pruned : Bool) : Editing Agent := do
  let i ← get
  match i.find? id with
  | none => throw (.unknownAgent i.id id)
  | some a =>
    modify (·.dismiss id)
    if pruned then discard prune
    pure a

def perform : Operation → Editing Answer
  | .add spec => do
    add spec
    pure .done
  | .remove id pruned => return .removed (← remove id pruned)
  | .register channel account => do
    register ⟨channel, account⟩
    pure .done
  | .prune => return .pruned (← prune)

end Editing

def Operation.step (op : Operation) (i : Instance) : Except Failure Answer × Instance :=
  (Editing.perform op).run.run i

def Instance.after (i : Instance) (op : Operation) : Instance := (op.step i).2

def Instance.afterAll (i : Instance) (ops : List Operation) : Instance := ops.foldl after i

variable {i j : Instance} {op : Operation}

namespace Editing

variable {α β : Type} {x : Editing α} {f : α → Editing β}

theorem run_bind_of_ok {a : α} (h : x.run.run i = (.ok a, j)) :
    (x >>= f).run.run i = (f a).run.run j := by
  change (x.run >>= ExceptT.bindCont f).run i = _
  rw [StateT.run_bind, h]
  rfl

theorem run_bind_of_error {e : Failure} (h : x.run.run i = (.error e, j)) :
    (x >>= f).run.run i = (.error e, j) := by
  change (x.run >>= ExceptT.bindCont f).run i = _
  rw [StateT.run_bind, h]
  rfl

theorem run_refuseIf {test : Bool} (h : test = true) (failure : Failure) (i : Instance) :
    (refuseIf test failure).run.run i = (.error failure, i) := by
  rw [refuseIf, if_pos h]
  rfl

theorem run_refuseIf_not {test : Bool} (h : ¬ test = true) (failure : Failure) (i : Instance) :
    (refuseIf test failure).run.run i = (.ok (), i) := by
  rw [refuseIf, if_neg h]
  rfl

theorem run_ofExcept (result : Except Failure α) (i : Instance) :
    (ofExcept result : Editing α).run.run i = (result, i) := by
  cases result <;> rfl

theorem run_registerAll (i : Instance) (accounts : List Account) :
    (registerAll accounts).run.run i = (.ok (), i.registerAll accounts) := by
  induction accounts generalizing i with
  | nil => rfl
  | cons a accounts ih => exact ih (i.register a.channel a.account)

end Editing

inductive Operation.Effect (i : Instance) : Operation → Instance → Prop
  | add {spec : AgentSpec} {accounts : List Account} (hid : Text.trim spec.id ≠ "")
      (hfree : i.find? (Text.trim spec.id) = none)
      (haccounts : spec.accounts.mapM Account.parse = .ok accounts) :
      Effect i (.add spec)
        ((i.registerAll accounts).appoint (spec.agent (Text.trim spec.id) accounts))
  | remove {id : String} {a : Agent} (hfind : i.find? id = some a) (pruned : Bool) :
      Effect i (.remove id pruned) (if pruned then (i.dismiss id).prune else i.dismiss id)
  | register (channel account : String) :
      Effect i (.register channel account) (i.register channel account)
  | prune : Effect i .prune i.prune

theorem Operation.Effect.apply (h : op.Effect i j) : op.apply i = .ok j := by
  cases h with
  | add hid hfree haccounts =>
    simp only [Operation.apply, Instance.addAgent, if_neg hid, hfree, haccounts]
    rfl
  | remove hfind pruned =>
    simp only [Operation.apply, Instance.removeAgent, hfind]
    rfl
  | register channel account => rfl
  | prune => rfl

theorem Editing.run_add (spec : AgentSpec) (i : Instance) :
    (∃ j, (add spec).run.run i = (.ok (), j) ∧ (Operation.add spec).Effect i j) ∨
      ∃ e, (add spec).run.run i = (.error e, i) ∧ i.addAgent spec = .error e := by
  by_cases hid : Text.trim spec.id = ""
  · refine .inr ⟨.blankAgentId, ?_, ?_⟩
    · exact run_bind_of_error (run_refuseIf (decide_eq_true hid) _ i)
    · simp only [Instance.addAgent, hid]
      rfl
  have hgiven := run_refuseIf_not (mt of_decide_eq_true hid) .blankAgentId i
  cases hfind : i.find? (Text.trim spec.id) with
  | some a =>
    refine .inr ⟨.agentTaken i.id (Text.trim spec.id), ?_, ?_⟩
    · refine (run_bind_of_ok hgiven).trans ((run_bind_of_ok (a := i) rfl).trans ?_)
      exact run_bind_of_error (run_refuseIf (by rw [hfind]; rfl) _ i)
    · simp only [Instance.addAgent, if_neg hid, hfind]
      rfl
  | none =>
    have hnone : ¬ (i.find? (Text.trim spec.id)).isSome = true := by simp [hfind]
    have hfree := run_refuseIf_not hnone (.agentTaken i.id (Text.trim spec.id)) i
    cases hparse : spec.accounts.mapM Account.parse with
    | error e =>
      refine .inr ⟨e, ?_, ?_⟩
      · refine (run_bind_of_ok hgiven).trans ((run_bind_of_ok (a := i) rfl).trans ?_)
        refine (run_bind_of_ok hfree).trans (run_bind_of_error ?_)
        rw [run_ofExcept, hparse]
      · simp only [Instance.addAgent, if_neg hid, hfind, hparse]
        rfl
    | ok accounts =>
      refine .inl ⟨_, ?_, .add hid hfind hparse⟩
      refine (run_bind_of_ok hgiven).trans ((run_bind_of_ok (a := i) rfl).trans ?_)
      refine (run_bind_of_ok hfree).trans ((run_bind_of_ok (a := accounts) (j := i) ?_).trans ?_)
      · rw [run_ofExcept, hparse]
      · exact run_bind_of_ok (run_registerAll i accounts)

theorem Editing.run_remove (id : String) (pruned : Bool) (i : Instance) :
    (∃ a j, (remove id pruned).run.run i = (.ok a, j) ∧ (Operation.remove id pruned).Effect i j) ∨
      ∃ e, (remove id pruned).run.run i = (.error e, i) ∧ i.removeAgent id pruned = .error e := by
  have hget : (remove id pruned).run.run i = _ := run_bind_of_ok (a := i) rfl
  rw [hget]
  cases hfind : i.find? id with
  | none =>
    refine .inr ⟨.unknownAgent i.id id, rfl, ?_⟩
    rw [Instance.removeAgent, hfind]
  | some a =>
    have heffect := Operation.Effect.remove hfind pruned
    cases pruned with
    | false => exact .inl ⟨a, _, rfl, heffect⟩
    | true => exact .inl ⟨a, _, rfl, heffect⟩

/-- A step either changes the instance as its operation says, or fails and changes nothing. -/
theorem Operation.step_cases (op : Operation) (i : Instance) :
    (∃ answer j, op.step i = (.ok answer, j) ∧ op.Effect i j) ∨
      ∃ e, op.step i = (.error e, i) ∧ op.apply i = .error e := by
  cases op with
  | add spec =>
    rcases Editing.run_add spec i with ⟨j, hrun, heffect⟩ | ⟨e, hrun, hfailed⟩
    · exact .inl ⟨.done, j, Editing.run_bind_of_ok hrun, heffect⟩
    · exact .inr ⟨e, Editing.run_bind_of_error hrun, hfailed⟩
  | remove id pruned =>
    rcases Editing.run_remove id pruned i with ⟨a, j, hrun, heffect⟩ | ⟨e, hrun, hfailed⟩
    · exact .inl ⟨.removed a, j, Editing.run_bind_of_ok hrun, heffect⟩
    · refine .inr ⟨e, Editing.run_bind_of_error hrun, ?_⟩
      rw [apply, hfailed]
      rfl
  | register channel account => exact .inl ⟨.done, _, rfl, .register channel account⟩
  | prune => exact .inl ⟨.pruned i.prunedCount, _, rfl, .prune⟩

theorem Operation.apply_eq_ok_iff : op.apply i = .ok j ↔ op.Effect i j := by
  refine ⟨fun h => ?_, Effect.apply⟩
  rcases op.step_cases i with ⟨_, k, -, heffect⟩ | ⟨e, -, hfailed⟩
  · obtain rfl : k = j := Except.ok.inj (heffect.apply.symm.trans h)
    exact heffect
  · cases hfailed.symm.trans h

end GatewayFleet.Fleet
