import GatewayFleet.Proofs.Fleet.Editing
import GatewayFleet.Proofs.Fleet.Soundness

/-! The books of an instance over a run of operations. Identifiers of agents stay apart, agents
that are not named stay as they are, and no account is lost while an agent that is bound to it is
there. -/

namespace GatewayFleet.Fleet

variable {i j : Instance} {op : Operation} {a : Agent} {b : Binding}

structure Instance.Ordered (i : Instance) : Prop where
  canonical : i.Canonical
  ids : (i.agents.map (·.id)).Nodup

def Operation.named : Operation → Option String
  | .add spec => some (Text.trim spec.id)
  | .remove id _ => some id
  | .register _ _ | .prune => none

@[simp] theorem Instance.agents_appoint (i : Instance) (a : Agent) :
    (i.appoint a).agents = i.agents ++ [a] := rfl

@[simp] theorem Instance.agents_dismissed (i : Instance) (id : String) (pruned : Bool) :
    (if pruned then (i.dismiss id).prune else i.dismiss id).agents =
      i.agents.eraseP (·.id = id) := by
  cases pruned <;> rfl

theorem find?_eq_none_iff {id : String} : i.find? id = none ↔ id ∉ i.agents.map (·.id) := by
  simp [Instance.find?]

theorem Operation.Effect.nodup_ids (h : op.Effect i j) (hi : (i.agents.map (·.id)).Nodup) :
    (j.agents.map (·.id)).Nodup := by
  cases h with
  | @add spec accounts hid hfree haccounts =>
    have hnew := find?_eq_none_iff.1 hfree
    rw [Instance.agents_appoint, i.agents_registerAll, List.map_append]
    refine List.nodup_append.2 ⟨hi, List.nodup_singleton _, ?_⟩
    intro id hmem id' hmem' heq
    obtain rfl : id' = Text.trim spec.id := List.mem_singleton.1 hmem'
    exact hnew (heq ▸ hmem)
  | @remove id a hfind pruned =>
    rw [Instance.agents_dismissed]
    exact hi.sublist (List.eraseP_sublist.map _)
  | register channel account => exact hi
  | prune => exact hi

theorem filter_eraseP {α : Type} {test named : α → Bool}
    (h : ∀ x, named x = true → test x = false) (xs : List α) :
    (xs.eraseP named).filter test = xs.filter test := by
  induction xs with
  | nil => rfl
  | cons x xs ih =>
    cases hnamed : named x with
    | true => rw [List.eraseP_cons_of_pos hnamed, List.filter_cons_of_neg (by simp [h x hnamed])]
    | false =>
      rw [List.eraseP_cons_of_neg (by simp [hnamed]), List.filter_cons, List.filter_cons, ih]

theorem Operation.Effect.others (h : op.Effect i j) (test : Agent → Bool)
    (htest : ∀ a, test a = true → op.named ≠ some a.id) :
    j.agents.filter test = i.agents.filter test := by
  cases h with
  | @add spec accounts hid hfree haccounts =>
    have hnew : test (spec.agent (Text.trim spec.id) accounts) = false := by
      rw [Bool.eq_false_iff]
      exact fun hpass => htest _ hpass rfl
    rw [Instance.agents_appoint, i.agents_registerAll, List.filter_append,
      List.filter_singleton, hnew]
    exact List.append_nil _
  | @remove id a hfind pruned =>
    rw [Instance.agents_dismissed]
    refine filter_eraseP (fun a ha => ?_) _
    rw [Bool.eq_false_iff]
    exact fun hpass => htest a hpass (congrArg some (of_decide_eq_true ha).symm)
  | register channel account => rfl
  | prune => rfl

theorem Instance.eq_of_id {a' : Agent} (hi : (i.agents.map (·.id)).Nodup) (ha : a ∈ i.agents)
    (ha' : a' ∈ i.agents) (hid : a'.id = a.id) : a' = a :=
  List.inj_on_of_nodup_map hi ha' ha hid

theorem Operation.Effect.mem_agents (h : op.Effect i j) (hi : (i.agents.map (·.id)).Nodup)
    (ha : a ∈ i.agents) (hpresent : ∃ a' ∈ j.agents, a'.id = a.id) : a ∈ j.agents := by
  cases h with
  | @add spec accounts hid hfree haccounts =>
    rw [Instance.agents_appoint, i.agents_registerAll]
    exact List.mem_append_left _ ha
  | @remove id left hfind pruned =>
    rw [Instance.agents_dismissed] at hpresent ⊢
    obtain ⟨a', ha', hid⟩ := hpresent
    obtain rfl := Instance.eq_of_id hi ha (List.mem_of_mem_eraseP ha') hid
    exact ha'
  | register channel account => exact ha
  | prune => exact ha

/-- An account that an agent is bound to before and after an operation keeps its metadata. -/
theorem Operation.Effect.account? {info : Value} (h : op.Effect i j) (ha : a ∈ j.agents)
    (hb : b ∈ a.bindings) (hinfo : i.account? b.channel b.account = some info) :
    j.account? b.channel b.account = some info := by
  cases h with
  | add hid hfree haccounts => exact Instance.account?_registerAll_of_some _ hinfo
  | @remove id left hfind pruned =>
    cases pruned with
    | false => exact hinfo
    | true => exact (Instance.account?_prune_of_mem (i := i.dismiss id) ha hb).trans hinfo
  | register channel account =>
    exact Instance.account?_registerAll_of_some [⟨channel, account⟩] hinfo
  | prune => exact (Instance.account?_prune_of_mem (i := i) ha hb).trans hinfo

theorem Operation.Effect.registersAll (h : op.Effect i j) (ha : a ∈ j.agents)
    (hall : i.RegistersAll a) : j.RegistersAll a := by
  intro b hb
  obtain ⟨info, hinfo⟩ := Option.isSome_iff_exists.1 (hall b hb)
  rw [h.account? ha hb hinfo]
  rfl

theorem AgentSpec.registersAll (spec : AgentSpec) (i : Instance) (id : String)
    (accounts : List Account) :
    ((i.registerAll accounts).appoint (spec.agent id accounts)).RegistersAll
      (spec.agent id accounts) := by
  intro b hb
  obtain ⟨x, hx, rfl⟩ := List.mem_map.1 hb
  have hregistered := i.account?_registerAll accounts x.channel x.account
  rw [if_pos hx] at hregistered
  exact Option.isSome_iff_exists.2 ⟨_, hregistered⟩

theorem Operation.Effect.old_or_registersAll (h : op.Effect i j) (ha : a ∈ j.agents) :
    a ∈ i.agents ∨ j.RegistersAll a := by
  cases h with
  | @add spec accounts hid hfree haccounts =>
    rw [Instance.agents_appoint, i.agents_registerAll] at ha
    rcases List.mem_append.1 ha with hold | hnew
    · exact .inl hold
    · rw [List.mem_singleton.1 hnew]
      exact .inr (spec.registersAll i _ accounts)
  | remove hfind pruned =>
    rw [Instance.agents_dismissed] at ha
    exact .inl (List.mem_of_mem_eraseP ha)
  | register channel account => exact .inl ha
  | prune => exact .inl ha

def Instance.accounts (i : Instance) : List Account :=
  i.channels.flatMap fun m => m.2.accounts.map fun n => ⟨m.1, n.1⟩

theorem mem_accounts {x : Account} (h : ChannelsCanonical i.channels) :
    x ∈ i.accounts ↔ (i.account? x.channel x.account).isSome := by
  simp only [Instance.accounts, List.mem_flatMap, List.mem_map]
  constructor
  · rintro ⟨m, hm, n, hn, rfl⟩
    have hget := Fields.Distinct.get?_of_mem h.sorted.distinct hm
    rw [Instance.account?, hget, Option.bind_some]
    exact Fields.isSome_get?_iff.2 ⟨n, hn, rfl⟩
  · intro hsome
    obtain ⟨info, hinfo⟩ := Option.isSome_iff_exists.1 hsome
    obtain ⟨c, hc, haccount⟩ := Option.bind_eq_some_iff.1 hinfo
    exact ⟨_, Fields.mem_of_get? hc, _, Fields.mem_of_get? haccount, rfl⟩

theorem nodup_accounts (h : ChannelsCanonical i.channels) : i.accounts.Nodup := by
  refine List.nodup_flatMap.2 ⟨?_, ?_⟩
  · intro m hm
    have hkeys := (h.channels m hm).accounts.distinct
    refine List.Nodup.of_map Account.account ?_
    rw [List.map_map]
    exact hkeys
  · have hchannels : i.channels.Pairwise fun m n => m.1 ≠ n.1 :=
      List.pairwise_map.1 h.sorted.distinct
    refine hchannels.imp fun {m n} hne => ?_
    intro x hx hx'
    obtain ⟨p, -, rfl⟩ := List.mem_map.1 hx
    obtain ⟨q, -, heq⟩ := List.mem_map.1 hx'
    exact hne (Account.mk.inj heq).1.symm

theorem accountCount_eq (i : Instance) : i.accountCount = i.accounts.length := by
  have hfold (cs : Fields Channel) (n : Nat) :
      cs.foldl (fun n m => n + m.2.accounts.length) n =
        n + (cs.flatMap fun m => m.2.accounts.map fun n => (⟨m.1, n.1⟩ : Account)).length := by
    induction cs generalizing n with
    | nil => rfl
    | cons m cs ih =>
      rw [List.foldl_cons, ih, List.flatMap_cons, List.length_append, List.length_map]
      omega
  exact (hfold i.channels 0).trans (Nat.zero_add _)

theorem accounts_prune (i : Instance) :
    i.prune.accounts = i.accounts.filter fun x => accountKey x.channel x.account ∈ i.boundKeys := by
  rw [Instance.accounts, Instance.accounts, List.filter_flatMap, Instance.prune, List.flatMap_map]
  congr 1
  funext m
  rw [List.filter_map, Channel.keep]
  simp only [List.contains_eq_mem]
  rfl

/-- Pruning counts the accounts that are registered before and not afterwards. -/
theorem prunedCount_eq (h : ChannelsCanonical i.channels) : ∃ gone : List Account,
    gone.Nodup ∧ i.prunedCount = gone.length ∧
    ∀ x, x ∈ gone ↔ (i.account? x.channel x.account).isSome ∧
      i.prune.account? x.channel x.account = none := by
  refine ⟨i.accounts.filter fun x => !decide (accountKey x.channel x.account ∈ i.boundKeys),
    (nodup_accounts h).filter _, ?_, ?_⟩
  · rw [Instance.prunedCount, accountCount_eq, accountCount_eq, accounts_prune]
    have hsplit := List.length_eq_length_filter_add (l := i.accounts)
      (fun x => decide (accountKey x.channel x.account ∈ i.boundKeys))
    omega
  · intro x
    rw [List.mem_filter, mem_accounts h, Instance.account?_prune]
    by_cases hbound : accountKey x.channel x.account ∈ i.boundKeys
    · simp [hbound, Option.isSome_iff_ne_none]
    · simp [hbound, Option.isSome_iff_ne_none]

theorem Operation.after_cases (op : Operation) (i : Instance) :
    op.Effect i (i.after op) ∨ i.after op = i := by
  rcases op.step_cases i with ⟨answer, j, hstep, heffect⟩ | ⟨e, hstep, -⟩
  · rw [Instance.after, hstep]
    exact .inl heffect
  · rw [Instance.after, hstep]
    exact .inr rfl

theorem Instance.Ordered.after (h : i.Ordered) (op : Operation) : (i.after op).Ordered := by
  rcases op.after_cases i with heffect | hsame
  · exact ⟨h.canonical.apply heffect.apply, heffect.nodup_ids h.ids⟩
  · rw [hsame]
    exact h

theorem Instance.Ordered.afterAll (h : i.Ordered) (ops : List Operation) :
    (i.afterAll ops).Ordered := by
  induction ops generalizing i with
  | nil => exact h
  | cons op ops ih => exact ih (h.after op)

theorem Instance.others_after (i : Instance) (op : Operation) (test : Agent → Bool)
    (htest : ∀ a, test a = true → op.named ≠ some a.id) :
    (i.after op).agents.filter test = i.agents.filter test := by
  rcases op.after_cases i with heffect | hsame
  · exact heffect.others test htest
  · rw [hsame]

/-- What the books of an instance promise, from any state that is reached. -/
structure Instance.Kept (i : Instance) : Prop where
  ids_filled : ∀ a ∈ i.agents, Filled a.id
  ids_distinct : (i.agents.map (·.id)).Nodup
  applied : ∀ op : Operation, op.apply i = (op.step i).1.map fun _ => i.after op
  failed : ∀ (op : Operation) e, (op.step i).1 = .error e → i.after op = i
  others : ∀ (op : Operation),
    (i.after op).agents.filter (fun a => op.named ≠ some a.id) =
      i.agents.filter (fun a => op.named ≠ some a.id)
  bound : ∀ ops, ∀ a ∈ i.agents, (∀ past, past <+: ops →
      ∃ a' ∈ (i.afterAll past).agents, a'.id = a.id) →
    a ∈ (i.afterAll ops).agents ∧ ∀ b ∈ a.bindings, ∀ info,
      i.account? b.channel b.account = some info →
        (i.afterAll ops).account? b.channel b.account = some info
  added : ∀ spec answer, ((Operation.add spec).step i).1 = .ok answer → ∀ ops,
    ∀ a ∈ ((i.after (.add spec)).afterAll ops).agents, a.id = Text.trim spec.id →
      ((i.after (.add spec)).afterAll ops).RegistersAll a
  pruned : ∃ gone : List Account, gone.Nodup ∧
    (∀ x, x ∈ gone ↔ (i.account? x.channel x.account).isSome ∧
      (i.after .prune).account? x.channel x.account = none) ∧
    (Operation.prune.step i).1 = .ok (.pruned gone.length)

theorem Instance.Ordered.bound (h : i.Ordered) (ops : List Operation) (ha : a ∈ i.agents)
    (hpresent : ∀ past, past <+: ops → ∃ a' ∈ (i.afterAll past).agents, a'.id = a.id) :
    a ∈ (i.afterAll ops).agents ∧ ∀ b ∈ a.bindings, ∀ info,
      i.account? b.channel b.account = some info →
        (i.afterAll ops).account? b.channel b.account = some info := by
  induction ops generalizing i with
  | nil => exact ⟨ha, fun b _ info hinfo => hinfo⟩
  | cons op ops ih =>
    have hthere := hpresent [op] (List.prefix_cons_iff.2 (.inr ⟨[], rfl, List.nil_prefix⟩))
    have hlater : ∀ past, past <+: ops →
        ∃ a' ∈ ((i.after op).afterAll past).agents, a'.id = a.id :=
      fun past hpast => hpresent (op :: past) (List.cons_prefix_cons.2 ⟨rfl, hpast⟩)
    rcases op.after_cases i with heffect | hsame
    · have hstays : a ∈ (i.after op).agents := heffect.mem_agents h.ids ha hthere
      obtain ⟨hmem, hkept⟩ := ih (h.after op) hstays hlater
      exact ⟨hmem, fun b hb info hinfo => hkept b hb info (heffect.account? hstays hb hinfo)⟩
    · have hunchanged : i.afterAll (op :: ops) = i.afterAll ops := by
        rw [Instance.afterAll, List.foldl_cons, hsame]
        rfl
      rw [hsame] at hlater
      rw [hunchanged]
      exact ih h ha hlater

def Instance.Covers (i : Instance) (id : String) : Prop :=
  ∀ a ∈ i.agents, a.id = id → i.RegistersAll a

theorem Instance.Covers.after {id : String} (h : i.Covers id) (op : Operation) :
    (i.after op).Covers id := by
  rcases op.after_cases i with heffect | hsame
  · intro a ha hid
    rcases heffect.old_or_registersAll ha with hold | hnew
    · exact heffect.registersAll ha (h a hold hid)
    · exact hnew
  · rw [hsame]
    exact h

theorem Instance.Covers.afterAll {id : String} (h : i.Covers id) (ops : List Operation) :
    (i.afterAll ops).Covers id := by
  induction ops generalizing i with
  | nil => exact h
  | cons op ops ih => exact ih (h.after op)

theorem AgentSpec.covers {spec : AgentSpec} {answer : Answer}
    (h : ((Operation.add spec).step i).1 = .ok answer) :
    (i.after (.add spec)).Covers (Text.trim spec.id) := by
  rcases (Operation.add spec).step_cases i with ⟨answer', j, hstep, heffect⟩ | ⟨e, hstep, -⟩
  · rw [Instance.after, hstep]
    intro a ha hid
    rcases heffect.old_or_registersAll ha with hold | hnew
    · cases heffect with
      | add _ hfree _ => exact absurd (List.mem_map.2 ⟨a, hold, hid⟩) (find?_eq_none_iff.1 hfree)
    · exact hnew
  · rw [hstep] at h
    cases h

theorem Instance.Ordered.kept (h : i.Ordered) : i.Kept where
  ids_filled := fun a ha => (h.canonical.agents a ha).id
  ids_distinct := h.ids
  applied := by
    intro op
    rcases op.step_cases i with ⟨answer, j, hstep, heffect⟩ | ⟨e, hstep, hfailed⟩
    · rw [Instance.after, hstep, heffect.apply]
      rfl
    · rw [hstep, hfailed]
      rfl
  failed := by
    intro op e hfailed
    rcases op.step_cases i with ⟨answer, j, hstep, -⟩ | ⟨e', hstep, -⟩
    · rw [hstep] at hfailed
      cases hfailed
    · rw [Instance.after, hstep]
  others := fun op => i.others_after op _ fun a => of_decide_eq_true
  bound := fun ops a ha hpresent => h.bound ops ha hpresent
  added := fun spec answer hadded ops => (AgentSpec.covers hadded).afterAll ops
  pruned := by
    obtain ⟨gone, hnodup, hcount, hgone⟩ := prunedCount_eq h.canonical.channels
    have hanswer : (Operation.prune.step i).1 = .ok (.pruned i.prunedCount) := rfl
    exact ⟨gone, hnodup, hgone, hcount ▸ hanswer⟩

/-- From an instance of an admitted fleet, every run of operations keeps the books. -/
theorem books_kept {tree : Tree} {dir : Path} {v : Value} {inv : Inventory}
    (h : Inventory.ofValue? tree dir v = .ok inv) (hi : i ∈ inv.instances)
    (ops : List Operation) : (i.afterAll ops).Kept := by
  obtain ⟨fs, -, hwritten, -, hfree⟩ := ofValue?_eq_ok_iff.1 h
  have hordered : i.Ordered :=
    ⟨hwritten.canonical.instances i hi, (hfree.agents i hi).nodup_ids⟩
  exact (hordered.afterAll ops).kept

def pairRun : List Operation :=
  [.add ⟨" eve ", .human, ["slack: e1"], [], ["faq"], none⟩,
    .add ⟨"ada", .usecase, ["irc:eve"], [], [], none⟩,
    .register "irc" "late", .remove "ada" true, .prune]

theorem books_kept_pair :
    Inventory.ofValue? pairTree pairDir pairDocument = .ok pairFleet ∧
      pairEast ∈ pairFleet.instances ∧ (pairEast.afterAll pairRun).Kept ∧
      (pairEast.afterAll pairRun).agents.map (·.id) = ["bob", "eve"] ∧
      (pairEast.afterAll pairRun).accounts = [⟨"irc", "bob"⟩, ⟨"slack", "e1"⟩] := by
  have hmem : pairEast ∈ pairFleet.instances := .head _
  have hkept := books_kept ofValue?_pair hmem pairRun
  exact ⟨ofValue?_pair, hmem, hkept, by decide +kernel, by decide +kernel⟩

end GatewayFleet.Fleet
