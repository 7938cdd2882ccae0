import GatewayFleet.Proofs.Policy.Compliance
import GatewayFleet.Proofs.Text.Distinct

/-! What the policy of a wider scope says stays in force below it. The lists of a narrower scope go
on where those of the wider one end, so nothing that a declaration adds takes an entry off a list,
and an item that is denied for an instance is denied for each of its agents. -/

namespace GatewayFleet

open Policy (Fragment Subject Offence Violation)

namespace Policy

/-- The lists of one policy begin with those of another. The allowed skill sources are not among
them: a list of sources takes the place of the built-in ones. -/
structure Inherits (p wider : Policy) : Prop where
  deny : ∀ s, (wider.rule s).deny <+: (p.rule s).deny
  allow : ∀ s, s ≠ .skillSource → (wider.rule s).allow <+: (p.rule s).allow

theorem declared_append (wider narrower : List (Option Fragment)) (group key : String) :
    declared (wider ++ narrower) group key =
      declared wider group key ++ declared narrower group key :=
  List.flatMap_append

theorem distinct_declared_prefix (wider narrower : List (Option Fragment)) (group key : String) :
    Text.distinct (declared wider group key) <+:
      Text.distinct (declared (wider ++ narrower) group key) := by
  rw [declared_append]
  exact Text.distinct_prefix_append _ _

theorem layered_inherits (wider narrower : List (Option Fragment)) :
    (layered (wider ++ narrower)).Inherits (layered wider) where
  deny := by
    intro s
    cases s with
    | integration | skill | skillSource | provider _ | model => exact distinct_declared_prefix ..
  allow := by
    intro s hs
    cases s with
    | skillSource => exact absurd rfl hs
    | integration | skill | provider _ | model => exact distinct_declared_prefix ..

theorem layered_concat_none (scopes : List (Option Fragment)) :
    layered (scopes ++ [none]) = layered scopes := by
  refine layered_congr fun group known key _ _ => ?_
  rw [joined_concat]
  simp

theorem Inherits.denied {p wider : Policy} (h : p.Inherits wider) {s : Subject} {item : String}
    (hdeny : item ∈ (wider.rule s).deny) : (p.rule s).Judges item .denied :=
  .denied ((h.deny s).subset hdeny)

end Policy

namespace Fleet

variable {tree : Tree} {dir : Path} {v : Value} {inv : Inventory} {i : Instance} {a : Agent}

theorem Inventory.scopes_inherit (inv : Inventory) (i : Instance) (a : Agent) :
    (Policy.layered (inv.scopes i (some a))).Inherits (Policy.layered (inv.scopes i none)) := by
  have hwider : Policy.layered (inv.scopes i none) =
      Policy.layered [inv.defaults.policy, inv.policy, i.policy] :=
    Policy.layered_concat_none [inv.defaults.policy, inv.policy, i.policy]
  rw [hwider]
  exact Policy.layered_inherits [inv.defaults.policy, inv.policy, i.policy] [a.policy]

theorem Inventory.Canonical.reported (h : inv.Canonical) (hi : i ∈ inv.instances)
    (ha : a ∈ i.agents) {o : Offence}
    (ho : a.Commits (Policy.layered (inv.scopes i (some a))) o) :
    ∃ vs, inv.comply = .error (.violated vs) ∧ ⟨i.id, a.id, o⟩ ∈ vs := by
  have hseat : (i, a) ∈ inv.seats := mem_seats.2 ⟨hi, ha⟩
  have hcharge : ⟨i.id, a.id, o⟩ ∈ inv.chargesOf (i, a) :=
    List.mem_map_of_mem (Agent.mem_offences.2 ho)
  have hmem := List.mem_flatMap.2 ⟨_, hseat, hcharge⟩
  refine ⟨_, ?_, hmem⟩
  rw [comply, h.violations?_eq]
  cases hvs : inv.seats.flatMap inv.chargesOf with
  | nil => exact absurd hmem (hvs ▸ List.not_mem_nil)
  | cons charge charges => rfl

/-- In an admitted fleet the policy of every agent goes on from that of its instance, whatever the
agent declares for itself. So an agent that mentions anything that is denied for its instance is
reported for it. -/
theorem denials_inherited (h : Inventory.ofValue? tree dir v = .ok inv) (hi : i ∈ inv.instances)
    (ha : a ∈ i.agents) :
    ∃ wider p, inv.policy? i none = .ok wider ∧ inv.policy? i (some a) = .ok p ∧
      p.Inherits wider ∧
      ∀ s item, item ∈ (wider.rule s).deny → (s, item) ∈ a.mentions →
        ∃ vs, inv.comply = .error (.violated vs) ∧ ⟨i.id, a.id, ⟨s, item, .denied⟩⟩ ∈ vs := by
  obtain ⟨fs, -, hwritten, -, -⟩ := ofValue?_eq_ok_iff.1 h
  have hcanonical := hwritten.canonical
  have hinherits := inv.scopes_inherit i a
  refine ⟨_, _, hcanonical.policy?_eq hi (by simp), hcanonical.policy?_eq hi (by simpa using ha),
    hinherits, fun s item hdeny hmention => ?_⟩
  exact hcanonical.reported hi ha ⟨hmention, hinherits.denied hdeny⟩

def pairDefiant : Agent := { pairAda with
  policy := some { skills := some { allow := some [" web", "web "], deny := some [] } } }

def pairDefied : Inventory := { pairFleet with
  instances := [{ pairEast with agents := [pairDefiant, pairBob] }, pairWest] }

theorem denials_inherited_pair :
    ∃ (wider p : Policy) (vs : List Violation),
      pairDefied.policy? { pairEast with agents := [pairDefiant, pairBob] } none = .ok wider ∧
      wider.skills = ⟨[], ["web"]⟩ ∧ p.skills = ⟨["web"], ["web"]⟩ ∧ p.Inherits wider ∧
      pairDefied.comply = .error (.violated vs) ∧
      ⟨"east", "ada", ⟨.skill, "web", .denied⟩⟩ ∈ vs := by
  have hadmitted : Inventory.ofValue? pairTree pairDir pairDefied.toValue = .ok pairDefied := by rfl
  have hi : { pairEast with agents := [pairDefiant, pairBob] } ∈ pairDefied.instances := .head _
  have ha : pairDefiant ∈ [pairDefiant, pairBob] := .head _
  obtain ⟨wider, p, hwider, hp, hinherits, hdenied⟩ := denials_inherited hadmitted hi ha
  have hlists : wider.skills = ⟨[], ["web"]⟩ := by
    cases hwider.symm.trans (show pairDefied.policy? _ none = _ from rfl)
    rfl
  have hown : p.skills = ⟨["web"], ["web"]⟩ := by
    cases hp.symm.trans (show pairDefied.policy? _ (some pairDefiant) = _ from rfl)
    rfl
  have hweb : "web" ∈ (wider.rule .skill).deny := by
    rw [show wider.rule .skill = wider.skills from rfl, hlists]
    exact .head _
  obtain ⟨vs, hcomply, hmem⟩ := hdenied .skill "web" hweb (by decide)
  exact ⟨wider, p, vs, hwider, hlists, hown, hinherits, hcomply, hmem⟩

end Fleet

end GatewayFleet
