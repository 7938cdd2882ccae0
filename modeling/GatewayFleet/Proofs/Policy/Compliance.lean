import Mathlib.Data.List.TakeDrop
import GatewayFleet.Fleet.Verdict
import GatewayFleet.Proofs.Outcome
import GatewayFleet.Proofs.Policy.Layering
import GatewayFleet.Proofs.Text.Trimming

/-! Which violations a fleet is reported for. What an agent mentions and what a rule says about an
item decide together whether there is a violation; the report has each of them once, in the order
of the fleet. -/

namespace GatewayFleet

open Policy (Subject Verdict Offence Violation)

namespace Policy

inductive Rule.Judges (r : Rule) (item : String) : Verdict → Prop
  | denied (hdeny : item ∈ r.deny) : r.Judges item .denied
  | notAllowed (hdeny : item ∉ r.deny) (hne : r.allow ≠ []) (hallow : item ∉ r.allow) :
      r.Judges item .notAllowed

def Rule.Permits (r : Rule) (item : String) : Prop :=
  item ∉ r.deny ∧ (r.allow = [] ∨ item ∈ r.allow)

theorem Rule.verdict?_eq_some_iff {r : Rule} {item : String} {verdict : Verdict} :
    r.verdict? item = some verdict ↔ r.Judges item verdict := by
  unfold Rule.verdict?
  constructor
  · intro h
    split at h
    · cases h
      exact .denied ‹_›
    · split at h
      · rename_i hdeny hallow
        cases h
        exact .notAllowed hdeny hallow.1 hallow.2
      · cases h
  · intro h
    cases h with
    | denied hdeny => rw [if_pos hdeny]
    | notAllowed hdeny hne hallow => rw [if_neg hdeny, if_pos ⟨hne, hallow⟩]

theorem Rule.verdict?_eq_none_iff {r : Rule} {item : String} :
    r.verdict? item = none ↔ r.Permits item := by
  unfold Rule.verdict? Rule.Permits
  by_cases hdeny : item ∈ r.deny
  · simp [hdeny]
  · by_cases hne : r.allow = []
    · simp [hdeny, hne]
    · simp [hdeny, hne]

theorem provider_eq (model : String) :
    provider model = String.ofList (model.toList.takeWhile (· ≠ '/')) := by
  unfold provider Text.splitFirst?
  rw [List.span_eq_takeWhile_dropWhile]
  cases hrest : model.toList.dropWhile (· ≠ '/') with
  | cons c rest => rfl
  | nil =>
    have hall := List.takeWhile_append_dropWhile (p := (· ≠ '/')) (l := model.toList)
    rw [hrest, List.append_nil] at hall
    rw [hall, String.ofList_toList]

def Subject.title : Subject → String
  | .integration => "integration " ++ "'"
  | .skill => "skill " ++ "'"
  | .skillSource => "skill source " ++ "'"
  | .provider _ => "model provider " ++ "'"
  | .model => "model " ++ "'"

/-- The first characters of a message, which no two subjects share. -/
def Subject.mark (s : Subject) : List Char := s.title.toList.take 7

end Policy

namespace Fleet

def Agent.integrationTexts (a : Agent) : List String :=
  if Text.named a.integrations = [] then a.bindings.map Binding.channel else a.integrations

/-- Everything an agent mentions, as often as it does. The provider of a model is the part of its
name in front of the first slash, or all of it. -/
def Agent.mentions (a : Agent) : List (Subject × String) :=
  (Text.named a.integrationTexts).map (.integration, ·) ++
    (Text.named a.skills).map (.skill, ·) ++ (Text.named a.sources).map (.skillSource, ·) ++
    (Text.named a.model.toList).flatMap fun model =>
      [(.provider model, String.ofList (model.toList.takeWhile (· ≠ '/'))), (.model, model)]

variable {a : Agent} {p : Policy} {u u' : Subject × String}

theorem Agent.usedIntegrations_eq (a : Agent) :
    a.usedIntegrations = Text.distinct a.integrationTexts := by
  unfold usedIntegrations integrationTexts
  split
  · rename_i hnil
    rw [if_pos (Text.distinct_eq_nil_iff.1 hnil)]
  · rename_i hne
    rw [if_neg fun hnil => hne (Text.distinct_eq_nil_iff.2 hnil)]

theorem Agent.usedModel?_eq (a : Agent) : a.usedModel?.toList = Text.named a.model.toList := by
  unfold usedModel?
  cases a.model with
  | none => rfl
  | some text =>
    simp only [Option.map_some, Option.toList_some, Text.named, List.map_singleton]
    by_cases hblank : Text.trim text = ""
    · simp [hblank]
    · simp [hblank]

def modelUses (model : String) : List (Subject × String) :=
  [(.provider model, Policy.provider model), (.model, model)]

theorem Agent.usage_eq (a : Agent) :
    a.usage = (Text.distinct a.integrationTexts).map (.integration, ·) ++
      (Text.distinct a.skills).map (.skill, ·) ++ (Text.distinct a.sources).map (.skillSource, ·) ++
      (Text.named a.model.toList).flatMap modelUses := by
  rw [usage, usedIntegrations_eq, ← usedModel?_eq]
  congr 1
  cases a.usedModel? <;> rfl

theorem Agent.mentions_eq (a : Agent) :
    a.mentions = (Text.named a.integrationTexts).map (.integration, ·) ++
      (Text.named a.skills).map (.skill, ·) ++ (Text.named a.sources).map (.skillSource, ·) ++
      (Text.named a.model.toList).flatMap modelUses := by
  have hmodel : modelUses = fun model =>
      [(.provider model, String.ofList (model.toList.takeWhile (· ≠ '/'))), (.model, model)] := by
    funext model
    rw [modelUses, Policy.provider_eq]
  rw [hmodel]
  rfl

theorem Agent.mem_usage : u ∈ a.usage ↔ u ∈ a.mentions := by
  simp only [usage_eq, mentions_eq, List.mem_append, List.mem_map, Text.mem_distinct]

def Agent.Complies (a : Agent) (p : Policy) : Prop := ∀ u ∈ a.mentions, (p.rule u.1).Permits u.2

structure Agent.Commits (a : Agent) (p : Policy) (o : Offence) : Prop where
  mentioned : (o.subject, o.item) ∈ a.mentions
  judged : (p.rule o.subject).Judges o.item o.verdict

theorem offence?_eq_some_iff {o : Offence} :
    offence? p u = some o ↔
      u = (o.subject, o.item) ∧ (p.rule o.subject).Judges o.item o.verdict := by
  rw [offence?, Option.map_eq_some_iff]
  constructor
  · intro h
    obtain ⟨verdict, hverdict, rfl⟩ := h
    exact ⟨rfl, Policy.Rule.verdict?_eq_some_iff.1 hverdict⟩
  · intro h
    obtain ⟨rfl, hjudged⟩ := h
    exact ⟨o.verdict, Policy.Rule.verdict?_eq_some_iff.2 hjudged, rfl⟩

theorem Agent.mem_offences {o : Offence} : o ∈ a.offences p ↔ a.Commits p o := by
  simp only [offences, List.mem_filterMap, offence?_eq_some_iff, mem_usage]
  constructor
  · intro h
    obtain ⟨u, hu, rfl, hjudged⟩ := h
    exact ⟨hu, hjudged⟩
  · intro h
    exact ⟨_, h.mentioned, rfl, h.judged⟩

theorem Agent.offences_eq_nil_iff : a.offences p = [] ↔ a.Complies p := by
  simp only [offences, List.filterMap_eq_nil_iff, offence?, Option.map_eq_none_iff,
    Policy.Rule.verdict?_eq_none_iff, mem_usage, Complies]

variable {tree : Tree} {dir : Path} {v : Value} {inv : Inventory}

theorem Inventory.mem_seats {seat : Instance × Agent} :
    seat ∈ inv.seats ↔ seat.1 ∈ inv.instances ∧ seat.2 ∈ seat.1.agents := by
  simp only [seats, List.mem_flatMap, List.mem_map]
  constructor
  · intro h
    obtain ⟨i, hi, a, ha, rfl⟩ := h
    exact ⟨hi, ha⟩
  · exact fun h => ⟨_, h.1, _, h.2, rfl⟩

def Inventory.chargesOf (inv : Inventory) (seat : Instance × Agent) : List Violation :=
  seat.2.violations (Policy.layered (inv.scopes seat.1 (some seat.2))) seat.1.id

theorem Inventory.Canonical.policy?_of_mem_seats (h : inv.Canonical) {seat : Instance × Agent}
    (hseat : seat ∈ inv.seats) :
    inv.policy? seat.1 (some seat.2) =
      .ok (Policy.layered (inv.scopes seat.1 (some seat.2))) := by
  obtain ⟨hi, ha⟩ := mem_seats.1 hseat
  exact h.policy?_eq hi (by simpa using ha)

theorem Inventory.Canonical.violations?_eq (h : inv.Canonical) :
    inv.violations? = .ok (inv.seats.flatMap inv.chargesOf) := by
  have hfound : inv.seats.mapM (fun seat => do
      pure (seat.2.violations (← inv.policy? seat.1 (some seat.2)) seat.1.id)) =
      (.ok (inv.seats.map inv.chargesOf) : Except Policy.Mismatch _) := by
    rw [Outcome.mapM_eq_ok_iff, List.forall₂_map_right_iff, List.forall₂_same]
    intro seat hseat
    rw [h.policy?_of_mem_seats hseat]
    rfl
  rw [violations?, hfound, List.flatMap_def]
  rfl

end Fleet

end GatewayFleet
