import Mathlib.Data.List.Nodup
import GatewayFleet.Fleet.Account
import GatewayFleet.Proofs.Fleet.Canonical

/-! What can be relied on once a document is admitted: identifiers, ports, locations, workspaces,
agent directories and bindings belong to one instance or agent each, and every layer is a file. -/

namespace GatewayFleet.Fleet

variable {tree : Tree} {dir : Path} {stride : Nat}

/-- The port is one of those that the instance takes, of which the last one there is is 65535. -/
def Instance.Takes (stride : Nat) (i : Instance) (port : Nat) : Prop :=
  i.host.gatewayPort ≤ port ∧ port ≤ min (i.host.gatewayPort + stride - 1) 65535

structure Instance.Sound (tree : Tree) (dir : Path) (i : Instance) : Prop where
  id_filled : Filled i.id
  port_valid : 1 ≤ i.host.gatewayPort ∧ i.host.gatewayPort ≤ 65535
  layers_ne_nil : i.runtime.configLayers ≠ []
  layers_present : ∀ layer ∈ i.runtime.configLayers,
    tree.isFile (dir.resolve (.ofString layer)) = true
  agent_ids_filled : ∀ a ∈ i.agents, Filled a.id
  agent_ids : (i.agents.map (·.id)).Nodup
  workspaces : (i.agents.map (·.workspaceName)).Nodup
  agent_dirs : (i.agents.map (·.agentDirName)).Nodup
  agents_bound : ∀ a ∈ i.agents, a.bindings ≠ []
  bindings_filled : ∀ b ∈ i.bindings, Filled b.channel ∧ Filled b.account
  bindings : (i.bindings.map fun b => (b.channel, b.account)).Nodup

structure Inventory.Sound (tree : Tree) (dir : Path) (inv : Inventory) : Prop where
  version : inv.version = 1
  instances_ne_nil : inv.instances ≠ []
  instance_ids : (inv.instances.map (·.id)).Nodup
  ports : inv.instances.Pairwise fun i j =>
    ∀ port, ¬ (i.Takes inv.defaults.stride port ∧ j.Takes inv.defaults.stride port)
  paths : inv.instances.Pairwise fun i j =>
    ∀ role, i.paths.locate dir role ≠ j.paths.locate dir role
  instances : ∀ i ∈ inv.instances, i.Sound tree dir

theorem nodup_map_of_pairwise {α β : Type} {R : α → α → Prop} {f : α → β} {xs : List α}
    (h : xs.Pairwise R) (hR : ∀ a b, R a b → f a ≠ f b) : (xs.map f).Nodup :=
  List.pairwise_map.2 (h.imp (hR _ _))

theorem Instance.CollisionFree.nodup_ids {i : Instance} (h : i.CollisionFree) :
    (i.agents.map (·.id)).Nodup :=
  nodup_map_of_pairwise h.agents fun _ _ hapart => hapart.ids

theorem Inventory.CollisionFree.nodup_ids {inv : Inventory} (h : inv.CollisionFree dir) :
    (inv.instances.map (·.id)).Nodup :=
  nodup_map_of_pairwise h.instances fun _ _ hapart => hapart.ids

theorem Instance.CollisionFree.boundKeys_nodup {i : Instance} (h : i.CollisionFree) :
    i.boundKeys.Nodup := by
  have hkeys : i.boundKeys = i.agents.flatMap (·.bindingKeys) := by
    simp only [boundKeys, Instance.bindings, List.map_flatMap]
    rfl
  rw [hkeys, List.nodup_flatMap]
  exact ⟨h.bindings, h.agents.imp fun hapart => hapart.bindings⟩

theorem Instance.CollisionFree.bindings_nodup {i : Instance} (h : i.CollisionFree) :
    (i.bindings.map fun b => (b.channel, b.account)).Nodup := by
  have hkeys : (i.bindings.map fun b => (b.channel, b.account)).map
      (fun p => accountKey p.1 p.2) = i.boundKeys := by
    rw [List.map_map]
    rfl
  exact .of_map (fun p => accountKey p.1 p.2) (hkeys ▸ h.boundKeys_nodup)

theorem Instance.Canonical.sound {i : Instance} (h : i.Canonical) (hbound : i.Bound)
    (hlayers : i.LayersPresent tree dir) (hfree : i.CollisionFree) : i.Sound tree dir where
  id_filled := h.id
  port_valid := h.host.port
  layers_ne_nil := h.runtime.layers
  layers_present := hlayers
  agent_ids_filled := fun a ha => (h.agents a ha).id
  agent_ids := hfree.nodup_ids
  workspaces := nodup_map_of_pairwise hfree.agents fun _ _ hapart => hapart.workspaces
  agent_dirs := nodup_map_of_pairwise hfree.agents fun _ _ hapart => hapart.agentDirs
  agents_bound := hbound
  bindings_filled := by
    intro b hb
    obtain ⟨a, ha, hb⟩ := List.mem_flatMap.1 hb
    have hroute := ((h.agents a ha).bindings b hb).route
    exact ⟨hroute.channel, hroute.account⟩
  bindings := hfree.bindings_nodup

theorem not_takes_both {i j : Instance} (h : ¬ (j.range stride).Meets (i.range stride))
    (port : Nat) : ¬ (i.Takes stride port ∧ j.Takes stride port) := by
  rintro ⟨hi, hj⟩
  simp only [Instance.Takes] at hi hj
  simp only [Instance.range, PortRange.of, PortRange.Meets, maxPort] at h
  omega

theorem sound_of_ofValue? {v : Value} {inv : Inventory}
    (h : Inventory.ofValue? tree dir v = .ok inv) : inv.Sound tree dir := by
  obtain ⟨fs, -, hwritten, hlayers, hfree⟩ := ofValue?_eq_ok_iff.1 h
  have hcanonical := hwritten.canonical
  exact {
    version := hcanonical.version
    instances_ne_nil := hcanonical.instances_ne_nil
    instance_ids := nodup_map_of_pairwise hfree.instances fun _ _ hapart => hapart.ids
    ports := hfree.instances.imp fun hapart => not_takes_both hapart.ports
    paths := hfree.instances.imp fun hapart => hapart.paths
    instances := fun i hi => (hcanonical.instances i hi).sound (hwritten.bound i hi)
      (hlayers i hi) (hfree.agents i hi) }

theorem sound_of_ofValue?_pair :
    Inventory.ofValue? pairTree pairDir pairDocument = .ok pairFleet ∧
      pairFleet.Sound pairTree pairDir :=
  ⟨ofValue?_pair, sound_of_ofValue? ofValue?_pair⟩

end GatewayFleet.Fleet
