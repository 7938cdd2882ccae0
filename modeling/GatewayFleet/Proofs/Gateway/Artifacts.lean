import GatewayFleet.Gateway.Artifact
import GatewayFleet.Proofs.Disk.Replacement

/-! The files that rendering writes. They are entries of the directories of an instance, under
names that no two of them share and that no temporary file has. Files of this kind are replaced
whenever their directory is there and no directory is in the way. -/

namespace GatewayFleet

open GatewayFleet.Tree (Keeps Opens Replaced ReplacedAll)
open Disk (Confined)

structure Location.InDirectory (l d : Location) (s : String) : Prop where
  directory : d.Canonical
  plain : Path.Plain s
  eq : l = d.child s

namespace Location.InDirectory

variable {l d : Location} {s : String}

theorem sits (h : l.InDirectory d s) : l.toPath.Sits d.toPath s := by
  rw [h.eq]
  exact h.directory.sits_toPath_child h.plain.name

theorem locate_toPath (h : l.InDirectory d s) : l.toPath.locate = l := by
  have hcanonical := h.directory.child h.plain.name
  rw [← h.eq] at hcanonical
  exact hcanonical.locate_toPath

end Location.InDirectory

/-- The file can be replaced: its directory is there, and no directory is in the way. -/
structure Tree.Ready (t : Tree) (l : Location) : Prop where
  inDirectory : ∃ d s, l.InDirectory d s ∧ Opens t d.toPath d
  free : t.get? l ≠ some .directory
  temporaryFree : t.get? l.sibling ≠ some .directory

theorem Tree.Ready.congr {t t' : Tree} {l : Location} (h : Ready t l)
    (hsame : ∀ m, t'.get? m = some .directory ↔ t.get? m = some .directory) : Ready t' l where
  inDirectory := by
    obtain ⟨d, s, hl, hopens⟩ := h.inDirectory
    exact ⟨d, s, hl, hopens.wider fun m => (hsame m).2⟩
  free := fun hdirectory => h.free ((hsame l).1 hdirectory)
  temporaryFree := fun hdirectory => h.temporaryFree ((hsame l.sibling).1 hdirectory)

namespace Gateway

open GatewayFleet.Tree (Ready)

variable {t t' : Tree} {l d : Location} {s : String} {v : Value}

def fileBytes (v : Value) : ByteArray := (Json.pretty v).toUTF8

theorem confined_writeValue (h : l.InDirectory d s) (v : Value) :
    Confined [l, l.sibling] (writeValue l v) := by
  have hconfined := Disk.confined_replaceFile h.sits.ends h.plain.slash (fileBytes v)
  rw [h.locate_toPath] at hconfined
  exact hconfined

theorem writeValue_eq_ok (h : l.InDirectory d s) (hopens : Opens t d.toPath d)
    (hrun : Disk.run (writeValue l v) t = (.ok (), t')) :
    Replaced l l.sibling (fileBytes v) t t' := by
  have hreplaced := Disk.replaced_of_opens h.sits.ends h.plain.slash hopens hrun
  rw [h.locate_toPath] at hreplaced
  exact hreplaced

theorem exists_run_writeValue (h : Ready t l) (v : Value) :
    ∃ t', Disk.run (writeValue l v) t = (.ok (), t') ∧
      Replaced l l.sibling (fileBytes v) t t' := by
  obtain ⟨d, s, hl, hopens⟩ := h.inDirectory
  have hfree := h.free
  have htemporary := h.temporaryFree
  rw [hl.eq] at hfree htemporary
  rw [Location.sibling_child] at htemporary
  obtain ⟨t', hrun⟩ := Disk.exists_run_replaceFile hl.sits hl.plain.slash hopens
    (hl.plain.entry d) (hl.plain.entry_sibling d) hfree htemporary (fileBytes v)
  exact ⟨t', hrun, writeValue_eq_ok hl hopens hrun⟩

theorem forM_makeDirectories_eq_ok {ds : List Location} (hds : ∀ d ∈ ds, d.Canonical)
    (hrun : Disk.run (ds.forM fun d => Disk.makeDirectories .createDirectory d.toPath) t =
      (.ok (), t')) :
    Keeps [] t t' ∧ ∀ d ∈ ds, Opens t' d.toPath d := by
  induction ds generalizing t with
  | nil =>
    obtain ⟨-, rfl⟩ := Prod.mk.inj hrun
    exact ⟨.refl [] t, List.forall_mem_nil _⟩
  | cons d ds ih =>
    rw [Disk.forM_cons] at hrun
    obtain ⟨_, u, hfirst, hrest⟩ := Disk.run_bind_eq_ok hrun
    obtain ⟨hkeeps, hopens⟩ := Disk.opens_of_makeDirectories hfirst
    rw [(hds d List.mem_cons_self).locate_toPath] at hopens
    obtain ⟨hkeeps', hopens'⟩ := ih (fun m hm => hds m (List.mem_cons_of_mem _ hm)) hrest
    refine ⟨hkeeps.trans hkeeps', fun m hm => ?_⟩
    rcases List.mem_cons.1 hm with rfl | hm
    · exact hopens.wider hkeeps'.wider
    · exact hopens' m hm

theorem forM_makeDirectories_of_opens {ds : List Location}
    (hds : ∀ d ∈ ds, Opens t d.toPath d) :
    Disk.run (ds.forM fun d => Disk.makeDirectories .createDirectory d.toPath) t = (.ok (), t) := by
  induction ds with
  | nil => rfl
  | cons d ds ih =>
    rw [Disk.forM_cons, Disk.run_bind_of_ok
      (Disk.makeDirectories_of_opens (hds d List.mem_cons_self))]
    exact ih fun m hm => hds m (List.mem_cons_of_mem _ hm)

def writeFiles (files : List (Location × Value)) : Disk Unit :=
  files.forM fun f => writeValue f.1 f.2

def contents (files : List (Location × Value)) : List (Location × ByteArray) :=
  files.map fun f => (f.1, fileBytes f.2)

theorem writeFiles_eq_ok {files : List (Location × Value)}
    (hfiles : ∀ f ∈ files, ∃ d s, f.1.InDirectory d s ∧ Opens t d.toPath d)
    (hrun : Disk.run (writeFiles files) t = (.ok (), t')) :
    ReplacedAll (contents files) t t' := by
  induction files generalizing t with
  | nil =>
    obtain ⟨-, rfl⟩ := Prod.mk.inj hrun
    exact .nil t
  | cons f files ih =>
    rw [writeFiles, Disk.forM_cons] at hrun
    obtain ⟨_, u, hfirst, hrest⟩ := Disk.run_bind_eq_ok hrun
    obtain ⟨d, s, hf, hopens⟩ := hfiles f List.mem_cons_self
    have hreplaced := writeValue_eq_ok hf hopens hfirst
    refine .cons hreplaced (ih (fun g hg => ?_) hrest)
    obtain ⟨d', s', hg', hopens'⟩ := hfiles g (List.mem_cons_of_mem _ hg)
    exact ⟨d', s', hg', hopens'.wider hreplaced.keeps.wider⟩

theorem exists_run_writeFiles {files : List (Location × Value)}
    (hfiles : ∀ f ∈ files, Ready t f.1) :
    ∃ t', Disk.run (writeFiles files) t = (.ok (), t') := by
  induction files generalizing t with
  | nil => exact ⟨t, rfl⟩
  | cons f files ih =>
    obtain ⟨u, hfirst, hreplaced⟩ := exists_run_writeValue (hfiles f List.mem_cons_self) f.2
    obtain ⟨t', hrest⟩ := ih fun g hg =>
      (hfiles g (List.mem_cons_of_mem _ hg)).congr hreplaced.directory_iff
    refine ⟨t', ?_⟩
    rw [writeFiles, Disk.forM_cons, Disk.run_bind_of_ok hfirst]
    exact hrest

open Fleet (Instance PathRole)

def artifactNames : List (PathRole × String) :=
  [(.generatedDir, "gateway.resolved.json"), (.configDir, "gateway.json"),
    (.generatedDir, "render-summary.json"), (.generatedDir, "effective-policy.json")]

theorem plain_of_mem {a : PathRole × String} (h : a ∈ artifactNames) :
    Path.Plain a.2 ∧ a.2.toList.head? ≠ some '.' := by
  simp only [artifactNames, List.mem_cons, List.not_mem_nil, or_false] at h
  rcases h with rfl | rfl | rfl | rfl
  all_goals
    exact ⟨⟨⟨by decide, by decide⟩, by decide, by decide, by decide⟩, by decide⟩

namespace Placement

def directoryOf (p : Placement) : PathRole → Location
  | .configDir => p.configDir
  | .stateDir => p.stateDir
  | .workspaceRoot => p.workspaceRoot
  | .generatedDir => p.generatedDir

theorem artifacts_eq (p : Placement) :
    p.artifacts = artifactNames.map fun a => (p.directoryOf a.1).child a.2 := rfl

theorem directoryOf_of (i : Instance) (inventory : Path) (role : PathRole) :
    (Placement.of i inventory).directoryOf role = i.paths.locate inventory.directory role := by
  cases role <;> rfl

theorem directoryOf_mem (p : Placement) (role : PathRole) : p.directoryOf role ∈ p.directories := by
  cases role <;> simp [directoryOf, directories]

def Canonical (p : Placement) : Prop := ∀ d ∈ p.directories, d.Canonical

theorem canonical_of (i : Instance) (inventory : Path) : (Placement.of i inventory).Canonical := by
  intro d hd
  have hlocate (role : PathRole) : (i.paths.locate inventory.directory role).Canonical :=
    Path.canonical_locate _
  simp only [directories, List.mem_cons, List.not_mem_nil, or_false] at hd
  rcases hd with rfl | rfl | rfl | rfl <;> exact hlocate _

variable {p : Placement}

theorem exists_inDirectory (h : p.Canonical) (hl : l ∈ p.artifacts) :
    ∃ a ∈ artifactNames, l.InDirectory (p.directoryOf a.1) a.2 := by
  rw [artifacts_eq] at hl
  obtain ⟨a, ha, rfl⟩ := List.mem_map.1 hl
  exact ⟨a, ha, h _ (directoryOf_mem p a.1), (plain_of_mem ha).1, rfl⟩

theorem child_ne_sibling {m : Location} {s' : String} (hs : s.toList.head? ≠ some '.') :
    l.child s ≠ (m.child s').sibling := by
  rw [Location.sibling_child]
  refine Location.child_ne ?_
  rintro rfl
  rw [Path.toList_siblingName] at hs
  exact hs rfl

theorem ne_sibling_of_mem {q : Placement} {m : Location} (hl : l ∈ p.artifacts)
    (hm : m ∈ q.artifacts) : l ≠ m.sibling := by
  rw [artifacts_eq] at hl hm
  obtain ⟨a, ha, rfl⟩ := List.mem_map.1 hl
  obtain ⟨b, -, rfl⟩ := List.mem_map.1 hm
  exact child_ne_sibling (plain_of_mem ha).2

theorem artifacts_nodup (p : Placement) : p.artifacts.Nodup := by
  have hnames : (artifactNames.map (·.2)).Nodup := by decide
  rw [artifacts_eq]
  refine List.pairwise_map.2 ((List.pairwise_map.1 hnames).imp ?_)
  intro a b hab
  exact Location.child_ne hab

theorem ne_child_of_mem {m : Location} (hs : s ∉ artifactNames.map (·.2))
    (hl : l ∈ p.artifacts) : l ≠ m.child s := by
  rw [artifacts_eq] at hl
  obtain ⟨a, ha, rfl⟩ := List.mem_map.1 hl
  refine Location.child_ne ?_
  rintro rfl
  exact hs (List.mem_map_of_mem ha)

theorem ne_of_mem {q : Placement} {m : Location}
    (hroles : ∀ role, p.directoryOf role ≠ q.directoryOf role) (hl : l ∈ p.artifacts)
    (hm : m ∈ q.artifacts) : l ≠ m := by
  rw [artifacts_eq] at hl hm
  obtain ⟨a, ha, rfl⟩ := List.mem_map.1 hl
  obtain ⟨b, hb, rfl⟩ := List.mem_map.1 hm
  intro heq
  obtain ⟨hdirectory, hname⟩ := Location.child_inj heq
  -- a name belongs to one role only
  have hrole : ∀ a ∈ artifactNames, ∀ b ∈ artifactNames, a.2 = b.2 → a.1 = b.1 := by decide
  rw [hrole a ha b hb hname] at hdirectory
  exact hroles b.1 hdirectory

end Placement

end Gateway

end GatewayFleet
