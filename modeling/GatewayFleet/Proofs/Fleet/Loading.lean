import GatewayFleet.Fleet.Roster
import GatewayFleet.Fleet.Storage
import GatewayFleet.Proofs.Fleet.Canonical
import GatewayFleet.Proofs.Layer.Reachability
import GatewayFleet.Proofs.Tree.Keeping
import GatewayFleet.Proofs.Tree.Reaching

/-! Loading an inventory. It reads the file of the inventory and asks which layers are files;
nothing else in the tree matters. -/

namespace GatewayFleet.Fleet

open GatewayFleet.Tree (Opens)

variable {t t' : Tree} {p : Path} {inv : Inventory}

theorem exists_stat_of_load (h : load t p = .ok inv) : ∃ bytes, t.stat p = .ok (.file bytes) := by
  obtain ⟨v, hread, -⟩ := Outcome.bind_eq_ok h
  unfold readDocument at hread
  split at hread
  · cases hread
  · rename_i hfile
    unfold Tree.isFileAt at hfile
    split at hfile
    · rename_i bytes hstat
      exact ⟨bytes, hstat⟩
    · exact absurd rfl hfile

theorem exists_opens_of_load (h : load t p = .ok inv) : ∃ d, Opens t p.directory d := by
  obtain ⟨bytes, hstat⟩ := exists_stat_of_load h
  obtain ⟨dir, s, hsits, -⟩ := Tree.exists_sits_of_stat hstat
  obtain ⟨-, l, hwalk, -⟩ := Tree.stat_eq_ok.1 hstat
  obtain ⟨d, hopens, -⟩ := Tree.exists_opens_of_walk hsits.names hwalk
  rw [hsits.directory_eq]
  exact ⟨d, hopens⟩

theorem readDocument_congr (h : t'.stat p = t.stat p) : readDocument t' p = readDocument t p := by
  have hfile : t'.isFileAt p = t.isFileAt p := by rw [Tree.isFileAt, h, Tree.isFileAt]
  have htext : t'.readText p = t.readText p := by rw [Tree.readText, h, Tree.readText]
  rw [readDocument, hfile, htext, readDocument]

theorem readDocument_of_stat {text : String} {v : Value}
    (h : t.stat p = .ok (.file text.toUTF8)) (hv : document? text = some v) :
    readDocument t p = .ok v := by
  have hfile : t.isFileAt p = true := by rw [Tree.isFileAt, h]
  have htext : t.readText p = .ok text := by
    simp only [Tree.readText, h, bind, Except.bind, Layer.fromUTF8?_toUTF8]
    rfl
  simp [readDocument, hfile, htext, hv, Except.mapError, bind, Except.bind, pure, Except.pure]

theorem load_of_ofValue? {v : Value} (hread : readDocument t p = .ok v)
    (hv : Inventory.ofValue? t p.directory v = .ok inv) : load t p = .ok inv := by
  rw [load, hread]
  change accept t p.directory v = _
  rw [accept, hv]
  rfl

theorem Inventory.instance?_eq_ok_iff {id : String} {i : Instance} :
    inv.instance? id = .ok i ↔ inv.find? id = some i := by
  unfold Inventory.instance?
  cases inv.find? id with
  | none => exact iff_of_false nofun nofun
  | some j => simp

theorem loadCompliant_eq_ok_iff :
    loadCompliant t p = .ok inv ↔ load t p = .ok inv ∧ inv.comply = .ok () := by
  constructor
  · intro h
    obtain ⟨found, hload, h⟩ := Outcome.bind_eq_ok h
    obtain ⟨_, hcomply, h⟩ := Outcome.bind_eq_ok h
    obtain rfl : found = inv := Except.ok.inj h
    exact ⟨hload, hcomply⟩
  · rintro ⟨hload, hcomply⟩
    rw [loadCompliant, Outcome.bind_of_ok hload, Outcome.bind_of_ok hcomply]
    rfl

/-- What is admitted stays admitted while its layers are files. -/
theorem load_congr (h : load t p = .ok inv) (hstat : t'.stat p = t.stat p)
    (hlayers : ∀ i ∈ inv.instances, ∀ layer ∈ i.runtime.configLayers,
      t'.isFile (p.directory.resolve (.ofString layer)) =
        t.isFile (p.directory.resolve (.ofString layer))) : load t' p = .ok inv := by
  obtain ⟨v, hread, haccept⟩ := Outcome.bind_eq_ok h
  obtain ⟨fs, rfl, hwritten, hpresent, hfree⟩ :=
    ofValue?_eq_ok_iff.1 (Outcome.mapError_eq_ok haccept)
  have hpresent' : ∀ i ∈ inv.instances, i.LayersPresent t' p.directory := by
    intro i hi layer hlayer
    rw [hlayers i hi layer hlayer]
    exact hpresent i hi layer hlayer
  exact load_of_ofValue? ((readDocument_congr hstat).trans hread)
    (ofValue?_eq_ok_iff.2 ⟨fs, rfl, hwritten, hpresent', hfree⟩)

end GatewayFleet.Fleet
