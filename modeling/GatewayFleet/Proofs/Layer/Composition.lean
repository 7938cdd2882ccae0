import GatewayFleet.Proofs.Layer.Reachability
import GatewayFleet.Proofs.Value.Merging

/-! What a layer loads to. The value is made of the values of the included layers, each loaded by
itself, with the members of the layer laid over them; which files are open does not matter. -/

namespace GatewayFleet.Layer

open Value (mergeAll_concat mergeAll_concat_empty merge_mapping_right)

variable {t : Tree} {opened : List Location} {l m : Location} {layer : Layer} {v w : Value}

theorem loadInto_eq_ok_iff (hl : l ∉ opened) (h : ReadsAs t l layer) :
    loadInto t opened l = .ok v ↔
      ∃ below, List.Forall₂ (fun m w => loadInto t (opened ++ [l]) m = .ok w)
        (targets l layer) below ∧ v = Value.mergeAll (below ++ [.mapping layer.body]) := by
  rw [loadInto_layer hl h]
  constructor
  · intro hv
    obtain ⟨below, hbelow, rfl⟩ := Outcome.map_eq_ok hv
    exact ⟨below, Outcome.mapM_eq_ok_iff.1 hbelow, rfl⟩
  · rintro ⟨below, hbelow, rfl⟩
    rw [Outcome.mapM_eq_ok_iff.2 hbelow]
    rfl

theorem ReadsAs.of_loadInto (h : loadInto t opened l = .ok v) :
    l ∉ opened ∧ ∃ layer, ReadsAs t l layer := by
  have hfit := (exists_loadInto_eq_ok_iff t opened l).1 ⟨v, h⟩ l .refl
  exact ⟨hfit.2.1, hfit.1⟩

theorem loadInto_change (h : loadInto t opened l = .ok v) {opened' : List Location}
    (hfree : ∀ n, Reaches t l n → n ∉ opened') : loadInto t opened' l = .ok v := by
  induction opened, l using loadInto.induct t generalizing v opened' with
  | case1 opened l hl =>
    rw [loadInto_opened hl] at h
    cases h
  | case2 opened l hl failure hfailure =>
    rw [loadInto_error hl hfailure] at h
    cases h
  | case3 opened l hl hnone =>
    rw [loadInto_missing hl hnone] at h
    cases h
  | case4 opened l hl layer hlayer ih =>
    have hreads := readAt_eq_some_iff.1 hlayer
    have hfit := (exists_loadInto_eq_ok_iff t opened l).1 ⟨v, h⟩
    obtain ⟨below, hbelow, rfl⟩ := (loadInto_eq_ok_iff hl hreads).1 h
    refine (loadInto_eq_ok_iff (hfree l .refl) hreads).2 ⟨below, ?_, rfl⟩
    -- The file that is opened now is not met below either, or loading would have failed.
    refine Outcome.forall₂_mono hbelow fun m hm w hw => ih m hw fun n hn => ?_
    obtain ⟨-, hnotmet, -⟩ := (fit_step hl hreads).1 hfit m hm n hn
    rw [List.mem_append, not_or] at hnotmet ⊢
    exact ⟨hfree n (.head ((includes_iff hreads).2 hm) hn), hnotmet.2⟩

theorem load_of_loadInto (h : loadInto t opened l = .ok v) : load t l = .ok v :=
  loadInto_change h fun _ _ => List.not_mem_nil

theorem load_target_iff (h : ReadsAs t l layer) (hm : m ∈ targets l layer) :
    load t m = .ok w ↔ loadInto t [l] m = .ok w := by
  refine ⟨fun hw => ?_, load_of_loadInto⟩
  refine loadInto_change hw fun n hn => ?_
  rw [List.mem_singleton]
  rintro rfl
  have hcyclic : Cyclic t n := .head' ((includes_iff h).2 hm) hn
  exact ((exists_loadInto_eq_ok_iff t [] m).1 ⟨w, hw⟩ n hn).2.2 hcyclic

theorem load_eq_ok_iff (h : ReadsAs t l layer) :
    load t l = .ok v ↔ ∃ below, List.Forall₂ (fun m w => load t m = .ok w) (targets l layer) below ∧
      v = Value.mergeAll (below ++ [.mapping layer.body]) := by
  rw [load, loadInto_eq_ok_iff List.not_mem_nil h]
  constructor
  · rintro ⟨below, hbelow, hv⟩
    exact ⟨below, Outcome.forall₂_mono hbelow fun m hm w => (load_target_iff h hm).2, hv⟩
  · rintro ⟨below, hbelow, hv⟩
    exact ⟨below, Outcome.forall₂_mono hbelow fun m hm w => (load_target_iff h hm).1, hv⟩

theorem loadAll_eq_ok_iff {ls : List Location} :
    loadAll t ls = .ok v ↔
      ∃ below, List.Forall₂ (fun m w => load t m = .ok w) ls below ∧ v = Value.mergeAll below := by
  rw [loadAll]
  constructor
  · intro hv
    obtain ⟨below, hbelow, rfl⟩ := Outcome.map_eq_ok hv
    exact ⟨below, Outcome.mapM_eq_ok_iff.1 hbelow, rfl⟩
  · rintro ⟨below, hbelow, rfl⟩
    rw [Outcome.mapM_eq_ok_iff.2 hbelow]
    rfl

theorem mapping_of_load (h : load t l = .ok v) : ∃ fs, v = .mapping fs := by
  obtain ⟨-, layer, hreads⟩ := ReadsAs.of_loadInto h
  obtain ⟨below, -, rfl⟩ := (load_eq_ok_iff hreads).1 h
  rw [mergeAll_concat]
  exact merge_mapping_right _ _

theorem mapping_of_forall₂ {ls : List Location} {below : List Value}
    (h : List.Forall₂ (fun m w => load t m = .ok w) ls below) :
    ∀ w ∈ below, ∃ fs, w = .mapping fs := by
  induction h with
  | nil => exact fun w hw => absurd hw List.not_mem_nil
  | cons hx _ ih =>
    intro w hw
    rcases List.mem_cons.1 hw with rfl | hw
    · exact mapping_of_load hx
    · exact ih w hw

/-- A layer loads to the values of what it includes, each loaded by itself, with its own members
laid over them. The open files decide nothing about the value, and a layer without members of its
own is the list of layers that it includes. -/
theorem load_composes (h : ReadsAs t l layer) (v : Value) :
    (load t l = .ok v ↔
      ∃ below, List.Forall₂ (fun m w => load t m = .ok w) (targets l layer) below ∧
        v = Value.mergeAll (below ++ [.mapping layer.body])) ∧
    (∀ opened, loadInto t opened l = .ok v → load t l = .ok v) ∧
    (layer.body = [] → (load t l = .ok v ↔ loadAll t (targets l layer) = .ok v)) := by
  refine ⟨load_eq_ok_iff h, fun opened => load_of_loadInto, fun hbody => ?_⟩
  rw [load_eq_ok_iff h, loadAll_eq_ok_iff, hbody]
  constructor
  · rintro ⟨below, hbelow, rfl⟩
    exact ⟨below, hbelow, mergeAll_concat_empty (mapping_of_forall₂ hbelow)⟩
  · rintro ⟨below, hbelow, rfl⟩
    exact ⟨below, hbelow, (mergeAll_concat_empty (mapping_of_forall₂ hbelow)).symm⟩

theorem load_composes_sample :
    load ⟨[(⟨true, ["a"]⟩, .file "\x7b\"$include\": \"b\", \"x\": true\x7d".toUTF8),
      (⟨true, ["b"]⟩, .file "\x7b\"y\": null\x7d".toUTF8)]⟩ ⟨true, ["a"]⟩ =
      .ok (.mapping [("y", Value.null), ("x", Value.bool true)]) := by
  have ha : Json.read "\x7b\"$include\": \"b\", \"x\": true\x7d" =
      .ok (.mapping [("$include", .string "b"), ("x", Value.bool true)]) := by
    cbv
  have hb : Json.read "\x7b\"y\": null\x7d" = .ok (.mapping [("y", Value.null)]) := by
    cbv
  generalize ht : Tree.mk _ = t
  have hreada : ReadsAs t ⟨true, ["a"]⟩ ⟨[("x", Value.bool true)], ["b"]⟩ :=
    .of_read (by rw [← ht]; rfl) ha rfl
  have hreadb : ReadsAs t ⟨true, ["b"]⟩ ⟨[("y", Value.null)], []⟩ :=
    .of_read (by rw [← ht]; rfl) hb rfl
  have hloadb : load t ⟨true, ["b"]⟩ = .ok (.mapping [("y", Value.null)]) :=
    (load_composes hreadb _).1.2 ⟨[], .nil, by rfl⟩
  exact (load_composes hreada _).1.2 ⟨[_], .cons hloadb .nil, by rfl⟩

end GatewayFleet.Layer
