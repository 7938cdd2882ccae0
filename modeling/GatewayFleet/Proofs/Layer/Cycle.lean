import Mathlib.Data.List.Chain
import GatewayFleet.Proofs.Layer.Chain

/-! What a reported include cycle consists of. The files that are open while a file is loaded lead
from the start to it, one include after the other, and no file is opened twice. So the files of a
report are a way through the includes that meets one of its own files again. -/

namespace GatewayFleet.Layer

variable {t : Tree} {start l m : Location} {opened chain : List Location} {again : Location}
  {layer : Layer}

/-- The open files lead from the start to the location, each one including the next. -/
structure Trail (t : Tree) (start : Location) (opened : List Location) (l : Location) : Prop where
  head : (opened ++ [l]).head? = some start
  linked : (opened ++ [l]).IsChain (Includes t)
  readable : ∀ m ∈ opened, Readable t m
  nodup : opened.Nodup

theorem Trail.nil (t : Tree) (l : Location) : Trail t l [] l where
  head := rfl
  linked := .singleton l
  readable := List.forall_mem_nil _
  nodup := .nil

theorem Trail.step (h : Trail t start opened l) (hl : l ∉ opened) (hreads : ReadsAs t l layer)
    (hm : m ∈ targets l layer) : Trail t start (opened ++ [l]) m where
  head := by
    rw [List.head?_append, h.head]
    rfl
  linked := by
    refine List.isChain_append.2 ⟨h.linked, .singleton m, fun x hx y hy => ?_⟩
    rw [List.getLast?_concat, Option.mem_some_iff] at hx
    rw [List.head?_cons, Option.mem_some_iff] at hy
    subst hx hy
    exact (includes_iff hreads).2 hm
  readable := List.forall_mem_append.2 ⟨h.readable, List.forall_mem_singleton.2 ⟨layer, hreads⟩⟩
  nodup := by
    refine h.nodup.append (List.nodup_singleton l) ?_
    exact List.disjoint_singleton.2 hl

theorem Trail.reported (h : Trail t start opened l)
    (hload : loadInto t opened l = .error (.includeCycle chain again)) :
    Trail t start chain again ∧ again ∈ chain := by
  induction opened, l using loadInto.induct t with
  | case1 opened l hl =>
    rw [loadInto_opened hl] at hload
    obtain ⟨rfl, rfl⟩ := Failure.includeCycle.inj (Except.error.inj hload)
    exact ⟨h, hl⟩
  | case2 opened l hl failure hfailure =>
    rw [loadInto_error hl hfailure] at hload
    exact absurd (Except.error.inj hload) (readAt_not_cycle hfailure chain again)
  | case3 opened l hl hnone =>
    rw [loadInto_missing hl hnone] at hload
    cases hload
  | case4 opened l hl layer hlayer ih =>
    have hreads := readAt_eq_some_iff.1 hlayer
    rw [loadInto_layer hl hreads] at hload
    obtain ⟨m, hm, hfails⟩ := Outcome.exists_of_mapM_eq_error (Outcome.map_eq_error hload)
    exact ih m (h.step hl hreads hm) hfails

/-- A reported cycle is a real one. The files of the report are those that stand on the shared chain
when the load stops. The report starts where the loading did, every file is one of the includes of
the file before it, and the last one is met before exactly once. What stands before the last one are
files with the text of a layer, all of them different. -/
theorem reported_cycle_real {t : Tree} {p : Path} {opened : List Location} {again : Location}
    (h : load t p.locate = .error (.includeCycle opened again)) :
    loadOnChain t (t.entries.length + 1) p.locate [] =
        some (.error (.includeCycle opened again), opened) ∧
      (opened ++ [again]).head? = some p.locate ∧
      (opened ++ [again]).IsChain (Includes t) ∧
      opened.count again = 1 ∧ opened.Nodup ∧ ∀ l ∈ opened, Readable t l := by
  obtain ⟨left, hrun, hleaves⟩ := exists_loadOnChain_eq t p.locate
  rw [hleaves.reported opened again h, h] at hrun
  obtain ⟨htrail, hagain⟩ := (Trail.nil t p.locate).reported h
  have honce := List.count_eq_one_of_mem htrail.nodup hagain
  exact ⟨hrun, htrail.head, htrail.linked, honce, htrail.nodup, htrail.readable⟩

theorem loadInto_of_include (before after : List Location) {failure : Failure} (hl : l ∉ opened)
    (hreads : ReadsAs t l layer) (htargets : targets l layer = before ++ m :: after)
    (hbefore : ∀ n ∈ before, ∃ v, loadInto t (opened ++ [l]) n = .ok v)
    (hm : loadInto t (opened ++ [l]) m = .error failure) :
    loadInto t opened l = .error failure := by
  have hnone : (before.findSome? fun n => Outcome.failure? (loadInto t (opened ++ [l]) n)) = none :=
    List.findSome?_eq_none_iff.2 fun n hn => Outcome.failure?_eq_none_iff.2 (hbefore n hn)
  rw [loadInto_layer hl hreads, ← Outcome.failure?_eq_some_iff, Outcome.failure?_map,
    Outcome.failure?_mapM, htargets, List.findSome?_append, hnone, Option.none_or,
    List.findSome?_cons, Outcome.failure?_eq_some_iff.2 hm]

def loopTree : Tree := ⟨[
  (⟨true, ["s"]⟩, .file "\x7b\"$include\": \"a\"\x7d".toUTF8),
  (⟨true, ["a"]⟩, .file "\x7b\"$include\": [\"c\", \"x/../b\"]\x7d".toUTF8),
  (⟨true, ["b"]⟩, .file "\x7b\"$include\": \"./a\"\x7d".toUTF8),
  (⟨true, ["c"]⟩, .file "\x7b\x7d".toUTF8)]⟩

theorem readsAs_loop :
    ReadsAs loopTree ⟨true, ["s"]⟩ ⟨[], ["a"]⟩ ∧
      ReadsAs loopTree ⟨true, ["a"]⟩ ⟨[], ["c", "x/../b"]⟩ ∧
      ReadsAs loopTree ⟨true, ["b"]⟩ ⟨[], ["./a"]⟩ ∧
      ReadsAs loopTree ⟨true, ["c"]⟩ ⟨[], []⟩ := by
  have hs : Json.read "\x7b\"$include\": \"a\"\x7d" =
      .ok (.mapping [("$include", .string "a")]) := by
    cbv
  have ha : Json.read "\x7b\"$include\": [\"c\", \"x/../b\"]\x7d" =
      .ok (.mapping [("$include", .list [.string "c", .string "x/../b"])]) := by
    cbv
  have hb : Json.read "\x7b\"$include\": \"./a\"\x7d" =
      .ok (.mapping [("$include", .string "./a")]) := by
    cbv
  have hc : Json.read "\x7b\x7d" = .ok (.mapping []) := by
    cbv
  exact ⟨.of_read rfl hs rfl, .of_read rfl ha rfl, .of_read rfl hb rfl, .of_read rfl hc rfl⟩

theorem load_loop : load loopTree (Path.ofString "/t/../s").locate =
    .error (.includeCycle [⟨true, ["s"]⟩, ⟨true, ["a"]⟩, ⟨true, ["b"]⟩] ⟨true, ["a"]⟩) := by
  obtain ⟨hs, ha, hb, hc⟩ := readsAs_loop
  have hleaf : ∃ v, loadInto loopTree [⟨true, ["s"]⟩, ⟨true, ["a"]⟩] ⟨true, ["c"]⟩ = .ok v :=
    ⟨_, by rw [loadInto_layer (by decide) hc]; rfl⟩
  exact loadInto_of_include [] [] (by decide) hs rfl (List.forall_mem_nil _)
    (loadInto_of_include [⟨true, ["c"]⟩] [] (by decide) ha rfl (List.forall_mem_singleton.2 hleaf)
      (loadInto_of_include [] [] (by decide) hb rfl (List.forall_mem_nil _)
        (loadInto_opened (by decide))))

theorem reported_cycle_real_loop :
    load loopTree (Path.ofString "/t/../s").locate =
      .error (.includeCycle [⟨true, ["s"]⟩, ⟨true, ["a"]⟩, ⟨true, ["b"]⟩] ⟨true, ["a"]⟩) ∧
    [⟨true, ["s"]⟩, ⟨true, ["a"]⟩, ⟨true, ["b"]⟩, ⟨true, ["a"]⟩].IsChain (Includes loopTree) :=
  ⟨load_loop, (reported_cycle_real load_loop).2.2.1⟩

end GatewayFleet.Layer
