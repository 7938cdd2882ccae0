import GatewayFleet.Gateway.Configuration
import GatewayFleet.Proofs.Layer.Reachability

/-! Trees that agree on what layers lead to give the same configuration. -/

namespace GatewayFleet.Layer

variable {t t' : Tree} {opened : List Location} {l : Location}

theorem readAt_congr (h : t'.content? l = t.content? l) : readAt t' l = readAt t l := by
  rw [readAt, h, readAt]

theorem loadInto_congr (h : ∀ m, Reaches t l m → t'.content? m = t.content? m) :
    loadInto t' opened l = loadInto t opened l := by
  have hread := readAt_congr (h l .refl)
  -- along the files of the first tree; all that a layer includes is reached from it
  induction opened, l using loadInto.induct t with
  | case1 opened l hl => rw [loadInto_opened hl, loadInto_opened hl]
  | case2 opened l hl failure hfailure =>
    rw [loadInto_error hl hfailure, loadInto_error hl (hread.trans hfailure)]
  | case3 opened l hl hnone =>
    rw [loadInto_missing hl hnone, loadInto_missing hl (hread.trans hnone)]
  | case4 opened l hl layer hlayer ih =>
    have hreads := readAt_eq_some_iff.1 hlayer
    have hreads' := readAt_eq_some_iff.1 (hread.trans hlayer)
    have hbelow : ∀ m ∈ targets l layer,
        loadInto t' (opened ++ [l]) m = loadInto t (opened ++ [l]) m := by
      intro m hm
      have hstep : Includes t l m := (includes_iff hreads).2 hm
      have hall : ∀ n, Reaches t m n → t'.content? n = t.content? n :=
        fun n hn => h n (.head hstep hn)
      exact ih m hall (readAt_congr (hall m .refl))
    rw [loadInto_layer hl hreads, loadInto_layer hl hreads', Outcome.mapM_congr hbelow]

theorem loadAll_congr {ls : List Location}
    (h : ∀ l ∈ ls, ∀ m, Reaches t l m → t'.content? m = t.content? m) :
    loadAll t' ls = loadAll t ls := by
  have hload : ∀ l ∈ ls, load t' l = load t l := fun l hl => loadInto_congr (h l hl)
  rw [loadAll, Outcome.mapM_congr hload, loadAll]

end GatewayFleet.Layer

namespace GatewayFleet.Gateway

theorem resolve_congr {t t' : Tree} {env : Environment} {i : Fleet.Instance} {p : Path}
    (h : ∀ l ∈ layerLocations i p, ∀ m, Layer.Reaches t l m → t'.content? m = t.content? m) :
    resolve t' env i p = resolve t env i p := by
  rw [resolve, assemble, Layer.loadAll_congr h, resolve, assemble]

end GatewayFleet.Gateway
