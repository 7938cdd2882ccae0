import GatewayFleet.Gateway.Configuration
import GatewayFleet.Proofs.Gateway.Expansion
import GatewayFleet.Proofs.Gateway.Precedence
import GatewayFleet.Proofs.Layer.Composition

/-! Replacing placeholders before or after merging. Merging keeps, joins and drops whole values and
looks at nothing in a text, so values whose placeholders are replaced one by one merge to what their
merge comes to. The other way round this fails: what was laid over is never looked at, and a
variable that is missing there is not missed. -/

namespace GatewayFleet.Gateway

open Fleet (Instance)

variable {env : Environment} {a b a' b' v c : Value} {failure : Failure} {name : String}

def Piece.needed? : Piece → Option String
  | .placeholder ⟨name, none⟩ => some name
  | .placeholder ⟨_, some _⟩ | .literal _ => none

mutual

/-- The variables that have to be set for a value, in document order. -/
def needed : Value → List String
  | .string s => (pieces s.toList).filterMap Piece.needed?
  | .list items => neededInItems items
  | .mapping fields => neededInFields fields
  | _ => []

def neededInItems : List Value → List String
  | [] => []
  | v :: rest => needed v ++ neededInItems rest

def neededInFields : List (String × Value) → List String
  | [] => []
  | (_, v) :: rest => needed v ++ neededInFields rest

end

theorem neededInItems_eq_flatMap (items : List Value) :
    neededInItems items = items.flatMap needed := by
  induction items with
  | nil => rfl
  | cons x items ih => rw [neededInItems, ih, List.flatMap_cons]

theorem neededInFields_eq_flatMap (fs : Fields Value) :
    neededInFields fs = fs.flatMap fun m => needed m.2 := by
  induction fs with
  | nil => rfl
  | cons m fs ih => rw [neededInFields, ih, List.flatMap_cons]

theorem mem_needed_list {items : List Value} :
    name ∈ needed (.list items) ↔ ∃ x ∈ items, name ∈ needed x := by
  rw [needed, neededInItems_eq_flatMap, List.mem_flatMap]

theorem mem_needed_mapping {fs : Fields Value} :
    name ∈ needed (.mapping fs) ↔ ∃ m ∈ fs, name ∈ needed m.2 := by
  rw [needed, neededInFields_eq_flatMap, List.mem_flatMap]

theorem Piece.expand_eq_error {piece : Piece} (h : piece.expand env = .error failure) :
    ∃ name, piece.needed? = some name ∧ env name = none ∧ failure = .missingVariable name := by
  cases piece with
  | literal x => cases h
  | placeholder p =>
    obtain ⟨name, fallback⟩ := p
    rw [Piece.expand] at h
    cases hname : env name with
    | some value =>
      rw [hname] at h
      cases h
    | none =>
      rw [hname] at h
      cases fallback with
      | some text => cases h
      | none => exact ⟨name, rfl, hname, (Except.error.inj h).symm⟩

theorem expandText_eq_error {text : String} (h : expandText env text = .error failure) :
    ∃ name ∈ needed (.string text), env name = none ∧ failure = .missingVariable name := by
  rw [expandText_eq_mapM] at h
  obtain ⟨piece, hpiece, herror⟩ := Outcome.exists_of_mapM_eq_error (Outcome.map_eq_error h)
  obtain ⟨name, hname, hunset, rfl⟩ := Piece.expand_eq_error herror
  rw [needed]
  exact ⟨name, List.mem_filterMap.2 ⟨piece, hpiece, hname⟩, hunset, rfl⟩

/-- Only a variable that must be set and is not makes a value fail. -/
theorem expand_eq_error (h : expand env v = .error failure) :
    ∃ name ∈ needed v, env name = none ∧ failure = .missingVariable name := by
  induction v using Value.parts_induction with
  | leaf v hscalar =>
    cases v with
    | string text =>
      rw [expand] at h
      exact expandText_eq_error (Outcome.map_eq_error h)
    | list _ => exact absurd rfl hscalar.2
    | mapping _ => exact absurd rfl hscalar.1
    | null | bool _ | number _ => cases h
  | list items ih =>
    rw [expand, expandItems_eq_mapM] at h
    obtain ⟨x, hx, herror⟩ := Outcome.exists_of_mapM_eq_error (Outcome.map_eq_error h)
    obtain ⟨name, hname, hunset, hfailure⟩ := ih x hx herror
    exact ⟨name, mem_needed_list.2 ⟨x, hx, hname⟩, hunset, hfailure⟩
  | mapping fs ih =>
    rw [expand, expandFields_eq_mapM] at h
    obtain ⟨m, hm, herror⟩ := Outcome.exists_of_mapM_eq_error (Outcome.map_eq_error h)
    obtain ⟨name, hname, hunset, hfailure⟩ := ih m hm (Outcome.map_eq_error herror)
    exact ⟨name, mem_needed_mapping.2 ⟨m, hm, hname⟩, hunset, hfailure⟩

theorem needed_merge (h : name ∈ needed (a.merge b)) : name ∈ needed a ∨ name ∈ needed b := by
  induction b using Value.parts_induction generalizing a with
  | leaf b hscalar =>
    rw [Value.merge_of_isScalar a hscalar] at h
    exact .inr h
  | list ys =>
    by_cases hkind : a.kind = .list
    · obtain ⟨xs, rfl⟩ := Value.exists_list hkind
      rw [Value.merge_list, mem_needed_list] at h
      obtain ⟨x, hx, hname⟩ := h
      exact (List.mem_append.1 hx).imp (fun hx => mem_needed_list.2 ⟨x, hx, hname⟩)
        fun hx => mem_needed_list.2 ⟨x, hx, hname⟩
    · rw [Value.merge_of_kind_ne hkind] at h
      exact .inr h
  | mapping upper ih =>
    by_cases hkind : a.kind = .mapping
    · obtain ⟨lower, rfl⟩ := Value.exists_mapping hkind
      rw [Value.merge_mapping, mem_needed_mapping] at h
      obtain ⟨m, hm, hname⟩ := h
      -- A merged member needs what the members it was made of need.
      refine Value.forall_mem_mergeFields (P := fun _ v => name ∈ needed v →
        name ∈ needed (.mapping lower) ∨ name ∈ needed (.mapping upper)) ?_ ?_ ?_ m hm hname
      · exact fun m hm x hx hy hmerged => (ih m hm hmerged).elim hx hy
      · exact fun m hm hname => .inl (mem_needed_mapping.2 ⟨m, hm, hname⟩)
      · exact fun m hm hname => .inr (mem_needed_mapping.2 ⟨m, hm, hname⟩)
    · rw [Value.merge_of_kind_ne hkind] at h
      exact .inr h

namespace Expands

variable {fs gs fs' gs' : Fields Value} {k : String}

theorem get?_eq_none (h : Expands env fs gs) (hget : Fields.get? fs k = none) :
    Fields.get? gs k = none := by
  induction h with
  | nil => rfl
  | @cons m n fs gs hmn _ ih =>
    rw [Fields.get?_cons] at hget ⊢
    rw [hmn.1]
    by_cases hk : m.1 = k
    · rw [if_pos hk] at hget
      cases hget
    · rw [if_neg hk] at hget ⊢
      exact ih hget

theorem put (h : Expands env fs gs) (hv : expand env v = .ok c) :
    Expands env (Fields.put fs k v) (Fields.put gs k c) := by
  induction h with
  | nil => exact .cons ⟨rfl, hv⟩ .nil
  | @cons m n fs gs hmn hrest ih =>
    rw [Fields.put, Fields.put, hmn.1]
    by_cases hk : m.1 = k
    · rw [if_pos hk, if_pos hk]
      exact .cons ⟨rfl, hv⟩ hrest
    · rw [if_neg hk, if_neg hk]
      exact .cons ⟨rfl, hmn.2⟩ ih

theorem merge (hlower : Expands env fs gs) (hupper : Expands env fs' gs')
    (h : ∀ m ∈ fs', ∀ x x' y, expand env x = .ok x' → expand env m.2 = .ok y →
      expand env (x.merge m.2) = .ok (x'.merge y)) :
    Expands env (Value.mergeFields fs fs') (Value.mergeFields gs gs') := by
  induction hupper generalizing fs gs with
  | nil => simpa using hlower
  | @cons m n upper upper' hmn _ ih =>
    obtain ⟨hfirst, hrest⟩ := List.forall_mem_cons.1 h
    rw [Value.mergeFields_cons, Value.mergeFields_cons, hmn.1]
    refine ih (hlower.put ?_) hrest
    cases hget : Fields.get? fs m.1 with
    | none =>
      rw [hlower.get?_eq_none hget]
      exact hmn.2
    | some x =>
      obtain ⟨x', hx, hget'⟩ := hlower.get? hget
      rw [hget']
      exact hfirst x x' n.2 hx hmn.2

end Expands

theorem kind_expand (h : expand env v = .ok c) : c.kind = v.kind := by
  cases v with
  | string _ =>
    obtain ⟨t, -, rfl⟩ := expand_string_eq_ok h
    rfl
  | list _ =>
    obtain ⟨found, -, rfl⟩ := expand_list_eq_ok h
    rfl
  | mapping _ =>
    obtain ⟨gs, -, rfl⟩ := expand_mapping_eq_ok h
    rfl
  | null | bool _ | number _ =>
    obtain rfl := Except.ok.inj h
    rfl

theorem expand_list {items found : List Value}
    (h : List.Forall₂ (fun x y => expand env x = .ok y) items found) :
    expand env (.list items) = .ok (.list found) := by
  rw [expand, expandItems_eq_mapM, Outcome.mapM_eq_ok_iff.2 h]
  rfl

theorem expand_mapping {fs gs : Fields Value} (h : Expands env fs gs) :
    expand env (.mapping fs) = .ok (.mapping gs) := by
  have hmembers : List.Forall₂ (fun m n => (expand env m.2).map (m.1, ·) = .ok n) fs gs := by
    refine h.imp fun m n hmn => ?_
    rw [hmn.2, ← hmn.1]
    rfl
  rw [expand, expandFields_eq_mapM, Outcome.mapM_eq_ok_iff.2 hmembers]
  rfl

theorem expand_merge_of_kind_ne (hkind : a.kind ≠ b.kind) (ha : expand env a = .ok a')
    (hb : expand env b = .ok b') : expand env (a.merge b) = .ok (a'.merge b') := by
  have hkind' : a'.kind ≠ b'.kind := by rwa [kind_expand ha, kind_expand hb]
  rw [Value.merge_of_kind_ne hkind, Value.merge_of_kind_ne hkind']
  exact hb

theorem expand_merge (ha : expand env a = .ok a') (hb : expand env b = .ok b') :
    expand env (a.merge b) = .ok (a'.merge b') := by
  induction b using Value.parts_induction generalizing a a' b' with
  | leaf b hscalar =>
    have hscalar' : Value.IsScalar b' := by rwa [Value.IsScalar, kind_expand hb]
    rw [Value.merge_of_isScalar _ hscalar, Value.merge_of_isScalar _ hscalar']
    exact hb
  | list ys =>
    by_cases hkind : a.kind = .list
    · obtain ⟨xs, rfl⟩ := Value.exists_list hkind
      obtain ⟨xs', hxs, rfl⟩ := expand_list_eq_ok ha
      obtain ⟨ys', hys, rfl⟩ := expand_list_eq_ok hb
      rw [Value.merge_list, Value.merge_list]
      exact expand_list (List.rel_append hxs hys)
    · exact expand_merge_of_kind_ne hkind ha hb
  | mapping upper ih =>
    by_cases hkind : a.kind = .mapping
    · obtain ⟨lower, rfl⟩ := Value.exists_mapping hkind
      obtain ⟨lower', hlower, rfl⟩ := expand_mapping_eq_ok ha
      obtain ⟨upper', hupper, rfl⟩ := expand_mapping_eq_ok hb
      rw [Value.merge_mapping, Value.merge_mapping]
      exact expand_mapping (hlower.merge hupper fun m hm x x' y hx hy => ih m hm hx hy)
    · exact expand_merge_of_kind_ne hkind ha hb

theorem expand_foldl_merge {layers layers' : List Value} (hv : expand env v = .ok c)
    (h : List.Forall₂ (fun x y => expand env x = .ok y) layers layers') :
    expand env (layers.foldl Value.merge v) = .ok (layers'.foldl Value.merge c) := by
  induction h generalizing v c with
  | nil => exact hv
  | cons hx _ ih => exact ih (expand_merge hv hx)

theorem expand_mergeAll {layers layers' : List Value}
    (h : List.Forall₂ (fun x y => expand env x = .ok y) layers layers') :
    expand env (Value.mergeAll layers) = .ok (Value.mergeAll layers') :=
  expand_foldl_merge rfl h

theorem exists_loaded_of_forall₂ {t : Tree} {ls : List Location} {layers : List Value}
    (h : List.Forall₂ (fun l x => Layer.load t l >>= expand env = .ok x) ls layers) :
    ∃ below, List.Forall₂ (fun l w => Layer.load t l = .ok w) ls below ∧
      List.Forall₂ (fun w x => expand env w = .ok x) below layers := by
  induction h with
  | nil => exact ⟨[], .nil, .nil⟩
  | cons hx _ ih =>
    obtain ⟨w, hw, hexpand⟩ := Outcome.bind_eq_ok hx
    obtain ⟨below, hbelow, hrest⟩ := ih
    exact ⟨w :: below, .cons hw hbelow, .cons hexpand hrest⟩

theorem resolve_of_layers {t : Tree} {i : Instance} {p : Path} {layers : List Value} {above : Value}
    (hlayers : List.Forall₂ (fun l x => Layer.load t l >>= expand env = .ok x)
      (layerLocations i p) layers)
    (habove : expand env (overlay i (.of i p)) = .ok above) :
    resolve t env i p = .ok (Value.mergeAll (layers ++ [above])) := by
  obtain ⟨below, hbelow, hexpand⟩ := exists_loaded_of_forall₂ hlayers
  have hload := Layer.loadAll_eq_ok_iff.2 ⟨below, hbelow, rfl⟩
  rw [resolve, assemble, hload, Value.mergeAll_concat]
  exact expand_merge (expand_mergeAll hexpand) habove

/-- Values that can be expanded by themselves can be merged before or after, and so can the layers
of an instance and its overlay. When a merged value cannot be expanded, the variable that is missing
is one that the lower or the upper value needs. -/
theorem expand_interchanges (env : Environment) :
    (∀ a b a' b' : Value, expand env a = .ok a' → expand env b = .ok b' →
      expand env (a.merge b) = .ok (a'.merge b')) ∧
    (∀ t i p layers above,
      List.Forall₂ (fun l v => Layer.load t l >>= expand env = .ok v)
        (layerLocations i p) layers →
      expand env (overlay i (.of i p)) = .ok above →
      resolve t env i p = .ok (Value.mergeAll (layers ++ [above]))) ∧
    ∀ (a b : Value) failure, expand env (a.merge b) = .error failure →
      ∃ name, failure = .missingVariable name ∧ env name = none ∧
        (name ∈ needed a ∨ name ∈ needed b) := by
  refine ⟨fun _ _ _ _ => expand_merge, fun _ _ _ _ _ => resolve_of_layers, ?_⟩
  intro a b failure h
  obtain ⟨name, hname, hunset, hfailure⟩ := expand_eq_error h
  exact ⟨name, hfailure, hunset, needed_merge hname⟩

def tokenText : String := "\x7b\"gateway\":\x7b\"tokens\":[\"$\x7bTOKEN\x7d\"]\x7d\x7d"

def tokenTree : Tree := ⟨[(⟨true, ["fleet", "base"]⟩, .file tokenText.toUTF8)]⟩

def withTokens (tokens : List String) : Value :=
  .mapping [("gateway", .mapping [("tokens", .ofStrings tokens)])]

def onlyToken : Environment := fun name => if name = "TOKEN" then some "t" else none

theorem load_token : Layer.load tokenTree ⟨true, ["fleet", "base"]⟩ =
    .ok (withTokens ["$\x7bTOKEN\x7d"]) := by
  have hread : Json.read tokenText = .ok (withTokens ["$\x7bTOKEN\x7d"]) := by cbv
  have hreads : Layer.ReadsAs tokenTree ⟨true, ["fleet", "base"]⟩
      ⟨[("gateway", .mapping [("tokens", .ofStrings ["$\x7bTOKEN\x7d"])])], []⟩ :=
    .of_read (by rfl) hread rfl
  rw [Layer.load, Layer.loadInto_layer List.not_mem_nil hreads]
  rfl

theorem expand_interchanges_token :
    expand onlyToken ((withTokens ["$\x7bTOKEN\x7d"]).merge (withTokens ["$\x7bX:-u\x7d"])) =
      .ok ((withTokens ["t"]).merge (withTokens ["u"])) ∧
    (∃ above, expand onlyToken (overlay Fleet.pairEast (.of Fleet.pairEast pairPath)) = .ok above ∧
      resolve tokenTree onlyToken Fleet.pairEast pairPath =
        .ok (Value.mergeAll [withTokens ["t"], above])) ∧
    expand (fun _ => none) ((withTokens ["$\x7bTOKEN\x7d"]).merge (withTokens [])) =
      .error (.missingVariable "TOKEN") ∧
    ("TOKEN" ∈ needed (withTokens ["$\x7bTOKEN\x7d"]) ∨ "TOKEN" ∈ needed (withTokens [])) := by
  obtain ⟨hmerge, hresolve, -⟩ := expand_interchanges onlyToken
  have hfirst : expand onlyToken (withTokens ["$\x7bTOKEN\x7d"]) = .ok (withTokens ["t"]) := by
    decide +kernel
  have hsecond : expand onlyToken (withTokens ["$\x7bX:-u\x7d"]) = .ok (withTokens ["u"]) := by
    decide +kernel
  have habove : (expand onlyToken (overlay Fleet.pairEast (.of Fleet.pairEast pairPath))).isOk =
      true := by
    decide +kernel
  obtain ⟨above, habove⟩ := Outcome.exists_eq_ok_of_isOk habove
  have hlayer : Layer.load tokenTree ⟨true, ["fleet", "base"]⟩ >>= expand onlyToken =
      .ok (withTokens ["t"]) := by
    rw [load_token]
    exact hfirst
  have hmissing : expand (fun _ => none)
      ((withTokens ["$\x7bTOKEN\x7d"]).merge (withTokens [])) =
        .error (.missingVariable "TOKEN") := by
    decide +kernel
  obtain ⟨name, hname, -, hneeded⟩ := (expand_interchanges fun _ => none).2.2 _ _ _ hmissing
  obtain rfl : "TOKEN" = name := Failure.missingVariable.inj hname
  have hlayers : List.Forall₂ (fun l v => Layer.load tokenTree l >>= expand onlyToken = .ok v)
      (layerLocations Fleet.pairEast pairPath) [withTokens ["t"]] := .cons hlayer .nil
  exact ⟨hmerge _ _ _ _ hfirst hsecond,
    ⟨above, habove, hresolve _ _ _ _ _ hlayers habove⟩, hmissing, hneeded⟩

end GatewayFleet.Gateway
