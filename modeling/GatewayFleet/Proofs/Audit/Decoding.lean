import GatewayFleet.Audit.Event
import GatewayFleet.Audit.EventReader
import GatewayFleet.Proofs.Json.Recovery

/-! Reading a record back. Each member of the line takes its place in a draft, whatever characters
its text has, and a draft with all places taken is the record. Members are written under different
names, so none is found to be repeated. -/

namespace GatewayFleet.Audit

namespace EventReader

open Json (Exact compact compactFields goesOn quote skipSpace)

variable {d d' : Draft} {m : Member} {v : Value} {fs : Fields Value} {s r t : List Char}

theorem readText_of_quote {expected : String} (hs : skipSpace s = '"' :: r) :
    readText expected s =
      fromJson ((Json.readString r).map fun (cs, left) => (String.ofList cs, left)) := by
  rw [readText, hs]
  rfl

theorem readText_quote (expected s : String) (t : List Char) :
    readText expected ((quote s).toList ++ t) = .ok (s, t) := by
  rw [readText_of_quote (Json.skipSpace_quote s t), Json.readString_escaped]
  simp only [Except.map, fromJson, Except.mapError, String.ofList_toList]

theorem readTime_quote {time : Timestamp} (h : Timestamp.read time.text = .ok time)
    (t : List Char) : readTime ((quote time.text).toList ++ t) = .ok (time, t) := by
  simp only [readTime, readText_quote, bind, Except.bind, h, pure, Except.pure]

theorem ofName?_name (deed : Deed) : Deed.ofName? deed.name = some deed := by
  cases deed <;> rfl

theorem readDeed_of_quote (hs : skipSpace s = '"' :: r) :
    readDeed s = (do
      let (name, left) ← readText "variant identifier" ('"' :: r)
      deedOf name left) := by
  rw [readDeed, hs]
  rfl

theorem readDeed_quote (deed : Deed) (t : List Char) :
    readDeed ((quote deed.name).toList ++ t) = .ok (deed, t) := by
  rw [readDeed_of_quote (Json.skipSpace_quote _ t), ← Json.quote_append, readText_quote]
  simp only [bind, Except.bind, deedOf, ofName?_name]

theorem readOptional_of_quote (hs : skipSpace s = '"' :: r) :
    readOptional s =
      (readText "a string" ('"' :: r)).map fun (text, left) => (some text, left) := by
  rw [readOptional, hs]
  rfl

theorem readOptional_quote (s : String) (t : List Char) :
    readOptional ((quote s).toList ++ t) = .ok (some s, t) := by
  rw [readOptional_of_quote (Json.skipSpace_quote s t), ← Json.quote_append, readText_quote]
  rfl

theorem readDetails_compact (h : Exact (Json.maxDepth - 1) v) (ht : goesOn t = false) :
    readDetails ((compact v).toList ++ t) = .ok (v, t) := by
  rw [readDetails, h.readsBack.read t ht]
  rfl

structure Draft.Takes (d : Draft) (m : Member) (v : Value) (d' : Draft) : Prop where
  free : d.has m = false
  read : ∀ t, goesOn t = false → d.readMember m ((compact v).toList ++ t) = .ok (d', t)

inductive Fills : Draft → Fields Value → Draft → Prop
  | nil (d : Draft) : Fills d [] d
  | cons {d d' d'' : Draft} {m : Member} {v : Value} {fs : Fields Value} (first : d.Takes m v d')
      (rest : Fills d' fs d'') : Fills d ((m.name, v) :: fs) d''

def lead (first : Bool) : List Char := if first then [] else [',']

def membersText : Bool → Fields Value → List Char
  | _, [] => []
  | first, (k, v) :: rest =>
    lead first ++ ((quote k).toList ++ ':' :: ((compact v).toList ++ membersText false rest))

theorem toList_compactFields (fs : Fields Value) :
    (compactFields fs).toList = membersText true fs := by
  induction fs with
  | nil => rfl
  | cons m rest ih =>
    cases rest with
    | nil => simp [compactFields, membersText, lead]
    | cons n rest =>
      have hcomma : membersText false (n :: rest) = ',' :: membersText true (n :: rest) := rfl
      rw [membersText, hcomma, ← ih]
      simp [compactFields, lead]

theorem goesOn_membersText (fs : Fields Value) (t : List Char) :
    goesOn (membersText false fs ++ '}' :: t) = false := by
  cases fs <;> rfl

theorem readName_first (hs : skipSpace s = '"' :: r) :
    readName true s =
      fromJson ((Json.readString r).map fun (cs, left) => (some (String.ofList cs), left)) := by
  rw [readName, hs]
  rfl

theorem readName_next (hs : skipSpace s = '"' :: r) :
    readName false (',' :: s) =
      fromJson ((Json.readString r).map fun (cs, left) => (some (String.ofList cs), left)) := by
  have hcomma : skipSpace (',' :: s) = ',' :: s := Json.skipSpace_cons rfl s
  simp [readName, hcomma, hs]

theorem readName_end (first : Bool) (t : List Char) :
    readName first ('}' :: t) = .ok (none, t) := by
  rw [readName, Json.skipSpace_cons rfl]
  rfl

theorem readName_quote (first : Bool) (k : String) (t : List Char) :
    readName first (lead first ++ ((quote k).toList ++ t)) = .ok (some k, t) := by
  have hs := Json.skipSpace_quote k t
  have hname := Json.readString_escaped k.toList t
  cases first with
  | true =>
    rw [lead, if_pos rfl, List.nil_append, readName_first hs, hname]
    simp only [Except.map, fromJson, Except.mapError, String.ofList_toList]
  | false =>
    rw [lead, if_neg Bool.false_ne_true, List.singleton_append, readName_next hs, hname]
    simp only [Except.map, fromJson, Except.mapError, String.ofList_toList]

theorem readColon_colon (t : List Char) : readColon (':' :: t) = .ok t := by
  rw [readColon, Json.skipSpace_cons rfl]
  rfl

theorem member_ofName?_name (m : Member) : Member.ofName? m.name = some m := by
  cases m <;> rfl

theorem Draft.Takes.take (h : d.Takes m v d') (ht : goesOn t = false) :
    d.take m.name (':' :: ((compact v).toList ++ t)) = .ok (d', t) := by
  have hread := h.read t ht
  rw [Draft.take, member_ofName?_name]
  simp only [h.free, readColon_colon, bind, Except.bind, Bool.false_eq_true, if_false, hread]

theorem Draft.Takes.readMembers (h : d.Takes m v d') (first : Bool) (ht : goesOn t = false) :
    readMembers first d
        (lead first ++ ((quote m.name).toList ++ ':' :: ((compact v).toList ++ t))) =
      readMembers false d' t := by
  rw [EventReader.readMembers, readName_quote]
  simp only [bind, Except.bind, h.take ht]
  rw [dif_pos (by simp; omega)]

/-- Where the members fill the draft, reading them up to the brace gives what the draft holds. -/
theorem Fills.readMembers {e : Event} (h : Fills d fs d') (first : Bool)
    (he : ∀ left, d'.finish left = .ok e) :
    EventReader.readMembers first d (membersText first fs ++ '}' :: t) = .ok (e, t) := by
  induction h generalizing first with
  | nil d =>
    rw [membersText, List.nil_append, EventReader.readMembers, readName_end]
    simp only [bind, Except.bind, he, pure, Except.pure]
  | @cons d d' d'' m v fs htakes _ ih =>
    have htext : membersText first ((m.name, v) :: fs) ++ '}' :: t =
        lead first ++ ((quote m.name).toList ++
          ':' :: ((compact v).toList ++ (membersText false fs ++ '}' :: t))) := by
      simp [membersText]
    rw [htext, htakes.readMembers first (goesOn_membersText fs t)]
    exact ih false he

def Draft.of (e : Event) : Draft :=
  ⟨some e.time, some e.deed, some e.actor, e.instanceId.map some, some e.details⟩

theorem finish_of (e : Event) (left : List Char) : (Draft.of e).finish left = .ok e := by
  obtain ⟨time, deed, actor, instanceId, details⟩ := e
  cases instanceId <;> rfl

theorem fills_toFields {e : Event} (htime : Timestamp.read e.time.text = .ok e.time)
    (hdetails : Exact (Json.maxDepth - 1) e.details) : Fills {} e.toFields (Draft.of e) := by
  have hts : Draft.Takes {} .time (.string e.time.text) ⟨some e.time, none, none, none, none⟩ :=
    ⟨rfl, fun t _ => by rw [compact, Draft.readMember, readTime_quote htime]; rfl⟩
  have haction : Draft.Takes ⟨some e.time, none, none, none, none⟩ .deed (.string e.deed.name)
      ⟨some e.time, some e.deed, none, none, none⟩ :=
    ⟨rfl, fun t _ => by rw [compact, Draft.readMember, readDeed_quote]; rfl⟩
  have hactor : Draft.Takes ⟨some e.time, some e.deed, none, none, none⟩ .actor (.string e.actor)
      ⟨some e.time, some e.deed, some e.actor, none, none⟩ :=
    ⟨rfl, fun t _ => by rw [compact, Draft.readMember, readText_quote]; rfl⟩
  have hlast : Draft.Takes ⟨some e.time, some e.deed, some e.actor, e.instanceId.map some, none⟩
      .details e.details (Draft.of e) :=
    ⟨rfl, fun t ht => by rw [Draft.readMember, readDetails_compact hdetails ht]; rfl⟩
  refine .cons hts (.cons haction (.cons hactor ?_))
  -- the instance is left out when there is none
  cases hinstance : e.instanceId with
  | none =>
    rw [hinstance] at hlast
    exact .cons hlast (.nil _)
  | some i =>
    rw [hinstance] at hlast
    refine .cons (m := .instanceId) ⟨rfl, fun t _ => ?_⟩ (.cons hlast (.nil _))
    rw [compact, Draft.readMember, readOptional_quote]
    rfl

theorem read_of_skipSpace {text : String} {e : Event} (hs : skipSpace text.toList = '{' :: s)
    (hread : readMembers true {} s = .ok (e, [])) : Event.read text = .ok e := by
  rw [Event.read, hs]
  change (readMembers true {} s >>= _) = _
  rw [hread]
  rfl

end EventReader

theorem Event.read_line {e : Event} (htime : Timestamp.read e.time.text = .ok e.time)
    (hdetails : Json.Exact (Json.maxDepth - 1) e.details) : Event.read e.line = .ok e := by
  have hline : e.line.toList = '{' :: (EventReader.membersText true e.toFields ++ ['}']) := by
    rw [← EventReader.toList_compactFields]
    simp [Event.line, Json.compact]
  have hs : Json.skipSpace e.line.toList =
      '{' :: (EventReader.membersText true e.toFields ++ ['}']) := by
    rw [hline]
    exact Json.skipSpace_cons rfl _
  have hfills := EventReader.fills_toFields htime hdetails
  exact EventReader.read_of_skipSpace hs (hfills.readMembers true (EventReader.finish_of e))

end GatewayFleet.Audit
