import GatewayFleet.Proofs.Json.Token

/-! The grammar of strict JSON over tokens, without any reader's order of decisions. Beside values
there are the two phrases that run up to a closing bracket: the items of a list and the members of
a mapping. The last part says where tokens can stand next to each other. -/

namespace GatewayFleet.Json

/-- What a run of tokens spells. Items and members include the bracket that closes them. -/
inductive Phrase
  | value (v : Value)
  | items (vs : List Value)
  | members (ms : List (String × Value))

inductive Scalar : Token → Value → Prop
  | nullWord {h : Bare ['n', 'u', 'l', 'l']} : Scalar (.bare ['n', 'u', 'l', 'l'] h) .null
  | trueWord {h : Bare ['t', 'r', 'u', 'e']} : Scalar (.bare ['t', 'r', 'u', 'e'] h) (.bool true)
  | falseWord {h : Bare ['f', 'a', 'l', 's', 'e']} :
      Scalar (.bare ['f', 'a', 'l', 's', 'e'] h) (.bool false)
  | number {raw : List Char} {h : Bare raw} {n : Number} :
      readNumber false raw = .ok (n, []) → Scalar (.bare raw h) (.number n)
  | negative {raw : List Char} {h : Bare ('-' :: raw)} {n : Number} :
      readNumber true raw = .ok (n, []) → Scalar (.bare ('-' :: raw) h) (.number n)
  | text {raw cs : List Char} {h : Literal raw} :
      readString (raw ++ ['"']) = .ok (cs, []) →
        Scalar (.quoted raw h) (.string (String.ofList cs))

inductive Spells : Nat → Phrase → List Token → Prop
  | scalar {d : Nat} {k : Token} {v : Value} : Scalar k v → Spells d (.value v) [k]
  | emptyList {d : Nat} :
      Spells (d + 1) (.value (.list [])) [.mark .openList, .mark .closeList]
  | list {d : Nat} {vs : List Value} {ts : List Token} : Spells d (.items vs) ts →
      Spells (d + 1) (.value (.list vs)) (.mark .openList :: ts)
  | emptyMapping {d : Nat} :
      Spells (d + 1) (.value (.mapping [])) [.mark .openMapping, .mark .closeMapping]
  | mapping {d : Nat} {ms : List (String × Value)} {ts : List Token} :
      Spells d (.members ms) ts →
        Spells (d + 1) (.value (.mapping (Fields.ofList ms))) (.mark .openMapping :: ts)
  | lastItem {d : Nat} {v : Value} {ts : List Token} : Spells d (.value v) ts →
      Spells d (.items [v]) (ts ++ [.mark .closeList])
  | item {d : Nat} {v : Value} {vs : List Value} {ts us : List Token} :
      Spells d (.value v) ts → Spells d (.items vs) us →
        Spells d (.items (v :: vs)) (ts ++ .mark .comma :: us)
  | lastMember {d : Nat} {k : Token} {name : String} {v : Value} {ts : List Token} :
      Scalar k (.string name) → Spells d (.value v) ts →
        Spells d (.members [(name, v)]) (k :: .mark .colon :: (ts ++ [.mark .closeMapping]))
  | member {d : Nat} {k : Token} {name : String} {v : Value} {ms : List (String × Value)}
      {ts us : List Token} : Scalar k (.string name) → Spells d (.value v) ts →
        Spells d (.members ms) us →
          Spells d (.members ((name, v) :: ms)) (k :: .mark .colon :: (ts ++ .mark .comma :: us))

namespace Token

def begins : Token → Bool
  | .mark .openList | .mark .openMapping => true
  | .mark _ => false
  | _ => true

def opensKey : Token → Bool
  | .mark .openMapping | .mark .comma => true
  | _ => false

end Token

inductive Stops : List Token → Prop
  | done : Stops []
  | comma {ts : List Token} : Stops (.mark .comma :: ts)
  | closes {m : Mark} {ts : List Token} : m.closes = true → Stops (.mark m :: ts)

/-- A word or number is followed by what may follow a value, a comma by something that may begin
a value, and a colon stands only behind a name where a name may begin. The flag tells whether one
may begin at the front. -/
def Placed : Bool → List Token → Prop
  | _, [] => True
  | key, k :: ts =>
    (k.isBare = true → Stops ts) ∧
      (k = .mark .comma → ∃ l us, ts = l :: us ∧ l.begins = true) ∧
      (∀ us, ts = .mark .colon :: us → key = true) ∧ Placed k.opensKey ts

theorem Scalar.begins {k : Token} {v : Value} (h : Scalar k v) : k.begins = true := by
  cases h <;> rfl

theorem Scalar.opensKey {k : Token} {v : Value} (h : Scalar k v) : k.opensKey = false := by
  cases h <;> rfl

theorem Spells.begins {d : Nat} {p : Phrase} {ts : List Token} (h : Spells d p ts) :
    ∃ k us, ts = k :: us ∧ k.begins = true := by
  induction h with
  | scalar hk => exact ⟨_, [], rfl, hk.begins⟩
  | emptyList => exact ⟨_, _, rfl, rfl⟩
  | list _ _ => exact ⟨_, _, rfl, rfl⟩
  | emptyMapping => exact ⟨_, _, rfl, rfl⟩
  | mapping _ _ => exact ⟨_, _, rfl, rfl⟩
  | lastItem _ ih =>
    obtain ⟨k, us, rfl, hk⟩ := ih
    exact ⟨k, _, rfl, hk⟩
  | item _ _ ih _ =>
    obtain ⟨k, us, rfl, hk⟩ := ih
    exact ⟨k, _, rfl, hk⟩
  | lastMember hk _ _ => exact ⟨_, _, rfl, hk.begins⟩
  | member hk _ _ _ _ => exact ⟨_, _, rfl, hk.begins⟩

theorem Stops.not_colon {ts us : List Token} (h : Stops ts) : ts ≠ .mark .colon :: us := by
  rintro rfl
  cases h with
  | closes hm => cases hm

theorem not_colon_of_begins {k : Token} {ts us : List Token} (h : k.begins = true) :
    k :: ts ≠ .mark .colon :: us := by
  intro heq
  rw [(List.cons.inj heq).1] at h
  cases h

theorem Placed.of_stops {key : Bool} {k : Token} {us : List Token} (hs : Stops us)
    (hu : Placed false us) (hk : k.opensKey = false) : Placed key (k :: us) := by
  refine ⟨fun _ => hs, ?_, fun _ h => absurd h hs.not_colon, by rwa [hk]⟩
  rintro rfl
  cases hk

theorem Placed.of_begins {key : Bool} {m : Mark} {l : Token} {us : List Token}
    (hl : l.begins = true) (hu : Placed (Token.mark m).opensKey (l :: us)) :
    Placed key (.mark m :: l :: us) :=
  ⟨nofun, fun _ => ⟨l, us, rfl, hl⟩, fun _ h => absurd h (not_colon_of_begins hl), hu⟩

theorem Scalar.not_bare {k : Token} {name : String} (h : Scalar k (.string name)) :
    k.isBare = false := by
  cases h
  rfl

theorem Scalar.not_comma {k : Token} {v : Value} (h : Scalar k v) : k ≠ .mark .comma := by
  rintro rfl
  cases h

theorem Placed.name {k l : Token} {name : String} {us : List Token}
    (hk : Scalar k (.string name)) (hl : l.begins = true) (hu : Placed false (l :: us)) :
    Placed true (k :: .mark .colon :: l :: us) := by
  refine ⟨fun h => ?_, fun h => absurd h hk.not_comma, fun _ _ => rfl, ?_⟩
  · rw [hk.not_bare] at h
    cases h
  · rw [hk.opensKey]
    exact .of_begins hl hu

/-- In front of what may follow a value every phrase is placed; members need a place for a name. -/
theorem Spells.placed {d : Nat} {p : Phrase} {ts us : List Token} {key : Bool}
    (h : Spells d p ts) (hp : ∀ ms, p = .members ms → key = true) (hs : Stops us)
    (hu : Placed false us) : Placed key (ts ++ us) := by
  induction h generalizing us key with
  | scalar hk => exact .of_stops hs hu hk.opensKey
  | emptyList =>
    have hclose : Placed false (.mark .closeList :: us) := .of_stops hs hu rfl
    exact ⟨nofun, nofun, nofun, hclose⟩
  | emptyMapping =>
    have hclose : Placed true (.mark .closeMapping :: us) := .of_stops hs hu rfl
    exact ⟨nofun, nofun, nofun, hclose⟩
  | list h ih =>
    obtain ⟨k, ts', rfl, hk⟩ := h.begins
    exact .of_begins hk (ih nofun hs hu)
  | mapping h ih =>
    obtain ⟨k, ts', rfl, hk⟩ := h.begins
    exact .of_begins hk (ih (fun _ _ => rfl) hs hu)
  | lastItem _ ih =>
    rw [List.append_assoc]
    exact ih nofun (.closes rfl) (.of_stops hs hu rfl)
  | item _ h ihv ih =>
    obtain ⟨k, ts', rfl, hk⟩ := h.begins
    rw [List.append_assoc]
    exact ihv nofun .comma (.of_begins hk (ih nofun hs hu))
  | lastMember hk h ih =>
    obtain ⟨l, ts', rfl, hl⟩ := h.begins
    obtain rfl : key = true := hp _ rfl
    have hv : Placed false (l :: ts' ++ .mark .closeMapping :: us) :=
      ih nofun (.closes rfl) (.of_stops hs hu rfl)
    simp only [List.cons_append, List.append_assoc]
    exact .name hk hl hv
  | member hk h h' ihv ih =>
    obtain ⟨l, ts', rfl, hl⟩ := h.begins
    obtain ⟨m, us', rfl, hm⟩ := h'.begins
    obtain rfl : key = true := hp _ rfl
    have hv : Placed false (l :: ts' ++ .mark .comma :: (m :: us' ++ us)) :=
      ihv nofun .comma (.of_begins hm (ih (fun _ _ => rfl) hs hu))
    simp only [List.cons_append, List.append_assoc]
    exact .name hk hl hv

end GatewayFleet.Json
