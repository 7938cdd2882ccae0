import Mathlib.Data.List.Permutation
import GatewayFleet.Proofs.Json.Acceptance
import GatewayFleet.Proofs.Layer.Reduction
import GatewayFleet.Layer.Body

/-! What the dialect means. A text that writes the tokens of a strict one with whatever liberties
is read as the strict one, and a strict text is left as it is. -/

namespace GatewayFleet.Layer

open Json (Token Space Spaced Literal Bare Placed Stops Spells)

theorem strictChars_written {σ : Style} {ts : List Token} {t : List Char} (h : Written σ ts t)
    (hp : Placed false ts) : Spaced ts (strictChars t) := by
  have hcomments := (h.stripComments hp).1
  have hcommas := (hcomments.dropCommas rfl hp).1
  have hkeys := (hcommas.quoteKeys rfl rfl hp).1
  rw [strictChars_eq]
  exact hkeys.spaced

theorem strictChars_spaced {ts : List Token} {t : List Char} (h : Spaced ts t)
    (hp : Placed false ts) : strictChars t = t := by
  have hw : Written ⟨false, false, false⟩ ts t := .of_spaced h
  have hcomments := (hw.stripComments hp).2 rfl
  have hcommas := (hw.dropCommas rfl hp).2 rfl
  have hkeys := (hw.quoteKeys rfl rfl hp).2 rfl
  rw [strictChars_eq, hcomments, hcommas]
  exact hkeys

theorem placed_of_spells {d : Nat} {v : Value} {ts : List Token}
    (h : Spells d (.value v) ts) : Placed false ts := by
  have hp : Placed false (ts ++ []) := h.placed nofun Stops.done trivial
  rwa [List.append_nil] at hp

theorem exists_not_isBlank (k : Token) : ∃ c ∈ k.text, Text.isBlank c = false := by
  cases k with
  | mark m =>
    refine ⟨m.char, List.mem_cons_self, ?_⟩
    cases m <;> decide
  | quoted raw _ => exact ⟨'"', List.mem_cons_self, by decide⟩
  | bare raw h =>
    obtain ⟨hne, hall⟩ := h
    obtain ⟨c, r, rfl⟩ := List.exists_cons_of_ne_nil hne
    exact ⟨c, List.mem_cons_self, isBlank_bare (hall c List.mem_cons_self)⟩

theorem not_isAllBlank_of_read {text : String} {v : Value} (h : Json.read text = .ok v) :
    Text.isAllBlank text = false := by
  obtain ⟨ts, hspells, hspaced⟩ := Json.read_eq_ok_iff.1 h
  obtain ⟨k, us, rfl, -⟩ := hspells.begins
  obtain ⟨c, hc, hblank⟩ := exists_not_isBlank k
  have hmem : c ∈ text.toList := by
    generalize text.toList = s at hspaced
    cases hspaced with
    | token _ _ _ =>
      exact List.mem_append_right _ (List.mem_append_left _ hc)
  rw [Text.isAllBlank, List.all_eq_false]
  exact ⟨c, hmem, by simp [hblank]⟩

theorem parse_eq_of_read {text : String} {v : Value} (h : Json.read (toStrict text) = .ok v) :
    parse text = ofValue? v := by
  have hvalue : valueOf? text = .ok v := by
    simp only [valueOf?, not_isAllBlank_of_read h, h]
    rfl
  rw [parse, hvalue]
  rfl

/-- The second text writes the tokens of the first, which is strict. Blank characters and comments
may stand between any two of them and at both ends, commas in front of any bracket that closes,
and the name of any member may lose its quotes where it is an identifier. -/
def Decorates (s t : String) : Prop :=
  ∃ ts, Spaced ts s.toList ∧ Written .permissive ts t.toList

inductive Declares : Option Value → List String → Prop
  | absent : Declares none []
  | one (name : String) : Declares (some (.string name)) [name]
  | many (names : List String) : Declares (some (.list (names.map .string))) names

theorem textsFrom_strings (i : Nat) (names : List String) :
    textsFrom i (names.map .string) = .ok names := by
  induction names generalizing i with
  | nil => rfl
  | cons name names ih =>
    rw [List.map_cons, textsFrom, ih]
    rfl

theorem Declares.includesOf {member : Option Value} {names : List String}
    (h : Declares member names) : Layer.includesOf member = .ok names := by
  cases h with
  | absent => rfl
  | one name => rfl
  | many names => exact textsFrom_strings 0 names

/-- A decorated text has the meaning of the strict text it decorates. -/
theorem read_decorated {s t : String} {v : Value} (h : Decorates s t)
    (hs : Json.read s = .ok v) :
    Json.read (toStrict t) = .ok v ∧
      ∀ fs names, v = .mapping fs → Declares (Fields.get? fs includeKey) names →
        parse t = .ok ⟨Fields.erase fs includeKey, names⟩ := by
  obtain ⟨ts, hspaced, hwritten⟩ := h
  obtain ⟨us, hspells, hspaced'⟩ := Json.read_eq_ok_iff.1 hs
  obtain rfl : ts = us := hspaced.unique hspaced'
  have hstrict : Spaced ts (toStrict t).toList := by
    rw [toStrict, String.toList_ofList]
    exact strictChars_written hwritten (placed_of_spells hspells)
  have hread : Json.read (toStrict t) = .ok v := Json.read_eq_ok_iff.2 ⟨ts, hspells, hstrict⟩
  refine ⟨hread, ?_⟩
  rintro fs names rfl hnames
  rw [parse_eq_of_read hread, ofValue?, hnames.includesOf]
  rfl

theorem decorates_sample :
    Decorates "\x7b\"a\":null,\"$include\":[\"b\"]\x7d"
      "\x7b/*\"*/a:null,$include:[\"b\",],\x7d//[\n" := by
  have hspace : Space [] := nofun
  have hgap : Gap true [] := .nil
  have ha : Literal ['a'] := .plain (by decide) (by decide) .nil
  have hb : Literal ['b'] := .plain (by decide) (by decide) .nil
  have hinclude : Literal includeKey.toList := by
    repeat first | exact .nil | refine .plain (by decide) (by decide) ?_
  have hnull : Bare "null".toList := ⟨nofun, List.all_eq_true.1 rfl⟩
  refine ⟨[.mark .openMapping, .quoted ['a'] ha, .mark .colon, .bare "null".toList hnull,
    .mark .comma, .quoted includeKey.toList hinclude, .mark .colon, .mark .openList,
    .quoted ['b'] hb, .mark .closeList, .mark .closeMapping], ?_, ?_⟩
  · refine .token (g := []) hspace nofun ?_
    refine .token (g := []) hspace nofun ?_
    refine .token (g := []) hspace nofun ?_
    refine .token (g := []) hspace (fun _ => rfl) ?_
    refine .token (g := []) hspace nofun ?_
    refine .token (g := []) hspace nofun ?_
    refine .token (g := []) hspace nofun ?_
    refine .token (g := []) hspace nofun ?_
    refine .token (g := []) hspace nofun ?_
    refine .token (g := []) hspace nofun ?_
    refine .token (g := []) hspace nofun ?_
    exact .done hspace
  · refine .token (g := []) hgap nofun ?_
    refine .bareKey (g := "/*\"*/".toList) rfl ?_ ?_ ?_
    · exact @Gap.block _ ['"'] [] rfl (fun h => absurd h.length_le (by decide)) .nil
    · exact ⟨'a', [], rfl, rfl, nofun⟩
    refine .token (g := []) hgap nofun ?_
    refine .token (g := []) hgap (fun _ => rfl) ?_
    refine .token (g := []) hgap nofun ?_
    refine .bareKey (g := []) rfl hgap ?_ ?_
    · exact ⟨'$', "include".toList, rfl, rfl, List.all_eq_true.1 rfl⟩
    refine .token (g := []) hgap nofun ?_
    refine .token (g := []) hgap nofun ?_
    refine .token (g := []) hgap nofun ?_
    refine .comma (g := []) rfl hgap rfl ?_
    refine .token (g := []) hgap nofun ?_
    refine .comma (g := []) rfl hgap rfl ?_
    refine .token (g := []) hgap nofun ?_
    exact .done (@Gap.line _ ['['] [] rfl (by decide) .nil)

theorem read_decorated_sample :
    parse "\x7b/*\"*/a:null,$include:[\"b\",],\x7d//[\n" =
      .ok ⟨[("a", .null)], ["b"]⟩ := by
  have hread : Json.read "\x7b\"a\":null,\"$include\":[\"b\"]\x7d" =
      .ok (.mapping [("a", .null), ("$include", Value.ofStrings ["b"])]) := by
    cbv
  obtain ⟨-, hparse⟩ := read_decorated decorates_sample hread
  exact hparse _ _ rfl (.many ["b"])

theorem toStrict_of_read {text : String} {v : Value} (h : Json.read text = .ok v) :
    toStrict text = text := by
  obtain ⟨ts, hspells, hspaced⟩ := Json.read_eq_ok_iff.1 h
  rw [toStrict, strictChars_spaced hspaced (placed_of_spells hspells), String.ofList_toList]

theorem parse_of_read {text : String} {v : Value} (h : Json.read text = .ok v) :
    parse text = ofValue? v := by
  refine parse_eq_of_read ?_
  rw [toStrict_of_read h]
  exact h

theorem strict_unchanged {text : String} {v : Value} (h : Json.read text = .ok v) :
    toStrict text = text ∧ parse text = ofValue? v :=
  ⟨toStrict_of_read h, parse_of_read h⟩

theorem strict_unchanged_sample :
    toStrict "\x7b\"//,\x7d\": [\"\\\"/*\", true]\x7d" =
      "\x7b\"//,\x7d\": [\"\\\"/*\", true]\x7d" := by
  have hread : Json.read "\x7b\"//,\x7d\": [\"\\\"/*\", true]\x7d" =
      .ok (.mapping [("//,\x7d", .list [.string "\"/*", .bool true])]) := by
    cbv
  exact (strict_unchanged hread).1

end GatewayFleet.Layer
