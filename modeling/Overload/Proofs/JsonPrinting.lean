import Overload.Json.Printer
import Overload.Proofs.NumberPrinting
import Overload.Proofs.Stored

/-!
Printing JSON values: what is printed for a value is a text of that value, so it reads back.
-/
namespace Overload

theorem separated_cons (separator word : List Char) (words : List (List Char)) :
    Json.separated separator (word :: words) =
      word ++ words.flatMap fun other => separator ++ other := by
  induction words generalizing word with
  | nil => simp [Json.separated]
  | cons next words ih =>
      rw [List.flatMap_cons, List.append_assoc, ← ih, Json.separated, Json.separated,
        List.intercalate_cons_cons, List.append_assoc]

namespace Json

theorem stringText_escape (c : Char) {text cs : List Char} (rest : StringText text cs) :
    StringText (escape c ++ text) (c :: cs) := by
  unfold escape
  split
  · exact .escape rfl rest
  · exact .escape rfl rest
  · exact .escape rfl rest
  · exact .escape rfl rest
  · exact .escape rfl rest
  · exact .escape rfl rest
  · exact .escape rfl rest
  · rename_i notQuote notBackslash _ _ _ _ _
    split
    · rename_i control
      have hex : ∀ n < 0x20, hexUnit? '0' '0' (hexDigit (n / 16)) (hexDigit (n % 16)) = some n := by
        decide
      have single : isTrailing c.toNat = false ∧ isLeading c.toNat = false := by
        simp only [isTrailing, isLeading, Bool.and_eq_false_iff, decide_eq_false_iff_not]
        omega
      have written := StringText.unit (hex c.toNat control) single rest
      rwa [Char.ofNat_toNat] at written
    · rename_i shown
      exact .plain (Nat.not_lt.mp shown) ⟨notQuote, notBackslash⟩ rest

theorem stringText_flatMap (cs : List Char) : StringText (cs.flatMap escape ++ ['"']) cs := by
  induction cs with
  | nil => exact .close
  | cons c cs ih =>
      rw [List.flatMap_cons, List.append_assoc]
      exact stringText_escape c ih

theorem scalarText_quote (s : String) : ScalarText (quote s) (.string s) := by
  have written := ScalarText.string (stringText_flatMap s.toList)
  rwa [String.ofList_toList] at written

theorem seriesText_separated {α : Type} {close : Char} {entry : List Char → α → Prop}
    {words : List (List Char)} {xs : List α} (each : List.Forall₂ entry words xs) :
    SeriesText close entry true (separated [','] words ++ [close]) xs := by
  have later {words : List (List Char)} {xs : List α} (each : List.Forall₂ entry words xs) :
      SeriesText close entry false ((words.flatMap fun word => [','] ++ word) ++ [close]) xs := by
    induction each with
    | nil => exact .nil Spaces.nil
    | cons head _ ih =>
        have gap : Gap false [','] := .comma Spaces.nil Spaces.nil
        simpa using SeriesText.cons gap head ih
  cases each with
  | nil => exact .nil Spaces.nil
  | cons head tail =>
      have gap : Gap true [] := .first Spaces.nil
      rw [separated_cons]
      simpa using SeriesText.cons gap head (later tail)

theorem renderItems_eq_map (items : List Json) : renderItems items = items.map render := by
  induction items with
  | nil => rfl
  | cons v items ih => rw [renderItems, ih, List.map_cons]

theorem renderMembers_eq_map (members : List (String × Json)) :
    renderMembers members = members.map fun m => quote m.1 ++ ':' :: render m.2 := by
  induction members with
  | nil => rfl
  | cons m members ih => rw [renderMembers, ih, List.map_cons]

theorem memberText_render {value : List Char → Json → Prop} {m : String × Json}
    (content : value (render m.2) m.2) :
    MemberText value (quote m.1 ++ ':' :: render m.2) m := by
  have written := MemberText.parts (stringText_flatMap m.1.toList) Spaces.nil Spaces.nil content
  rw [String.ofList_toList] at written
  simpa [quote] using written

theorem valueText_render {v : Json} (stored : Stored v) {depth : Nat} (nested : v.depth ≤ depth) :
    ValueText depth (render v) v := by
  induction stored generalizing depth with
  | null => exact ScalarText.null.value depth
  | bool b =>
      cases b with
      | true => exact ScalarText.true.value depth
      | false => exact ScalarText.false.value depth
  | integer low high => exact (scalarText_intText low high).value depth
  | real wellFormed => exact (scalarText_realText wellFormed).value depth
  | string s => exact (scalarText_quote s).value depth
  | @array items _ ih =>
      cases depth with
      | zero => simp [Json.depth] at nested
      | succ depth =>
          have inner := depthItems_le.mp (Nat.le_of_succ_le_succ nested)
          have each : List.Forall₂ (ValueText depth) (items.map render) items :=
            List.forall₂_map_left_iff.mpr (List.forall₂_same.mpr fun v hv => ih v hv (inner v hv))
          rw [render, renderItems_eq_map]
          exact .array (seriesText_separated each)
  | @object members _ _ ih =>
      cases depth with
      | zero => simp [Json.depth] at nested
      | succ depth =>
          have inner := depthMembers_le.mp (Nat.le_of_succ_le_succ nested)
          have each : List.Forall₂ (MemberText (ValueText depth))
              (members.map fun m => quote m.1 ++ ':' :: render m.2) members :=
            List.forall₂_map_left_iff.mpr
              (List.forall₂_same.mpr fun m hm => memberText_render (ih m hm (inner m hm)))
          rw [render, renderMembers_eq_map]
          exact .object (seriesText_separated each)

/-- A value that is kept in memory reads back from its text, unless it is nested too deeply. -/
theorem readChars_render {v : Json} (stored : Stored v) (nested : v.depth ≤ maxDepth) :
    readChars (render v) = .ok v :=
  readChars_eq_ok.mpr ⟨[], render v, [], Spaces.nil, valueText_render stored nested, Spaces.nil,
    by simp⟩

/-- A quoted text reads back. -/
theorem readChars_quote (s : String) : readChars (quote s) = .ok (.string s) :=
  readChars_render (.string s) (Nat.zero_le _)

end Json

end Overload
