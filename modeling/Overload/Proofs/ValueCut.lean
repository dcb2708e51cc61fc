import Overload.Proofs.Blank
import Overload.Proofs.JsonReading
import Overload.TypeExpr.Reader

/-!
Cutting an annotation value out of a text. The scanner knows nothing of JSON but quotes, backslashes
and brackets; still it passes over the text of every JSON value and comes back to the depth where it
began, so it cuts at the first comma or parenthesis after the value, and nowhere else.
-/
namespace Overload.TypeExpr

theorem isBlank_of_isSpace {c : Char} (space : Json.isSpace c = true) : Text.isBlank c = true := by
  simp only [Json.isSpace, Bool.or_eq_true, beq_iff_eq] at space
  obtain ((rfl | rfl) | rfl) | rfl := space <;> rfl

theorem blanks_of_spaces {cs : List Char} (h : Json.Spaces cs) : Blanks cs :=
  fun c hc => isBlank_of_isSpace (h c hc)

theorem isBlank_of_opensValue {c : Char} (opens : Json.opensValue c = true) :
    Text.isBlank c = false :=
  Json.of_isDigit_or (P := fun c => Text.isBlank c = false) (by decide) (by decide) opens

theorem isBlank_of_closesValue {c : Char} (closes : Json.closesValue c = true) :
    Text.isBlank c = false :=
  Json.of_isDigit_or (P := fun c => Text.isBlank c = false) (by decide) (by decide) closes

/-- The place after a text, or none if the value ends in it. -/
def Place.pass? (place : Place) (text : List Char) : Option Place := text.foldlM Place.next? place

namespace Place

theorem pass?_cons {place next : Place} {c : Char} (step : place.next? c = some next)
    (text : List Char) : place.pass? (c :: text) = next.pass? text := by
  rw [pass?, List.foldlM_cons, step]
  rfl

theorem pass?_append {place next : Place} {front : List Char} (h : place.pass? front = some next)
    (text : List Char) : place.pass? (front ++ text) = next.pass? text := by
  rw [pass?, List.foldlM_append, ← pass?, h]
  rfl

theorem pass?_of_stays {place : Place} {text : List Char}
    (stays : ∀ c ∈ text, place.next? c = some place) : place.pass? text = some place := by
  induction text with
  | nil => rfl
  | cons c text ih =>
      obtain ⟨head, tail⟩ := List.forall_mem_cons.mp stays
      rw [pass?_cons head, ih tail]

end Place

/-- The characters that mean something to the scanner outside of strings. -/
def marksPlace (c : Char) : Bool := ['"', '[', '{', ']', '}', ',', ')'].contains c

theorem next?_outside {c : Char} (plain : marksPlace c = false) (depth : Nat) :
    (Place.outside depth).next? c = some (.outside depth) := by
  simp [marksPlace] at plain
  unfold Place.next?
  split <;> simp_all

theorem next?_comma (depth : Nat) :
    (Place.outside (depth + 1)).next? ',' = some (.outside (depth + 1)) := rfl

theorem marksPlace_of_isBlank {c : Char} (blank : Text.isBlank c = true) :
    marksPlace c = false := by
  have others : (['"', '[', '{', ']', '}', ',', ')'].all fun d => !Text.isBlank d) = true := by
    decide
  rw [marksPlace, List.contains_eq_mem, decide_eq_false_iff_not]
  intro listed
  have shown := List.all_eq_true.mp others c listed
  rw [blank] at shown
  exact Bool.false_ne_true shown

theorem pass?_blanks {blanks : List Char} (h : Blanks blanks) (depth : Nat) :
    (Place.outside depth).pass? blanks = some (.outside depth) :=
  Place.pass?_of_stays fun c hc => next?_outside (marksPlace_of_isBlank (h c hc)) depth

theorem pass?_spaces {spaces : List Char} (h : Json.Spaces spaces) (depth : Nat) :
    (Place.outside depth).pass? spaces = some (.outside depth) :=
  pass?_blanks (blanks_of_spaces h) depth

/-- The scanner passes over the text, from any depth back to it. -/
def Passes (text : List Char) : Prop :=
  ∀ depth, (Place.outside depth).pass? text = some (.outside depth)

theorem Passes.of_plain {text : List Char} (plain : ∀ c ∈ text, marksPlace c = false) :
    Passes text := fun depth =>
  Place.pass?_of_stays fun c hc => next?_outside (plain c hc) depth

theorem hexValue?_eq_some {c : Char} {n : Nat} (hex : Json.hexValue? c = some n) :
    c ≠ '"' ∧ c ≠ '\\' := by
  constructor <;> rintro rfl <;> simp [Json.hexValue?] at hex

theorem hexUnit?_eq_some {a b c d : Char} {n : Nat} (hex : Json.hexUnit? a b c d = some n) :
    ∀ e ∈ [a, b, c, d], e ≠ '"' ∧ e ≠ '\\' := by
  simp only [Json.hexUnit?, bind, Option.bind_eq_some_iff] at hex
  obtain ⟨_, ha, _, hb, _, hc, _, hd, _⟩ := hex
  simp only [List.forall_mem_cons]
  exact ⟨hexValue?_eq_some ha, hexValue?_eq_some hb, hexValue?_eq_some hc, hexValue?_eq_some hd,
    by simp⟩

theorem next?_inside {c : Char} (plain : c ≠ '"' ∧ c ≠ '\\') (depth : Nat) :
    (Place.inside depth).next? c = some (.inside depth) := by
  unfold Place.next?
  split <;> simp_all

theorem pass?_escape (c : Char) (text : List Char) (depth : Nat) :
    (Place.inside depth).pass? ('\\' :: c :: text) = (Place.inside depth).pass? text := by
  rw [Place.pass?_cons rfl, Place.pass?_cons rfl]

theorem pass?_hexUnit {a b c d : Char} {n : Nat} (hex : Json.hexUnit? a b c d = some n)
    (text : List Char) (depth : Nat) :
    (Place.inside depth).pass? ('\\' :: 'u' :: a :: b :: c :: d :: text) =
      (Place.inside depth).pass? text := by
  have stays : (Place.inside depth).pass? [a, b, c, d] = some (.inside depth) :=
    Place.pass?_of_stays fun e he => next?_inside (hexUnit?_eq_some hex e he) depth
  rw [pass?_escape]
  exact Place.pass?_append stays text

theorem pass?_string {text s : List Char} (written : Json.StringText text s) (depth : Nat) :
    (Place.inside depth).pass? text = some (.outside depth) := by
  induction written with
  | close => rfl
  | plain _ other _ ih => rw [Place.pass?_cons (next?_inside other depth), ih]
  | escape _ _ ih => rw [pass?_escape, ih]
  | unit hex _ _ ih => rw [pass?_hexUnit hex, ih]
  | pair first _ second _ _ ih => rw [pass?_hexUnit first, pass?_hexUnit second, ih]

theorem plain_of_isDigit {c : Char} (digit : c.isDigit = true) : marksPlace c = false :=
  Json.of_isDigit (P := fun c => marksPlace c = false) (by decide) digit

theorem plain_of_numberText {negative : Bool} {text : List Char} {v : Json}
    (written : Json.NumberText negative text v) : ∀ c ∈ text, marksPlace c = false := by
  obtain @⟨whole, fraction, exponent, text, v, digits, places, scale, value⟩ := written
  have plain : ∀ {ds : List Char}, Json.Digits ds → ∀ c ∈ ds, marksPlace c = false :=
    fun digits c hc => plain_of_isDigit (digits.2 c hc)
  have fractional : ∀ c ∈ Json.fractionText fraction, marksPlace c = false := by
    cases fraction with
    | none => simp [Json.fractionText]
    | some ds => exact List.forall_mem_cons.mpr ⟨rfl, plain (places ds rfl)⟩
  have scaled : ∀ c ∈ text, marksPlace c = false := by
    cases scale with
    | absent => simp
    | present letter direction ds =>
        refine List.forall_mem_cons.mpr ⟨?_, List.forall_mem_append.mpr ⟨?_, plain ds⟩⟩
        · obtain rfl | rfl := letter <;> rfl
        · cases direction <;> simp [marksPlace]
  exact List.forall_mem_append.mpr
    ⟨plain digits.1, List.forall_mem_append.mpr ⟨fractional, scaled⟩⟩

theorem passes_scalar {text : List Char} {v : Json} (written : Json.ScalarText text v) :
    Passes text := by
  cases written with
  | null => exact fun _ => rfl
  | true => exact fun _ => rfl
  | false => exact fun _ => rfl
  | positive written => exact .of_plain (plain_of_numberText written)
  | negative written =>
      exact .of_plain (List.forall_mem_cons.mpr ⟨rfl, plain_of_numberText written⟩)
  | string written =>
      intro depth
      rw [Place.pass?_cons rfl, pass?_string written]

theorem pass?_gap {first : Bool} {gap : List Char} (apart : Json.Gap first gap) (depth : Nat) :
    (Place.outside (depth + 1)).pass? gap = some (.outside (depth + 1)) := by
  cases apart with
  | first blank => exact pass?_spaces blank _
  | comma left right =>
      rw [Place.pass?_append (pass?_spaces left _), Place.pass?_cons (next?_comma depth),
        pass?_spaces right]

/-- The bracket that closes a series ends it one level up. -/
theorem pass?_series {α : Type} {close : Char} {entry : List Char → α → Prop}
    (closes : ∀ depth, (Place.outside (depth + 1)).next? close = some (.outside depth))
    (passes : ∀ text x, entry text x → Passes text) {first : Bool} {text : List Char} {xs : List α}
    (written : Json.SeriesText close entry first text xs) (depth : Nat) :
    (Place.outside (depth + 1)).pass? text = some (.outside depth) := by
  induction written with
  | nil blank =>
      rw [Place.pass?_append (pass?_spaces blank _), Place.pass?_cons (closes depth)]
      rfl
  | cons apart head _ ih =>
      rw [Place.pass?_append (pass?_gap apart depth), Place.pass?_append (passes _ _ head _), ih]

theorem passes_member {value : List Char → Json → Prop}
    (passes : ∀ text v, value text v → Passes text) {text : List Char} {member : String × Json}
    (written : Json.MemberText value text member) : Passes text := by
  obtain ⟨name, left, right, content⟩ := written
  intro depth
  rw [Place.pass?_cons rfl, Place.pass?_append (pass?_string name depth),
    Place.pass?_append (pass?_spaces left depth),
    Place.pass?_cons (next?_outside (by decide) depth),
    Place.pass?_append (pass?_spaces right depth), passes _ _ content]

theorem passes_value {nesting : Nat} {text : List Char} {v : Json}
    (written : Json.ValueText nesting text v) : Passes text := by
  induction nesting generalizing text v with
  | zero => exact passes_scalar written
  | succ nesting ih =>
      cases written with
      | scalar written => exact passes_scalar written
      | array series =>
          intro depth
          rw [Place.pass?_cons rfl]
          exact pass?_series (fun _ => rfl) (fun _ _ => ih) series depth
      | object series =>
          intro depth
          rw [Place.pass?_cons rfl]
          exact pass?_series (fun _ => rfl) (fun _ _ => passes_member fun _ _ => ih) series depth

theorem append_of_cutValue (place : Place) (cs : List Char) :
    cs = (cutValue place cs).1 ++ (cutValue place cs).2 := by
  induction cs generalizing place with
  | nil => rfl
  | cons c cs ih =>
      rw [cutValue]
      split
      · rfl
      · rename_i next _
        exact congrArg (c :: ·) (ih next)

theorem cutValue_append {place next : Place} {text : List Char}
    (passed : place.pass? text = some next) (rest : List Char) :
    cutValue place (text ++ rest) = (text ++ (cutValue next rest).1, (cutValue next rest).2) := by
  induction text generalizing place with
  | nil =>
      cases passed
      rfl
  | cons c text ih =>
      rw [Place.pass?, List.foldlM_cons] at passed
      obtain ⟨step, first, passed⟩ := Option.bind_eq_some_iff.mp passed
      rw [List.cons_append, cutValue, first]
      simp only [ih passed]
      rfl

/-- What ends a value: a comma or a closing parenthesis. -/
def EndsValue (rest : List Char) : Prop := ∃ c more, rest = c :: more ∧ (c = ',' ∨ c = ')')

theorem cutValue_end {rest : List Char} (ends : EndsValue rest) :
    cutValue (.outside 0) rest = ([], rest) := by
  obtain ⟨c, more, rfl, rfl | rfl⟩ := ends <;> rfl

theorem readAnnotationValue_append {before text after rest : List Char} {v : Json}
    (left : Blanks before) (reads : Json.readChars text = .ok v) (right : Blanks after)
    (ends : EndsValue rest) :
    readAnnotationValue (before ++ (text ++ (after ++ rest))) = .ok (v, rest) := by
  obtain ⟨spaces, core, spaces', blank, written, blank', rfl⟩ := Json.readChars_eq_ok.mp reads
  have bounded := Json.ValueText.bounded written
  obtain ⟨c, inner, opening, opens⟩ := bounded.opens
  obtain ⟨start, d, closing, closes⟩ := bounded.closes
  have behind : Blanks (spaces' ++ after) := (blanks_of_spaces blank').append right
  have skipped : Text.skipBlanks (before ++ (spaces ++ (core ++ spaces') ++ (after ++ rest))) =
      core ++ (spaces' ++ after ++ rest) := by
    rw [skipBlanks_append left, List.append_assoc, skipBlanks_append (blanks_of_spaces blank),
      List.append_assoc, opening, List.cons_append,
      skipBlanks_of_front (isBlank_of_opensValue opens), List.append_assoc, List.cons_append]
  have cut : cutValue (.outside 0) (core ++ (spaces' ++ after ++ rest)) =
      (core ++ (spaces' ++ after), rest) := by
    rw [cutValue_append (passes_value written 0), cutValue_append (pass?_blanks behind 0),
      cutValue_end ends, List.append_nil]
  have trimmed : Text.trimEnd (core ++ (spaces' ++ after)) = core := by
    rw [closing, trimEnd_append behind (isBlank_of_closesValue closes)]
  have read : Json.readChars core = .ok v :=
    Json.readChars_eq_ok.mpr ⟨[], core, [], Json.Spaces.nil, written, Json.Spaces.nil, by simp⟩
  unfold readAnnotationValue
  simp only [skipped, cut, trimmed]
  cases core with
  | nil => cases opening
  | cons c core => simp only [read]

theorem value_of_readAnnotationValue {cs rest : List Char} {v : Json}
    (ok : readAnnotationValue cs = .ok (v, rest)) :
    ∃ before text after, Blanks before ∧ Json.readChars text = .ok v ∧ Blanks after ∧
      cs = before ++ (text ++ (after ++ rest)) := by
  obtain ⟨before, left, front⟩ := exists_blanks cs
  have cut := append_of_cutValue (.outside 0) (Text.skipBlanks cs)
  obtain ⟨after, right, trimmed⟩ := exists_blanks_at_end (cutValue (.outside 0)
    (Text.skipBlanks cs)).1
  unfold readAnnotationValue at ok
  simp only at ok
  split at ok
  · simp at ok
  · split at ok
    · rename_i reads
      cases ok
      refine ⟨before, _, after, left, reads, right, ?_⟩
      rw [← List.append_assoc _ after, ← trimmed, ← cut, ← front]
    · simp at ok

theorem append_of_cutQuoted {escaped : Bool} {cs quoted rest : List Char}
    (cut : cutQuoted escaped cs = some (quoted, rest)) : cs = quoted ++ rest := by
  induction cs generalizing escaped quoted with
  | nil => simp [cutQuoted] at cut
  | cons c cs ih =>
      rw [cutQuoted] at cut
      split at cut
      · cases cut
        rfl
      · obtain ⟨⟨inner, rest'⟩, later, same⟩ := Option.map_eq_some_iff.mp cut
        cases same
        rw [ih later, List.cons_append]

theorem cutQuoted_plain {c : Char} (other : c ≠ '"' ∧ c ≠ '\\') (cs : List Char) :
    cutQuoted false (c :: cs) =
      (cutQuoted false cs).map fun (quoted, rest) => (c :: quoted, rest) := by
  have unescaped : (c == '\\') = false := by simp [other.2]
  simp [cutQuoted, other.1, unescaped]

theorem cutQuoted_escape (c : Char) (cs : List Char) :
    cutQuoted false ('\\' :: c :: cs) =
      (cutQuoted false cs).map fun (quoted, rest) => ('\\' :: c :: quoted, rest) := by
  simp [cutQuoted, Function.comp_def]

theorem cutQuoted_hexUnit {a b c d : Char} {n : Nat} (hex : Json.hexUnit? a b c d = some n)
    (cs : List Char) :
    cutQuoted false ('\\' :: 'u' :: a :: b :: c :: d :: cs) =
      (cutQuoted false cs).map fun (quoted, rest) =>
        ('\\' :: 'u' :: a :: b :: c :: d :: quoted, rest) := by
  have plain := hexUnit?_eq_some hex
  simp only [List.forall_mem_cons] at plain
  obtain ⟨ha, hb, hc, hd, _⟩ := plain
  rw [cutQuoted_escape, cutQuoted_plain ha, cutQuoted_plain hb, cutQuoted_plain hc,
    cutQuoted_plain hd]
  simp [Function.comp_def]

theorem cutQuoted_append {text s : List Char} (written : Json.StringText text s)
    (rest : List Char) : cutQuoted false (text ++ rest) = some (text, rest) := by
  induction written with
  | close => rfl
  | plain _ other _ ih => rw [List.cons_append, cutQuoted_plain other, ih]; rfl
  | escape _ _ ih => rw [List.cons_append, List.cons_append, cutQuoted_escape, ih]; rfl
  | unit hex _ _ ih =>
      simp only [List.cons_append]
      rw [cutQuoted_hexUnit hex, ih]
      rfl
  | pair first _ second _ _ ih =>
      simp only [List.cons_append]
      rw [cutQuoted_hexUnit first, cutQuoted_hexUnit second, ih]
      rfl

theorem readQuotedKey_append {text key : List Char} (written : Json.StringText text key)
    (rest : List Char) : readQuotedKey (text ++ rest) = .ok (String.ofList key, rest) := by
  have read : Json.readString text = .ok (key, []) := by
    simpa using Json.readString_append written []
  unfold readQuotedKey
  rw [cutQuoted_append written]
  simp only [read]

theorem string_of_readQuotedKey {cs rest : List Char} {key : String}
    (ok : readQuotedKey cs = .ok (key, rest)) :
    ∃ text k, Json.StringText text k ∧ key = String.ofList k ∧ cs = text ++ rest := by
  unfold readQuotedKey at ok
  split at ok
  · simp at ok
  · rename_i quoted rest' cut
    split at ok
    · rename_i k more read
      cases ok
      obtain ⟨text, written, rfl⟩ := Json.stringText_of_readString read
      have split := append_of_cutQuoted cut
      have again := cutQuoted_append written (more ++ rest)
      rw [← List.append_assoc, ← split, cut] at again
      obtain ⟨whole, _⟩ := Prod.mk.inj (Option.some.inj again)
      refine ⟨text, k, written, rfl, ?_⟩
      rw [split, whole]
    · simp at ok

end Overload.TypeExpr
