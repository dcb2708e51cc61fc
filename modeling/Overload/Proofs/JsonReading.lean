import Overload.Proofs.JsonText

/-!
Reading JSON values: the reader takes the text of a value off the front, whatever follows it unless
a number goes on, and takes nothing else.
-/
namespace Overload.Json

theorem EndsNumber.cons {c : Char} (h : c.isDigit = false ∧ c ≠ '.' ∧ c ≠ 'e' ∧ c ≠ 'E')
    (rest : List Char) : EndsNumber (c :: rest) := by
  intro d hd
  cases hd
  exact h

theorem EndsNumber.spaces {spaces rest : List Char} (blank : Spaces spaces)
    (ends : EndsNumber rest) : EndsNumber (spaces ++ rest) := by
  cases spaces with
  | nil => exact ends
  | cons c spaces =>
      have space := blank c List.mem_cons_self
      simp only [isSpace, Bool.or_eq_true, beq_iff_eq] at space
      refine .cons ?_ _
      obtain ((rfl | rfl) | rfl) | rfl := space <;> decide

theorem SeriesText.endsNumber {α : Type} {close : Char} {entry : List Char → α → Prop}
    {text : List Char} {xs : List α} (bracket : close = ']' ∨ close = '}')
    (written : SeriesText close entry false text xs) (rest : List Char) :
    EndsNumber (text ++ rest) := by
  cases written with
  | nil blank =>
      rw [List.append_assoc]
      refine .spaces blank (.cons ?_ _)
      obtain rfl | rfl := bracket <;> decide
  | cons apart _ _ =>
      obtain _ | ⟨left, right⟩ := apart
      rw [List.append_assoc, List.append_assoc]
      exact .spaces left (.cons (by decide) _)

theorem readWord_append (value : Json) (word rest : List Char) :
    readWord value word (word ++ rest) = .ok (value, rest) := by
  induction word with
  | nil => rfl
  | cons c word ih => rw [List.cons_append, readWord, if_pos rfl, ih]

theorem readWord_eq_ok {value v : Json} {word cs rest : List Char}
    (ok : readWord value word cs = .ok (v, rest)) : v = value ∧ cs = word ++ rest := by
  induction word generalizing cs with
  | nil =>
      cases ok
      exact ⟨rfl, rfl⟩
  | cons c word ih =>
      cases cs with
      | nil => simp [readWord] at ok
      | cons d cs =>
          rw [readWord] at ok
          split at ok
          · rename_i same
            obtain ⟨rfl, rfl⟩ := ih ok
            exact ⟨rfl, by rw [same]; rfl⟩
          · simp at ok

theorem nextItem_close {first : Bool} {spaces : List Char} (blank : Spaces spaces)
    (rest : List Char) : nextItem first (spaces ++ ']' :: rest) = .ok (false, rest) := by
  unfold nextItem
  rw [skipSpace_append blank, skipSpace_of_front (by decide)]
  cases first <;> rfl

theorem nextItem_gap {first : Bool} {gap : List Char} (apart : Gap first gap) {c : Char}
    (opens : opensValue c = true) (rest : List Char) :
    nextItem first (gap ++ c :: rest) = .ok (true, c :: rest) := by
  have other : c ≠ ']' := of_isDigit_or (P := (· ≠ ']')) (by decide) (by decide) opens
  have front := skipSpace_of_front (isSpace_of_opensValue opens) rest
  unfold nextItem
  cases apart with
  | first blank =>
      rw [skipSpace_append blank, front]
      simp [other]
  | comma left right =>
      rw [List.append_assoc, skipSpace_append left, List.cons_append,
        skipSpace_of_front (by decide)]
      simp [skipSpace_append right, front, other]

/-- A reader that takes the texts of entries off the front. -/
def Reads {α : Type} (read : Reader α) (entry : List Char → α → Prop) : Prop :=
  ∀ ⦃text : List Char⦄ ⦃x : α⦄, entry text x → ∀ rest, EndsNumber rest →
    read (text ++ rest) = .ok (x, rest)

theorem readItems_append {item : Reader Json} {entry : List Char → Json → Prop}
    (reads : Reads item entry) (bounded : ∀ text v, entry text v → Bounded text) {first : Bool}
    {text : List Char} {items : List Json} (written : SeriesText ']' entry first text items)
    {bound : Nat} (room : text.length ≤ bound) (rest : List Char) :
    readItems item bound first (text ++ rest) = .ok (items, rest) := by
  induction written generalizing bound with
  | @nil first spaces blank =>
      obtain _ | bound := bound
      · simp at room
      · refine bind_eq_ok.mpr ⟨(false, rest), ?_, rfl⟩
        rw [List.append_assoc]
        exact nextItem_close blank rest
  | @cons first gap text more x xs apart head tail ih =>
      have bounds := bounded text x head
      have positive := bounds.length_pos
      simp only [List.length_append] at room
      obtain _ | bound := bound
      · omega
      · obtain ⟨c, others, split, opens⟩ := bounds.opens
        refine bind_eq_ok.mpr ⟨(true, text ++ (more ++ rest)), ?_, ?_⟩
        · rw [List.append_assoc, List.append_assoc, split]
          exact nextItem_gap apart opens _
        · refine bind_eq_ok.mpr ⟨(x, more ++ rest), reads head _ ?_, ?_⟩
          · exact tail.endsNumber (.inl rfl) rest
          · exact bind_eq_ok.mpr ⟨(xs, rest), ih (by omega), rfl⟩

theorem nextKey_close {first : Bool} {spaces : List Char} (blank : Spaces spaces)
    (rest : List Char) : nextKey first (spaces ++ '}' :: rest) = .ok (none, rest) := by
  unfold nextKey
  rw [skipSpace_append blank, skipSpace_of_front (by decide)]
  cases first <;> rfl

theorem nextKey_gap {first : Bool} {gap key k : List Char} (apart : Gap first gap)
    (name : StringText key k) (rest : List Char) :
    nextKey first (gap ++ '"' :: (key ++ rest)) = .ok (some (String.ofList k), rest) := by
  have front : skipSpace ('"' :: (key ++ rest)) = '"' :: (key ++ rest) :=
    skipSpace_of_front (by decide) _
  have read : readKey (key ++ rest) = .ok (some (String.ofList k), rest) :=
    bind_eq_ok.mpr ⟨_, readString_append name rest, rfl⟩
  unfold nextKey
  cases apart with
  | first blank =>
      rw [skipSpace_append blank, front]
      exact read
  | comma left right =>
      rw [List.append_assoc, skipSpace_append left, List.cons_append,
        skipSpace_of_front (by decide)]
      simp only [skipSpace_append right, front]
      exact read

theorem readColon_append {spaces : List Char} (blank : Spaces spaces) (rest : List Char) :
    readColon (spaces ++ ':' :: rest) = .ok ((), rest) := by
  unfold readColon
  rw [skipSpace_append blank, skipSpace_of_front (by decide)]
  rfl

theorem readMembers_append {value : Reader Json} {entry : List Char → Json → Prop}
    (reads : Reads value entry)
    (blind : ∀ spaces, Spaces spaces → ∀ cs, value (spaces ++ cs) = value cs) {first : Bool}
    {text : List Char} {members : List (String × Json)}
    (written : SeriesText '}' (MemberText entry) first text members) {bound : Nat}
    (room : text.length ≤ bound) (rest : List Char) :
    readMembers value bound first (text ++ rest) = .ok (members, rest) := by
  induction written generalizing bound with
  | @nil first spaces blank =>
      obtain _ | bound := bound
      · simp at room
      · refine bind_eq_ok.mpr ⟨(none, rest), ?_, rfl⟩
        rw [List.append_assoc]
        exact nextKey_close blank rest
  | @cons first gap text more x xs apart head tail ih =>
      obtain @⟨key, k, before, after, text, v, name, left, right, content⟩ := head
      simp only [List.length_append, List.length_cons] at room
      obtain _ | bound := bound
      · omega
      · simp only [List.append_assoc, List.cons_append]
        refine bind_eq_ok.mpr ⟨_, nextKey_gap apart name _, ?_⟩
        refine bind_eq_ok.mpr ⟨_, readColon_append left _, ?_⟩
        refine bind_eq_ok.mpr ⟨(v, more ++ rest), ?_, ?_⟩
        · rw [blind after right]
          exact reads content _ (tail.endsNumber (.inr rfl) rest)
        · exact bind_eq_ok.mpr ⟨(xs, rest), ih (by omega), rfl⟩

theorem readValue_spaces {depth : Nat} (spaces : List Char) (blank : Spaces spaces)
    (cs : List Char) : readValue depth (spaces ++ cs) = readValue depth cs := by
  rw [readValue.eq_def, readValue.eq_def, skipSpace_append blank]

theorem readValue_scalar {depth : Nat} {text : List Char} {v : Json}
    (written : ScalarText text v) (rest : List Char) (ends : EndsNumber rest) :
    readValue depth (text ++ rest) = .ok (v, rest) := by
  have front := written.bounded.skipSpace rest
  cases written with
  | null =>
      rw [readValue.eq_def, front]
      exact readWord_append .null ['u', 'l', 'l'] rest
  | true =>
      rw [readValue.eq_def, front]
      exact readWord_append (.bool true) ['r', 'u', 'e'] rest
  | false =>
      rw [readValue.eq_def, front]
      exact readWord_append (.bool false) ['a', 'l', 's', 'e'] rest
  | negative written =>
      rw [readValue.eq_def, front]
      exact readNumber_append written ends
  | string written =>
      rw [readValue.eq_def, front]
      exact bind_eq_ok.mpr ⟨_, readString_append written rest, rfl⟩
  | positive written =>
      have number := readNumber_append written ends
      obtain @⟨whole, fraction, exponent, text, v, digits, _, _, _⟩ := written
      cases whole with
      | nil => exact absurd rfl digits.1.1
      | cons c whole =>
          have digit := digits.1.2 c List.mem_cons_self
          have other : ['n', 't', 'f', '-', '"', '[', '{'].contains c = false :=
            of_isDigit (P := fun c => ['n', 't', 'f', '-', '"', '[', '{'].contains c = false)
              (by decide) digit
          rw [readValue.eq_def, front]
          simp only [List.cons_append] at number ⊢
          split
          all_goals simp_all

theorem reads_value (depth : Nat) : Reads (readValue depth) (ValueText depth) := by
  induction depth with
  | zero => exact fun text v written rest ends => readValue_scalar written rest ends
  | succ depth ih =>
      intro text v written rest ends
      have front := (@ValueText.bounded (depth + 1) text v written).skipSpace rest
      cases written with
      | scalar written => exact readValue_scalar written rest ends
      | @array text items written =>
          -- every item takes a character, so the length of the text bounds their number
          have room : text.length ≤ (text ++ rest).length + 1 := by
            rw [List.length_append]
            omega
          rw [readValue.eq_def, front]
          refine bind_eq_ok.mpr ⟨(items, rest), ?_, rfl⟩
          exact readItems_append ih (fun _ _ => ValueText.bounded) written room rest
      | @object text members written =>
          have room : text.length ≤ (text ++ rest).length + 1 := by
            rw [List.length_append]
            omega
          rw [readValue.eq_def, front]
          refine bind_eq_ok.mpr ⟨(members, rest), ?_, rfl⟩
          exact readMembers_append ih readValue_spaces written room rest

theorem close_of_nextItem {first : Bool} {cs rest : List Char}
    (ok : nextItem first cs = .ok (false, rest)) :
    ∃ spaces, Spaces spaces ∧ cs = spaces ++ ']' :: rest := by
  obtain ⟨spaces, blank, split⟩ := exists_spaces cs
  unfold nextItem at ok
  split at ok
  · simp at ok
  · rename_i front
    cases ok
    exact ⟨spaces, blank, by rw [← front, ← split]⟩
  · simp at ok
  · split at ok <;> simp at ok
  · simp at ok

theorem gap_of_nextItem {first : Bool} {cs rest : List Char}
    (ok : nextItem first cs = .ok (true, rest)) : ∃ gap, Gap first gap ∧ cs = gap ++ rest := by
  obtain ⟨spaces, blank, split⟩ := exists_spaces cs
  unfold nextItem at ok
  split at ok
  · simp at ok
  · simp at ok
  · cases ok
    exact ⟨spaces, .first blank, split⟩
  · rename_i more front
    obtain ⟨after, blank', split'⟩ := exists_spaces more
    split at ok
    · simp at ok
    · simp at ok
    · cases ok
      refine ⟨_, .comma blank blank', ?_⟩
      rw [List.append_assoc, List.cons_append, ← split', ← front, ← split]
  · simp at ok

theorem Gap.append {first : Bool} {gap spaces : List Char} (apart : Gap first gap)
    (blank : Spaces spaces) : Gap first (gap ++ spaces) := by
  cases apart with
  | first left => exact .first (left.append blank)
  | comma left right =>
      rw [List.append_assoc, List.cons_append]
      exact .comma left (right.append blank)

/-- A reader that finds nothing but texts of entries, after some space. -/
def Finds {α : Type} (read : Reader α) (entry : List Char → α → Prop) : Prop :=
  ∀ ⦃cs : List Char⦄ ⦃x : α⦄ ⦃rest : List Char⦄, read cs = .ok (x, rest) →
    ∃ spaces text, Spaces spaces ∧ entry text x ∧ cs = spaces ++ (text ++ rest)

theorem series_of_readItems {item : Reader Json} {entry : List Char → Json → Prop}
    (finds : Finds item entry) {bound : Nat} {first : Bool} {cs rest : List Char}
    {items : List Json} (ok : readItems item bound first cs = .ok (items, rest)) :
    ∃ text, SeriesText ']' entry first text items ∧ cs = text ++ rest := by
  induction bound generalizing first cs items with
  | zero => simp [readItems] at ok
  | succ bound ih =>
      obtain ⟨⟨more, rest₁⟩, next, ok⟩ := bind_eq_ok.mp ok
      cases more with
      | false =>
          cases ok
          obtain ⟨spaces, blank, rfl⟩ := close_of_nextItem next
          exact ⟨_, .nil blank, by rw [List.append_assoc]; rfl⟩
      | true =>
          obtain ⟨⟨x, rest₂⟩, head, ok⟩ := bind_eq_ok.mp ok
          obtain ⟨⟨xs, rest₃⟩, tail, same⟩ := bind_eq_ok.mp ok
          cases same
          obtain ⟨gap, apart, rfl⟩ := gap_of_nextItem next
          obtain ⟨spaces, text, blank, written, rfl⟩ := finds head
          obtain ⟨others, series, rfl⟩ := ih tail
          exact ⟨_, .cons (apart.append blank) written series, by simp⟩

theorem key_of_readKey {cs rest : List Char} {key : Option String}
    (ok : readKey cs = .ok (key, rest)) :
    ∃ text k, StringText text k ∧ key = some (String.ofList k) ∧ cs = text ++ rest := by
  obtain ⟨⟨k, rest'⟩, read, same⟩ := bind_eq_ok.mp ok
  cases same
  obtain ⟨text, written, rfl⟩ := stringText_of_readString read
  exact ⟨text, k, written, rfl, rfl⟩

theorem close_of_nextKey {first : Bool} {cs rest : List Char}
    (ok : nextKey first cs = .ok (none, rest)) :
    ∃ spaces, Spaces spaces ∧ cs = spaces ++ '}' :: rest := by
  have noKey : ∀ more, readKey more ≠ .ok (none, rest) := by
    intro more read
    obtain ⟨_, _, _, key, _⟩ := key_of_readKey read
    cases key
  obtain ⟨spaces, blank, split⟩ := exists_spaces cs
  unfold nextKey at ok
  split at ok
  · simp at ok
  · rename_i front
    cases ok
    exact ⟨spaces, blank, by rw [← front, ← split]⟩
  · exact absurd ok (noKey _)
  · simp at ok
  · split at ok
    · simp at ok
    · simp at ok
    · exact absurd ok (noKey _)
    · simp at ok
  · simp at ok

theorem gap_of_nextKey {first : Bool} {cs rest : List Char} {key : String}
    (ok : nextKey first cs = .ok (some key, rest)) :
    ∃ gap text k, Gap first gap ∧ StringText text k ∧ key = String.ofList k ∧
      cs = gap ++ '"' :: (text ++ rest) := by
  obtain ⟨spaces, blank, split⟩ := exists_spaces cs
  unfold nextKey at ok
  split at ok
  · simp at ok
  · simp at ok
  · rename_i more front
    obtain ⟨text, k, written, same, rfl⟩ := key_of_readKey ok
    cases same
    exact ⟨spaces, text, k, .first blank, written, rfl, by rw [← front, ← split]⟩
  · simp at ok
  · rename_i more front
    obtain ⟨after, blank', split'⟩ := exists_spaces more
    split at ok
    · simp at ok
    · simp at ok
    · rename_i more' front'
      obtain ⟨text, k, written, same, rfl⟩ := key_of_readKey ok
      cases same
      refine ⟨_, text, k, .comma blank blank', written, rfl, ?_⟩
      rw [List.append_assoc, List.cons_append, ← front', ← split', ← front, ← split]
    · simp at ok
  · simp at ok

theorem colon_of_readColon {cs rest : List Char} (ok : readColon cs = .ok ((), rest)) :
    ∃ spaces, Spaces spaces ∧ cs = spaces ++ ':' :: rest := by
  obtain ⟨spaces, blank, split⟩ := exists_spaces cs
  unfold readColon at ok
  split at ok
  · simp at ok
  · rename_i front
    cases ok
    exact ⟨spaces, blank, by rw [← front, ← split]⟩
  · simp at ok

theorem series_of_readMembers {value : Reader Json} {entry : List Char → Json → Prop}
    (finds : Finds value entry) {bound : Nat} {first : Bool} {cs rest : List Char}
    {members : List (String × Json)}
    (ok : readMembers value bound first cs = .ok (members, rest)) :
    ∃ text, SeriesText '}' (MemberText entry) first text members ∧ cs = text ++ rest := by
  induction bound generalizing first cs members with
  | zero => simp [readMembers] at ok
  | succ bound ih =>
      obtain ⟨⟨key, rest₁⟩, next, ok⟩ := bind_eq_ok.mp ok
      cases key with
      | none =>
          cases ok
          obtain ⟨spaces, blank, rfl⟩ := close_of_nextKey next
          exact ⟨_, .nil blank, by rw [List.append_assoc]; rfl⟩
      | some key =>
          obtain ⟨⟨_, rest₂⟩, colon, ok⟩ := bind_eq_ok.mp ok
          obtain ⟨⟨v, rest₃⟩, head, ok⟩ := bind_eq_ok.mp ok
          obtain ⟨⟨others, rest₄⟩, tail, same⟩ := bind_eq_ok.mp ok
          cases same
          obtain ⟨gap, name, k, apart, written, rfl, rfl⟩ := gap_of_nextKey next
          obtain ⟨before, left, rfl⟩ := colon_of_readColon colon
          obtain ⟨after, text, right, content, rfl⟩ := finds head
          obtain ⟨more, series, rfl⟩ := ih tail
          exact ⟨_, .cons apart (.parts written left right content) series, by simp⟩

/-- What a value that was read begins with. -/
theorem readValue_cases {depth : Nat} {cs rest : List Char} {v : Json}
    (ok : readValue depth cs = .ok (v, rest)) :
    (∃ text, ScalarText text v ∧ skipSpace cs = text ++ rest) ∨
      (∃ inner more items, depth = inner + 1 ∧ skipSpace cs = '[' :: more ∧ v = .array items ∧
        readItems (readValue inner) (more.length + 1) true more = .ok (items, rest)) ∨
      ∃ inner more members, depth = inner + 1 ∧ skipSpace cs = '{' :: more ∧ v = .object members ∧
        readMembers (readValue inner) (more.length + 1) true more = .ok (members, rest) := by
  rw [readValue.eq_def] at ok
  split at ok
  · simp at ok
  · rename_i front
    obtain ⟨rfl, rfl⟩ := readWord_eq_ok ok
    exact .inl ⟨_, .null, front⟩
  · rename_i front
    obtain ⟨rfl, rfl⟩ := readWord_eq_ok ok
    exact .inl ⟨_, .true, front⟩
  · rename_i front
    obtain ⟨rfl, rfl⟩ := readWord_eq_ok ok
    exact .inl ⟨_, .false, front⟩
  · rename_i front
    obtain ⟨text, written, rfl⟩ := numberText_of_readNumber ok
    exact .inl ⟨_, .negative written, front⟩
  · rename_i front
    obtain ⟨⟨s, rest'⟩, read, same⟩ := bind_eq_ok.mp ok
    cases same
    obtain ⟨text, written, rfl⟩ := stringText_of_readString read
    exact .inl ⟨_, .string written, front⟩
  · rename_i more front
    split at ok
    · simp at ok
    · rename_i inner
      obtain ⟨⟨items, rest'⟩, read, same⟩ := bind_eq_ok.mp ok
      cases same
      exact .inr (.inl ⟨inner, more, items, rfl, front, rfl, read⟩)
  · rename_i more front
    split at ok
    · simp at ok
    · rename_i inner
      obtain ⟨⟨members, rest'⟩, read, same⟩ := bind_eq_ok.mp ok
      cases same
      exact .inr (.inr ⟨inner, more, members, rfl, front, rfl, read⟩)
  · rename_i front
    split at ok
    · obtain ⟨text, written, same⟩ := numberText_of_readNumber ok
      exact .inl ⟨_, .positive written, front.trans same⟩
    · simp at ok

theorem ScalarText.value {text : List Char} {v : Json} (written : ScalarText text v)
    (depth : Nat) : ValueText depth text v := by
  cases depth with
  | zero => exact written
  | succ depth => exact .scalar written

theorem finds_value (depth : Nat) : Finds (readValue depth) (ValueText depth) := by
  induction depth with
  | zero =>
      intro cs v rest ok
      obtain ⟨spaces, blank, split⟩ := exists_spaces cs
      obtain ⟨text, written, front⟩ | ⟨_, _, _, none, _⟩ | ⟨_, _, _, none, _⟩ :=
        readValue_cases ok
      · exact ⟨spaces, text, blank, written, by rw [← front, ← split]⟩
      · cases none
      · cases none
  | succ depth ih =>
      intro cs v rest ok
      obtain ⟨spaces, blank, split⟩ := exists_spaces cs
      obtain ⟨text, written, front⟩ | ⟨inner, more, items, same, front, rfl, read⟩ |
        ⟨inner, more, members, same, front, rfl, read⟩ := readValue_cases ok
      · exact ⟨spaces, text, blank, .scalar written, by rw [← front, ← split]⟩
      · cases same
        obtain ⟨text, series, rfl⟩ := series_of_readItems ih read
        exact ⟨spaces, _, blank, .array series, by rw [List.cons_append, ← front, ← split]⟩
      · cases same
        obtain ⟨text, series, rfl⟩ := series_of_readMembers ih read
        exact ⟨spaces, _, blank, .object series, by rw [List.cons_append, ← front, ← split]⟩

theorem number_eq_ok {negative : Bool} {whole : List Char} {fraction : Option (List Char)}
    {exponent : Option Int} {v : Json} (ok : number negative whole fraction exponent = .ok v) :
    (∃ n, v = .integer n) ∨ ∃ x, v = .real x := by
  unfold number at ok
  simp only at ok
  split at ok
  · cases ok
    exact .inl ⟨_, rfl⟩
  · split at ok
    · cases ok
      exact .inr ⟨_, rfl⟩
    · simp at ok

theorem ScalarText.string_inv {text : List Char} {s : String}
    (written : ScalarText text (.string s)) :
    ∃ inner k, StringText inner k ∧ text = '"' :: inner ∧ s = String.ofList k := by
  have noNumber : ∀ {negative : Bool} {text : List Char},
      ¬NumberText negative text (.string s) := by
    intro negative text written
    obtain @⟨_, _, _, _, _, _, _, _, value⟩ := written
    obtain ⟨n, same⟩ | ⟨x, same⟩ := number_eq_ok value
    · cases same
    · cases same
  cases written with
  | positive written => exact absurd written noNumber
  | negative written => exact absurd written noNumber
  | string written => exact ⟨_, _, written, rfl, rfl⟩

theorem ValueText.string_inv {depth : Nat} {text : List Char} {s : String}
    (written : ValueText depth text (.string s)) :
    ∃ inner k, StringText inner k ∧ text = '"' :: inner ∧ s = String.ofList k := by
  cases depth with
  | zero => exact ScalarText.string_inv written
  | succ depth =>
      cases written with
      | scalar written => exact written.string_inv

theorem readChars_eq_ok {cs : List Char} {v : Json} :
    readChars cs = .ok v ↔
      ∃ before text after, Spaces before ∧ ValueText maxDepth text v ∧ Spaces after ∧
        cs = before ++ (text ++ after) := by
  rw [readChars, bind_eq_ok]
  constructor
  · intro ok
    obtain ⟨⟨v', rest⟩, read, done⟩ := ok
    obtain ⟨before, text, blank, written, rfl⟩ := finds_value maxDepth read
    obtain ⟨after, blank', split⟩ := exists_spaces rest
    simp only at done
    split at done
    · rename_i nothing
      cases done
      rw [nothing, List.append_nil] at split
      exact ⟨before, text, after, blank, written, blank', by rw [split]⟩
    · simp at done
  · intro parts
    obtain ⟨before, text, after, blank, written, blank', rfl⟩ := parts
    have ends : EndsNumber after := by
      have nothing : EndsNumber [] := by simp [EndsNumber]
      simpa using nothing.spaces blank'
    have nothing : skipSpace after = [] := by
      rw [← List.append_nil after, skipSpace_append blank']
      rfl
    refine ⟨(v, after), ?_, ?_⟩
    · rw [readValue_spaces before blank]
      exact reads_value maxDepth written after ends
    · simp only [nothing]

end Overload.Json
