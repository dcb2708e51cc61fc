import Mathlib.Data.List.TakeWhile
import Overload.Json.Reader
import Overload.Proofs.Outcome

/-!
JSON texts by their grammar. A text stands for a value by the rules below, part by part, and the
readers of numbers and strings take such texts off the front and nothing else. Space in front of a
value belongs to what surrounds the value.
-/
namespace Overload.Json

def Spaces (cs : List Char) : Prop := ∀ c ∈ cs, isSpace c = true

theorem Spaces.nil : Spaces [] := nofun

theorem Spaces.append {cs ds : List Char} (first : Spaces cs) (second : Spaces ds) :
    Spaces (cs ++ ds) := fun c hc => (List.mem_append.mp hc).elim (first c) (second c)

theorem skipSpace_append {spaces : List Char} (h : Spaces spaces) (rest : List Char) :
    skipSpace (spaces ++ rest) = skipSpace rest :=
  List.dropWhile_append_of_pos h

theorem exists_spaces (cs : List Char) :
    ∃ spaces, Spaces spaces ∧ cs = spaces ++ skipSpace cs :=
  ⟨cs.takeWhile isSpace, fun _ hc => List.mem_takeWhile_imp hc,
    List.takeWhile_append_dropWhile.symm⟩

theorem skipSpace_of_front {c : Char} (front : isSpace c = false) (rest : List Char) :
    skipSpace (c :: rest) = c :: rest := by
  rw [skipSpace, List.dropWhile_cons_of_neg (by simp [front])]

/-- One digit or more, and nothing else. -/
def Digits (ds : List Char) : Prop := ds ≠ [] ∧ ∀ c ∈ ds, c.isDigit = true

/-- Digits of which a zero in front stands alone. -/
def Whole (ds : List Char) : Prop := Digits ds ∧ ∀ more, ds = '0' :: more → more = []

def fractionText : Option (List Char) → List Char
  | none => []
  | some ds => '.' :: ds

inductive SignText : Bool → List Char → Prop
  | absent : SignText false []
  | plus : SignText false ['+']
  | minus : SignText true ['-']

inductive ExponentText : Option Int → List Char → Prop
  | absent : ExponentText none []
  | present {mark : Char} {negative : Bool} {sign ds : List Char} (letter : mark = 'e' ∨ mark = 'E')
      (direction : SignText negative sign) (digits : Digits ds) :
      ExponentText (some (signed negative (natOfDigits ds))) (mark :: (sign ++ ds))

/-- The text of a number without its sign. -/
inductive NumberText (negative : Bool) : List Char → Json → Prop
  | parts {whole : List Char} {fraction : Option (List Char)} {exponent : Option Int}
      {text : List Char} {v : Json} (digits : Whole whole) (places : ∀ ds ∈ fraction, Digits ds)
      (scale : ExponentText exponent text)
      (value : number negative whole fraction exponent = .ok v) :
      NumberText negative (whole ++ (fractionText fraction ++ text)) v

/-- A number does not go on with this text. -/
def EndsNumber (rest : List Char) : Prop :=
  ∀ c ∈ rest.head?, c.isDigit = false ∧ c ≠ '.' ∧ c ≠ 'e' ∧ c ≠ 'E'

theorem digits_of_readDigits {cs ds rest : List Char} (ok : readDigits cs = .ok (ds, rest)) :
    Digits ds ∧ cs = ds ++ rest := by
  unfold readDigits at ok
  split at ok
  · simp at ok
  · simp at ok
  · rename_i some _
    cases ok
    exact ⟨⟨some, fun c hc => List.mem_takeWhile_imp hc⟩, List.takeWhile_append_dropWhile.symm⟩

theorem readDigits_append {ds rest : List Char} (digits : Digits ds)
    (ends : ∀ c ∈ rest.head?, c.isDigit = false) : readDigits (ds ++ rest) = .ok (ds, rest) := by
  have stop : rest.takeWhile Char.isDigit = [] ∧ rest.dropWhile Char.isDigit = rest := by
    cases rest with
    | nil => exact ⟨rfl, rfl⟩
    | cons c rest =>
        have other := ends c rfl
        simp [other]
  unfold readDigits
  rw [List.takeWhile_append_of_pos digits.2, List.dropWhile_append_of_pos digits.2, stop.1, stop.2,
    List.append_nil]
  cases ds with
  | nil => exact absurd rfl digits.1
  | cons c ds => rfl

theorem whole_of_readWhole {cs ds rest : List Char} (ok : readWhole cs = .ok (ds, rest)) :
    Whole ds ∧ cs = ds ++ rest := by
  obtain ⟨⟨ds', rest'⟩, read, checked⟩ := bind_eq_ok.mp ok
  obtain ⟨digits, split⟩ := digits_of_readDigits read
  simp only at checked
  split at checked
  · simp at checked
  · rename_i alone
    cases checked
    refine ⟨⟨digits, fun more same => ?_⟩, split⟩
    cases more with
    | nil => rfl
    | cons c more => exact absurd same (alone c more)

theorem readWhole_append {ds rest : List Char} (whole : Whole ds)
    (ends : ∀ c ∈ rest.head?, c.isDigit = false) : readWhole (ds ++ rest) = .ok (ds, rest) := by
  refine bind_eq_ok.mpr ⟨(ds, rest), readDigits_append whole.1 ends, ?_⟩
  simp only
  split
  · exact absurd (whole.2 _ rfl) (by simp)
  · rfl

theorem fraction_of_readFraction {cs rest : List Char} {fraction : Option (List Char)}
    (ok : readFraction cs = .ok (fraction, rest)) :
    (∀ ds ∈ fraction, Digits ds) ∧ cs = fractionText fraction ++ rest := by
  unfold readFraction at ok
  split at ok
  · obtain ⟨⟨ds, rest'⟩, read, same⟩ := bind_eq_ok.mp ok
    cases same
    obtain ⟨digits, rfl⟩ := digits_of_readDigits read
    exact ⟨by simpa using digits, rfl⟩
  · cases ok
    exact ⟨by simp, rfl⟩

theorem readFraction_append {rest : List Char} {fraction : Option (List Char)}
    (places : ∀ ds ∈ fraction, Digits ds)
    (ends : ∀ c ∈ rest.head?, c.isDigit = false ∧ c ≠ '.') :
    readFraction (fractionText fraction ++ rest) = .ok (fraction, rest) := by
  cases fraction with
  | some ds =>
      exact bind_eq_ok.mpr ⟨(ds, rest),
        readDigits_append (places ds rfl) fun c hc => (ends c hc).1, rfl⟩
  | none =>
      simp only [fractionText, List.nil_append]
      unfold readFraction
      split
      · exact absurd rfl (ends '.' rfl).2
      · rfl

theorem readSign_eq (cs : List Char) :
    ∃ sign, SignText (readSign cs).1 sign ∧ cs = sign ++ (readSign cs).2 := by
  unfold readSign
  split
  · exact ⟨_, .minus, rfl⟩
  · exact ⟨_, .plus, rfl⟩
  · exact ⟨_, .absent, rfl⟩

theorem readSign_append {negative : Bool} {sign ds : List Char} (signed : SignText negative sign)
    (digits : Digits ds) (rest : List Char) :
    readSign (sign ++ (ds ++ rest)) = (negative, ds ++ rest) := by
  cases signed with
  | minus => rfl
  | plus => rfl
  | absent =>
      cases ds with
      | nil => exact absurd rfl digits.1
      | cons c ds =>
          have digit := digits.2 c List.mem_cons_self
          simp only [List.nil_append, List.cons_append]
          unfold readSign
          split
          · rename_i same
            cases same
            exact absurd digit (by decide)
          · rename_i same
            cases same
            exact absurd digit (by decide)
          · rfl

theorem exponent_of_readExponent {cs rest : List Char} {exponent : Option Int}
    (ok : readExponent cs = .ok (exponent, rest)) :
    ∃ text, ExponentText exponent text ∧ cs = text ++ rest := by
  cases cs with
  | nil =>
      cases ok
      exact ⟨[], .absent, rfl⟩
  | cons c cs =>
      rw [readExponent] at ok
      split at ok
      · rename_i letter
        obtain ⟨sign, direction, front⟩ := readSign_eq cs
        generalize readSign cs = signed at ok direction front
        obtain ⟨⟨ds, rest'⟩, read, same⟩ := bind_eq_ok.mp ok
        obtain ⟨digits, split⟩ := digits_of_readDigits read
        cases same
        refine ⟨_, .present letter direction digits, ?_⟩
        rw [List.cons_append, List.append_assoc, ← split, ← front]
      · cases ok
        exact ⟨[], .absent, rfl⟩

theorem readExponent_append {rest text : List Char} {exponent : Option Int}
    (scale : ExponentText exponent text) (ends : EndsNumber rest) :
    readExponent (text ++ rest) = .ok (exponent, rest) := by
  cases scale with
  | absent =>
      cases rest with
      | nil => rfl
      | cons c rest =>
          have other := ends c rfl
          simp [readExponent, other.2.2.1, other.2.2.2]
  | @present mark negative sign ds letter direction digits =>
      rw [List.cons_append, List.append_assoc, readExponent, if_pos letter,
        readSign_append direction digits]
      exact bind_eq_ok.mpr ⟨(ds, rest), readDigits_append digits fun c hc => (ends c hc).1, rfl⟩

theorem numberText_of_readNumber {negative : Bool} {cs rest : List Char} {v : Json}
    (ok : readNumber negative cs = .ok (v, rest)) :
    ∃ text, NumberText negative text v ∧ cs = text ++ rest := by
  obtain ⟨⟨whole, rest₁⟩, first, ok⟩ := bind_eq_ok.mp ok
  obtain ⟨⟨fraction, rest₂⟩, second, ok⟩ := bind_eq_ok.mp ok
  obtain ⟨⟨exponent, rest₃⟩, third, ok⟩ := bind_eq_ok.mp ok
  obtain ⟨v', value, same⟩ := bind_eq_ok.mp ok
  cases same
  obtain ⟨digits, rfl⟩ := whole_of_readWhole first
  obtain ⟨places, rfl⟩ := fraction_of_readFraction second
  obtain ⟨text, scale, rfl⟩ := exponent_of_readExponent third
  exact ⟨_, .parts digits places scale value, by simp⟩

theorem ExponentText.front {exponent : Option Int} {text rest : List Char}
    (scale : ExponentText exponent text) (ends : EndsNumber rest) :
    ∀ c ∈ (text ++ rest).head?, c.isDigit = false ∧ c ≠ '.' := by
  cases scale with
  | absent => exact fun c hc => ⟨(ends c hc).1, (ends c hc).2.1⟩
  | present letter _ _ =>
      intro c hc
      cases hc
      obtain rfl | rfl := letter <;> decide

theorem fractionText_front {fraction : Option (List Char)} {rest : List Char}
    (ends : ∀ c ∈ rest.head?, c.isDigit = false ∧ c ≠ '.') :
    ∀ c ∈ (fractionText fraction ++ rest).head?, c.isDigit = false := by
  cases fraction with
  | none => exact fun c hc => (ends c hc).1
  | some ds =>
      intro c hc
      cases hc
      decide

theorem readNumber_append {negative : Bool} {text rest : List Char} {v : Json}
    (written : NumberText negative text v) (ends : EndsNumber rest) :
    readNumber negative (text ++ rest) = .ok (v, rest) := by
  obtain @⟨whole, fraction, exponent, text, v, digits, places, scale, value⟩ := written
  have front := scale.front ends
  rw [List.append_assoc, List.append_assoc]
  refine bind_eq_ok.mpr ⟨_, readWhole_append digits (fractionText_front front), ?_⟩
  refine bind_eq_ok.mpr ⟨_, readFraction_append places front, ?_⟩
  refine bind_eq_ok.mpr ⟨_, readExponent_append scale ends, ?_⟩
  exact bind_eq_ok.mpr ⟨v, value, rfl⟩

/-- The text of a string after its opening quote, and the characters it stands for. -/
inductive StringText : List Char → List Char → Prop
  | close : StringText ['"'] []
  | plain {c : Char} {text cs : List Char} (shown : 0x20 ≤ c.toNat) (other : c ≠ '"' ∧ c ≠ '\\')
      (rest : StringText text cs) : StringText (c :: text) (c :: cs)
  | escape {c x : Char} {text cs : List Char} (letter : escapedChar? c = some x)
      (rest : StringText text cs) : StringText ('\\' :: c :: text) (x :: cs)
  | unit {a b c d : Char} {n : Nat} {text cs : List Char} (hex : hexUnit? a b c d = some n)
      (single : isTrailing n = false ∧ isLeading n = false) (rest : StringText text cs) :
      StringText ('\\' :: 'u' :: a :: b :: c :: d :: text) (Char.ofNat n :: cs)
  | pair {a b c d e f g h : Char} {m n : Nat} {text cs : List Char}
      (first : hexUnit? a b c d = some m) (leads : isTrailing m = false ∧ isLeading m = true)
      (second : hexUnit? e f g h = some n) (trails : isTrailing n = true)
      (rest : StringText text cs) :
      StringText ('\\' :: 'u' :: a :: b :: c :: d :: '\\' :: 'u' :: e :: f :: g :: h :: text)
        (pairedChar m n :: cs)

theorem consChar_eq_ok {c : Char} {r : Except SyntaxError (List Char × List Char)}
    {s rest : List Char} :
    consChar c r = .ok (s, rest) ↔ ∃ tail, r = .ok (tail, rest) ∧ c :: tail = s := by
  cases r with
  | error e => simp [consChar]
  | ok p => simp [consChar, Prod.ext_iff, and_comm]

theorem stringText_of_readString {cs s rest : List Char} (ok : readString cs = .ok (s, rest)) :
    ∃ text, StringText text s ∧ cs = text ++ rest := by
  fun_induction readString cs generalizing s rest with
  | case1 | case3 | case4 | case5 | case7 | case8 | case10 | case12 | case13 | case14 =>
      simp at ok
  | case2 =>
      cases ok
      exact ⟨_, .close, rfl⟩
  | case6 _ _ _ _ _ first notTrailing leads _ _ _ _ _ _ second trails ih =>
      obtain ⟨tail, read, rfl⟩ := consChar_eq_ok.mp ok
      obtain ⟨text, written, rfl⟩ := ih read
      exact ⟨_, .pair first ⟨by simpa using notTrailing, leads⟩ second trails written, rfl⟩
  | case9 _ _ _ _ _ _ hex notTrailing notLeading ih =>
      obtain ⟨tail, read, rfl⟩ := consChar_eq_ok.mp ok
      obtain ⟨text, written, rfl⟩ := ih read
      exact ⟨_, .unit hex ⟨by simpa using notTrailing, by simpa using notLeading⟩ written, rfl⟩
  | case11 _ _ _ _ _ letter ih =>
      obtain ⟨tail, read, rfl⟩ := consChar_eq_ok.mp ok
      obtain ⟨text, written, rfl⟩ := ih read
      exact ⟨_, .escape letter written, rfl⟩
  | case15 c rest' notQuote _ _ escapes lone shown ih =>
      obtain ⟨tail, read, rfl⟩ := consChar_eq_ok.mp ok
      obtain ⟨text, written, rfl⟩ := ih read
      have notBackslash : c ≠ '\\' := by
        intro same
        cases h : text ++ rest with
        | nil => exact lone same h
        | cons d more => exact escapes d more same h
      exact ⟨_, .plain (Nat.not_lt.mp shown) ⟨notQuote, notBackslash⟩ written, rfl⟩

theorem readString_append {text s : List Char} (written : StringText text s) (rest : List Char) :
    readString (text ++ rest) = .ok (s, rest) := by
  induction written with
  | close => rfl
  | @plain c text cs shown other _ ih =>
      simp [readString, other.1, other.2, Nat.not_lt.mpr shown, ih, consChar]
  | @escape c x text cs letter _ ih =>
      have notUnit : c ≠ 'u' := by
        rintro rfl
        simp [escapedChar?] at letter
      simp [readString, notUnit, letter, ih, consChar]
  | unit hex single _ ih =>
      simp [readString, hex, single.1, single.2, ih, consChar]
  | pair first leads second trails _ ih =>
      simp [readString, first, leads.1, leads.2, second, trails, ih, consChar]

/-- The text of a value that is no array and no object. -/
inductive ScalarText : List Char → Json → Prop
  | null : ScalarText ['n', 'u', 'l', 'l'] .null
  | true : ScalarText ['t', 'r', 'u', 'e'] (.bool true)
  | false : ScalarText ['f', 'a', 'l', 's', 'e'] (.bool false)
  | positive {text : List Char} {v : Json} (written : NumberText false text v) : ScalarText text v
  | negative {text : List Char} {v : Json} (written : NumberText true text v) :
      ScalarText ('-' :: text) v
  | string {text s : List Char} (written : StringText text s) :
      ScalarText ('"' :: text) (.string (String.ofList s))

/-- What stands in front of an entry: a comma, except before the first one. -/
inductive Gap : Bool → List Char → Prop
  | first {spaces : List Char} (blank : Spaces spaces) : Gap true spaces
  | comma {before after : List Char} (left : Spaces before) (right : Spaces after) :
      Gap false (before ++ ',' :: after)

/-- The text of entries up to the closing bracket, by the text of an entry. -/
inductive SeriesText {α : Type} (close : Char) (entry : List Char → α → Prop) :
    Bool → List Char → List α → Prop
  | nil {first : Bool} {spaces : List Char} (blank : Spaces spaces) :
      SeriesText close entry first (spaces ++ [close]) []
  | cons {first : Bool} {gap text more : List Char} {x : α} {xs : List α} (apart : Gap first gap)
      (head : entry text x) (tail : SeriesText close entry false more xs) :
      SeriesText close entry first (gap ++ (text ++ more)) (x :: xs)

/-- The text of a member of an object, by the text of a value. -/
inductive MemberText (value : List Char → Json → Prop) : List Char → String × Json → Prop
  | parts {key k before after text : List Char} {v : Json} (name : StringText key k)
      (left : Spaces before) (right : Spaces after) (content : value text v) :
      MemberText value ('"' :: (key ++ (before ++ ':' :: (after ++ text)))) (String.ofList k, v)

/-- The text of a value, by the text of the values inside of it. -/
inductive NodeText (inner : List Char → Json → Prop) : List Char → Json → Prop
  | scalar {text : List Char} {v : Json} (written : ScalarText text v) : NodeText inner text v
  | array {text : List Char} {items : List Json} (written : SeriesText ']' inner true text items) :
      NodeText inner ('[' :: text) (.array items)
  | object {text : List Char} {members : List (String × Json)}
      (written : SeriesText '}' (MemberText inner) true text members) :
      NodeText inner ('{' :: text) (.object members)

/-- The text of a value with at most so many arrays and objects nested in one another. -/
def ValueText : Nat → List Char → Json → Prop
  | 0 => ScalarText
  | depth + 1 => NodeText (ValueText depth)

theorem mem_digits {c : Char} (digit : c.isDigit = true) :
    c ∈ ['0', '1', '2', '3', '4', '5', '6', '7', '8', '9'] := by
  have bounds : 48 ≤ c.toNat ∧ c.toNat ≤ 57 := by
    simpa [Char.isDigit, UInt32.le_iff_toNat_le] using digit
  have each : c.toNat ∈ [48, 49, 50, 51, 52, 53, 54, 55, 56, 57] := by
    simp only [List.mem_cons, List.not_mem_nil]
    omega
  have back : Char.ofNat c.toNat = c := Char.ofNat_toNat c
  rw [← back]
  exact List.mem_map_of_mem (f := Char.ofNat) each

/-- A character with which the text of a value can begin. -/
def opensValue (c : Char) : Bool :=
  c.isDigit || ['n', 't', 'f', '-', '"', '[', '{'].contains c

/-- A character with which the text of a value can end. -/
def closesValue (c : Char) : Bool :=
  c.isDigit || ['l', 'e', '"', ']', '}'].contains c

theorem of_isDigit {P : Char → Prop} [DecidablePred P]
    (digits : (['0', '1', '2', '3', '4', '5', '6', '7', '8', '9'].all fun d => P d) = true)
    {c : Char} (digit : c.isDigit = true) : P c :=
  of_decide_eq_true (List.all_eq_true.mp digits c (mem_digits digit))

theorem of_isDigit_or {P : Char → Prop} [DecidablePred P]
    (digits : (['0', '1', '2', '3', '4', '5', '6', '7', '8', '9'].all fun d => P d) = true)
    {others : List Char} (rest : (others.all fun d => P d) = true) {c : Char}
    (h : (c.isDigit || others.contains c) = true) : P c := by
  rw [Bool.or_eq_true, List.contains_iff_mem] at h
  exact h.elim (of_isDigit digits) fun listed =>
    of_decide_eq_true (List.all_eq_true.mp rest c listed)

/-- A text that begins and ends as that of a value does. -/
structure Bounded (text : List Char) : Prop where
  opens : ∃ c rest, text = c :: rest ∧ opensValue c = true
  closes : ∃ start c, text = start ++ [c] ∧ closesValue c = true

theorem Digits.closes {ds : List Char} (digits : Digits ds) :
    ∃ start c, ds = start ++ [c] ∧ closesValue c = true := by
  refine ⟨ds.dropLast, ds.getLast digits.1, (List.dropLast_append_getLast digits.1).symm, ?_⟩
  rw [closesValue, digits.2 _ (List.getLast_mem digits.1), Bool.true_or]

theorem closes_append (front : List Char) {text : List Char}
    (closes : ∃ start c, text = start ++ [c] ∧ closesValue c = true) :
    ∃ start c, front ++ text = start ++ [c] ∧ closesValue c = true := by
  obtain ⟨start, c, rfl, closing⟩ := closes
  exact ⟨front ++ start, c, (List.append_assoc front start [c]).symm, closing⟩

theorem NumberText.bounded {negative : Bool} {text : List Char} {v : Json}
    (written : NumberText negative text v) : Bounded text := by
  obtain @⟨whole, fraction, exponent, text, v, digits, places, scale, value⟩ := written
  constructor
  · cases whole with
    | nil => exact absurd rfl digits.1.1
    | cons c whole =>
        refine ⟨c, _, rfl, ?_⟩
        rw [opensValue, digits.1.2 c List.mem_cons_self, Bool.true_or]
  · cases scale with
    | present letter direction ds =>
        exact closes_append _ (closes_append _ (closes_append [_] (closes_append _ ds.closes)))
    | absent =>
        cases fraction with
        | none => simpa [fractionText] using digits.1.closes
        | some ds =>
            rw [List.append_nil]
            exact closes_append _ (closes_append ['.'] (places ds rfl).closes)

theorem StringText.closes {text s : List Char} (written : StringText text s) :
    ∃ start, text = start ++ ['"'] := by
  induction written with
  | close => exact ⟨[], rfl⟩
  | plain _ _ _ ih =>
      obtain ⟨start, rfl⟩ := ih
      exact ⟨_ :: start, rfl⟩
  | escape _ _ ih =>
      obtain ⟨start, rfl⟩ := ih
      exact ⟨_ :: _ :: start, rfl⟩
  | unit _ _ _ ih =>
      obtain ⟨start, rfl⟩ := ih
      exact ⟨_ :: _ :: _ :: _ :: _ :: _ :: start, rfl⟩
  | pair _ _ _ _ _ ih =>
      obtain ⟨start, rfl⟩ := ih
      exact ⟨_ :: _ :: _ :: _ :: _ :: _ :: _ :: _ :: _ :: _ :: _ :: _ :: start, rfl⟩

theorem SeriesText.closes {α : Type} {close : Char} {entry : List Char → α → Prop} {first : Bool}
    {text : List Char} {xs : List α} (written : SeriesText close entry first text xs) :
    ∃ start, text = start ++ [close] := by
  induction written with
  | nil => exact ⟨_, rfl⟩
  | cons _ _ _ ih =>
      obtain ⟨start, rfl⟩ := ih
      exact ⟨_, by rw [← List.append_assoc, ← List.append_assoc]⟩

theorem ScalarText.bounded {text : List Char} {v : Json} (written : ScalarText text v) :
    Bounded text := by
  cases written with
  | null => exact ⟨⟨_, _, rfl, rfl⟩, ⟨['n', 'u', 'l'], 'l', rfl, rfl⟩⟩
  | true => exact ⟨⟨_, _, rfl, rfl⟩, ⟨['t', 'r', 'u'], 'e', rfl, rfl⟩⟩
  | false => exact ⟨⟨_, _, rfl, rfl⟩, ⟨['f', 'a', 'l', 's'], 'e', rfl, rfl⟩⟩
  | positive written => exact written.bounded
  | negative written => exact ⟨⟨_, _, rfl, rfl⟩, closes_append ['-'] written.bounded.closes⟩
  | string written =>
      obtain ⟨start, rfl⟩ := written.closes
      exact ⟨⟨_, _, rfl, rfl⟩, ⟨_ :: start, '"', rfl, rfl⟩⟩

theorem ValueText.bounded {depth : Nat} {text : List Char} {v : Json}
    (written : ValueText depth text v) : Bounded text := by
  cases depth with
  | zero => exact ScalarText.bounded written
  | succ depth =>
      obtain written | written | written := written
      · exact written.bounded
      · obtain ⟨start, rfl⟩ := written.closes
        exact ⟨⟨_, _, rfl, rfl⟩, ⟨_ :: start, ']', rfl, rfl⟩⟩
      · obtain ⟨start, rfl⟩ := written.closes
        exact ⟨⟨_, _, rfl, rfl⟩, ⟨_ :: start, '}', rfl, rfl⟩⟩

theorem isSpace_of_opensValue {c : Char} (opens : opensValue c = true) : isSpace c = false :=
  of_isDigit_or (P := fun c => isSpace c = false) (by decide) (by decide) opens

theorem Bounded.skipSpace {text : List Char} (bounded : Bounded text) (rest : List Char) :
    skipSpace (text ++ rest) = text ++ rest := by
  obtain ⟨c, more, rfl, opens⟩ := bounded.opens
  exact skipSpace_of_front (isSpace_of_opensValue opens) _

theorem Bounded.length_pos {text : List Char} (bounded : Bounded text) : 0 < text.length := by
  obtain ⟨c, more, rfl, _⟩ := bounded.opens
  simp

end Overload.Json
