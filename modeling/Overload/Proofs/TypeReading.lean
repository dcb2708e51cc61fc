import Overload.Proofs.TypeTokens

/-!
Reading types: the reader accepts the texts that spell out a type by the grammar, and the type it
gives is the one that the tokens stand for. Each reader is met from both sides. What it returns
comes from tokens of the grammar, whatever tokens the rest of the text has; and where the text
spells out such tokens, it returns what they stand for and leaves the tokens after them.
-/
namespace Overload

namespace TypeExpr

variable {tokens us : List Token} {cs rest : List Char}

theorem Spells.blanks {blanks : List Char} (blank : Blanks blanks) (spells : Spells tokens cs) :
    Spells tokens (blanks ++ cs) := by
  cases spells with
  | nil more => exact .nil (blank.append more)
  | cons more ends tail =>
      rw [← List.append_assoc]
      exact .cons (blank.append more) ends tail

theorem Spells.here (token : Token) (ends : token.Ends rest) (tail : Spells us rest) :
    Spells (token :: us) (token.text ++ rest) := .cons Blanks.nil ends tail

theorem Spells.of_skipBlanks (spells : Spells tokens (Text.skipBlanks cs)) : Spells tokens cs := by
  obtain ⟨blanks, blank, split⟩ := exists_blanks cs
  rw [split]
  exact spells.blanks blank

theorem Spells.mark {c : Char} {shown : Text.isBlank c = false}
    (front : Text.skipBlanks cs = c :: rest) (tail : Spells us rest) :
    Spells (.mark c shown :: us) cs := by
  refine Spells.of_skipBlanks ?_
  rw [front]
  exact .here (.mark c shown) trivial tail

theorem Spells.mark_inv {c : Char} {shown : Text.isBlank c = false}
    (spells : Spells (.mark c shown :: us) cs) :
    ∃ rest, Text.skipBlanks cs = c :: rest ∧ Spells us rest := by
  cases spells with
  | cons blank _ tail =>
      exact ⟨_, (skipBlanks_append blank _).trans (skipBlanks_of_front shown _), tail⟩

/-- A token whose first character shows stands at the front once white space is left out. -/
theorem Spells.front {token : Token} {c : Char} (first : c ∈ token.text.head?)
    (solid : Text.isBlank c = false) (spells : Spells (token :: us) cs) :
    ∃ more, Text.skipBlanks cs = c :: more ∧ Spells (token :: us) (c :: more) := by
  cases spells with
  | @cons _ _ blanks rest blank ends tail =>
      obtain ⟨more, text⟩ := List.head?_eq_some_iff.mp first
      refine ⟨more ++ rest, ?_, ?_⟩
      · rw [skipBlanks_append blank, text, List.cons_append, skipBlanks_of_front solid]
      · have here := Spells.here _ ends tail
        rwa [text] at here

theorem exists_startsName {n : String} (valid : isName n = true) :
    ∃ c, c ∈ n.toList.head? ∧ startsName c = true := by
  rw [isName] at valid
  cases chars : n.toList with
  | nil => simp [chars, isNameText] at valid
  | cons c more =>
      simp only [chars, isNameText, Bool.and_eq_true] at valid
      exact ⟨c, rfl, valid.1⟩

theorem Token.shownLength_pos (token : Token) : 0 < shownLength token.text := by
  have shown : ∃ c ∈ token.text, Text.isBlank c = false := by
    cases token with
    | mark c shown => exact ⟨c, List.mem_singleton_self c, shown⟩
    | name n valid =>
        obtain ⟨c, first, starts⟩ := exists_startsName valid
        exact ⟨c, List.mem_of_mem_head? first, isBlank_of_startsName starts⟩
    | json text v reads =>
        obtain ⟨before, core, after, _, written, _, rfl⟩ := Json.readChars_eq_ok.mp reads
        obtain ⟨c, inner, rfl, opens⟩ := (Json.ValueText.bounded written).opens
        exact ⟨c, by simp [Token.text], isBlank_of_opensValue opens⟩
  obtain ⟨c, hc, solid⟩ := shown
  exact List.countP_pos_iff.mpr ⟨c, hc, by rw [solid]; rfl⟩

theorem Spells.length_le (spells : Spells tokens cs) : tokens.length ≤ shownLength cs := by
  induction spells with
  | nil => exact Nat.zero_le _
  | @cons token tokens blanks rest blank ends tail ih =>
      have positive := token.shownLength_pos
      simp only [shownLength, List.length_cons, List.countP_append] at *
      omega

theorem ne_of_startsName {c d : Char} (starts : startsName c = true)
    (other : startsName d = false) : c ≠ d := by
  rintro rfl
  exact Bool.false_ne_true (other.symm.trans starts)

theorem Spells.name_front {n : String} {valid : isName n = true}
    (spells : Spells (.name n valid :: us) cs) :
    ∃ c more, Text.skipBlanks cs = c :: more ∧ startsName c = true ∧
      Spells (.name n valid :: us) (c :: more) := by
  obtain ⟨c, first, starts⟩ := exists_startsName valid
  obtain ⟨more, front, here⟩ := spells.front first (isBlank_of_startsName starts)
  exact ⟨c, more, front, starts, here⟩

/-- What the reader returns comes from tokens, which stand in the text before the tokens of the
rest. -/
def Finds {α : Type} (read : Reader α) (item : List Token → α → Prop) : Prop :=
  ∀ ⦃cs : List Char⦄ ⦃x : α⦄ ⦃rest : List Char⦄, read cs = .ok (x, rest) →
    ∃ ts, item ts x ∧ ∀ us, Spells us rest → Spells (ts ++ us) cs

/-- A name ends where nothing follows that would go on with it. -/
def EndsName (rest : List Char) : Prop := ∀ c ∈ rest.head?, continuesName c = false

theorem text_of_readName {n : String} (ok : readName cs = .ok (n, rest)) :
    ∃ blanks, Blanks blanks ∧ isName n = true ∧ EndsName rest ∧
      cs = blanks ++ (n.toList ++ rest) := by
  unfold readName at ok
  split at ok
  · simp at ok
  · rename_i c more front
    split at ok
    · rename_i starts
      cases ok
      have valid : isName (String.ofList (c :: more.takeWhile continuesName)) = true := by
        rw [isName, String.toList_ofList, isNameText, starts, Bool.true_and]
        exact List.all_takeWhile
      have ends : EndsName (more.dropWhile continuesName) := by
        intro d hd
        have stop := List.head?_dropWhile_not continuesName more
        rw [Option.mem_def.mp hd] at stop
        exact stop
      obtain ⟨blanks, blank, split⟩ := exists_blanks cs
      refine ⟨blanks, blank, valid, ends, ?_⟩
      rw [String.toList_ofList, List.cons_append, List.takeWhile_append_dropWhile, ← front, ← split]
    · simp at ok

theorem name_of_readName {n : String} (ok : readName cs = .ok (n, rest)) :
    ∃ valid : isName n = true, ∀ us, Spells us rest → Spells (.name n valid :: us) cs := by
  obtain ⟨blanks, blank, valid, ends, rfl⟩ := text_of_readName ok
  exact ⟨valid, fun us tail => .cons blank ends tail⟩

theorem key_of_readKey {key : String} (ok : readKey cs = .ok (key, rest)) :
    ∃ token, KeyToken token key ∧ ∀ us, Spells us rest → Spells (token :: us) cs := by
  unfold readKey at ok
  split at ok
  · rename_i more front
    obtain ⟨text, k, written, rfl, rfl⟩ := string_of_readQuotedKey ok
    have reads : Json.readChars ('"' :: text) = .ok (.string (String.ofList k)) :=
      Json.readChars_eq_ok.mpr ⟨[], _, [], Json.Spaces.nil,
        (Json.ScalarText.string written).value _, Json.Spaces.nil, by simp⟩
    refine ⟨.json _ _ reads, .string reads, fun us tail => Spells.of_skipBlanks ?_⟩
    rw [front]
    exact .here (.json _ _ reads) trivial tail
  · obtain ⟨valid, spells⟩ := name_of_readName ok
    exact ⟨.name key valid, .name valid, fun us tail => (spells us tail).of_skipBlanks⟩

theorem finds_readEntry : Finds readEntry EntryTokens := by
  intro cs entry rest ok
  obtain ⟨⟨key, rest₁⟩, read, ok⟩ := bind_eq_ok.mp ok
  obtain ⟨token, named, front⟩ := key_of_readKey read
  simp only at ok
  split at ok
  · rename_i rest₂ equals
    obtain ⟨⟨v, rest₃⟩, value, same⟩ := bind_eq_ok.mp ok
    cases same
    obtain ⟨before, text, after, left, reads, right, rfl⟩ := value_of_readAnnotationValue value
    refine ⟨[token, .mark '=', .json text v reads], .parts named reads, fun us tail => ?_⟩
    exact front _ (.mark equals (.cons left trivial (tail.blanks right)))
  · simp at ok

theorem listing_of_readEntries {bound : Nat} {entries : List (String × Json)}
    (ok : readEntries bound cs = .ok (entries, rest)) :
    ∃ ts, Listing EntryTokens ts entries ∧
      ∀ us, Spells us rest → Spells (ts ++ .mark ')' :: us) cs := by
  induction bound generalizing cs entries with
  | zero => simp [readEntries] at ok
  | succ bound ih =>
      obtain ⟨⟨entry, rest₁⟩, read, ok⟩ := bind_eq_ok.mp ok
      obtain ⟨ts, head, front⟩ := finds_readEntry read
      simp only at ok
      split at ok
      · obtain ⟨⟨others, rest₃⟩, more, same⟩ := bind_eq_ok.mp ok
        cases same
        obtain ⟨vs, listed, spells⟩ := ih more
        refine ⟨_, .more head listed, fun us tail => ?_⟩
        rw [List.append_assoc]
        exact front _ (.mark (skipBlanks_of_front rfl _) (spells us tail))
      · cases ok
        refine ⟨ts, .one head, fun us tail => ?_⟩
        exact front _ (.mark (skipBlanks_of_front rfl _) tail)
      · simp at ok

/-- The tokens of an annotation after its `@`. -/
theorem finds_readAnnotationBody :
    Finds readAnnotationBody fun ts a => AnnotationTokens (.mark '@' :: ts) a := by
  intro cs a rest ok
  obtain ⟨⟨n, rest₁⟩, read, ok⟩ := bind_eq_ok.mp ok
  obtain ⟨valid, front⟩ := name_of_readName read
  simp only at ok
  split at ok
  · rename_i rest₂ opens
    split at ok
    · rename_i rest₃ closes
      cases ok
      exact ⟨_, .empty valid, fun us tail => front _ (.mark opens (.mark closes tail))⟩
    · obtain ⟨⟨entries, rest₃⟩, list, same⟩ := bind_eq_ok.mp ok
      cases same
      obtain ⟨ts, listed, spells⟩ := listing_of_readEntries list
      refine ⟨.name n valid :: .mark '(' :: (ts ++ [.mark ')']), ?_, fun us tail => ?_⟩
      · simp only [← Annotation.withValues_new]
        exact .values valid listed
      · have inner := (spells us tail).of_skipBlanks
        simpa using front _ (.mark opens inner)
  · cases ok
    exact ⟨_, .plain valid, fun us tail => front us tail.of_skipBlanks⟩

theorem finds_readAnnotations (bound : Nat) :
    Finds (readAnnotations bound) (Sequence AnnotationTokens) := by
  induction bound with
  | zero =>
      intro cs as rest ok
      cases ok
      exact ⟨[], .nil, fun us tail => tail⟩
  | succ bound ih =>
      intro cs as rest ok
      unfold readAnnotations at ok
      split at ok
      · rename_i rest₁ sign
        obtain ⟨⟨a, rest₂⟩, read, ok⟩ := bind_eq_ok.mp ok
        obtain ⟨⟨others, rest₃⟩, more, same⟩ := bind_eq_ok.mp ok
        cases same
        obtain ⟨ts, head, front⟩ := finds_readAnnotationBody read
        obtain ⟨vs, sequence, spells⟩ := ih more
        refine ⟨_, .cons head sequence, fun us tail => ?_⟩
        rw [List.append_assoc]
        exact .mark sign (front _ (spells us tail))
      · cases ok
        exact ⟨[], .nil, fun us tail => tail.of_skipBlanks⟩

theorem listing_of_readParams {param : Reader TypeExpr} (finds : Finds param TypeTokens)
    {bound : Nat} {params : List TypeExpr} (ok : readParams param bound cs = .ok (params, rest)) :
    ∃ ts, Listing TypeTokens ts params ∧
      ∀ us, Spells us rest → Spells (ts ++ .mark '>' :: us) cs := by
  induction bound generalizing cs params with
  | zero => simp [readParams] at ok
  | succ bound ih =>
      obtain ⟨⟨t, rest₁⟩, read, ok⟩ := bind_eq_ok.mp ok
      obtain ⟨ts, head, front⟩ := finds read
      simp only at ok
      split at ok
      · rename_i comma
        obtain ⟨⟨others, rest₃⟩, more, same⟩ := bind_eq_ok.mp ok
        cases same
        obtain ⟨vs, listed, spells⟩ := ih more
        refine ⟨_, .more head listed, fun us tail => ?_⟩
        rw [List.append_assoc]
        exact front _ (.mark comma (spells us tail))
      · rename_i closes
        cases ok
        exact ⟨ts, .one head, fun us tail => front _ (.mark closes tail)⟩
      · simp at ok
      · simp at ok

theorem wildcard_annotate (as : List Annotation) :
    (wildcard []).annotate as = .wildcard as.eraseDups :=
  congrArg wildcard (mergeAnnotations_nil as)

theorem named_annotate (n : String) (params : List TypeExpr) (as : List Annotation) :
    (named [] n params).annotate as = .named as.eraseDups n params :=
  congrArg (named · n params) (mergeAnnotations_nil as)

theorem finds_readType (depth : Nat) : Finds (readType depth) TypeTokens := by
  induction depth with
  | zero =>
      intro cs t rest ok
      simp [readType] at ok
  | succ depth ih =>
      intro cs t rest ok
      obtain ⟨⟨as, rest₁⟩, annotated, ok⟩ := bind_eq_ok.mp ok
      obtain ⟨front, sequence, start⟩ := finds_readAnnotations _ annotated
      simp only at ok
      split at ok
      · rename_i rest₂ question
        cases ok
        rw [wildcard_annotate]
        refine ⟨_, .wildcard sequence, fun us tail => ?_⟩
        rw [List.append_assoc]
        exact start _ (.mark question tail)
      · obtain ⟨⟨n, rest₂⟩, read, ok⟩ := bind_eq_ok.mp ok
        obtain ⟨valid, named⟩ := name_of_readName read
        simp only at ok
        split at ok
        · rename_i rest₃ angle
          obtain ⟨⟨params, rest₄⟩, list, same⟩ := bind_eq_ok.mp ok
          cases same
          obtain ⟨inner, listed, spells⟩ := listing_of_readParams ih list
          rw [named_annotate]
          refine ⟨_, .generic sequence valid listed, fun us tail => ?_⟩
          simpa using start _ (named _ (.mark angle (spells us tail))).of_skipBlanks
        · cases ok
          rw [named_annotate]
          refine ⟨_, .named sequence valid, fun us tail => ?_⟩
          rw [List.append_assoc]
          exact start _ (named us tail.of_skipBlanks).of_skipBlanks

theorem readName_append {blanks : List Char} (blank : Blanks blanks) {n : String}
    (valid : isName n = true) (ends : EndsName rest) :
    readName (blanks ++ (n.toList ++ rest)) = .ok (n, rest) := by
  obtain ⟨c, first, starts⟩ := exists_startsName valid
  obtain ⟨more, text⟩ := List.head?_eq_some_iff.mp first
  have word : ∀ d ∈ more, continuesName d = true := by
    simp only [isName, text, isNameText, Bool.and_eq_true, List.all_eq_true] at valid
    exact valid.2
  have stop : rest.takeWhile continuesName = [] ∧ rest.dropWhile continuesName = rest := by
    cases rest with
    | nil => exact ⟨rfl, rfl⟩
    | cons d rest =>
        have other := ends d rfl
        simp [other]
  unfold readName
  rw [skipBlanks_append blank, text, List.cons_append,
    skipBlanks_of_front (isBlank_of_startsName starts)]
  simp only [starts, if_true]
  rw [List.takeWhile_append_of_pos word, List.dropWhile_append_of_pos word, stop.1, stop.2,
    List.append_nil, ← text, String.ofList_toList]

theorem readName_of_spells {n : String} {valid : isName n = true}
    (spells : Spells (.name n valid :: us) cs) :
    ∃ rest, readName cs = .ok (n, rest) ∧ Spells us rest := by
  cases spells with
  | cons blank ends tail => exact ⟨_, readName_append blank valid ends, tail⟩

theorem readKey_skipBlanks (cs : List Char) : readKey (Text.skipBlanks cs) = readKey cs := by
  rw [readKey, readKey, skipBlanks_skipBlanks]

theorem readEntry_skipBlanks (cs : List Char) : readEntry (Text.skipBlanks cs) = readEntry cs := by
  rw [readEntry, readEntry, readKey_skipBlanks]

theorem readEntries_skipBlanks (bound : Nat) (cs : List Char) :
    readEntries (bound + 1) (Text.skipBlanks cs) = readEntries (bound + 1) cs := by
  rw [readEntries, readEntries, readEntry_skipBlanks]

/-- A key that begins like a name is one. -/
theorem readKey_append {blanks : List Char} (blank : Blanks blanks) {n : String}
    (valid : isName n = true) (ends : EndsName rest) :
    readKey (blanks ++ (n.toList ++ rest)) = .ok (n, rest) := by
  have read := readName_append .nil valid ends
  obtain ⟨c, first, starts⟩ := exists_startsName valid
  obtain ⟨more, text⟩ := List.head?_eq_some_iff.mp first
  rw [List.nil_append, text, List.cons_append] at read
  rw [readKey, skipBlanks_append blank, text, List.cons_append,
    skipBlanks_of_front (isBlank_of_startsName starts)]
  split
  · rename_i same
    exact absurd (List.cons.inj same).1 (ne_of_startsName starts (by decide))
  · exact read

theorem readKey_of_spells {token : Token} {key : String} (named : KeyToken token key)
    (spells : Spells (token :: us) cs) : ∃ rest, readKey cs = .ok (key, rest) ∧ Spells us rest := by
  cases named with
  | @name n valid =>
      cases spells with
      | cons blank ends tail => exact ⟨_, readKey_append blank valid ends, tail⟩
  | @string text key reads =>
      cases spells with
      | @cons _ _ blanks rest blank ends tail =>
          obtain ⟨before, core, after, left, written, right, rfl⟩ := Json.readChars_eq_ok.mp reads
          obtain ⟨inner, k, string, rfl, rfl⟩ := Json.ValueText.string_inv written
          refine ⟨after ++ rest, ?_, tail.blanks (blanks_of_spaces right)⟩
          rw [readKey, skipBlanks_append blank]
          simp only [Token.text, List.append_assoc, List.cons_append]
          rw [skipBlanks_append (blanks_of_spaces left), skipBlanks_of_front (by decide)]
          exact readQuotedKey_append string _

theorem readEntry_of_spells {ts : List Token} {entry : String × Json} {c : Char}
    {shown : Text.isBlank c = false} (tokens : EntryTokens ts entry) (ends : c = ',' ∨ c = ')')
    (spells : Spells (ts ++ .mark c shown :: us) cs) :
    ∃ rest, readEntry cs = .ok (entry, c :: rest) ∧ Spells us rest := by
  obtain @⟨token, key, text, v, named, reads⟩ := tokens
  obtain ⟨rest₁, key, spells⟩ := readKey_of_spells named spells
  obtain ⟨rest₂, equals, spells⟩ := spells.mark_inv
  cases spells with
  | @cons _ _ before rest left _ tail =>
      cases tail with
      | @cons _ _ after rest' right _ tail' =>
          have value := readAnnotationValue_append left reads right
            ⟨c, rest', rfl, ends⟩
          refine ⟨rest', bind_eq_ok.mpr ⟨_, key, ?_⟩, tail'⟩
          simp only [equals]
          exact bind_eq_ok.mpr ⟨_, value, rfl⟩

theorem readEntries_of_spells {ts : List Token} {entries : List (String × Json)}
    (listed : Listing EntryTokens ts entries) {bound : Nat} (room : entries.length ≤ bound)
    (spells : Spells (ts ++ .mark ')' :: us) cs) :
    ∃ rest, readEntries bound cs = .ok (entries, rest) ∧ Spells us rest := by
  induction listed generalizing bound cs with
  | one last =>
      obtain _ | bound := bound
      · simp at room
      · obtain ⟨rest, read, tail⟩ := readEntry_of_spells last (.inr rfl) spells
        exact ⟨rest, bind_eq_ok.mpr ⟨_, read, rfl⟩, tail⟩
  | more head _ ih =>
      obtain _ | bound := bound
      · simp at room
      · rw [List.append_assoc, List.cons_append] at spells
        obtain ⟨rest₁, read, spells⟩ := readEntry_of_spells head (.inl rfl) spells
        obtain ⟨rest, others, tail⟩ := ih (Nat.le_of_succ_le_succ room) spells
        exact ⟨rest, bind_eq_ok.mpr ⟨_, read, bind_eq_ok.mpr ⟨_, others, rfl⟩⟩, tail⟩

theorem Listing.length_le {α : Type} {item : List Token → α → Prop} {ts : List Token} {xs : List α}
    (listed : Listing item ts xs) : xs.length ≤ ts.length + 1 := by
  induction listed with
  | one => simp
  | more _ _ ih =>
      simp only [List.length_cons, List.length_append]
      omega

/-- No list of entries begins with a closing parenthesis. -/
theorem readEntries_close {bound : Nat} {entries : List (String × Json)}
    (ok : readEntries bound cs = .ok (entries, rest)) (more : List Char) :
    Text.skipBlanks cs ≠ ')' :: more := by
  intro front
  cases bound with
  | zero => simp [readEntries] at ok
  | succ bound =>
      obtain ⟨_, read, _⟩ := bind_eq_ok.mp ok
      obtain ⟨⟨key, rest'⟩, read, _⟩ := bind_eq_ok.mp read
      have word : readName (')' :: more) = .ok (key, rest') := by
        rw [readKey, front] at read
        exact read
      have stop : startsName ')' = false := by decide
      rw [readName, skipBlanks_of_front (by decide)] at word
      simp [stop] at word

/-- What the text goes on with after an annotation: a further one, or the type itself. -/
inductive TypeFront : Token → Prop
  | further : TypeFront (.mark '@')
  | wildcard : TypeFront (.mark '?')
  | name {n : String} {valid : isName n = true} : TypeFront (.name n valid)

theorem TypeFront.spells {token : Token} (begins : TypeFront token)
    (spells : Spells (token :: us) cs) :
    ∃ c more, Text.skipBlanks cs = c :: more ∧ c ≠ '(' ∧ (c = '@' → token = .mark '@') ∧
      Spells (token :: us) (c :: more) := by
  cases begins with
  | further =>
      obtain ⟨more, front, here⟩ := spells.front rfl (by decide)
      exact ⟨'@', more, front, by decide, fun _ => rfl, here⟩
  | wildcard =>
      obtain ⟨more, front, here⟩ := spells.front rfl (by decide)
      exact ⟨'?', more, front, by decide, fun same => absurd same (by decide), here⟩
  | @name n valid =>
      obtain ⟨c, more, front, starts, here⟩ := spells.name_front
      exact ⟨c, more, front, ne_of_startsName starts (by decide),
        fun same => absurd same (ne_of_startsName starts (by decide)), here⟩

theorem readAnnotationBody_of_spells {ts : List Token} {a : Annotation} {token : Token}
    (tokens : AnnotationTokens (.mark '@' :: ts) a) (begins : TypeFront token)
    (spells : Spells (ts ++ token :: us) cs) :
    ∃ rest, readAnnotationBody cs = .ok (a, rest) ∧ Spells (token :: us) rest := by
  cases tokens with
  | plain valid =>
      obtain ⟨rest₁, name, spells⟩ := readName_of_spells spells
      obtain ⟨c, more, front, other, _, here⟩ := begins.spells spells
      refine ⟨c :: more, bind_eq_ok.mpr ⟨_, name, ?_⟩, here⟩
      simp only [front]
      split
      · rename_i same
        exact absurd (List.cons.inj same).1 other
      · rfl
  | empty valid =>
      obtain ⟨rest₁, name, spells⟩ := readName_of_spells spells
      obtain ⟨rest₂, opens, spells⟩ := spells.mark_inv
      obtain ⟨rest₃, closes, spells⟩ := spells.mark_inv
      refine ⟨rest₃, bind_eq_ok.mpr ⟨_, name, ?_⟩, spells⟩
      simp only [opens, closes]
  | @values _ valid ts entries listed =>
      simp only [List.cons_append, List.append_assoc, List.nil_append] at spells
      obtain ⟨rest₁, name, spells⟩ := readName_of_spells spells
      obtain ⟨rest₂, opens, spells⟩ := spells.mark_inv
      -- each entry has a token, and each token a character that shows
      have room : entries.length ≤ (Text.skipBlanks rest₂).length + 1 := by
        have fits := spells.length_le
        have shown := shownLength_le (Text.skipBlanks rest₂)
        have few := listed.length_le
        rw [List.length_append] at fits
        rw [shownLength_skipBlanks] at shown
        omega
      obtain ⟨rest₃, read, spells⟩ := readEntries_of_spells listed room spells
      refine ⟨rest₃, bind_eq_ok.mpr ⟨_, name, ?_⟩, spells⟩
      simp only [opens]
      split
      · rename_i closes
        exact absurd closes (readEntries_close read _)
      · rw [readEntries_skipBlanks]
        exact bind_eq_ok.mpr ⟨_, read, by rw [← Annotation.withValues_new]⟩

theorem AnnotationTokens.split {ts : List Token} {a : Annotation} (tokens : AnnotationTokens ts a) :
    ∃ more, ts = .mark '@' :: more := by
  cases tokens <;> exact ⟨_, rfl⟩

theorem Sequence.length_le {ts : List Token} {as : List Annotation}
    (sequence : Sequence AnnotationTokens ts as) : as.length ≤ ts.length := by
  induction sequence with
  | nil => simp
  | cons head _ ih =>
      obtain ⟨more, rfl⟩ := head.split
      simp only [List.length_cons, List.length_append]
      omega

theorem Sequence.begins {ts : List Token} {as : List Annotation} {token : Token}
    (sequence : Sequence AnnotationTokens ts as) (begins : TypeFront token) (us : List Token) :
    ∃ first vs, ts ++ token :: us = first :: vs ∧ TypeFront first := by
  cases sequence with
  | nil => exact ⟨token, us, rfl, begins⟩
  | cons head _ =>
      obtain ⟨more, rfl⟩ := head.split
      exact ⟨.mark '@', _, rfl, .further⟩

theorem readAnnotations_of_spells {ts : List Token} {as : List Annotation} {token : Token}
    (sequence : Sequence AnnotationTokens ts as) (begins : TypeFront token)
    (other : token ≠ .mark '@') {bound : Nat} (room : as.length ≤ bound)
    (spells : Spells (ts ++ token :: us) cs) :
    ∃ rest, readAnnotations bound cs = .ok (as, rest) ∧ Spells (token :: us) rest := by
  induction sequence generalizing bound cs with
  | nil =>
      obtain _ | bound := bound
      · exact ⟨cs, rfl, spells⟩
      · obtain ⟨c, more, front, _, sign, here⟩ := begins.spells spells
        refine ⟨c :: more, ?_, here⟩
        rw [readAnnotations, front]
        split
        · rename_i same
          exact absurd (sign (List.cons.inj same).1) other
        · rfl
  | cons head sequence ih =>
      obtain _ | bound := bound
      · simp at room
      · obtain ⟨more, rfl⟩ := head.split
        simp only [List.cons_append, List.append_assoc] at spells
        obtain ⟨rest₁, sign, spells⟩ := spells.mark_inv
        obtain ⟨first, vs, split, starts⟩ := sequence.begins begins us
        rw [split] at spells
        obtain ⟨rest₂, read, spells⟩ := readAnnotationBody_of_spells head starts spells
        rw [← split] at spells
        obtain ⟨rest, others, tail⟩ := ih (Nat.le_of_succ_le_succ room) spells
        refine ⟨rest, ?_, tail⟩
        rw [readAnnotations, sign]
        exact bind_eq_ok.mpr ⟨_, read, bind_eq_ok.mpr ⟨_, others, rfl⟩⟩

/-- What the text goes on with after a type. -/
inductive TypeEnd : List Token → Prop
  | none : TypeEnd []
  | comma {us : List Token} : TypeEnd (.mark ',' :: us)
  | angle {us : List Token} : TypeEnd (.mark '>' :: us)

theorem TypeEnd.spells (ends : TypeEnd us) (spells : Spells us cs) :
    (∀ more, Text.skipBlanks cs ≠ '<' :: more) ∧ Spells us (Text.skipBlanks cs) := by
  cases ends with
  | none =>
      cases spells with
      | nil blank =>
          rw [blank.skipBlanks_eq_nil]
          exact ⟨fun more same => List.cons_ne_nil _ _ same.symm, .nil .nil⟩
  | comma =>
      obtain ⟨more, front, here⟩ := spells.front (c := ',') rfl (by decide)
      rw [front]
      exact ⟨fun more same => absurd (List.cons.inj same).1 (by decide), here⟩
  | angle =>
      obtain ⟨more, front, here⟩ := spells.front (c := '>') rfl (by decide)
      rw [front]
      exact ⟨fun more same => absurd (List.cons.inj same).1 (by decide), here⟩

/-- A reader that reads the tokens of an item where they are few enough. -/
def Reads (read : Reader TypeExpr) (size : Nat) : Prop :=
  ∀ ⦃ts : List Token⦄ ⦃t : TypeExpr⦄, TypeTokens ts t → ts.length < size → ∀ ⦃us cs⦄, TypeEnd us →
    Spells (ts ++ us) cs → ∃ rest, read cs = .ok (t, rest) ∧ Spells us rest

theorem readParams_of_spells {param : Reader TypeExpr} {size : Nat} (reads : Reads param size)
    {ts : List Token} {params : List TypeExpr} (listed : Listing TypeTokens ts params)
    (small : ts.length < size) {bound : Nat} (room : params.length ≤ bound)
    (spells : Spells (ts ++ .mark '>' :: us) cs) :
    ∃ rest, readParams param bound cs = .ok (params, rest) ∧ Spells us rest := by
  induction listed generalizing bound cs with
  | one last =>
      obtain _ | bound := bound
      · simp at room
      · obtain ⟨rest₁, read, spells⟩ := reads last small .angle spells
        obtain ⟨rest, closes, tail⟩ := spells.mark_inv
        refine ⟨rest, bind_eq_ok.mpr ⟨_, read, ?_⟩, tail⟩
        simp only [closes]
  | more head _ ih =>
      obtain _ | bound := bound
      · simp at room
      · rw [List.length_append, List.length_cons] at small
        rw [List.append_assoc, List.cons_append] at spells
        obtain ⟨rest₁, read, spells⟩ := reads head (by omega) .comma spells
        obtain ⟨rest₂, comma, spells⟩ := spells.mark_inv
        obtain ⟨rest, others, tail⟩ := ih (by omega) (Nat.le_of_succ_le_succ room) spells
        refine ⟨rest, bind_eq_ok.mpr ⟨_, read, ?_⟩, tail⟩
        simp only [comma]
        exact bind_eq_ok.mpr ⟨_, others, rfl⟩

theorem readAnnotations_of_type {ts : List Token} {as : List Annotation} {token : Token}
    (annotated : Sequence AnnotationTokens ts as) (begins : TypeFront token)
    (other : token ≠ .mark '@') (spells : Spells (ts ++ token :: us) cs) :
    ∃ rest, readAnnotations (cs.length + 1) cs = .ok (as, rest) ∧ Spells (token :: us) rest := by
  have few := annotated.length_le
  have fits := spells.length_le.trans (shownLength_le cs)
  rw [List.length_append] at fits
  exact readAnnotations_of_spells annotated begins other (by omega) spells

theorem reads_readType (depth : Nat) : Reads (readType depth) depth := by
  induction depth with
  | zero => exact fun ts t _ few => absurd few (Nat.not_lt_zero _)
  | succ depth ih =>
      intro ts t tokens few us cs ends spells
      cases tokens with
      | wildcard annotated =>
          rw [List.append_assoc] at spells
          obtain ⟨rest₁, read, spells⟩ := readAnnotations_of_type annotated .wildcard
            (fun same => absurd (Token.mark.inj same) (by decide)) spells
          obtain ⟨rest, question, tail⟩ := spells.mark_inv
          refine ⟨rest, bind_eq_ok.mpr ⟨_, read, ?_⟩, tail⟩
          simp only [question, wildcard_annotate]
      | named annotated valid =>
          rw [List.append_assoc] at spells
          obtain ⟨rest₁, read, spells⟩ := readAnnotations_of_type annotated .name nofun spells
          obtain ⟨c, more, front, starts, here⟩ := spells.name_front
          obtain ⟨rest₂, name, spells⟩ := readName_of_spells here
          obtain ⟨noAngle, tail⟩ := ends.spells spells
          refine ⟨_, bind_eq_ok.mpr ⟨_, read, ?_⟩, tail⟩
          simp only [front]
          split
          · rename_i same
            exact absurd (List.cons.inj same).1 (ne_of_startsName starts (by decide))
          · refine bind_eq_ok.mpr ⟨_, name, ?_⟩
            simp only [named_annotate]
      | @generic _ inner _ n params annotated valid listed =>
          simp only [List.append_assoc, List.cons_append, List.nil_append, List.length_append,
            List.length_cons] at spells few
          obtain ⟨rest₁, read, spells⟩ := readAnnotations_of_type annotated .name nofun spells
          obtain ⟨c, more, front, starts, here⟩ := spells.name_front
          obtain ⟨rest₂, name, spells⟩ := readName_of_spells here
          obtain ⟨rest₃, angle, spells⟩ := spells.mark_inv
          have room : params.length ≤ rest₃.length + 1 := by
            have fits := spells.length_le.trans (shownLength_le rest₃)
            have few := listed.length_le
            rw [List.length_append] at fits
            omega
          obtain ⟨rest, list, tail⟩ := readParams_of_spells ih listed (by omega) room spells
          refine ⟨rest, bind_eq_ok.mpr ⟨_, read, ?_⟩, tail⟩
          simp only [front]
          split
          · rename_i same
            exact absurd (List.cons.inj same).1 (ne_of_startsName starts (by decide))
          · refine bind_eq_ok.mpr ⟨_, name, ?_⟩
            simp only [angle]
            exact bind_eq_ok.mpr ⟨_, list, by rw [named_annotate]⟩

theorem readText_eq_ok {t : TypeExpr} :
    readText cs = .ok t ↔ ∃ tokens, TypeTokens tokens t ∧ Spells tokens cs := by
  rw [readText, bind_eq_ok]
  constructor
  · intro ok
    obtain ⟨⟨t', rest⟩, read, done⟩ := ok
    obtain ⟨ts, tokens, spells⟩ := finds_readType _ read
    simp only at done
    split at done
    · rename_i nothing
      cases done
      refine ⟨ts, tokens, ?_⟩
      have tail : Spells [] rest := Spells.of_skipBlanks (nothing ▸ .nil .nil)
      simpa using spells [] tail
    · simp at done
  · intro written
    obtain ⟨ts, tokens, spells⟩ := written
    have small : ts.length < cs.length + 1 :=
      Nat.lt_succ_of_le (spells.length_le.trans (shownLength_le cs))
    obtain ⟨rest, read, tail⟩ :=
      reads_readType _ tokens small .none ((List.append_nil ts).symm ▸ spells)
    refine ⟨(t, rest), read, ?_⟩
    cases tail with
    | nil blank => simp only [blank.skipBlanks_eq_nil]

/-- The reader accepts exactly the texts of the grammar, and reads each as the type it stands
for. -/
theorem parse_eq_ok_iff (text : String) (t : TypeExpr) :
    parse text = .ok t ↔ ∃ tokens, TypeTokens tokens t ∧ Spells tokens text.toList := by
  rw [parse, mapError_eq_ok, readText_eq_ok]

end TypeExpr

end Overload
