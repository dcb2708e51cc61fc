import Overload.Proofs.ReaderBounds

/-!
Reading again what has been read, with another text behind it. A reader looks at most one character
beyond what it takes, so the part that it took is read the same before every text that begins with
the same character, and before those that begin with a mark that cannot go on with that part.
-/
namespace Overload.TypeExpr

variable {cs rest tail : List Char}

/-- The first character of the text, if there is one, is such a character. -/
def Front (p : Char → Prop) (cs : List Char) : Prop := ∀ c ∈ cs.head?, p c

/-- The text begins neither with white space nor with one of the marks. -/
def Clear (marks : List Char) : List Char → Prop :=
  Front fun c => Text.isBlank c = false ∧ c ∉ marks

/-- Nor does it begin with what would go on with a name. -/
def Apart (marks : List Char) (cs : List Char) : Prop := EndsName cs ∧ Clear marks cs

theorem Apart.mono {marks marks' : List Char} (apart : Apart marks cs)
    (fewer : ∀ c ∈ marks', c ∈ marks) : Apart marks' cs :=
  ⟨apart.1, fun c hc => ⟨(apart.2 c hc).1, fun listed => (apart.2 c hc).2 (fewer c listed)⟩⟩

theorem apart_cons {marks : List Char} {c : Char}
    (other : continuesName c = false ∧ Text.isBlank c = false ∧ c ∉ marks) (cs : List Char) :
    Apart marks (c :: cs) := by
  constructor
  · intro d hd
    cases hd
    exact other.1
  · intro d hd
    cases hd
    exact other.2

theorem isBlank_of_skipBlanks {c : Char} (front : Text.skipBlanks cs = c :: rest) :
    Text.isBlank c = false := by
  have stop := List.head?_dropWhile_not Text.isBlank cs
  rw [← Text.skipBlanks, front] at stop
  exact stop

theorem clear_skipBlanks {marks : List Char}
    (none : ∀ c ∈ marks, ∀ more, Text.skipBlanks cs ≠ c :: more) :
    Clear marks (Text.skipBlanks cs) := by
  intro c hc
  obtain ⟨more, front⟩ := List.head?_eq_some_iff.mp hc
  exact ⟨isBlank_of_skipBlanks front, fun listed => none c listed more front⟩

theorem Clear.skipBlanks_eq {marks : List Char} (clear : Clear marks cs) :
    Text.skipBlanks cs = cs := by
  cases cs with
  | nil => rfl
  | cons c cs => exact skipBlanks_of_front (clear c rfl).1 cs

theorem Clear.ne {marks : List Char} (clear : Clear marks cs) {c : Char} (listed : c ∈ marks)
    (more : List Char) : cs ≠ c :: more := by
  rintro rfl
  exact (clear c rfl).2 listed

/-- The tail begins as the rest does, or in a way that is allowed. -/
def Follows (allowed : List Char → Prop) (rest tail : List Char) : Prop :=
  tail.head? = rest.head? ∨ allowed tail

section

variable {allowed allowed' : List Char → Prop}

theorem Follows.append (follows : Follows allowed rest tail) (front : List Char) :
    Follows allowed (front ++ rest) (front ++ tail) := by
  cases front with
  | nil => exact follows
  | cons c front => exact .inl rfl

theorem Follows.mono (follows : Follows allowed rest tail)
    (weaker : ∀ cs, allowed cs → allowed' cs) : Follows allowed' rest tail :=
  follows.imp_right (weaker tail)

theorem Follows.front (follows : Follows allowed rest tail) {p : Char → Prop}
    (here : Front p rest) (always : ∀ cs, allowed cs → Front p cs) : Front p tail := by
  obtain same | allowed := follows
  · intro c hc
    exact here c (same ▸ hc)
  · exact always tail allowed

end

/-- What the reader takes off this text it takes off the same part with another tail. -/
def ResumesOn {α : Type} (read : Reader α) (allowed : List Char → Prop) (cs : List Char) : Prop :=
  ∀ ⦃x : α⦄ ⦃rest : List Char⦄, read cs = .ok (x, rest) → ∃ front, cs = front ++ rest ∧
    ∀ tail, Follows allowed rest tail → read (front ++ tail) = .ok (x, tail)

def Resumes {α : Type} (read : Reader α) (allowed : List Char → Prop) : Prop :=
  ∀ cs, ResumesOn read allowed cs

section

variable {α : Type} {read : Reader α} {allowed : List Char → Prop}

/-- The white space behind what was taken goes with it. -/
theorem ResumesOn.skipping (resumes : ResumesOn read allowed cs) {x : α}
    (ok : read cs = .ok (x, rest)) :
    ∃ front, cs = front ++ Text.skipBlanks rest ∧
      ∀ tail, Follows allowed (Text.skipBlanks rest) tail →
        ∃ rest', read (front ++ tail) = .ok (x, rest') ∧
          Text.skipBlanks rest' = Text.skipBlanks tail := by
  obtain ⟨front, split, again⟩ := resumes ok
  obtain ⟨blanks, blank, whole⟩ := exists_blanks rest
  cases blanks with
  | nil =>
      rw [List.nil_append] at whole
      refine ⟨front, by rw [← whole]; exact split, fun tail follows => ⟨tail, ?_, rfl⟩⟩
      exact again tail (whole ▸ follows)
  | cons b blanks =>
      refine ⟨front ++ b :: blanks, ?_, fun tail _ => ⟨b :: blanks ++ tail, ?_, ?_⟩⟩
      · rw [List.append_assoc, ← whole]
        exact split
      · rw [List.append_assoc]
        refine again _ (.inl ?_)
        rw [whole]
        rfl
      · exact skipBlanks_append blank tail

/-- Up to a mark, the reader takes the same off whatever comes behind the mark. -/
theorem ResumesOn.mark (resumes : ResumesOn read allowed cs) {x : α} {c : Char} {more : List Char}
    (ok : read cs = .ok (x, rest)) (front : Text.skipBlanks rest = c :: more) :
    ∃ front, cs = front ++ c :: more ∧
      ∀ tail, ∃ rest', read (front ++ c :: tail) = .ok (x, rest') ∧
        Text.skipBlanks rest' = c :: tail := by
  obtain ⟨part, split, again⟩ := resumes.skipping ok
  rw [front] at split again
  refine ⟨part, split, fun tail => ?_⟩
  obtain ⟨rest', read', skipped⟩ := again (c :: tail) (.inl rfl)
  exact ⟨rest', read', skipped.trans (skipBlanks_of_front (isBlank_of_skipBlanks front) tail)⟩

end

/-- Ends with what is made of the result of an inner reader, and with the rest that it left. -/
def answer {α β : Type} (make : α → β) (read : α × List Char) : Except Stop (β × List Char) :=
  .ok (make read.1, read.2)

theorem ok_bind_answer {α β : Type} (make : α → β) (x : α) (rest : List Char) :
    (.ok (x, rest) >>= answer make) = .ok (make x, rest) := rfl

theorem forall_of_shorter {P : List Char → Prop}
    (step : ∀ cs, (∀ ds : List Char, ds.length < cs.length → P ds) → P cs) (cs : List Char) :
    P cs := (measure List.length).wf.induction cs step

theorem resumes_readName : Resumes readName (Apart []) := by
  intro cs n rest ok
  obtain ⟨blanks, blank, valid, ends, rfl⟩ := text_of_readName ok
  refine ⟨blanks ++ n.toList, (List.append_assoc _ _ _).symm, fun tail follows => ?_⟩
  rw [List.append_assoc]
  exact readName_append blank valid (follows.front ends fun _ => And.left)

theorem resumes_readKey : Resumes readKey (Apart []) := by
  intro cs key rest ok
  obtain ⟨blanks, blank, split⟩ := exists_blanks cs
  unfold readKey at ok
  split at ok
  · rename_i more front
    obtain ⟨text, k, written, rfl, rfl⟩ := string_of_readQuotedKey ok
    rw [front] at split
    refine ⟨blanks ++ '"' :: text, by simp [split], fun tail _ => ?_⟩
    rw [List.append_assoc, List.cons_append, readKey, skipBlanks_append blank,
      skipBlanks_of_front (by decide)]
    exact readQuotedKey_append written tail
  · obtain ⟨blanks', blank', valid, ends, text⟩ := text_of_readName ok
    rw [text] at split
    refine ⟨blanks ++ blanks' ++ key.toList, by simp [split], fun tail follows => ?_⟩
    rw [List.append_assoc]
    exact readKey_append (blank.append blank') valid (follows.front ends fun _ => And.left)

theorem cutValue_rest (place : Place) (cs : List Char) :
    (cutValue place cs).2 = [] ∨ EndsValue (cutValue place cs).2 := by
  induction cs generalizing place with
  | nil => exact .inl rfl
  | cons c cs ih =>
      rw [cutValue]
      split
      · rename_i ends
        refine .inr ⟨c, cs, rfl, ?_⟩
        unfold Place.next? at ends
        split at ends <;> simp_all
      · exact ih _

theorem end_of_readAnnotationValue {v : Json} (ok : readAnnotationValue cs = .ok (v, rest)) :
    rest = [] ∨ EndsValue rest := by
  unfold readAnnotationValue at ok
  simp only at ok
  split at ok
  · cases ok
  · split at ok
    · cases ok
      exact cutValue_rest _ _
    · cases ok

theorem resumes_readAnnotationValue : Resumes readAnnotationValue EndsValue := by
  intro cs v rest ok
  obtain ⟨before, text, after, left, reads, right, split⟩ := value_of_readAnnotationValue ok
  refine ⟨before ++ (text ++ after), by simpa using split, fun tail follows => ?_⟩
  have whole : before ++ (text ++ after) ++ tail = before ++ (text ++ (after ++ tail)) := by simp
  rw [whole]
  obtain same | ends := follows
  · obtain nothing | ends := end_of_readAnnotationValue ok
    · rw [nothing, List.head?_nil, List.head?_eq_none_iff] at same
      rw [same, ← nothing, ← split, ok]
    · obtain ⟨c, more, front, mark⟩ := ends
      obtain ⟨more', front'⟩ := List.head?_eq_some_iff.mp (same.trans (by rw [front]; rfl))
      exact readAnnotationValue_append left reads right ⟨c, more', front', mark⟩
  · exact readAnnotationValue_append left reads right ends

theorem readEntry_equals {key : String} {rest₁ rest₂ : List Char}
    (read : readKey cs = .ok (key, rest₁)) (equals : Text.skipBlanks rest₁ = '=' :: rest₂) :
    readEntry cs = readAnnotationValue rest₂ >>= answer (key, ·) := by
  rw [readEntry, read, ok_bind]
  simp only [equals]
  rfl

theorem resumes_readEntry : Resumes readEntry EndsValue := by
  intro cs entry rest ok
  obtain ⟨⟨key, rest₁⟩, read, next⟩ := bind_eq_ok.mp ok
  simp only at next
  split at next
  · rename_i rest₂ equals
    obtain ⟨⟨v, rest₃⟩, value, same⟩ := bind_eq_ok.mp next
    cases same
    obtain ⟨front, rfl, again⟩ := (resumes_readKey cs).mark read equals
    obtain ⟨front', rfl, again'⟩ := resumes_readAnnotationValue _ value
    refine ⟨front ++ '=' :: front', by simp, fun tail follows => ?_⟩
    obtain ⟨rest', read', equals'⟩ := again (front' ++ tail)
    rw [List.append_assoc, List.cons_append, readEntry_equals read' equals',
      again' tail follows, ok_bind_answer]
  · cases next

/-- What ends with its own mark can be followed by anything. -/
def Anything (_ : List Char) : Prop := True

theorem follows_anything (rest tail : List Char) : Follows Anything rest tail := .inr trivial

theorem entriesReader_comma {entry : String × Json}
    (read : readEntry cs = .ok (entry, ',' :: rest)) :
    entriesReader cs = entriesReader rest >>= answer (entry :: ·) := by
  rw [entriesReader_eq, entriesStep, read]
  rfl

theorem entriesReader_close {entry : String × Json}
    (read : readEntry cs = .ok (entry, ')' :: rest)) : entriesReader cs = .ok ([entry], rest) := by
  rw [entriesReader_eq, entriesStep, read]
  rfl

theorem resumes_entriesReader : Resumes entriesReader Anything := by
  refine forall_of_shorter fun cs ih => ?_
  intro list rest ok
  rw [entriesReader_eq] at ok
  obtain ⟨⟨entry, rest₁⟩, read, next⟩ := bind_eq_ok.mp ok
  obtain ⟨front, rfl, again⟩ := resumes_readEntry _ read
  simp only at next
  split at next
  · rename_i rest₂
    obtain ⟨⟨others, rest₃⟩, more, same⟩ := bind_eq_ok.mp next
    cases same
    have short : rest₂.length < (front ++ ',' :: rest₂).length := by simp; omega
    obtain ⟨front', rfl, again'⟩ := ih rest₂ short more
    refine ⟨front ++ ',' :: front', by simp, fun tail follows => ?_⟩
    have first := again (',' :: (front' ++ tail)) (.inl rfl)
    rw [List.append_assoc, List.cons_append, entriesReader_comma first, again' tail follows,
      ok_bind_answer]
  · cases next
    refine ⟨front ++ [')'], by simp, fun tail _ => ?_⟩
    rw [List.append_assoc]
    exact entriesReader_close (again _ (.inl rfl))
  · cases next

theorem readAnnotationBody_opens {n : String} {rest₁ rest₂ : List Char}
    (name : readName cs = .ok (n, rest₁)) (opens : Text.skipBlanks rest₁ = '(' :: rest₂)
    (open' : ∀ more, Text.skipBlanks rest₂ ≠ ')' :: more) :
    readAnnotationBody cs = entriesReader rest₂ >>= answer (⟨n, .ofMembers ·⟩) := by
  rw [readAnnotationBody, name, ok_bind, ← entriesReader_skipBlanks, entriesReader]
  simp only [opens]
  rfl

theorem readAnnotationBody_closed {n : String} {rest₁ rest₂ : List Char}
    (name : readName cs = .ok (n, rest₁)) (opens : Text.skipBlanks rest₁ = '(' :: rest₂)
    (closes : Text.skipBlanks rest₂ = ')' :: rest) :
    readAnnotationBody cs = .ok (⟨n, []⟩, rest) := by
  rw [readAnnotationBody, name, ok_bind]
  simp only [opens, closes]

theorem readAnnotationBody_plain {n : String} {rest₁ : List Char}
    (name : readName cs = .ok (n, rest₁)) (clear : Clear ['('] (Text.skipBlanks rest₁)) :
    readAnnotationBody cs = .ok (⟨n, []⟩, Text.skipBlanks rest₁) := by
  rw [readAnnotationBody, name, ok_bind]
  simp only
  split
  · rename_i opens
    exact absurd opens (clear.ne (by simp) _)
  · rfl

theorem resumes_readAnnotationBody : Resumes readAnnotationBody (Apart ['(']) := by
  intro cs a rest ok
  obtain ⟨⟨n, rest₁⟩, read, next⟩ := bind_eq_ok.mp ok
  simp only at next
  split at next
  · rename_i rest₂ opens
    obtain ⟨front, rfl, again⟩ := (resumes_readName _).mark read opens
    split at next
    · rename_i rest₃ closes
      cases next
      obtain ⟨blanks, blank, split⟩ := exists_blanks rest₂
      rw [closes] at split
      refine ⟨front ++ '(' :: (blanks ++ [')']), by simp [split], fun tail _ => ?_⟩
      obtain ⟨rest', read', opens'⟩ := again (blanks ++ ')' :: tail)
      have whole : front ++ '(' :: (blanks ++ [')']) ++ tail =
          front ++ '(' :: (blanks ++ ')' :: tail) := by simp
      have closes' : Text.skipBlanks (blanks ++ ')' :: tail) = ')' :: tail :=
        (skipBlanks_append blank _).trans (skipBlanks_of_front (by decide) _)
      rw [whole]
      exact readAnnotationBody_closed read' opens' closes'
    · obtain ⟨⟨list, rest₃⟩, shown, same⟩ := bind_eq_ok.mp next
      cases same
      have entries : entriesReader rest₂ = .ok (list, rest₃) :=
        (entriesReader_skipBlanks rest₂).symm.trans shown
      obtain ⟨front', rfl, again'⟩ := resumes_entriesReader _ entries
      refine ⟨front ++ '(' :: front', by simp, fun tail follows => ?_⟩
      obtain ⟨rest', read', opens'⟩ := again (front' ++ tail)
      have entries' := again' tail (follows_anything _ _)
      rw [List.append_assoc, List.cons_append,
        readAnnotationBody_opens read' opens' (readEntries_close entries'), entries',
        ok_bind_answer]
  · rename_i noParen
    cases next
    obtain ⟨front, split, again⟩ := (resumes_readName _).skipping read
    refine ⟨front, split, fun tail follows => ?_⟩
    have clear : Clear ['('] tail := by
      refine follows.front (clear_skipBlanks ?_) fun _ => And.right
      simpa using noParen
    obtain ⟨rest', read', skipped⟩ := again tail (follows.mono fun _ apart => apart.mono (by simp))
    rw [clear.skipBlanks_eq] at skipped
    rw [readAnnotationBody_plain read' (skipped ▸ clear), skipped]

theorem annotationsReader_sign {rest₁ : List Char} (sign : Text.skipBlanks cs = '@' :: rest₁) :
    annotationsReader cs = readAnnotationBody rest₁ >>= fun first =>
      annotationsReader first.2 >>= answer (first.1 :: ·) := by
  rw [annotationsReader_eq, annotationsStep, sign]
  rfl

theorem annotationsReader_none (clear : Clear ['@'] (Text.skipBlanks cs)) :
    annotationsReader cs = .ok ([], Text.skipBlanks cs) := by
  rw [annotationsReader_eq, annotationsStep]
  split
  · rename_i sign
    exact absurd sign (clear.ne (by simp) _)
  · rfl

theorem resumes_annotationsReader : Resumes annotationsReader (Apart ['(', '@']) := by
  refine forall_of_shorter fun cs ih => ?_
  intro as rest ok
  obtain ⟨blanks, blank, split⟩ := exists_blanks cs
  rw [annotationsReader_eq, annotationsStep] at ok
  split at ok
  · rename_i rest₁ sign
    obtain ⟨⟨a, rest₂⟩, read, next⟩ := bind_eq_ok.mp ok
    obtain ⟨⟨others, rest₃⟩, more, same⟩ := bind_eq_ok.mp next
    cases same
    have short := length_lt_of_mark sign
    have shorter := (leavesEnd_readAnnotationBody read).length_le
    rw [sign] at split
    obtain ⟨front, rfl, again⟩ := resumes_readAnnotationBody _ read
    obtain ⟨front', rfl, again'⟩ := ih rest₂ (by omega) more
    refine ⟨blanks ++ '@' :: (front ++ front'), by simp [split], fun tail follows => ?_⟩
    have sign' : Text.skipBlanks (blanks ++ '@' :: (front ++ front') ++ tail) =
        '@' :: (front ++ (front' ++ tail)) := by
      rw [List.append_assoc, skipBlanks_append blank, List.cons_append,
        skipBlanks_of_front (by decide), List.append_assoc]
    have first := again (front' ++ tail)
      ((follows.append front').mono fun _ apart => apart.mono (by simp))
    rw [annotationsReader_sign sign', first, ok_bind]
    exact bind_eq_ok.mpr ⟨_, again' tail follows, rfl⟩
  · rename_i noSign
    cases ok
    refine ⟨blanks, split, fun tail follows => ?_⟩
    have clear : Clear ['@'] tail := by
      refine follows.front (clear_skipBlanks ?_) fun _ apart => (apart.mono (by simp)).2
      simpa using noSign
    have skipped : Text.skipBlanks (blanks ++ tail) = tail :=
      (skipBlanks_append blank tail).trans clear.skipBlanks_eq
    rw [annotationsReader_none (skipped.symm ▸ clear), skipped]

theorem paramsReader_comma {t : TypeExpr} {rest₁ rest₂ : List Char}
    (first : typeReader cs = .ok (t, rest₁)) (comma : Text.skipBlanks rest₁ = ',' :: rest₂) :
    paramsReader cs = paramsReader rest₂ >>= answer (t :: ·) := by
  rw [paramsReader_eq, paramsStep, first, ok_bind]
  simp only [comma]
  rfl

theorem paramsReader_last {t : TypeExpr} {rest₁ : List Char}
    (only : typeReader cs = .ok (t, rest₁)) (closes : Text.skipBlanks rest₁ = '>' :: rest) :
    paramsReader cs = .ok ([t], rest) := by
  rw [paramsReader_eq, paramsStep, only, ok_bind]
  simp only [closes]

theorem resumesOn_paramsReader
    (params : ∀ ds : List Char, ds.length ≤ cs.length → ResumesOn typeReader (Apart ['<']) ds) :
    ResumesOn paramsReader Anything cs := by
  induction cs using forall_of_shorter
  rename_i cs ih
  intro ts rest ok
  rw [paramsReader_eq] at ok
  obtain ⟨⟨t, rest₁⟩, read, next⟩ := bind_eq_ok.mp ok
  have shorter := (leavesEnd_typeReader read).length_le
  simp only at next
  split at next
  · rename_i rest₂ comma
    obtain ⟨⟨others, rest₃⟩, more, same⟩ := bind_eq_ok.mp next
    cases same
    have short := length_lt_of_mark comma
    obtain ⟨front', rfl, again'⟩ :=
      ih rest₂ (by omega) (fun ds few => params ds (by omega)) more
    obtain ⟨front, rfl, again⟩ := (params cs le_rfl).mark read comma
    refine ⟨front ++ ',' :: front', by simp, fun tail follows => ?_⟩
    obtain ⟨rest', read', comma'⟩ := again (front' ++ tail)
    rw [List.append_assoc, List.cons_append, paramsReader_comma read' comma', again' tail follows,
      ok_bind_answer]
  · rename_i closes
    cases next
    obtain ⟨front, rfl, again⟩ := (params cs le_rfl).mark read closes
    refine ⟨front ++ ['>'], by simp, fun tail _ => ?_⟩
    obtain ⟨rest', read', closes'⟩ := again tail
    rw [List.append_assoc]
    exact paramsReader_last read' closes'
  · cases next
  · cases next

/-- What begins like a name is no wildcard. -/
theorem not_question_of_name {n : String} (name : readName cs = .ok (n, rest)) (more : List Char) :
    Text.skipBlanks cs ≠ '?' :: more := by
  intro question
  rw [readName, question] at name
  have stop : startsName '?' = false := by decide
  simp [stop] at name

theorem typeReader_wildcard {as : List Annotation} {rest₁ : List Char}
    (annotated : annotationsReader cs = .ok (as, rest₁))
    (question : Text.skipBlanks rest₁ = '?' :: rest) :
    typeReader cs = .ok ((wildcard []).annotate as, rest) := by
  rw [typeReader_eq, typeStep, annotated, ok_bind]
  simp only [question]

/-- A type that begins with a name goes on as what stands behind the name says. -/
theorem typeReader_named {as : List Annotation} {n : String} {rest₁ rest₂ : List Char}
    (annotated : annotationsReader cs = .ok (as, rest₁)) (name : readName rest₁ = .ok (n, rest₂)) :
    typeReader cs =
      match Text.skipBlanks rest₂ with
      | '<' :: rest => paramsReader rest >>= answer fun ts => (named [] n ts).annotate as
      | rest => .ok ((named [] n []).annotate as, rest) := by
  rw [typeReader_eq, typeStep, annotated, ok_bind]
  simp only
  split
  · rename_i question
    exact absurd question (not_question_of_name name _)
  · rw [readName_skipBlanks, name]
    rfl

theorem typeReader_angle {as : List Annotation} {n : String} {rest₁ rest₂ rest₃ : List Char}
    (annotated : annotationsReader cs = .ok (as, rest₁)) (name : readName rest₁ = .ok (n, rest₂))
    (angle : Text.skipBlanks rest₂ = '<' :: rest₃) :
    typeReader cs = paramsReader rest₃ >>= answer fun ts => (named [] n ts).annotate as := by
  rw [typeReader_named annotated name, angle]
  rfl

theorem typeReader_plain {as : List Annotation} {n : String} {rest₁ rest₂ : List Char}
    (annotated : annotationsReader cs = .ok (as, rest₁)) (name : readName rest₁ = .ok (n, rest₂))
    (clear : Clear ['<'] (Text.skipBlanks rest₂)) :
    typeReader cs = .ok ((named [] n []).annotate as, Text.skipBlanks rest₂) := by
  rw [typeReader_named annotated name]
  split
  · rename_i angle
    exact absurd angle (clear.ne (by simp) _)
  · rfl

theorem length_lt_of_readName {n : String} (name : readName cs = .ok (n, rest)) :
    rest.length < cs.length := by
  obtain ⟨blanks, _, valid, _, rfl⟩ := text_of_readName name
  obtain ⟨c, first, _⟩ := exists_startsName valid
  obtain ⟨more, text⟩ := List.head?_eq_some_iff.mp first
  simp only [text, List.length_append, List.length_cons]
  omega

/-- The annotations and the name of a type are read again together. -/
theorem exists_front_of_name {as : List Annotation} {n : String} {rest₁ rest₂ : List Char}
    (annotated : annotationsReader cs = .ok (as, rest₁)) (name : readName rest₁ = .ok (n, rest₂)) :
    ∃ front, cs = front ++ Text.skipBlanks rest₂ ∧
      ∀ tail, Follows (Apart []) (Text.skipBlanks rest₂) tail → ∃ rest₁' rest₂',
        annotationsReader (front ++ tail) = .ok (as, rest₁') ∧ readName rest₁' = .ok (n, rest₂') ∧
          Text.skipBlanks rest₂' = Text.skipBlanks tail := by
  rw [← readName_skipBlanks] at name
  obtain ⟨front, split, again⟩ := (resumes_annotationsReader cs).skipping annotated
  obtain ⟨front', split', again'⟩ := (resumes_readName _).skipping name
  have taken : front' ≠ [] := by
    rintro rfl
    have shorter := length_lt_of_readName name
    have shown := (skipBlanks_suffix rest₂).length_le
    rw [split', List.nil_append] at shorter
    omega
  obtain ⟨c, word, rfl⟩ := List.exists_cons_of_ne_nil taken
  refine ⟨front ++ c :: word, by rw [List.append_assoc, ← split', ← split], fun tail follows => ?_⟩
  obtain ⟨rest₁', annotated', skipped⟩ := again (c :: word ++ tail) (.inl (by rw [split']; rfl))
  obtain ⟨rest₂', name', skipped'⟩ := again' tail follows
  refine ⟨rest₁', rest₂', by rwa [List.append_assoc], ?_, skipped'⟩
  rw [← readName_skipBlanks, skipped, readName_skipBlanks]
  exact name'

theorem resumes_typeReader : Resumes typeReader (Apart ['<']) := by
  refine forall_of_shorter fun cs ih => ?_
  intro t rest ok
  rw [typeReader_eq] at ok
  obtain ⟨⟨as, rest₁⟩, annotated, next⟩ := bind_eq_ok.mp ok
  simp only at next
  split at next
  · rename_i rest₂ question
    cases next
    obtain ⟨front, rfl, again⟩ := (resumes_annotationsReader cs).mark annotated question
    refine ⟨front ++ ['?'], by simp, fun tail _ => ?_⟩
    obtain ⟨rest', annotated', question'⟩ := again tail
    rw [List.append_assoc]
    exact typeReader_wildcard annotated' question'
  · obtain ⟨⟨n, rest₂⟩, name, next⟩ := bind_eq_ok.mp next
    rw [readName_skipBlanks] at name
    obtain ⟨front, split, again⟩ := exists_front_of_name annotated name
    simp only at next
    split at next
    · rename_i rest₃ angle
      obtain ⟨⟨ts, rest₄⟩, params, same⟩ := bind_eq_ok.mp next
      cases same
      rw [angle] at split again
      have short : rest₃.length < cs.length := by simp [split]; omega
      obtain ⟨front', rfl, again'⟩ :=
        resumesOn_paramsReader (fun ds few => ih ds (by omega)) params
      refine ⟨front ++ '<' :: front', by simp [split], fun tail follows => ?_⟩
      obtain ⟨rest₁', rest₂', annotated', name', angle'⟩ :=
        again ('<' :: (front' ++ tail)) (.inl rfl)
      rw [skipBlanks_of_front (by decide)] at angle'
      rw [List.append_assoc, List.cons_append, typeReader_angle annotated' name' angle',
        again' tail (follows_anything _ _), ok_bind_answer]
    · rename_i noAngle
      cases next
      refine ⟨front, split, fun tail follows => ?_⟩
      have clear : Clear ['<'] tail := by
        refine follows.front (clear_skipBlanks ?_) fun _ => And.right
        simpa using noAngle
      obtain ⟨rest₁', rest₂', annotated', name', skipped⟩ :=
        again tail (follows.mono fun _ apart => apart.mono (by simp))
      rw [clear.skipBlanks_eq] at skipped
      rw [typeReader_plain annotated' name' (skipped ▸ clear), skipped]

end Overload.TypeExpr
