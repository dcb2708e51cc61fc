import Overload.Proofs.Resumption

/-!
Where a reader stops. What stands before the place of a fault can be completed to a text that the
reader accepts, whatever it met there; and with the character at that place it cannot, unless the
fault is about a quoted key or a value as a whole, which is then reported where it starts.
-/
namespace Overload.TypeExpr

variable {cs rest : List Char}

/-- Whether a fault is found inside a key or value but reported at its start. -/
def Fault.ofToken : Fault → Bool
  | unterminatedKey | invalidKey _ | invalidValue _ _ => true
  | _ => false

/-- The rest starts with the key or value that has the fault, where one is expected: a key behind
the opening parenthesis or a comma, a value behind an equals sign. -/
inductive TokenStart : Fault → List Char → List Char → Prop
  | key {fault : Fault} {before blanks more : List Char} {mark : Char}
      (opens : mark = '(' ∨ mark = ',') (blank : Blanks blanks)
      (fails : readQuotedKey more = .error ⟨'"' :: more, fault⟩) :
      TokenStart fault (before ++ mark :: blanks) ('"' :: more)
  | value {fault : Fault} {before blanks rest : List Char} (blank : Blanks blanks)
      (fails : readAnnotationValue rest = .error ⟨rest, fault⟩) :
      TokenStart fault (before ++ '=' :: blanks) rest

theorem TokenStart.behind {fault : Fault} {front : List Char} (starts : TokenStart fault front rest)
    (before : List Char) : TokenStart fault (before ++ front) rest := by
  cases starts with
  | key opens blank fails =>
      rw [← List.append_assoc]
      exact .key opens blank fails
  | value blank fails =>
      rw [← List.append_assoc]
      exact .value blank fails

/-- Behind a mark that opens an entry, and white space, the rest starts with a key or value that has
the fault. -/
def EntryStart (fault : Fault) (front rest : List Char) : Prop :=
  ∀ mark blanks, (mark = '(' ∨ mark = ',') → Blanks blanks →
    TokenStart fault (mark :: (blanks ++ front)) rest

theorem TokenStart.entryStart {fault : Fault} {front : List Char}
    (starts : TokenStart fault front rest) : EntryStart fault front rest :=
  fun mark blanks _ _ => starts.behind (mark :: blanks)

/-- What a stop behind this part of the text means. There is a text behind which the reader accepts
every tail that is allowed; a fault of a key or value lies at its start; and any other fault is one
of the next character, whatever follows it. -/
structure StopsAt {α : Type} (read : Reader α) (allowed : List Char → Prop)
    (starts : Fault → List Char → List Char → Prop) (front : List Char) (stop : Stop) : Prop where
  completes : ∃ more x, ∀ tail, allowed tail → read (front ++ (more ++ tail)) = .ok (x, tail)
  token : stop.fault.ofToken = true → starts stop.fault front stop.rest
  refuses : stop.fault.ofToken = false → ∀ c post, stop.rest = c :: post →
    ∀ post', ∃ stop', read (front ++ c :: post') = .error stop'

theorem StopsAt.of_single {α : Type} {read : Reader α} {allowed : List Char → Prop}
    {starts : Fault → List Char → List Char → Prop} {front : List Char} {stop : Stop}
    (completes : ∃ more x, ∀ tail, allowed tail → read (front ++ (more ++ tail)) = .ok (x, tail))
    (single : stop.fault.ofToken = false)
    (refuses : ∀ c post, stop.rest = c :: post →
      ∀ post', ∃ stop', read (front ++ c :: post') = .error stop') :
    StopsAt read allowed starts front stop where
  completes := completes
  token ofToken := absurd (single.symm.trans ofToken) Bool.false_ne_true
  refuses _ := refuses

/-- Every stop in this text is of that kind. -/
def HaltsOn {α : Type} (read : Reader α) (allowed : List Char → Prop)
    (starts : Fault → List Char → List Char → Prop) (cs : List Char) : Prop :=
  ∀ ⦃stop : Stop⦄, read cs = .error stop →
    ∃ front, cs = front ++ stop.rest ∧ StopsAt read allowed starts front stop

theorem exists_bind_error {ε α β : Type} {x : Except ε α} {f : α → Except ε β}
    (fails : ∃ e, x = .error e) : ∃ e, (x >>= f) = .error e := by
  obtain ⟨e, rfl⟩ := fails
  exact ⟨e, rfl⟩

/-- A reader that goes on with an inner reader behind some part of the text stops where the inner
one does, provided that what the inner reader accepts can be closed. -/
theorem StopsAt.within {α β : Type} {inner : Reader α} {outer : Reader β}
    {allowed allowed' : List Char → Prop} {starts starts' : Fault → List Char → List Char → Prop}
    {front : List Char} {stop : Stop} (stops : StopsAt inner allowed starts front stop)
    (before : List Char) (next : α × List Char → Except Stop (β × List Char))
    (runs : ∀ tail, tail.head? = stop.rest.head? ∨ (∃ y, inner (front ++ tail) = .ok y) →
      outer (before ++ (front ++ tail)) = inner (front ++ tail) >>= next)
    (closes : ∀ x, ∃ more y, ∀ tail, allowed' tail →
      allowed (more ++ tail) ∧ next (x, more ++ tail) = .ok (y, tail))
    (place : starts stop.fault front stop.rest →
      starts' stop.fault (before ++ front) stop.rest) :
    StopsAt outer allowed' starts' (before ++ front) stop where
  completes := by
    obtain ⟨more, x, accepts⟩ := stops.completes
    obtain ⟨more', y, closed⟩ := closes x
    refine ⟨more ++ more', y, fun tail allow => ?_⟩
    obtain ⟨allow', last⟩ := closed tail allow
    have accepted := accepts _ allow'
    rw [List.append_assoc, List.append_assoc, runs _ (.inr ⟨_, accepted⟩), accepted]
    exact last
  token ofToken := place (stops.token ofToken)
  refuses single c post front' post' := by
    rw [List.append_assoc, runs _ (.inl (by rw [front']; rfl))]
    exact exists_bind_error (stops.refuses single c post front' post')

/-- White space and one more character are skipped up to that character. -/
theorem skipBlanks_upTo {blanks : List Char} (blank : Blanks blanks) {c : Char} {post : List Char}
    (place : c :: post = Text.skipBlanks cs) (post' : List Char) :
    Text.skipBlanks (blanks ++ c :: post') = c :: post' :=
  (skipBlanks_append blank _).trans (skipBlanks_of_front (isBlank_of_skipBlanks place.symm) _)

/-- A reader that goes on after an inner one stops at the first character that shows behind what the
inner one took, if it cannot go on with that character but with another one. -/
theorem ResumesOn.stopsAt {α β : Type} {inner : Reader α} {outer : Reader β}
    {allowed allowed' : List Char → Prop} {x : α} {stop : Stop}
    (resumes : ResumesOn inner allowed cs) (ok : inner cs = .ok (x, rest))
    (place : stop.rest = Text.skipBlanks rest) (single : stop.fault.ofToken = false)
    (next : α × List Char → Except Stop (β × List Char))
    (runs : ∀ ds, outer ds = inner ds >>= next)
    (closes : ∃ more y, ∀ tail, allowed' tail → allowed (more ++ tail) ∧
      ∀ rest', Text.skipBlanks rest' = Text.skipBlanks (more ++ tail) →
        next (x, rest') = .ok (y, tail))
    (refuses : ∀ c post, Text.skipBlanks rest = c :: post → ∀ rest' post',
      Text.skipBlanks rest' = c :: post' → ∃ stop', next (x, rest') = .error stop')
    (starts : Fault → List Char → List Char → Prop) :
    ∃ front, cs = front ++ stop.rest ∧ StopsAt outer allowed' starts front stop := by
  obtain ⟨front, split, again⟩ := resumes.skipping ok
  refine ⟨front, place ▸ split, .of_single ?_ single fun c post front' post' => ?_⟩
  · obtain ⟨more, y, closed⟩ := closes
    refine ⟨more, y, fun tail allow => ?_⟩
    obtain ⟨allow', last⟩ := closed tail allow
    obtain ⟨rest', ok', skipped⟩ := again (more ++ tail) (.inr allow')
    rw [runs, ok', ok_bind]
    exact last rest' skipped
  · rw [place] at front'
    obtain ⟨rest', ok', skipped⟩ := again (c :: post') (.inl (by rw [front']; rfl))
    rw [skipBlanks_of_front (isBlank_of_skipBlanks front')] at skipped
    rw [runs, ok', ok_bind]
    exact refuses c post front' rest' post' skipped

theorem readName_error {stop : Stop} (fails : readName cs = .error stop) :
    stop.rest = Text.skipBlanks cs ∧ stop.fault.ofToken = false ∧
      ∀ c ∈ stop.rest.head?, startsName c = false := by
  unfold readName at fails
  split at fails
  · rename_i nothing
    cases fails
    exact ⟨nothing.symm, rfl, nofun⟩
  · rename_i c more front
    split at fails
    · cases fails
    · rename_i other
      cases fails
      refine ⟨front.symm, rfl, ?_⟩
      intro d hd
      cases hd
      simpa using other

theorem readName_refuses {c : Char} (other : startsName c = false)
    (front : Text.skipBlanks cs = c :: rest) : ∃ stop, readName cs = .error stop := by
  rw [readName, front]
  simp [other]

/-- A fault at the first character that shows leaves out white space only. -/
theorem exists_blanks_of_skipBlanks (front : rest = Text.skipBlanks cs) :
    ∃ blanks, Blanks blanks ∧ cs = blanks ++ rest :=
  front ▸ exists_blanks cs

theorem readQuotedKey_error {stop : Stop} (fails : readQuotedKey cs = .error stop) :
    stop.rest = '"' :: cs ∧ stop.fault.ofToken = true := by
  unfold readQuotedKey at fails
  split at fails
  · cases fails
    exact ⟨rfl, rfl⟩
  · split at fails
    · cases fails
    · cases fails
      exact ⟨rfl, rfl⟩

theorem readKey_completes {blanks : List Char} (blank : Blanks blanks) :
    ∃ more key, ∀ tail, Apart [] tail → readKey (blanks ++ (more ++ tail)) = .ok (key, tail) :=
  ⟨"k".toList, "k", fun _ apart => readKey_append blank (by decide) apart.1⟩

theorem halts_readKey (cs : List Char) : HaltsOn readKey (Apart []) EntryStart cs := by
  intro stop fails
  unfold readKey at fails
  split at fails
  · rename_i more quote
    obtain ⟨place, ofToken⟩ := readQuotedKey_error fails
    obtain ⟨blanks, blank, split⟩ := exists_blanks_of_skipBlanks (place.trans quote.symm)
    refine ⟨blanks, split, readKey_completes blank, ?_, fun single => ?_⟩
    · have fails' : readQuotedKey more = .error ⟨'"' :: more, stop.fault⟩ := place ▸ fails
      intro _ mark blanks' opens blank'
      rw [place, ← List.nil_append (mark :: (blanks' ++ blanks))]
      exact .key opens (blank'.append blank) fails'
    · rw [ofToken] at single
      cases single
  · rename_i noQuote
    obtain ⟨place, single, noName⟩ := readName_error fails
    rw [skipBlanks_skipBlanks] at place
    obtain ⟨blanks, blank, split⟩ := exists_blanks_of_skipBlanks place
    refine ⟨blanks, split,
      .of_single (readKey_completes blank) single fun c post front post' => ?_⟩
    rw [front] at place noName
    have shown := skipBlanks_upTo blank place post'
    rw [readKey, shown]
    split
    · rename_i quote
      cases quote
      exact absurd place.symm (noQuote _)
    · exact readName_refuses (noName c rfl) (by rw [← shown, skipBlanks_skipBlanks])

theorem readAnnotationValue_skipBlanks (cs : List Char) :
    readAnnotationValue (Text.skipBlanks cs) = readAnnotationValue cs := by
  unfold readAnnotationValue
  rw [skipBlanks_skipBlanks]

theorem endsValue_close (cs : List Char) : EndsValue (')' :: cs) := ⟨')', cs, rfl, .inr rfl⟩

theorem readAnnotationValue_null {blanks tail : List Char} (blank : Blanks blanks)
    (ends : EndsValue tail) :
    readAnnotationValue (blanks ++ ("null".toList ++ tail)) = .ok (.null, tail) := by
  have reads : Json.readChars "null".toList = .ok .null := by rfl
  have read := readAnnotationValue_append blank reads .nil ends
  rwa [List.nil_append] at read

/-- A value is missing where the entry ends without one. -/
theorem readAnnotationValue_error {stop : Stop} (fails : readAnnotationValue cs = .error stop) :
    stop.rest = Text.skipBlanks cs ∧
      (stop.fault.ofToken = false → stop.rest = [] ∨ EndsValue stop.rest) := by
  unfold readAnnotationValue at fails
  simp only at fails
  have cut := append_of_cutValue (.outside 0) (Text.skipBlanks cs)
  have ends := cutValue_rest (.outside 0) (Text.skipBlanks cs)
  obtain ⟨blanks, blank, trimmed⟩ :=
    exists_blanks_at_end (cutValue (.outside 0) (Text.skipBlanks cs)).1
  split at fails
  · rename_i nothing
    cases fails
    rw [nothing, List.nil_append] at trimmed
    have none : blanks = [] := by
      cases blanks with
      | nil => rfl
      | cons b blanks =>
          rw [trimmed, List.cons_append] at cut
          have shown := isBlank_of_skipBlanks cut
          rw [blank b List.mem_cons_self] at shown
          cases shown
    rw [trimmed, none, List.nil_append] at cut
    exact ⟨cut.symm, fun _ => ends⟩
  · split at fails
    · cases fails
    · cases fails
      exact ⟨rfl, nofun⟩

/-- Behind white space, the rest starts with a value that has the fault. -/
def ValueStart (fault : Fault) (front rest : List Char) : Prop :=
  Blanks front ∧ readAnnotationValue rest = .error ⟨rest, fault⟩

theorem halts_readAnnotationValue (cs : List Char) :
    HaltsOn readAnnotationValue EndsValue ValueStart cs := by
  intro stop fails
  obtain ⟨place, missing⟩ := readAnnotationValue_error fails
  obtain ⟨blanks, blank, split⟩ := exists_blanks_of_skipBlanks place
  have here : readAnnotationValue stop.rest = .error stop := by
    rw [place, readAnnotationValue_skipBlanks, fails]
  refine ⟨blanks, split, ⟨_, _, fun _ => readAnnotationValue_null blank⟩,
    fun _ => ⟨blank, here⟩, ?_⟩
  intro single c post front post'
  obtain nothing | ⟨d, more, rest, mark⟩ := missing single
  · rw [nothing] at front
    cases front
  · rw [front] at rest place
    cases rest
    have shown := skipBlanks_upTo blank place post'
    have cut : cutValue (.outside 0) (c :: post') = ([], c :: post') :=
      cutValue_end ⟨c, post', rfl, mark⟩
    unfold readAnnotationValue
    simp only [shown, cut]
    exact ⟨_, rfl⟩

theorem apart_equals (cs : List Char) : Apart [] ('=' :: cs) := apart_cons (by decide) cs

/-- An entry stops where the equals sign is missing behind its key. -/
theorem stopsAt_readEntry {key : String} {stop : Stop} (read : readKey cs = .ok (key, rest))
    (noEquals : ∀ more, Text.skipBlanks rest ≠ '=' :: more)
    (place : stop.rest = Text.skipBlanks rest) (single : stop.fault.ofToken = false) :
    ∃ front, cs = front ++ stop.rest ∧ StopsAt readEntry EndsValue EntryStart front stop := by
  refine (resumes_readKey cs).stopsAt read place single _ (fun _ => rfl) ?_ ?_ _
  · refine ⟨'=' :: "null".toList, (key, .null), fun tail ends => ⟨apart_equals _, ?_⟩⟩
    intro rest' equals
    rw [List.cons_append, skipBlanks_of_front (by decide)] at equals
    simp only [equals]
    exact bind_eq_ok.mpr ⟨_, readAnnotationValue_null .nil ends, rfl⟩
  · intro c post front rest' post' front'
    simp only [front']
    split
    · rename_i equals
      cases equals
      exact absurd front (noEquals _)
    · exact ⟨_, rfl⟩

/-- It also stops where its value does. -/
theorem StopsAt.behindEquals {key : String} {front : List Char} {stop : Stop}
    (read : readKey cs = .ok (key, rest))
    (equals : Text.skipBlanks rest = '=' :: (front ++ stop.rest))
    (stops : StopsAt readAnnotationValue EndsValue ValueStart front stop) :
    ∃ whole, cs = whole ++ stop.rest ∧ StopsAt readEntry EndsValue EntryStart whole stop := by
  obtain ⟨front', rfl, again⟩ := (resumes_readKey cs).mark read equals
  have runs : ∀ tail, readEntry (front' ++ ['='] ++ (front ++ tail)) =
      readAnnotationValue (front ++ tail) >>= answer (key, ·) := by
    intro tail
    obtain ⟨rest', read', equals'⟩ := again (front ++ tail)
    rw [List.append_assoc]
    exact readEntry_equals read' equals'
  refine ⟨front' ++ ['='] ++ front, by simp, stops.within _ _ (fun tail _ => runs tail) ?_ ?_⟩
  · exact fun v => ⟨[], (key, v), fun tail ends => ⟨ends, rfl⟩⟩
  · intro starts
    rw [List.append_assoc]
    have here : TokenStart stop.fault (front' ++ '=' :: front) stop.rest :=
      .value starts.1 starts.2
    exact here.entryStart

theorem halts_readEntry (cs : List Char) : HaltsOn readEntry EndsValue EntryStart cs := by
  intro stop fails
  obtain noKey | ⟨⟨key, rest⟩, read, next⟩ := bind_eq_error.mp fails
  · obtain ⟨front, split, stops⟩ := halts_readKey cs noKey
    refine ⟨front, split, stops.within [] _ (fun _ _ => rfl) (fun key => ?_) id⟩
    refine ⟨'=' :: "null".toList, (key, .null), fun tail ends => ⟨apart_equals _, ?_⟩⟩
    exact bind_eq_ok.mpr ⟨_, readAnnotationValue_null .nil ends, rfl⟩
  · simp only at next
    split at next
    · rename_i rest₂ equals
      obtain noValue | ⟨_, _, done⟩ := bind_eq_error.mp next
      · obtain ⟨front, rfl, stops⟩ := halts_readAnnotationValue rest₂ noValue
        exact stops.behindEquals read equals
      · cases done
    · rename_i noEquals
      cases next
      exact stopsAt_readEntry read (by simpa using noEquals) rfl rfl

theorem end_of_readEntry {entry : String × Json} (ok : readEntry cs = .ok (entry, rest)) :
    rest = [] ∨ EndsValue rest := by
  obtain ⟨⟨key, rest₁⟩, _, next⟩ := bind_eq_ok.mp ok
  simp only at next
  split at next
  · obtain ⟨⟨v, rest₃⟩, value, same⟩ := bind_eq_ok.mp next
    cases same
    exact end_of_readAnnotationValue value
  · cases next

theorem halts_entriesReader (cs : List Char) : HaltsOn entriesReader Anything EntryStart cs := by
  induction cs using forall_of_shorter
  rename_i cs ih
  intro stop fails
  rw [entriesReader_eq] at fails
  obtain noEntry | ⟨⟨entry, rest⟩, read, next⟩ := bind_eq_error.mp fails
  · obtain ⟨front, split, stops⟩ := halts_readEntry cs noEntry
    refine ⟨front, split, stops.within [] _ (fun _ _ => entriesReader_eq _) (fun entry => ?_) id⟩
    exact ⟨[')'], [entry], fun tail _ => ⟨endsValue_close tail, rfl⟩⟩
  · obtain ⟨front, rfl, again⟩ := resumes_readEntry _ read
    simp only at next
    split at next
    · rename_i rest₂
      obtain noMore | ⟨_, _, done⟩ := bind_eq_error.mp next
      · have short : rest₂.length < (front ++ ',' :: rest₂).length := by simp; omega
        obtain ⟨front', rfl, stops⟩ := ih rest₂ short noMore
        have runs : ∀ tail, entriesReader (front ++ [','] ++ (front' ++ tail)) =
            entriesReader (front' ++ tail) >>= answer (entry :: ·) := by
          intro tail
          rw [List.append_assoc]
          exact entriesReader_comma (again _ (.inl rfl))
        refine ⟨front ++ [','] ++ front', by simp, stops.within _ _ (fun tail _ => runs tail) ?_ ?_⟩
        · exact fun others => ⟨[], entry :: others, fun tail _ => ⟨trivial, rfl⟩⟩
        · intro starts
          rw [List.append_assoc]
          exact ((starts ',' [] (.inr rfl) .nil).behind front).entryStart
      · cases done
    · cases next
    · rename_i noComma noClose
      cases next
      have nothing : rest = [] := by
        obtain nothing | ⟨c, more, rfl, rfl | rfl⟩ := end_of_readEntry read
        · exact nothing
        · exact absurd rfl (noComma more)
        · exact absurd rfl (noClose more)
      subst nothing
      refine ⟨front, rfl, ⟨[')'], [entry], fun tail _ => ?_⟩, nofun, nofun⟩
      exact entriesReader_close (again _ (.inr (endsValue_close tail)))

theorem entriesReader_blanks {blanks : List Char} (blank : Blanks blanks) (ds : List Char) :
    entriesReader (blanks ++ ds) = entriesReader ds := by
  rw [← entriesReader_skipBlanks, skipBlanks_append blank, entriesReader_skipBlanks]

/-- An annotation stops where its name is missing. -/
theorem stopsAt_readAnnotationBody {stop : Stop} (noName : readName cs = .error stop) :
    ∃ front, cs = front ++ stop.rest ∧
      StopsAt readAnnotationBody Anything TokenStart front stop := by
  obtain ⟨place, single, noStart⟩ := readName_error noName
  obtain ⟨blanks, blank, split⟩ := exists_blanks_of_skipBlanks place
  refine ⟨blanks, split, .of_single
    ⟨"A".toList ++ ['(', ')'], ⟨"A", []⟩, fun tail _ => ?_⟩ single fun c post front post' => ?_⟩
  · have apart : Apart [] ('(' :: ')' :: tail) := apart_cons (by decide) _
    have read : readName (blanks ++ ("A".toList ++ '(' :: ')' :: tail)) =
        .ok ("A", '(' :: ')' :: tail) := readName_append blank (by decide) apart.1
    exact readAnnotationBody_closed read (skipBlanks_of_front (by decide) _)
      (skipBlanks_of_front (by decide) _)
  · rw [front] at place noStart
    exact exists_bind_error (readName_refuses (noStart c rfl) (skipBlanks_upTo blank place post'))

/-- It also stops where its entries do. -/
theorem stopsAt_entries {n : String} {rest₁ rest₂ : List Char} {stop : Stop}
    (name : readName cs = .ok (n, rest₁)) (opens : Text.skipBlanks rest₁ = '(' :: rest₂)
    (noClose : ∀ more, Text.skipBlanks rest₂ ≠ ')' :: more)
    (noEntries : entriesReader (Text.skipBlanks rest₂) = .error stop) :
    ∃ front, cs = front ++ stop.rest ∧
      StopsAt readAnnotationBody Anything TokenStart front stop := by
  obtain ⟨front, rfl, again⟩ := (resumes_readName cs).mark name opens
  obtain ⟨blanks, blank, split⟩ := exists_blanks rest₂
  have clear : Clear [')'] (Text.skipBlanks rest₂) := clear_skipBlanks (by simpa using noClose)
  obtain ⟨front', split', stops⟩ := halts_entriesReader _ noEntries
  rw [split'] at split clear
  have runs : ∀ tail,
      tail.head? = stop.rest.head? ∨ (∃ y, entriesReader (front' ++ tail) = .ok y) →
      readAnnotationBody (front ++ '(' :: blanks ++ (front' ++ tail)) =
        entriesReader (front' ++ tail) >>= answer (⟨n, .ofMembers ·⟩) := by
    intro tail known
    have open' : ∀ more, Text.skipBlanks (front' ++ tail) ≠ ')' :: more := by
      obtain same | ⟨y, entries⟩ := known
      · have follows : Follows (Clear [')']) (front' ++ stop.rest) (front' ++ tail) :=
          .append (.inl same) front'
        have clear' : Clear [')'] (front' ++ tail) := follows.front clear fun _ => id
        rw [clear'.skipBlanks_eq]
        exact clear'.ne (by simp)
      · exact readEntries_close entries
    obtain ⟨rest', name', opens'⟩ := again (blanks ++ (front' ++ tail))
    rw [← skipBlanks_append blank] at open'
    rw [List.append_assoc, List.cons_append, readAnnotationBody_opens name' opens' open',
      entriesReader_blanks blank]
  refine ⟨front ++ '(' :: blanks ++ front', by simp [split], stops.within _ _ runs ?_ ?_⟩
  · exact fun list => ⟨[], ⟨n, .ofMembers list⟩, fun tail _ => ⟨trivial, rfl⟩⟩
  · intro starts
    rw [List.append_assoc]
    exact (starts '(' blanks (.inl rfl) blank).behind front

theorem halts_readAnnotationBody (cs : List Char) :
    HaltsOn readAnnotationBody Anything TokenStart cs := by
  intro stop fails
  obtain noName | ⟨⟨n, rest₁⟩, name, next⟩ := bind_eq_error.mp fails
  · exact stopsAt_readAnnotationBody noName
  · simp only at next
    split at next
    · rename_i rest₂ opens
      split at next
      · cases next
      · rename_i noClose
        obtain noEntries | ⟨_, _, done⟩ := bind_eq_error.mp next
        · exact stopsAt_entries name opens noClose noEntries
        · cases done
    · cases next

section

variable {rest₁ : List Char} (sign : Text.skipBlanks cs = '@' :: rest₁) {stop : Stop}
include sign

/-- Annotations stop where one of them does. -/
theorem stopsAt_annotation (fails : readAnnotationBody rest₁ = .error stop) :
    ∃ front, front ≠ [] ∧ cs = front ++ stop.rest ∧
      StopsAt annotationsReader (Clear ['@']) TokenStart front stop := by
  obtain ⟨blanks, blank, split⟩ := exists_blanks cs
  obtain ⟨front, rfl, stops⟩ := halts_readAnnotationBody rest₁ fails
  rw [sign] at split
  have runs : ∀ tail, annotationsReader (blanks ++ ['@'] ++ (front ++ tail)) =
      readAnnotationBody (front ++ tail) >>= fun first =>
        annotationsReader first.2 >>= answer (first.1 :: ·) := by
    intro tail
    rw [List.append_assoc]
    exact annotationsReader_sign (skipBlanks_upTo blank sign.symm _)
  refine ⟨blanks ++ ['@'] ++ front, by simp, by simp [split], stops.within _ _
    (fun tail _ => runs tail) (fun a => ?_) fun starts => starts.behind _⟩
  refine ⟨[], [a], fun tail clear => ⟨trivial, ?_⟩⟩
  have none := annotationsReader_none (clear.skipBlanks_eq.symm ▸ clear)
  rw [clear.skipBlanks_eq] at none
  exact bind_eq_ok.mpr ⟨_, none, rfl⟩

/-- Behind an annotation they stop where the others do. -/
theorem StopsAt.behindAnnotation {a : Annotation} {front : List Char}
    (first : readAnnotationBody rest₁ = .ok (a, front ++ stop.rest)) (taken : front ≠ [])
    (stops : StopsAt annotationsReader (Clear ['@']) TokenStart front stop) :
    ∃ whole, whole ≠ [] ∧ cs = whole ++ stop.rest ∧
      StopsAt annotationsReader (Clear ['@']) TokenStart whole stop := by
  obtain ⟨blanks, blank, split⟩ := exists_blanks cs
  obtain ⟨front', rfl, again⟩ := resumes_readAnnotationBody _ first
  obtain ⟨c, word, rfl⟩ := List.exists_cons_of_ne_nil taken
  rw [sign] at split
  have runs : ∀ tail, annotationsReader (blanks ++ '@' :: front' ++ (c :: word ++ tail)) =
      annotationsReader (c :: word ++ tail) >>= answer (a :: ·) := by
    intro tail
    have first' := again (c :: word ++ tail) (.inl rfl)
    have sign' := skipBlanks_upTo blank sign.symm (front' ++ (c :: word ++ tail))
    rw [List.append_assoc, List.cons_append, annotationsReader_sign sign', first', ok_bind]
  refine ⟨blanks ++ '@' :: front' ++ c :: word, by simp, by simp [split], stops.within _ _
    (fun tail _ => runs tail) (fun others => ?_) fun starts => starts.behind _⟩
  exact ⟨[], a :: others, fun tail clear => ⟨clear, rfl⟩⟩

end

theorem halts_annotationsReader (cs : List Char) {stop : Stop}
    (fails : annotationsReader cs = .error stop) :
    ∃ front, front ≠ [] ∧ cs = front ++ stop.rest ∧
      StopsAt annotationsReader (Clear ['@']) TokenStart front stop := by
  induction cs using forall_of_shorter
  rename_i cs ih
  rw [annotationsReader_eq, annotationsStep] at fails
  split at fails
  · rename_i rest₁ sign
    obtain noFirst | ⟨⟨a, rest₂⟩, first, next⟩ := bind_eq_error.mp fails
    · exact stopsAt_annotation sign noFirst
    · obtain noMore | ⟨_, _, done⟩ := bind_eq_error.mp next
      · have short := length_lt_of_mark sign
        have shorter := (leavesEnd_readAnnotationBody first).length_le
        obtain ⟨front, taken, rfl, stops⟩ := ih rest₂ (by omega) noMore
        exact stops.behindAnnotation sign first taken
      · cases done
  · cases fails

/-- A list of parameters stops where it neither goes on nor ends. -/
theorem stopsAt_paramsReader {t : TypeExpr} {stop : Stop} (read : typeReader cs = .ok (t, rest))
    (place : stop.rest = Text.skipBlanks rest) (single : stop.fault.ofToken = false)
    (noComma : ∀ more, Text.skipBlanks rest ≠ ',' :: more)
    (noClose : ∀ more, Text.skipBlanks rest ≠ '>' :: more) :
    ∃ front, cs = front ++ stop.rest ∧ StopsAt paramsReader Anything TokenStart front stop := by
  refine (resumes_typeReader cs).stopsAt read place single _ paramsReader_eq ?_ ?_ _
  · refine ⟨['>'], [t], fun tail _ => ⟨apart_cons (by decide) tail, fun rest' closes => ?_⟩⟩
    rw [List.cons_append, skipBlanks_of_front (by decide)] at closes
    simp only [closes]
    rfl
  · intro c post front rest' post' front'
    simp only [front']
    split
    · rename_i comma
      cases comma
      exact absurd front (noComma _)
    · rename_i closes
      cases closes
      exact absurd front (noClose _)
    · exact ⟨_, rfl⟩
    · exact ⟨_, rfl⟩

theorem halts_paramsReader
    (params : ∀ ds : List Char, ds.length ≤ cs.length → HaltsOn typeReader Anything TokenStart ds) :
    HaltsOn paramsReader Anything TokenStart cs := by
  induction cs using forall_of_shorter
  rename_i cs ih
  intro stop fails
  rw [paramsReader_eq] at fails
  obtain noParam | ⟨⟨t, rest⟩, read, next⟩ := bind_eq_error.mp fails
  · obtain ⟨front, split, stops⟩ := params cs le_rfl noParam
    refine ⟨front, split, stops.within [] _ (fun _ _ => paramsReader_eq _) (fun t => ?_) id⟩
    refine ⟨['>'], [t], fun tail _ => ⟨trivial, ?_⟩⟩
    have closes : Text.skipBlanks (['>'] ++ tail) = '>' :: tail :=
      skipBlanks_of_front (by decide) tail
    simp only [closes]
  · have shorter := (leavesEnd_typeReader read).length_le
    simp only at next
    split at next
    · rename_i rest₂ comma
      have short := length_lt_of_mark comma
      obtain noMore | ⟨_, _, done⟩ := bind_eq_error.mp next
      · obtain ⟨front', rfl, stops⟩ :=
          ih rest₂ (by omega) (fun ds few => params ds (by omega)) noMore
        obtain ⟨front, rfl, again⟩ := (resumes_typeReader cs).mark read comma
        have runs : ∀ tail, paramsReader (front ++ [','] ++ (front' ++ tail)) =
            paramsReader (front' ++ tail) >>= answer (t :: ·) := by
          intro tail
          obtain ⟨rest', read', comma'⟩ := again (front' ++ tail)
          rw [List.append_assoc]
          exact paramsReader_comma read' comma'
        refine ⟨front ++ [','] ++ front', by simp, stops.within _ _ (fun tail _ => runs tail)
          (fun ts => ?_) fun starts => starts.behind _⟩
        exact ⟨[], t :: ts, fun tail _ => ⟨trivial, rfl⟩⟩
      · cases done
    · cases next
    · rename_i nothing
      cases next
      exact stopsAt_paramsReader read nothing.symm rfl (by simp [nothing]) (by simp [nothing])
    · rename_i c more noComma noClose front
      cases next
      refine stopsAt_paramsReader read front.symm rfl (fun _ comma => ?_) fun _ closes => ?_
      · exact noComma (List.cons.inj (front.symm.trans comma)).1
      · exact noClose (List.cons.inj (front.symm.trans closes)).1

/-- A type stops where neither a wildcard nor a name begins. -/
theorem stopsAt_typeReader {as : List Annotation} {stop : Stop}
    (annotated : annotationsReader cs = .ok (as, rest))
    (noQuestion : ∀ more, Text.skipBlanks rest ≠ '?' :: more)
    (noName : readName rest = .error stop) :
    ∃ front, cs = front ++ stop.rest ∧ StopsAt typeReader Anything TokenStart front stop := by
  obtain ⟨place, single, noStart⟩ := readName_error noName
  refine (resumes_annotationsReader cs).stopsAt annotated place single _ typeReader_eq ?_ ?_ _
  · refine ⟨['?'], (wildcard []).annotate as,
      fun tail _ => ⟨apart_cons (by decide) tail, fun rest' question => ?_⟩⟩
    rw [List.cons_append, skipBlanks_of_front (by decide)] at question
    simp only [question]
    rfl
  · intro c post front rest' post' front'
    rw [place, front] at noStart
    simp only [front']
    split
    · rename_i question
      cases question
      exact absurd front (noQuestion _)
    · have shown := isBlank_of_skipBlanks front'
      exact exists_bind_error (readName_refuses (noStart c rfl) (skipBlanks_of_front shown post'))

/-- It also stops where its parameters do. -/
theorem StopsAt.behindAngle {as : List Annotation} {n : String} {rest₁ rest₂ front : List Char}
    {stop : Stop} (annotated : annotationsReader cs = .ok (as, rest₁))
    (name : readName rest₁ = .ok (n, rest₂))
    (angle : Text.skipBlanks rest₂ = '<' :: (front ++ stop.rest))
    (stops : StopsAt paramsReader Anything TokenStart front stop) :
    ∃ whole, cs = whole ++ stop.rest ∧ StopsAt typeReader Anything TokenStart whole stop := by
  obtain ⟨front', split, again⟩ := exists_front_of_name annotated name
  rw [angle] at split again
  have runs : ∀ tail, typeReader (front' ++ ['<'] ++ (front ++ tail)) =
      paramsReader (front ++ tail) >>= answer fun ts => (named [] n ts).annotate as := by
    intro tail
    obtain ⟨rest₁', rest₂', annotated', name', angle'⟩ := again ('<' :: (front ++ tail)) (.inl rfl)
    rw [skipBlanks_of_front (by decide)] at angle'
    rw [List.append_assoc]
    exact typeReader_angle annotated' name' angle'
  refine ⟨front' ++ ['<'] ++ front, by simp [split], stops.within _ _
    (fun tail _ => runs tail) (fun ts => ?_) fun starts => starts.behind _⟩
  exact ⟨[], (named [] n ts).annotate as, fun tail _ => ⟨trivial, rfl⟩⟩

theorem halts_typeReader (cs : List Char) : HaltsOn typeReader Anything TokenStart cs := by
  induction cs using forall_of_shorter
  rename_i cs ih
  intro stop fails
  rw [typeReader_eq] at fails
  obtain noAnnotations | ⟨⟨as, rest₁⟩, annotated, next⟩ := bind_eq_error.mp fails
  · obtain ⟨front, _, split, stops⟩ := halts_annotationsReader cs noAnnotations
    refine ⟨front, split, stops.within [] _ (fun _ _ => typeReader_eq _) (fun as => ?_) id⟩
    refine ⟨['?'], (wildcard []).annotate as, fun tail _ => ⟨(apart_cons (by decide) tail).2, ?_⟩⟩
    have question : Text.skipBlanks (['?'] ++ tail) = '?' :: tail :=
      skipBlanks_of_front (by decide) tail
    simp only [question]
  · simp only at next
    split at next
    · cases next
    · rename_i noQuestion
      rw [readName_skipBlanks] at next
      obtain noName | ⟨⟨n, rest₂⟩, name, next⟩ := bind_eq_error.mp next
      · exact stopsAt_typeReader annotated noQuestion noName
      · simp only at next
        split at next
        · rename_i rest₃ angle
          obtain noParams | ⟨_, _, done⟩ := bind_eq_error.mp next
          · have short : rest₃.length < cs.length := by
              obtain ⟨front, split, _⟩ := exists_front_of_name annotated name
              simp [split, angle]
              omega
            obtain ⟨front, rfl, stops⟩ :=
              halts_paramsReader (fun ds few => ih ds (by omega)) noParams
            exact stops.behindAngle annotated name angle
          · cases done
        · cases next

end Overload.TypeExpr
