import Overload.Proofs.ReaderStops

/-!
The positions of syntax errors. The text up to the position of an error is the beginning of a type,
and with the next character it is not any more, except where the error is about a quoted key or a
value: then the position is its start.
-/
namespace Overload.TypeExpr

theorem utf8Length_eq (cs : List Char) : Text.utf8Length cs = (String.ofList cs).utf8ByteSize := by
  induction cs with
  | nil => rfl
  | cons c cs ih =>
      rw [Text.utf8Length, ih, String.ofList_cons, String.utf8ByteSize_append,
        String.utf8ByteSize_singleton]

theorem utf8Length_append (cs ds : List Char) :
    Text.utf8Length (cs ++ ds) = Text.utf8Length cs + Text.utf8Length ds := by
  rw [utf8Length_eq, utf8Length_eq, utf8Length_eq, String.ofList_append, String.utf8ByteSize_append]

theorem readText_ok {cs rest : List Char} {t : TypeExpr} (ok : typeReader cs = .ok (t, rest))
    (nothing : Text.skipBlanks rest = []) : readText cs = .ok t := by
  refine bind_eq_ok.mpr ⟨(t, rest), ok, ?_⟩
  simp only [nothing]

/-- What a stop in a text means. -/
structure StopsText (front : List Char) (stop : Stop) : Prop where
  completes : ∃ more t, readText (front ++ more) = .ok t
  token : stop.fault.ofToken = true → TokenStart stop.fault front stop.rest
  refuses : stop.fault.ofToken = false → ∀ c post, stop.rest = c :: post →
    ∀ post' t, readText (front ++ c :: post') ≠ .ok t

theorem exists_of_readText_error {cs : List Char} {stop : Stop}
    (fails : readText cs = .error stop) :
    ∃ front, cs = front ++ stop.rest ∧ StopsText front stop := by
  obtain noType | ⟨⟨t, rest⟩, read, next⟩ := bind_eq_error.mp fails
  · obtain ⟨front, split, stops⟩ := halts_typeReader cs noType
    obtain ⟨more, t, accepts⟩ := stops.completes
    refine ⟨front, split, ⟨more, t, ?_⟩, stops.token, fun single c post place post' t' ok => ?_⟩
    · have read := accepts [] trivial
      rw [List.append_nil] at read
      exact readText_ok read rfl
    · obtain ⟨stop', fails'⟩ := stops.refuses single c post place post'
      obtain ⟨_, read, _⟩ := bind_eq_ok.mp ok
      cases fails'.symm.trans read
  · obtain ⟨front, split, again⟩ := (resumes_typeReader cs).skipping read
    simp only at next
    split at next
    · cases next
    · rename_i c post place
      cases next
      rw [place] at split again
      refine ⟨front, split, ⟨[], t, ?_⟩, nofun, fun _ d post' same post'' t' ok => ?_⟩
      · obtain ⟨rest', read', skipped⟩ := again [] (.inr ⟨nofun, nofun⟩)
        exact readText_ok read' skipped
      · cases same
        obtain ⟨rest', read', skipped⟩ := again (c :: post'') (.inl rfl)
        rw [skipBlanks_of_front (isBlank_of_skipBlanks place)] at skipped
        obtain ⟨_, again', done⟩ := bind_eq_ok.mp ok
        cases read'.symm.trans again'
        simp only [skipped] at done
        cases done

theorem parse_eq_error {text : String} {e : SyntaxError} (fails : parse text = .error e) :
    ∃ stop, readText text.toList = .error stop ∧ e.fault = stop.fault ∧
      e.position = Text.utf8Length text.toList - Text.utf8Length stop.rest := by
  rw [parse] at fails
  cases read : readText text.toList with
  | ok t =>
      rw [read] at fails
      cases fails
  | error stop =>
      rw [read] at fails
      cases fails
      exact ⟨stop, rfl, rfl, rfl⟩

theorem parse_eq_ok {text : String} {t : TypeExpr} :
    parse text = .ok t ↔ readText text.toList = .ok t := mapError_eq_ok

/-- The two parts of a text before and behind the position of its error. -/
structure ErrorPlace (text : String) (e : SyntaxError) (front back : String) : Prop where
  split : text = front ++ back
  position : e.position = front.utf8ByteSize
  le : e.position ≤ text.utf8ByteSize
  boundary : (String.Pos.Raw.mk e.position).IsValid text
  completes : ∃ more t, parse (front ++ more) = .ok t
  token : e.fault.ofToken = true → TokenStart e.fault front.toList back.toList
  refuses : e.fault.ofToken = false → back = "" ∨ ∃ c post, back = String.singleton c ++ post ∧
    ∀ more t, parse (front ++ String.singleton c ++ more) ≠ .ok t

/-- A text that is not a type falls into two parts at the position of its error. The first part can
be completed to a type. An error about a quoted key or a value lies at the start of that key or
value; any other error lies at the end of the text, or at a character that no type has behind the
first part. -/
theorem parse_errorPlace {text : String} {e : SyntaxError} (fails : parse text = .error e) :
    ∃ front back, ErrorPlace text e front back := by
  obtain ⟨stop, read, fault, position⟩ := parse_eq_error fails
  obtain ⟨front, split, stops⟩ := exists_of_readText_error read
  have whole : text = String.ofList front ++ String.ofList stop.rest := by
    rw [← String.ofList_append, ← split, String.ofList_toList]
  have place : e.position = (String.ofList front).utf8ByteSize := by
    rw [position, split, utf8Length_append, Nat.add_sub_cancel, utf8Length_eq]
  refine ⟨String.ofList front, String.ofList stop.rest, whole, place, ?_, ?_, ?_, ?_, ?_⟩
  · rw [place, whole, String.utf8ByteSize_append]
    exact Nat.le_add_right _ _
  · rw [String.Pos.Raw.isValid_iff_exists_append]
    exact ⟨_, _, whole, congrArg String.Pos.Raw.mk place⟩
  · obtain ⟨more, t, ok⟩ := stops.completes
    refine ⟨String.ofList more, t, parse_eq_ok.mpr ?_⟩
    rw [← String.ofList_append, String.toList_ofList, ok]
  · intro ofToken
    rw [fault, String.toList_ofList, String.toList_ofList]
    exact stops.token (fault ▸ ofToken)
  · intro single
    cases rest : stop.rest with
    | nil => exact .inl rfl
    | cons c post =>
        refine .inr ⟨c, String.ofList post, String.ofList_cons, fun more t ok => ?_⟩
        refine stops.refuses (fault ▸ single) c post rest more.toList t ?_
        rw [parse_eq_ok, String.toList_append, String.toList_append, String.toList_ofList,
          String.toList_singleton, List.append_assoc] at ok
        exact ok

/-- The comma is missing before `Int`, which stands behind two letters of two bytes. -/
def noComma : SyntaxError where
  input := "List<Größe Int>"
  position := 13
  fault := .expectedCommaOrAngle 'I'

/-- The value is no JSON. It starts behind the white space. -/
def noNumber : SyntaxError where
  input := "@Size(max = 3x) Int"
  position := 12
  fault := .invalidValue "3x" .trailingCharacters

theorem parse_errorPlace_sizes :
    parse noComma.input = .error noComma ∧ parse noNumber.input = .error noNumber ∧
      (∃ front back, ErrorPlace noComma.input noComma front back) ∧
      ∃ front back, ErrorPlace noNumber.input noNumber front back := by
  have comma : parse noComma.input = .error noComma := by rfl
  have number : parse noNumber.input = .error noNumber := by rfl
  exact ⟨comma, number, parse_errorPlace comma, parse_errorPlace number⟩

end Overload.TypeExpr
