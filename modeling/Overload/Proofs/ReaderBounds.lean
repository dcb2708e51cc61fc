import Mathlib.Data.List.Infix
import Overload.Proofs.TypeReading

/-!
The bounds of the readers. What a reader leaves is the end of the text that it was given, and no
list has more items than its text has characters, nor a type more levels. So a bound above the
length of the text is never reached: the readers have forms without a bound, which recurse as the
grammar does.
-/
namespace Overload

theorem bind_congr_of_ok {ε α β : Type} {x : Except ε α} {f g : α → Except ε β}
    (same : ∀ a, x = .ok a → f a = g a) : (x >>= f) = x >>= g := by
  cases x with
  | error e => rfl
  | ok a => exact same a rfl

theorem ok_bind {ε α β : Type} (a : α) (f : α → Except ε β) : (Except.ok a >>= f) = f a := rfl

theorem skipBlanks_suffix (cs : List Char) : Text.skipBlanks cs <:+ cs := List.dropWhile_suffix _

namespace TypeExpr

variable {cs rest : List Char}

theorem suffix_of_skipBlanks {c : Char} (front : Text.skipBlanks cs = c :: rest) : rest <:+ cs :=
  (List.suffix_cons c rest).trans (front ▸ skipBlanks_suffix cs)

/-- What the reader leaves is the end of the text. -/
def LeavesEnd {α : Type} (read : Reader α) : Prop :=
  ∀ ⦃cs : List Char⦄ ⦃x : α⦄ ⦃rest : List Char⦄, read cs = .ok (x, rest) → rest <:+ cs

theorem leavesEnd_readName : LeavesEnd readName := by
  intro cs n rest ok
  unfold readName at ok
  split at ok
  · cases ok
  · rename_i c more front
    split at ok
    · cases ok
      exact (List.dropWhile_suffix _).trans (suffix_of_skipBlanks front)
    · cases ok

theorem leavesEnd_readKey : LeavesEnd readKey := by
  intro cs key rest ok
  unfold readKey at ok
  split at ok
  · rename_i more front
    obtain ⟨text, k, _, _, rfl⟩ := string_of_readQuotedKey ok
    exact (List.suffix_append text rest).trans (suffix_of_skipBlanks front)
  · exact (leavesEnd_readName ok).trans (skipBlanks_suffix cs)

theorem leavesEnd_readAnnotationValue : LeavesEnd readAnnotationValue := by
  intro cs v rest ok
  obtain ⟨before, text, after, _, _, _, rfl⟩ := value_of_readAnnotationValue ok
  simp only [← List.append_assoc]
  exact List.suffix_append _ rest

theorem leavesEnd_readEntry : LeavesEnd readEntry := by
  intro cs entry rest ok
  obtain ⟨⟨key, rest₁⟩, read, ok⟩ := bind_eq_ok.mp ok
  simp only at ok
  split at ok
  · rename_i rest₂ equals
    obtain ⟨⟨v, rest₃⟩, value, same⟩ := bind_eq_ok.mp ok
    cases same
    exact (leavesEnd_readAnnotationValue value).trans
      ((suffix_of_skipBlanks equals).trans (leavesEnd_readKey read))
  · cases ok

theorem leavesEnd_readEntries (bound : Nat) : LeavesEnd (readEntries bound) := by
  induction bound with
  | zero => exact fun cs es rest ok => nomatch ok
  | succ bound ih =>
      intro cs es rest ok
      obtain ⟨⟨entry, rest₁⟩, read, ok⟩ := bind_eq_ok.mp ok
      have shorter := leavesEnd_readEntry read
      simp only at ok
      split at ok
      · obtain ⟨⟨others, rest₃⟩, more, same⟩ := bind_eq_ok.mp ok
        cases same
        exact (ih more).trans ((List.suffix_cons _ _).trans shorter)
      · cases ok
        exact (List.suffix_cons _ _).trans shorter
      · cases ok

theorem leavesEnd_readAnnotationBody : LeavesEnd readAnnotationBody := by
  intro cs a rest ok
  obtain ⟨⟨n, rest₁⟩, read, ok⟩ := bind_eq_ok.mp ok
  have shorter := leavesEnd_readName read
  simp only at ok
  split at ok
  · rename_i rest₂ opens
    have inner := (suffix_of_skipBlanks opens).trans shorter
    split at ok
    · rename_i rest₃ closes
      cases ok
      exact (suffix_of_skipBlanks closes).trans inner
    · obtain ⟨⟨entries, rest₃⟩, list, same⟩ := bind_eq_ok.mp ok
      cases same
      exact (leavesEnd_readEntries _ list).trans ((skipBlanks_suffix rest₂).trans inner)
  · cases ok
    exact (skipBlanks_suffix rest₁).trans shorter

theorem leavesEnd_readAnnotations (bound : Nat) : LeavesEnd (readAnnotations bound) := by
  induction bound with
  | zero =>
      intro cs as rest ok
      cases ok
      exact List.suffix_rfl
  | succ bound ih =>
      intro cs as rest ok
      unfold readAnnotations at ok
      split at ok
      · rename_i rest₁ sign
        obtain ⟨⟨a, rest₂⟩, read, ok⟩ := bind_eq_ok.mp ok
        obtain ⟨⟨others, rest₃⟩, more, same⟩ := bind_eq_ok.mp ok
        cases same
        have after := (leavesEnd_readAnnotationBody read).trans (suffix_of_skipBlanks sign)
        exact (ih more).trans after
      · cases ok
        exact skipBlanks_suffix cs

theorem leavesEnd_readParams {param : Reader TypeExpr} (leaves : LeavesEnd param) (bound : Nat) :
    LeavesEnd (readParams param bound) := by
  induction bound with
  | zero => exact fun cs ts rest ok => nomatch ok
  | succ bound ih =>
      intro cs ts rest ok
      obtain ⟨⟨t, rest₁⟩, read, ok⟩ := bind_eq_ok.mp ok
      have shorter := leaves read
      simp only at ok
      split at ok
      · rename_i comma
        obtain ⟨⟨others, rest₃⟩, more, same⟩ := bind_eq_ok.mp ok
        cases same
        exact (ih more).trans ((suffix_of_skipBlanks comma).trans shorter)
      · rename_i closes
        cases ok
        exact (suffix_of_skipBlanks closes).trans shorter
      · cases ok
      · cases ok

theorem leavesEnd_readType (depth : Nat) : LeavesEnd (readType depth) := by
  induction depth with
  | zero => exact fun cs t rest ok => nomatch ok
  | succ depth ih =>
      intro cs t rest ok
      obtain ⟨⟨as, rest₁⟩, annotated, ok⟩ := bind_eq_ok.mp ok
      have shorter := leavesEnd_readAnnotations _ annotated
      simp only at ok
      split at ok
      · rename_i rest₂ question
        cases ok
        exact (suffix_of_skipBlanks question).trans shorter
      · obtain ⟨⟨n, rest₂⟩, read, ok⟩ := bind_eq_ok.mp ok
        have named := (leavesEnd_readName read).trans ((skipBlanks_suffix rest₁).trans shorter)
        simp only at ok
        split at ok
        · rename_i rest₃ angle
          obtain ⟨⟨params, rest₄⟩, list, same⟩ := bind_eq_ok.mp ok
          cases same
          exact (leavesEnd_readParams ih _ list).trans ((suffix_of_skipBlanks angle).trans named)
        · cases ok
          exact (skipBlanks_suffix rest₂).trans named

theorem length_lt_of_mark {c : Char} (front : Text.skipBlanks cs = c :: rest) :
    rest.length < cs.length := by
  have shorter := (skipBlanks_suffix cs).length_le
  rw [front] at shorter
  exact shorter

/-- An entry, and then the others by a reader of them. -/
def entriesStep (others : Reader (List (String × Json))) : Reader (List (String × Json)) :=
  fun cs => do
    let (entry, rest) ← readEntry cs
    match rest with
    | ',' :: rest => do
        let (entries, rest) ← others rest
        .ok (entry :: entries, rest)
    | ')' :: rest => .ok ([entry], rest)
    | rest => .error ⟨rest, .unterminatedValues⟩

/-- The other entries stand in a shorter text. -/
theorem entriesStep_congr {others others' : Reader (List (String × Json))}
    (same : ∀ ds : List Char, ds.length < cs.length → others ds = others' ds) :
    entriesStep others cs = entriesStep others' cs := by
  refine bind_congr_of_ok fun x read => ?_
  obtain ⟨entry, rest⟩ := x
  have shorter := (leavesEnd_readEntry read).length_le
  simp only
  split
  · rw [same _ shorter]
  · rfl
  · rfl

theorem readEntries_congr {bound bound' : Nat} (room : cs.length < bound)
    (room' : cs.length < bound') : readEntries bound cs = readEntries bound' cs := by
  induction bound generalizing bound' cs with
  | zero => exact absurd room (Nat.not_lt_zero _)
  | succ bound ih =>
      obtain _ | bound' := bound'
      · exact absurd room' (Nat.not_lt_zero _)
      · exact entriesStep_congr fun ds few => ih (by omega) (by omega)

def annotationsStep (others : Reader (List Annotation)) : Reader (List Annotation) := fun cs =>
  match Text.skipBlanks cs with
  | '@' :: rest => do
      let (a, rest) ← readAnnotationBody rest
      let (as, rest) ← others rest
      .ok (a :: as, rest)
  | rest => .ok ([], rest)

theorem annotationsStep_congr {others others' : Reader (List Annotation)}
    (same : ∀ ds : List Char, ds.length < cs.length → others ds = others' ds) :
    annotationsStep others cs = annotationsStep others' cs := by
  unfold annotationsStep
  split
  · rename_i rest sign
    have short := length_lt_of_mark sign
    refine bind_congr_of_ok fun x read => ?_
    obtain ⟨a, rest₂⟩ := x
    have shorter := (leavesEnd_readAnnotationBody read).length_le
    simp only [same rest₂ (by omega)]
  · rfl

theorem readAnnotations_congr {bound bound' : Nat} (room : cs.length < bound)
    (room' : cs.length < bound') : readAnnotations bound cs = readAnnotations bound' cs := by
  induction bound generalizing bound' cs with
  | zero => exact absurd room (Nat.not_lt_zero _)
  | succ bound ih =>
      obtain _ | bound' := bound'
      · exact absurd room' (Nat.not_lt_zero _)
      · exact annotationsStep_congr fun ds few => ih (by omega) (by omega)

def paramsStep (param : Reader TypeExpr) (others : Reader (List TypeExpr)) :
    Reader (List TypeExpr) := fun cs => do
  let (t, rest) ← param cs
  match Text.skipBlanks rest with
  | ',' :: rest => do
      let (ts, rest) ← others rest
      .ok (t :: ts, rest)
  | '>' :: rest => .ok ([t], rest)
  | [] => .error ⟨[], .unterminatedParams⟩
  | c :: rest => .error ⟨c :: rest, .expectedCommaOrAngle c⟩

theorem paramsStep_congr {param param' : Reader TypeExpr} (leaves : LeavesEnd param)
    (first : param cs = param' cs) {others others' : Reader (List TypeExpr)}
    (same : ∀ ds : List Char, ds.length < cs.length → others ds = others' ds) :
    paramsStep param others cs = paramsStep param' others' cs := by
  rw [paramsStep, paramsStep, ← first]
  refine bind_congr_of_ok fun x read => ?_
  obtain ⟨t, rest⟩ := x
  have shorter := (leaves read).length_le
  simp only
  split
  · rename_i rest₂ comma
    have short := length_lt_of_mark comma
    rw [same rest₂ (by omega)]
  · rfl
  · rfl
  · rfl

/-- Two readers of parameters need to agree on texts that are not longer. -/
theorem readParams_congr {param param' : Reader TypeExpr} (leaves : LeavesEnd param)
    {bound bound' : Nat} (same : ∀ ds : List Char, ds.length ≤ cs.length → param ds = param' ds)
    (room : cs.length < bound) (room' : cs.length < bound') :
    readParams param bound cs = readParams param' bound' cs := by
  induction bound generalizing bound' cs with
  | zero => exact absurd room (Nat.not_lt_zero _)
  | succ bound ih =>
      obtain _ | bound' := bound'
      · exact absurd room' (Nat.not_lt_zero _)
      · refine paramsStep_congr leaves (same cs le_rfl) fun ds few => ?_
        exact ih (fun es fewer => same es (by omega)) (by omega) (by omega)

def annotationsReader : Reader (List Annotation) := fun cs => readAnnotations (cs.length + 1) cs

/-- Annotations and what they belong to, with a reader of parameters. -/
def typeStep (params : Reader (List TypeExpr)) : Reader TypeExpr := fun cs => do
  let (as, rest) ← annotationsReader cs
  match Text.skipBlanks rest with
  | '?' :: rest => .ok ((wildcard []).annotate as, rest)
  | rest => do
      let (name, rest) ← readName rest
      match Text.skipBlanks rest with
      | '<' :: rest => do
          let (ts, rest) ← params rest
          .ok ((named [] name ts).annotate as, rest)
      | rest => .ok ((named [] name []).annotate as, rest)

theorem typeStep_congr {params params' : Reader (List TypeExpr)}
    (same : ∀ ds : List Char, ds.length < cs.length → params ds = params' ds) :
    typeStep params cs = typeStep params' cs := by
  refine bind_congr_of_ok fun x annotated => ?_
  obtain ⟨as, rest⟩ := x
  have shorter := (leavesEnd_readAnnotations _ annotated).length_le
  have shown := (skipBlanks_suffix rest).length_le
  simp only
  split
  · rfl
  · refine bind_congr_of_ok fun x read => ?_
    obtain ⟨n, rest₂⟩ := x
    have named := (leavesEnd_readName read).length_le
    simp only
    split
    · rename_i rest₃ angle
      have short := length_lt_of_mark angle
      rw [same rest₃ (by omega)]
    · rfl

theorem readType_congr {depth depth' : Nat} (room : cs.length < depth)
    (room' : cs.length < depth') : readType depth cs = readType depth' cs := by
  induction depth generalizing depth' cs with
  | zero => exact absurd room (Nat.not_lt_zero _)
  | succ depth ih =>
      obtain _ | depth' := depth'
      · exact absurd room' (Nat.not_lt_zero _)
      · refine typeStep_congr fun ds few => ?_
        exact readParams_congr (leavesEnd_readType depth)
          (fun es fewer => ih (by omega) (by omega)) (Nat.lt_succ_self _) (Nat.lt_succ_self _)

def entriesReader : Reader (List (String × Json)) := fun cs => readEntries (cs.length + 1) cs

def typeReader : Reader TypeExpr := fun cs => readType (cs.length + 1) cs

def paramsReader : Reader (List TypeExpr) := fun cs => readParams typeReader (cs.length + 1) cs

theorem entriesReader_eq (cs : List Char) : entriesReader cs = entriesStep entriesReader cs :=
  entriesStep_congr fun _ few => readEntries_congr few (Nat.lt_succ_self _)

theorem annotationsReader_eq (cs : List Char) :
    annotationsReader cs = annotationsStep annotationsReader cs :=
  annotationsStep_congr fun _ few => readAnnotations_congr few (Nat.lt_succ_self _)

theorem leavesEnd_typeReader : LeavesEnd typeReader := fun _ _ _ ok => leavesEnd_readType _ ok

theorem paramsReader_eq (cs : List Char) :
    paramsReader cs = paramsStep typeReader paramsReader cs :=
  paramsStep_congr leavesEnd_typeReader rfl fun _ few =>
    readParams_congr leavesEnd_typeReader (fun _ _ => rfl) few (Nat.lt_succ_self _)

theorem typeReader_eq (cs : List Char) : typeReader cs = typeStep paramsReader cs :=
  typeStep_congr fun _ few => readParams_congr (leavesEnd_readType _)
    (fun _ fewer => readType_congr (Nat.lt_of_le_of_lt fewer few) (Nat.lt_succ_self _))
    (Nat.lt_succ_self _) (Nat.lt_succ_self _)

theorem entriesReader_skipBlanks (cs : List Char) :
    entriesReader (Text.skipBlanks cs) = entriesReader cs := by
  have shorter := (skipBlanks_suffix cs).length_le
  have same : entriesReader (Text.skipBlanks cs) =
      readEntries (cs.length + 1) (Text.skipBlanks cs) :=
    readEntries_congr (Nat.lt_succ_self _) (by omega)
  rw [same, readEntries_skipBlanks, entriesReader]

theorem readName_skipBlanks (cs : List Char) : readName (Text.skipBlanks cs) = readName cs := by
  rw [readName, readName, skipBlanks_skipBlanks]

end TypeExpr

end Overload
