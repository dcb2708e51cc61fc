import Mathlib.Data.List.TakeWhile
import Overload.Name
import Overload.Text.Blank

/-!
White space in front of a text and behind it. No name begins with white space.
-/
namespace Overload

def Blanks (cs : List Char) : Prop := ∀ c ∈ cs, Text.isBlank c = true

theorem Blanks.nil : Blanks [] := fun _ h => absurd h List.not_mem_nil

theorem Blanks.append {cs ds : List Char} (first : Blanks cs) (second : Blanks ds) :
    Blanks (cs ++ ds) := fun c hc => (List.mem_append.mp hc).elim (first c) (second c)

theorem skipBlanks_append {blanks : List Char} (h : Blanks blanks) (rest : List Char) :
    Text.skipBlanks (blanks ++ rest) = Text.skipBlanks rest :=
  List.dropWhile_append_of_pos h

theorem Blanks.skipBlanks_eq_nil {cs : List Char} (h : Blanks cs) : Text.skipBlanks cs = [] := by
  rw [← List.append_nil cs, skipBlanks_append h]
  rfl

theorem skipBlanks_of_front {c : Char} (front : Text.isBlank c = false) (rest : List Char) :
    Text.skipBlanks (c :: rest) = c :: rest := by
  rw [Text.skipBlanks, List.dropWhile_cons_of_neg (by simp [front])]

theorem exists_blanks (cs : List Char) :
    ∃ blanks, Blanks blanks ∧ cs = blanks ++ Text.skipBlanks cs :=
  ⟨cs.takeWhile Text.isBlank, fun _ hc => List.mem_takeWhile_imp hc,
    List.takeWhile_append_dropWhile.symm⟩

theorem exists_blanks_at_end (cs : List Char) :
    ∃ blanks, Blanks blanks ∧ cs = Text.trimEnd cs ++ blanks := by
  refine ⟨(cs.reverse.takeWhile Text.isBlank).reverse, fun c hc => ?_, ?_⟩
  · exact List.mem_takeWhile_imp (List.mem_reverse.mp hc)
  · rw [Text.trimEnd, ← List.reverse_append, List.takeWhile_append_dropWhile, List.reverse_reverse]

theorem trimEnd_append {blanks : List Char} (h : Blanks blanks) {c : Char}
    (last : Text.isBlank c = false) (start : List Char) :
    Text.trimEnd (start ++ [c] ++ blanks) = start ++ [c] := by
  have reversed : ∀ d ∈ blanks.reverse, Text.isBlank d = true :=
    fun d hd => h d (List.mem_reverse.mp hd)
  rw [Text.trimEnd, List.reverse_append, List.dropWhile_append_of_pos reversed, List.reverse_append,
    List.reverse_singleton, List.singleton_append, List.dropWhile_cons_of_neg (by simp [last]),
    List.reverse_cons, List.reverse_reverse]

theorem skipBlanks_skipBlanks (cs : List Char) :
    Text.skipBlanks (Text.skipBlanks cs) = Text.skipBlanks cs := by
  obtain ⟨blanks, blank, split⟩ := exists_blanks cs
  rw [← skipBlanks_append blank (Text.skipBlanks cs), ← split]

/-- How many characters of the text show. -/
def shownLength (cs : List Char) : Nat := cs.countP fun c => !Text.isBlank c

theorem shownLength_skipBlanks (cs : List Char) :
    shownLength (Text.skipBlanks cs) = shownLength cs := by
  obtain ⟨blanks, blank, split⟩ := exists_blanks cs
  have nothing : shownLength blanks = 0 :=
    List.countP_eq_zero.mpr fun c hc => by simp [blank c hc]
  have parts : shownLength cs = shownLength blanks + shownLength (Text.skipBlanks cs) := by
    rw [shownLength, shownLength, shownLength, ← List.countP_append, ← split]
  rw [parts, nothing, Nat.zero_add]

theorem shownLength_le (cs : List Char) : shownLength cs ≤ cs.length := List.countP_le_length

theorem exists_of_inRanges {n : Nat} {ranges : List (Nat × Nat)}
    (h : Text.inRanges n ranges = true) : ∃ r ∈ ranges, r.1 ≤ n ∧ n ≤ r.2 := by
  induction ranges with
  | nil => simp [Text.inRanges] at h
  | cons r ranges ih =>
      simp only [Text.inRanges, Bool.and_eq_true, Bool.or_eq_true, decide_eq_true_eq] at h
      obtain ⟨low, high | later⟩ := h
      · exact ⟨r, List.mem_cons_self, low, high⟩
      · obtain ⟨s, hs, within⟩ := ih later
        exact ⟨s, List.mem_cons_of_mem r hs, within⟩

def blankCodes : List Nat :=
  [0x09, 0x0A, 0x0B, 0x0C, 0x0D, 0x20, 0x85, 0xA0, 0x1680, 0x2000, 0x2001, 0x2002, 0x2003, 0x2004,
   0x2005, 0x2006, 0x2007, 0x2008, 0x2009, 0x200A, 0x2028, 0x2029, 0x202F, 0x205F, 0x3000]

theorem mem_blankCodes {c : Char} (blank : Text.isBlank c = true) : c.toNat ∈ blankCodes := by
  obtain ⟨r, hr, low, high⟩ := exists_of_inRanges blank
  simp only [Text.blankRanges, List.mem_cons, List.not_mem_nil, or_false] at hr
  simp only [blankCodes, List.mem_cons, List.not_mem_nil, or_false]
  obtain rfl | rfl | rfl | rfl | rfl | rfl | rfl | rfl | rfl | rfl := hr <;>
    simp only at low high <;> omega

theorem startsName_of_isBlank {c : Char} (blank : Text.isBlank c = true) :
    startsName c = false := by
  have each : ∀ n ∈ blankCodes, startsName (Char.ofNat n) = false := by decide +kernel
  have back : Char.ofNat c.toNat = c := Char.ofNat_toNat c
  rw [← back]
  exact each c.toNat (mem_blankCodes blank)

theorem isBlank_of_startsName {c : Char} (starts : startsName c = true) :
    Text.isBlank c = false := by
  cases blank : Text.isBlank c with
  | false => rfl
  | true => exact absurd (startsName_of_isBlank blank) (by simp [starts])

end Overload
