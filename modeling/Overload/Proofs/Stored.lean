import Overload.Proofs.Canonical
import Overload.Proofs.JsonReading
import Overload.Proofs.Rounding

/-!
Values as they are kept in memory: what is read from a text is such a value once its objects are
sorted, and it is nested no deeper than the text.
-/
namespace Overload.Json

/-- Integers have 64 bits, and reals are numbers of their format. -/
inductive Representable : Json → Prop
  | null : Representable .null
  | bool (b : Bool) : Representable (.bool b)
  | integer {n : Int} (low : -2 ^ 63 ≤ n) (high : n < 2 ^ 64) : Representable (.integer n)
  | real {x : Binary64} (wellFormed : x.WellFormed) : Representable (.real x)
  | string (s : String) : Representable (.string s)
  | array {items : List Json} (each : ∀ v ∈ items, Representable v) : Representable (.array items)
  | object {members : List (String × Json)} (each : ∀ m ∈ members, Representable m.2) :
      Representable (.object members)

/-- Integers have 64 bits, reals are numbers of their format, and the members of an object stand in
ascending order of their keys. -/
inductive Stored : Json → Prop
  | null : Stored .null
  | bool (b : Bool) : Stored (.bool b)
  | integer {n : Int} (low : -2 ^ 63 ≤ n) (high : n < 2 ^ 64) : Stored (.integer n)
  | real {x : Binary64} (wellFormed : x.WellFormed) : Stored (.real x)
  | string (s : String) : Stored (.string s)
  | array {items : List Json} (each : ∀ v ∈ items, Stored v) : Stored (.array items)
  | object {members : List (String × Json)} (sorted : Ascending Prod.fst members)
      (each : ∀ m ∈ members, Stored m.2) : Stored (.object members)

theorem Stored.canonical_eq {v : Json} (stored : Stored v) : v.canonical = v := by
  induction stored with
  | null | bool | integer | real | string => rfl
  | array _ ih => rw [canonical, canonicalItems_eq_map, List.map_congr_left ih, List.map_id']
  | object sorted _ ih => rw [canonical, canonicalMembers_of_ascending sorted ih]

theorem Table.ofMembers_entries {t : Table} (stored : ∀ entry ∈ t.entries, entry.2.Stored) :
    ofMembers t.entries = t :=
  Table.ext (canonicalMembers_of_ascending t.ascending fun entry h => (stored entry h).canonical_eq)

theorem Representable.canonical {v : Json} (representable : Representable v) :
    Stored v.canonical := by
  induction representable with
  | null => exact .null
  | bool b => exact .bool b
  | integer low high => exact .integer low high
  | real wellFormed => exact .real wellFormed
  | string s => exact .string s
  | array _ ih =>
      refine .array fun v hv => ?_
      rw [canonicalItems_eq_map] at hv
      obtain ⟨w, hw, rfl⟩ := List.mem_map.mp hv
      exact ih w hw
  | object _ ih =>
      refine .object (ascending_canonicalMembers _) fun m hm => ?_
      obtain ⟨n, hn, rfl⟩ := exists_of_mem_canonicalMembers hm
      exact ih n hn

theorem depthItems_le {items : List Json} {d : Nat} :
    depthItems items ≤ d ↔ ∀ v ∈ items, v.depth ≤ d := by
  induction items with
  | nil => simp [depthItems]
  | cons v items ih => simp [depthItems, ih]

theorem depthMembers_le {members : List (String × Json)} {d : Nat} :
    depthMembers members ≤ d ↔ ∀ m ∈ members, m.2.depth ≤ d := by
  induction members with
  | nil => simp [depthMembers]
  | cons m members ih => simp [depthMembers, ih]

theorem depth_canonical_le {v : Json} {d : Nat} (nested : v.depth ≤ d) : v.canonical.depth ≤ d := by
  induction v using induct generalizing d with
  | null | bool | integer | real | string => exact nested
  | array items ih =>
      obtain _ | d := d
      · simp [depth] at nested
      · have inner := depthItems_le.mp (Nat.le_of_succ_le_succ nested)
        refine Nat.succ_le_succ (depthItems_le.mpr fun v hv => ?_)
        rw [canonicalItems_eq_map] at hv
        obtain ⟨w, hw, rfl⟩ := List.mem_map.mp hv
        exact ih w hw (inner w hw)
  | object members ih =>
      obtain _ | d := d
      · simp [depth] at nested
      · have inner := depthMembers_le.mp (Nat.le_of_succ_le_succ nested)
        refine Nat.succ_le_succ (depthMembers_le.mpr fun m hm => ?_)
        obtain ⟨n, hn, rfl⟩ := exists_of_mem_canonicalMembers hm
        exact ih n hn (inner n hn)

theorem signed_bounds {negative : Bool} {n : Nat} (stays : staysInteger negative n = true) :
    -2 ^ 63 ≤ signed negative n ∧ signed negative n < 2 ^ 64 := by
  cases negative with
  | false =>
      have bound : n < 2 ^ 64 := of_decide_eq_true stays
      have value : signed false n = n := rfl
      omega
  | true =>
      have bound : 0 < n ∧ n ≤ 2 ^ 63 := by simpa [staysInteger] using stays
      have value : signed true n = -n := rfl
      omega

theorem representable_of_number {negative : Bool} {whole : List Char}
    {fraction : Option (List Char)} {exponent : Option Int} {v : Json}
    (ok : number negative whole fraction exponent = .ok v) : Representable v ∧ v.depth = 0 := by
  unfold number at ok
  simp only at ok
  split at ok
  · rename_i integral
    cases ok
    obtain ⟨low, high⟩ := signed_bounds (Bool.and_eq_true_iff.mp integral).2
    exact ⟨.integer low high, rfl⟩
  · split at ok
    · rename_i found
      cases ok
      exact ⟨.real (Binary64.wellFormed_of_nearest? found), rfl⟩
    · simp at ok

theorem ScalarText.representable {text : List Char} {v : Json} (written : ScalarText text v) :
    Representable v ∧ v.depth = 0 := by
  cases written with
  | null => exact ⟨.null, rfl⟩
  | true => exact ⟨.bool _, rfl⟩
  | false => exact ⟨.bool _, rfl⟩
  | positive written =>
      obtain @⟨_, _, _, _, _, _, _, _, value⟩ := written
      exact representable_of_number value
  | negative written =>
      obtain @⟨_, _, _, _, _, _, _, _, value⟩ := written
      exact representable_of_number value
  | string => exact ⟨.string _, rfl⟩

theorem SeriesText.exists_entry {α : Type} {close : Char} {entry : List Char → α → Prop}
    {first : Bool} {text : List Char} {xs : List α}
    (written : SeriesText close entry first text xs) :
    ∀ x ∈ xs, ∃ text, entry text x := by
  induction written with
  | nil => simp
  | cons _ head _ ih => exact List.forall_mem_cons.mpr ⟨⟨_, head⟩, ih⟩

theorem ValueText.representable {depth : Nat} {text : List Char} {v : Json}
    (written : ValueText depth text v) : Representable v ∧ v.depth ≤ depth := by
  induction depth generalizing text v with
  | zero =>
      obtain ⟨scalar, flat⟩ := ScalarText.representable written
      exact ⟨scalar, flat.le⟩
  | succ depth ih =>
      cases written with
      | scalar written =>
          obtain ⟨scalar, flat⟩ := written.representable
          exact ⟨scalar, by omega⟩
      | array series =>
          have each := series.exists_entry
          refine ⟨.array fun v hv => ?_, Nat.succ_le_succ (depthItems_le.mpr fun v hv => ?_)⟩
          · obtain ⟨_, inner⟩ := each v hv
            exact (ih inner).1
          · obtain ⟨_, inner⟩ := each v hv
            exact (ih inner).2
      | object series =>
          have each := series.exists_entry
          refine ⟨.object fun m hm => ?_, Nat.succ_le_succ (depthMembers_le.mpr fun m hm => ?_)⟩
          · obtain ⟨_, ⟨_, _, _, inner⟩⟩ := each m hm
            exact (ih inner).1
          · obtain ⟨_, ⟨_, _, _, inner⟩⟩ := each m hm
            exact (ih inner).2

theorem representable_of_readValue {depth : Nat} {cs rest : List Char} {v : Json}
    (ok : readValue depth cs = .ok (v, rest)) : Representable v := by
  obtain ⟨_, _, _, written, _⟩ := finds_value depth ok
  exact written.representable.1

/-- What is read is kept as a value of at most the nesting that is allowed. -/
theorem stored_of_readChars {cs : List Char} {v : Json} (ok : readChars cs = .ok v) :
    Stored v.canonical ∧ v.canonical.depth ≤ maxDepth := by
  obtain ⟨_, _, _, _, written, _, _⟩ := readChars_eq_ok.mp ok
  obtain ⟨representable, nested⟩ := ValueText.representable written
  exact ⟨representable.canonical, depth_canonical_le nested⟩

end Overload.Json
