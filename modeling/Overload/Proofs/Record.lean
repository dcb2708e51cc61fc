import Mathlib.Data.List.Nodup
import Mathlib.Data.List.Pairwise
import Mathlib.Data.List.Perm.Basic
import Overload.Proofs.Decoder
import Overload.Proofs.Grouping

/-!
Records as objects. Each member of an object is read as the field of its key. Where the fields
change different parts of a record, the order of the members does not matter, and so a record that
is written field by field reads back from the object with sorted members.
-/
namespace Overload

theorem Json.canonicalMembers_perm {members : List (String × Json)}
    (distinct : (members.map Prod.fst).Nodup) :
    (canonicalMembers members).Perm (members.map fun m => (m.1, m.2.canonical)) := by
  have perm := @foldl_insertSorted_perm _ Prod.fst (members.map fun m => (m.1, m.2.canonical)) []
    (by rwa [List.nil_append, List.map_map])
  rwa [List.foldl_map, ← canonicalMembers_eq_foldl] at perm

namespace Document

variable {α β γ : Type}

namespace Layout

/-- The member is read as a field, and this is how it changes the record. -/
def Reads (l : Layout α) (m : String × Json) (change : α → α) : Prop :=
  ∃ f ∈ l.fields, f.key = m.1 ∧ f.change.ofJson m.2 = .ok change

/-- The keys are new and different, and with those seen before no required field is missing. -/
structure Complete (l : Layout α) (seen keys : List String) : Prop where
  distinct : keys.Nodup
  new : ∀ key ∈ keys, key ∉ seen
  covered : ∀ f ∈ l.fields, f.required = true → f.key ∈ seen ∨ f.key ∈ keys

theorem complete_nil {l : Layout α} {seen : List String} :
    l.Complete seen [] ↔ ∀ f ∈ l.fields, f.required = true → f.key ∈ seen := by
  constructor
  · intro complete f hf required
    exact (complete.covered f hf required).resolve_right List.not_mem_nil
  · intro covered
    exact ⟨.nil, nofun, fun f hf required => .inl (covered f hf required)⟩

theorem complete_cons {l : Layout α} {seen keys : List String} {key : String} :
    l.Complete seen (key :: keys) ↔ key ∉ seen ∧ l.Complete (key :: seen) keys := by
  have either (k : String) : (k ∈ seen ∨ k ∈ key :: keys) ↔ (k ∈ key :: seen ∨ k ∈ keys) := by
    rw [List.mem_cons, List.mem_cons, or_left_comm, or_assoc]
  constructor
  · intro complete
    obtain ⟨other, distinct⟩ := List.nodup_cons.mp complete.distinct
    obtain ⟨first, new⟩ := List.forall_mem_cons.mp complete.new
    refine ⟨first, distinct, fun k hk => ?_, fun f hf required => ?_⟩
    · exact List.not_mem_cons_of_ne_of_not_mem (ne_of_mem_of_not_mem hk other) (new k hk)
    · exact (either f.key).mp (complete.covered f hf required)
  · intro parts
    obtain ⟨first, complete⟩ := parts
    refine ⟨List.nodup_cons.mpr ⟨fun again => ?_, complete.distinct⟩,
      List.forall_mem_cons.mpr ⟨first, fun k hk => ?_⟩, fun f hf required => ?_⟩
    · exact complete.new key again List.mem_cons_self
    · exact fun old => complete.new k hk (List.mem_cons_of_mem key old)
    · exact (either f.key).mpr (complete.covered f hf required)

theorem Complete.perm {l : Layout α} {seen keys keys' : List String}
    (complete : l.Complete seen keys) (perm : keys.Perm keys') : l.Complete seen keys' where
  distinct := perm.nodup_iff.mp complete.distinct
  new k hk := complete.new k (perm.mem_iff.mpr hk)
  covered f hf required := (complete.covered f hf required).imp_right perm.mem_iff.mp

theorem field_eq_ok {l : Layout α} (distinct : (l.fields.map Field.key).Nodup)
    {seen : List String} {key : String} {f : Field α} :
    l.field seen key = .ok f ↔ f ∈ l.fields ∧ f.key = key ∧ key ∉ seen := by
  have found : l.fields.find? (·.key == key) = some f ↔ f ∈ l.fields ∧ f.key = key :=
    findKey?_eq_some_iff distinct
  rw [← and_assoc, ← found, field]
  cases l.fields.find? (·.key == key) with
  | none => simp
  | some g => by_cases old : key ∈ seen <;> simp [old]

theorem ofSeen_eq_ok {l : Layout α} {seen : List String} {x y : α} :
    l.ofSeen seen x = .ok y ↔ l.Complete seen [] ∧ x = y := by
  rw [complete_nil, ofSeen]
  split
  · rename_i f found
    have missing := List.find?_some found
    constructor
    · intro none
      cases none
    · intro given
      have covered := given.1 f (List.mem_of_find?_eq_some found)
      simp [covered (Bool.and_eq_true_iff.mp missing).1] at missing
  · rename_i none
    rw [List.find?_eq_none] at none
    have covered : ∀ f ∈ l.fields, f.required = true → f.key ∈ seen := by simpa using none
    rw [and_iff_right covered, Except.ok.injEq]

/-- An object is read when its keys are those of a record and each member is read; the record then
goes through the changes in their order. -/
theorem readMembers_eq_ok {l : Layout α} (distinct : (l.fields.map Field.key).Nodup)
    {seen : List String} {x y : α} {members : List (String × Json)} :
    l.readMembers seen x members = .ok y ↔ l.Complete seen (members.map Prod.fst) ∧
      ∃ changes, List.Forall₂ l.Reads members changes ∧
        changes.foldl (fun x change => change x) x = y := by
  induction members generalizing seen x with
  | nil =>
      rw [readMembers, ofSeen_eq_ok]
      refine and_congr_right fun _ => ⟨fun same => ⟨[], .nil, same⟩, fun given => ?_⟩
      obtain ⟨changes, reads, same⟩ := given
      cases reads
      exact same
  | cons m members ih =>
      simp only [readMembers, bind_eq_ok, ih, field_eq_ok distinct, List.map_cons, complete_cons]
      constructor
      · intro steps
        obtain ⟨f, ⟨hf, key, new⟩, change, read, complete, changes, reads, same⟩ := steps
        exact ⟨⟨new, complete⟩, change :: changes, .cons ⟨f, hf, key, read⟩ reads, same⟩
      · intro given
        obtain ⟨⟨new, complete⟩, _, reads, same⟩ := given
        cases reads with
        | cons first reads =>
            obtain ⟨f, hf, key, read⟩ := first
            exact ⟨f, ⟨hf, key, new⟩, _, read, complete, _, reads, same⟩

end Layout

/-- It does not matter which of the fields is read first. -/
def Field.Commute (f g : Field α) : Prop :=
  ∀ ⦃v w change change'⦄, f.change.ofJson v = .ok change → g.change.ofJson w = .ok change' →
    ∀ x, change (change' x) = change' (change x)

instance : Std.Symm (@Field.Commute α) where
  symm _ _ commute _ _ _ _ second first x := (commute first second x).symm

theorem Field.commute_of_set {f g : Field α} {d : Decoder β} {e : Decoder γ} {set : β → α → α}
    {set' : γ → α → α} (first : f.change = d.map set) (second : g.change = e.map set')
    (swap : ∀ y z x, set y (set' z x) = set' z (set y x)) : f.Commute g := by
  intro v w change change' read read' x
  rw [first, Decoder.map_eq_ok] at read
  rw [second, Decoder.map_eq_ok] at read'
  obtain ⟨y, _, rfl⟩ := read
  obtain ⟨z, _, rfl⟩ := read'
  exact swap y z x

namespace Layout

/-- No key stands for two fields, and the fields can be read in any order. -/
structure Lawful (l : Layout α) : Prop where
  distinct : (l.fields.map Field.key).Nodup
  commute : l.fields.Pairwise Field.Commute

theorem Lawful.ofJson_perm {l : Layout α} (lawful : l.Lawful) {ms ns : List (String × Json)}
    (perm : ms.Perm ns) {x : α} (ok : l.ofJson (.object ms) = .ok x) :
    l.ofJson (.object ns) = .ok x := by
  obtain ⟨complete, changes, reads, rfl⟩ := (readMembers_eq_ok lawful.distinct).mp ok
  have complete := complete.perm (perm.map Prod.fst)
  obtain ⟨changes', reads', reordered⟩ := List.perm_comp_forall₂ perm.symm reads
  refine (readMembers_eq_ok lawful.distinct).mpr ⟨complete, changes', reads', ?_⟩
  refine reordered.foldl_eq' (fun c hc d hd z => ?_) l.blank
  obtain ⟨m, hm, f, hf, key, read⟩ := exists_of_mem_right reads' hc
  obtain ⟨n, hn, g, hg, key', read'⟩ := exists_of_mem_right reads' hd
  by_cases same : f = g
  · -- one field is one member, and so one change
    subst same
    have one : m = n :=
      List.inj_on_of_nodup_map complete.distinct hm hn (key.symm.trans key')
    subst one
    cases read.symm.trans read'
    rfl
  · have commute := lawful.commute.forall hf hg same
    exact (commute read read' z).symm

theorem Lawful.ofJson_canonical {l : Layout α} (lawful : l.Lawful)
    {members : List (String × Json)} (distinct : (members.map Prod.fst).Nodup) {x : α} :
    l.ofJson (Json.object members).canonical = .ok x ↔
      l.ofJson (.object (members.map fun m => (m.1, m.2.canonical))) = .ok x := by
  have perm := Json.canonicalMembers_perm distinct
  exact ⟨lawful.ofJson_perm perm, lawful.ofJson_perm perm.symm⟩

end Layout

/-- Each member of an object that is read has been read as the field of its key. -/
theorem Layout.Lawful.read_of_mem {l : Layout α} (lawful : l.Lawful)
    {members : List (String × Json)}
    (keys : (members.map Prod.fst).Sublist (l.fields.map Field.key)) {x : α}
    (ok : l.decoder.ofJson (Json.object members).canonical = .ok x) {key : String} {v : Json}
    (member : (key, v) ∈ members) {required : Bool} {d : Decoder β} {set : β → α → α}
    (field : ⟨key, required, d.map set⟩ ∈ l.fields) : ∃ y, d.ofJson v.canonical = .ok y := by
  have read := (lawful.ofJson_canonical (lawful.distinct.sublist keys)).mp ok
  obtain ⟨_, _, reads, _⟩ := (readMembers_eq_ok lawful.distinct).mp read
  obtain ⟨_, _, g, hg, same, read⟩ := exists_of_mem_left reads (List.mem_map_of_mem member)
  cases List.inj_on_of_nodup_map lawful.distinct field hg same.symm
  obtain ⟨y, read, _⟩ := Decoder.map_eq_ok.mp read
  exact ⟨y, read⟩

/-- What is written for a field, and what becomes of a record when it is read. -/
inductive Field.Written (f : Field α) : List (String × Json) → α → α → Prop
  | present {v : Json} {change : α → α} {x : α}
      (read : f.change.ofJson v.canonical = .ok change) : Written f [(f.key, v)] x (change x)
  | absent {x : α} (optional : f.required = false) : Written f [] x x

theorem Field.written_needed {key : String} {d : Decoder β} {set : β → α → α} {v : Json} {y : β}
    {x : α} (read : d.ofJson v.canonical = .ok y) :
    (needed key d set).Written [(key, v)] x (set y x) :=
  .present (Decoder.map_eq_ok.mpr ⟨y, read, rfl⟩)

theorem Field.written_optional {key : String} {d : Decoder β} {set : β → α → α} {v : Json} {y : β}
    {x : α} (read : d.ofJson v.canonical = .ok y) :
    (optional key d set).Written [(key, v)] x (set y x) :=
  .present (Decoder.map_eq_ok.mpr ⟨y, read, rfl⟩)

/-- The members of an object are written for the fields, one field after the other. -/
inductive Written : List (Field α) → List (String × Json) → α → α → Prop
  | nil {x : α} : Written [] [] x x
  | cons {f : Field α} {fields : List (Field α)} {own members : List (String × Json)} {x y z : α}
      (first : f.Written own x y) (rest : Written fields members y z) :
      Written (f :: fields) (own ++ members) x z

namespace Written

theorem keys {fields : List (Field α)} {members : List (String × Json)} {x y : α}
    (written : Written fields members x y) :
    (members.map Prod.fst).Sublist (fields.map Field.key) ∧
      ∀ f ∈ fields, f.required = true → f.key ∈ members.map Prod.fst := by
  induction written with
  | nil => exact ⟨.slnil, nofun⟩
  | cons first _ ih =>
      obtain ⟨within, covered⟩ := ih
      cases first with
      | present read =>
          refine ⟨within.cons_cons _, List.forall_mem_cons.mpr ⟨fun _ => List.mem_cons_self, ?_⟩⟩
          exact fun g hg required => List.mem_cons_of_mem _ (covered g hg required)
      | absent optional =>
          refine ⟨within.cons _, List.forall_mem_cons.mpr ⟨fun required => ?_, covered⟩⟩
          rw [optional] at required
          cases required

theorem changes {l : Layout α} {fields : List (Field α)} {members : List (String × Json)}
    {x y : α} (written : Written fields members x y) (known : ∀ f ∈ fields, f ∈ l.fields) :
    ∃ changes, List.Forall₂ l.Reads (members.map fun m => (m.1, m.2.canonical)) changes ∧
      changes.foldl (fun x change => change x) x = y := by
  induction written with
  | nil => exact ⟨[], .nil, rfl⟩
  | @cons f _ _ _ _ _ _ first _ ih =>
      obtain ⟨own, known⟩ := List.forall_mem_cons.mp known
      obtain ⟨changes, reads, same⟩ := ih known
      cases first with
      | present read => exact ⟨_ :: changes, .cons ⟨f, own, rfl, read⟩ reads, same⟩
      | absent optional => exact ⟨changes, reads, same⟩

theorem distinct {l : Layout α} (lawful : l.Lawful) {members : List (String × Json)} {x y : α}
    (written : Written l.fields members x y) : (members.map Prod.fst).Nodup :=
  lawful.distinct.sublist written.keys.1

theorem ofJson {l : Layout α} (lawful : l.Lawful) {members : List (String × Json)} {x : α}
    (written : Written l.fields members l.blank x) :
    l.decoder.ofJson (Json.object members).canonical = .ok x := by
  obtain ⟨changes, reads, same⟩ := written.changes fun _ => id
  have keys : (members.map fun m => (m.1, m.2.canonical)).map Prod.fst = members.map Prod.fst := by
    rw [List.map_map]
    rfl
  refine (lawful.ofJson_canonical (written.distinct lawful)).mpr ?_
  refine (Layout.readMembers_eq_ok lawful.distinct).mpr ⟨?_, changes, reads, same⟩
  rw [keys]
  exact ⟨written.distinct lawful, fun _ _ => List.not_mem_nil,
    fun f hf required => .inr (written.keys.2 f hf required)⟩

end Written

end Document

end Overload
