import Overload.Document.Record
import Overload.Proofs.Lists
import Overload.Proofs.Outcome
import Overload.Proofs.Stored

/-!
What decoders can read. What a decoder made of others obtains from a document is made of what those
obtain, whether the document is a value or a text; a record is a blank one that has been changed by
what was obtained for its fields.
-/
namespace Overload.Document

variable {α β : Type}

theorem plain_eq_ok {read : Json.Reader α} {cs : List Char} {y : α × List Char} :
    plain read cs = .ok y ↔ read cs = .ok y := mapError_eq_ok

theorem refuse_ne_ok {wanted : String} {cs : List Char} {y : α × List Char} :
    refuse wanted cs ≠ .ok y := by
  intro ok
  obtain ⟨_, _, none⟩ := bind_eq_ok.mp ok
  cases none

namespace Decoder

/-- What a decoder can read. A document is a value, or stands at the front of a text. -/
inductive Obtains (d : Decoder α) (x : α) : Prop
  | value {document : Json} (representable : document.Representable)
      (ok : d.ofJson document = .ok x)
  | text {depth : Nat} {document rest : List Char} (ok : d.ofText depth document = .ok (x, rest))

theorem Obtains.of_whole {read : Json → Except DocumentError α} {x : α}
    (obtained : (whole read).Obtains x) : ∃ v : Json, v.Representable ∧ read v = .ok x := by
  cases obtained with
  | value representable ok => exact ⟨_, representable, ok⟩
  | text ok =>
      obtain ⟨⟨v, _⟩, found, rest⟩ := bind_eq_ok.mp ok
      obtain ⟨_, read, same⟩ := bind_eq_ok.mp rest
      cases same
      exact ⟨v, Json.representable_of_readValue (plain_eq_ok.mp found), read⟩

theorem Obtains.of_refine {d : Decoder α} {f : α → Except DocumentError β} {y : β}
    (obtained : (d.refine f).Obtains y) : ∃ x, d.Obtains x ∧ f x = .ok y := by
  cases obtained with
  | value representable ok =>
      obtain ⟨x, ok, refined⟩ := bind_eq_ok.mp ok
      exact ⟨x, .value representable ok, refined⟩
  | text ok =>
      obtain ⟨⟨x, _⟩, found, rest⟩ := bind_eq_ok.mp ok
      obtain ⟨_, refined, same⟩ := bind_eq_ok.mp rest
      cases same
      exact ⟨x, .text found, refined⟩

theorem Obtains.of_map {d : Decoder α} {f : α → β} {y : β} (obtained : (d.map f).Obtains y) :
    ∃ x, d.Obtains x ∧ f x = y := by
  obtain ⟨x, obtained, same⟩ := obtained.of_refine
  exact ⟨x, obtained, Except.ok.inj same⟩

theorem Obtains.of_any {v : Json} (obtained : any.Obtains v) : v.Stored := by
  obtain ⟨w, representable, same⟩ := obtained.of_whole
  cases same
  exact representable.canonical

theorem Obtains.of_table {table : Json.Table} (obtained : Decoder.table.Obtains table) :
    ∃ members : List (String × Json), (∀ m ∈ members, m.2.Representable) ∧
      table = .ofMembers members := by
  obtain ⟨v, representable, ok⟩ : ∃ v : Json, v.Representable ∧ readTable v = .ok table := by
    cases obtained with
    | value representable ok => exact ⟨_, representable, ok⟩
    | text ok =>
        simp only [Decoder.table] at ok
        split at ok
        · exact Obtains.of_whole (.text ok)
        · exact absurd ok refuse_ne_ok
  cases representable with
  | object each =>
      cases ok
      exact ⟨_, each, rfl⟩
  | null | bool | integer | real | string | array => cases ok

/-- What is written is kept in its canonical form, and that is read as what was written. -/
def ReadsBack (d : Decoder α) (write : α → Json) (x : α) : Prop :=
  d.ofJson (write x).canonical = .ok x

theorem map_eq_ok {d : Decoder α} {f : α → β} {v : Json} {y : β} :
    (d.map f).ofJson v = .ok y ↔ ∃ x, d.ofJson v = .ok x ∧ f x = y := by
  rw [map, refine, bind_eq_ok]
  simp only [Except.ok.injEq]

theorem list_eq_ok {d : Decoder β} {write : α → Json} {xs : List α} {ys : List β} :
    (list d).ofJson (Json.array (xs.map write)).canonical = .ok ys ↔
      List.Forall₂ (fun x y => d.ofJson (write x).canonical = .ok y) xs ys := by
  rw [Json.canonical, Json.canonicalItems_eq_map, List.map_map, list]
  dsimp only
  rw [mapM_eq_ok, List.forall₂_map_left_iff]
  rfl

theorem obtains_of_readItems {d : Decoder α} {depth bound : Nat} {first : Bool}
    {cs rest : List Char} {xs : List α}
    (ok : readItems (d.ofText depth) bound first cs = .ok (xs, rest)) :
    ∀ x ∈ xs, d.Obtains x := by
  induction bound generalizing first cs xs with
  | zero => cases ok
  | succ bound ih =>
      obtain ⟨⟨more, _⟩, _, ok⟩ := bind_eq_ok.mp ok
      cases more with
      | false =>
          cases ok
          exact nofun
      | true =>
          obtain ⟨⟨x, _⟩, item, ok⟩ := bind_eq_ok.mp ok
          obtain ⟨⟨_, _⟩, items, same⟩ := bind_eq_ok.mp ok
          cases same
          exact List.forall_mem_cons.mpr ⟨.text item, ih items⟩

theorem Obtains.of_list {d : Decoder α} {xs : List α} (obtained : (list d).Obtains xs) :
    ∀ x ∈ xs, d.Obtains x := by
  cases obtained with
  | value representable ok =>
      cases representable with
      | array each =>
          intro x hx
          obtain ⟨v, hv, ok⟩ := exists_of_mem_right (mapM_eq_ok.mp ok) hx
          exact .value (each v hv) ok
      | null | bool | integer | real | string | object => cases ok
  | text ok =>
      simp only [list] at ok
      split at ok
      · cases ok
      · exact obtains_of_readItems ok
      · exact absurd ok refuse_ne_ok

end Decoder

namespace Layout

variable {l : Layout α} {P : α → Prop}
  (step : ∀ f ∈ l.fields, ∀ change, f.change.Obtains change → ∀ x, P x → P (change x))

theorem ofLeft_eq_ok {left : List (Field α)} {x y : α} (ok : l.ofLeft left x = .ok y) :
    x = y := by
  rw [ofLeft] at ok
  split at ok
  · cases ok
  · exact Except.ok.inj ok

theorem eq_of_ofSeen {seen : List String} {x y : α} (ok : l.ofSeen seen x = .ok y) : x = y := by
  rw [ofSeen] at ok
  split at ok
  · cases ok
  · exact Except.ok.inj ok

theorem mem_of_field {seen : List String} {key : String} {f : Field α}
    (ok : l.field seen key = .ok f) : f ∈ l.fields := by
  rw [field] at ok
  split at ok
  · cases ok
  · rename_i g found
    split at ok
    · cases ok
    · cases ok
      exact List.mem_of_find?_eq_some found

include step

theorem readMembers_induct {seen : List String} {x y : α} {members : List (String × Json)}
    (representable : ∀ m ∈ members, m.2.Representable) (start : P x)
    (ok : l.readMembers seen x members = .ok y) : P y := by
  induction members generalizing seen x with
  | nil => exact eq_of_ofSeen ok ▸ start
  | cons m members ih =>
      obtain ⟨first, representable⟩ := List.forall_mem_cons.mp representable
      obtain ⟨f, known, ok⟩ := bind_eq_ok.mp ok
      obtain ⟨change, read, ok⟩ := bind_eq_ok.mp ok
      exact ih representable (step f (mem_of_field known) change (.value first read) x start) ok

theorem readItems_induct {fields left : List (Field α)} (known : ∀ f ∈ fields, f ∈ l.fields)
    {items extra : List Json} (representable : ∀ v ∈ items, v.Representable) {x y : α}
    (start : P x) (ok : readItems x fields items = .ok (y, left, extra)) : P y := by
  induction fields generalizing items x with
  | nil =>
      cases ok
      exact start
  | cons f fields ih =>
      cases items with
      | nil =>
          cases ok
          exact start
      | cons v items =>
          obtain ⟨own, known⟩ := List.forall_mem_cons.mp known
          obtain ⟨first, representable⟩ := List.forall_mem_cons.mp representable
          obtain ⟨change, read, ok⟩ := bind_eq_ok.mp ok
          exact ih known representable (step f own change (.value first read) x start) ok

theorem scanMembers_induct {depth bound : Nat} {first : Bool} {seen : List String} {x y : α}
    {cs rest : List Char} (start : P x)
    (ok : l.scanMembers depth bound first seen x cs = .ok (y, rest)) : P y := by
  induction bound generalizing first seen x cs with
  | zero => cases ok
  | succ bound ih =>
      obtain ⟨⟨key, _⟩, _, ok⟩ := bind_eq_ok.mp ok
      cases key with
      | none =>
          obtain ⟨_, ended, same⟩ := bind_eq_ok.mp ok
          cases same
          exact eq_of_ofSeen ended ▸ start
      | some key =>
          obtain ⟨f, known, ok⟩ := bind_eq_ok.mp ok
          obtain ⟨_, _, ok⟩ := bind_eq_ok.mp ok
          obtain ⟨⟨change, _⟩, read, ok⟩ := bind_eq_ok.mp ok
          exact ih (step f (mem_of_field known) change (.text read) x start) ok

theorem scanItems_induct {depth : Nat} {fields : List (Field α)}
    (known : ∀ f ∈ fields, f ∈ l.fields) {first : Bool} {x y : α} {cs rest : List Char}
    (start : P x) (ok : l.scanItems depth fields first x cs = .ok (y, rest)) : P y := by
  induction fields generalizing first x cs with
  | nil =>
      obtain ⟨_, _, same⟩ := bind_eq_ok.mp ok
      cases same
      exact start
  | cons f fields ih =>
      obtain ⟨own, known⟩ := List.forall_mem_cons.mp known
      obtain ⟨⟨more, _⟩, _, ok⟩ := bind_eq_ok.mp ok
      cases more with
      | false =>
          obtain ⟨_, ended, same⟩ := bind_eq_ok.mp ok
          cases same
          exact ofLeft_eq_ok ended ▸ start
      | true =>
          obtain ⟨⟨change, _⟩, read, ok⟩ := bind_eq_ok.mp ok
          exact ih known (step f own change (.text read) x start) ok

/-- What holds of the blank record and is kept by every change that a field can make holds of every
record that is read. -/
theorem obtains_induct (blank : P l.blank) {x : α} (obtained : l.decoder.Obtains x) : P x := by
  cases obtained with
  | value representable ok =>
      cases representable with
      | object each => exact readMembers_induct step each blank ok
      | array each =>
          obtain ⟨⟨y, left, extra⟩, read, ok⟩ := bind_eq_ok.mp ok
          have kept := readItems_induct step (fun _ => id) each blank read
          dsimp only at ok
          split at ok
          · exact ofLeft_eq_ok ok ▸ kept
          · cases ok
      | null | bool | integer | real | string => cases ok
  | text ok =>
      simp only [decoder, ofText] at ok
      split at ok
      · cases ok
      · cases ok
      · exact scanItems_induct step (fun _ => id) blank ok
      · exact scanMembers_induct step blank ok
      · exact absurd ok refuse_ne_ok

end Layout

end Overload.Document
