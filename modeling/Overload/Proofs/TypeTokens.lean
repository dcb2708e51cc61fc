import Overload.Proofs.Canonical
import Overload.Proofs.ValueCut

/-!
The syntax of types by its grammar: which tokens stand for a type, and which texts spell out those
tokens. White space may stand before, between and after tokens; a name goes on as long as it can.
-/
namespace Overload

namespace TypeExpr

inductive Token where
  | mark (c : Char) (shown : Text.isBlank c = false := by rfl)
  | name (n : String) (valid : isName n = true)
  | json (text : List Char) (value : Json) (reads : Json.readChars text = .ok value)

namespace Token

def text : Token → List Char
  | mark c _ => [c]
  | name n _ => n.toList
  | json text _ _ => text

/-- A name ends where no character follows that would go on with it. -/
def Ends : Token → List Char → Prop
  | name _ _, rest => ∀ c ∈ rest.head?, continuesName c = false
  | _, _ => True

end Token

/-- The text consists of the tokens, with white space around them. -/
inductive Spells : List Token → List Char → Prop
  | nil {blanks : List Char} (blank : Blanks blanks) : Spells [] blanks
  | cons {token : Token} {tokens : List Token} {blanks rest : List Char} (blank : Blanks blanks)
      (ends : token.Ends rest) (tail : Spells tokens rest) :
      Spells (token :: tokens) (blanks ++ (token.text ++ rest))

/-- One item after another. -/
inductive Sequence {α : Type} (item : List Token → α → Prop) : List Token → List α → Prop
  | nil : Sequence item [] []
  | cons {ts us : List Token} {x : α} {xs : List α} (head : item ts x)
      (tail : Sequence item us xs) :
      Sequence item (ts ++ us) (x :: xs)

/-- At least one item, with commas between them. -/
inductive Listing {α : Type} (item : List Token → α → Prop) : List Token → List α → Prop
  | one {ts : List Token} {x : α} (last : item ts x) : Listing item ts [x]
  | more {ts us : List Token} {x : α} {xs : List α} (head : item ts x) (tail : Listing item us xs) :
      Listing item (ts ++ .mark ',' :: us) (x :: xs)

theorem Listing.exists_item {α : Type} {item : List Token → α → Prop} {ts : List Token}
    {xs : List α} (listed : Listing item ts xs) :
    ∀ x ∈ xs, ∃ us, item us x ∧ us.length ≤ ts.length := by
  induction listed with
  | one last => exact fun x hx => ⟨_, List.mem_singleton.mp hx ▸ last, le_rfl⟩
  | more head _ ih =>
      refine List.forall_mem_cons.mpr ⟨⟨_, head, by simp⟩, fun x hx => ?_⟩
      obtain ⟨us, tokens, shorter⟩ := ih x hx
      refine ⟨us, tokens, ?_⟩
      simp only [List.length_append, List.length_cons]
      omega

theorem Sequence.exists_item {α : Type} {item : List Token → α → Prop} {ts : List Token}
    {xs : List α} (sequence : Sequence item ts xs) : ∀ x ∈ xs, ∃ us, item us x := by
  induction sequence with
  | nil => simp
  | cons head _ ih => exact List.forall_mem_cons.mpr ⟨⟨_, head⟩, ih⟩

/-- A key is a name or a JSON string. -/
inductive KeyToken : Token → String → Prop
  | name {n : String} (valid : isName n = true) : KeyToken (.name n valid) n
  | string {text : List Char} {key : String} (reads : Json.readChars text = .ok (.string key)) :
      KeyToken (.json text (.string key) reads) key

inductive EntryTokens : List Token → String × Json → Prop
  | parts {token : Token} {key : String} {text : List Char} {v : Json}
      (named : KeyToken token key) (reads : Json.readChars text = .ok v) :
      EntryTokens [token, .mark '=', .json text v reads] (key, v)

end TypeExpr

/-- Gives keys their values one after another, so that a later value replaces an earlier one. -/
def Annotation.withValues (a : Annotation) (entries : List (String × Json)) : Annotation :=
  entries.foldl (fun a entry => a.withValue entry.1 entry.2.canonical) a

theorem Annotation.withValues_new (n : String) (entries : List (String × Json)) :
    Annotation.withValues ⟨n, []⟩ entries = ⟨n, .ofMembers entries⟩ := by
  have values : ∀ table, Annotation.withValues ⟨n, table⟩ entries =
      ⟨n, entries.foldl (fun t m => t.insert m.1 m.2.canonical) table⟩ := by
    induction entries with
    | nil => exact fun _ => rfl
    | cons entry entries ih => exact fun table => ih _
  rw [values, Json.Table.ofMembers_eq_foldl]

namespace TypeExpr

inductive AnnotationTokens : List Token → Annotation → Prop
  | plain {n : String} (valid : isName n = true) :
      AnnotationTokens [.mark '@', .name n valid] ⟨n, []⟩
  | empty {n : String} (valid : isName n = true) :
      AnnotationTokens [.mark '@', .name n valid, .mark '(', .mark ')'] ⟨n, []⟩
  | values {n : String} (valid : isName n = true) {ts : List Token}
      {entries : List (String × Json)} (listed : Listing EntryTokens ts entries) :
      AnnotationTokens (.mark '@' :: .name n valid :: .mark '(' :: (ts ++ [.mark ')']))
        (.withValues ⟨n, []⟩ entries)

/-- The tokens of a type. Of equal annotations the first is kept. -/
inductive TypeTokens : List Token → TypeExpr → Prop
  | wildcard {front : List Token} {as : List Annotation}
      (annotated : Sequence AnnotationTokens front as) :
      TypeTokens (front ++ [.mark '?']) (.wildcard as.eraseDups)
  | named {front : List Token} {as : List Annotation} {n : String}
      (annotated : Sequence AnnotationTokens front as) (valid : isName n = true) :
      TypeTokens (front ++ [.name n valid]) (.named as.eraseDups n [])
  | generic {front inner : List Token} {as : List Annotation} {n : String} {params : List TypeExpr}
      (annotated : Sequence AnnotationTokens front as) (valid : isName n = true)
      (listed : Listing TypeTokens inner params) :
      TypeTokens (front ++ .name n valid :: .mark '<' :: (inner ++ [.mark '>']))
        (.named as.eraseDups n params)

end TypeExpr

end Overload
