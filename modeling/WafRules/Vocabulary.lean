import WafRules.Text.Basic

/-!
# Vocabularies

A vocabulary is a closed set of words, each with one spelling in rule text. The
words are listed in a fixed order, no word is left out, and no two share a
spelling. So looking up a spelling and spelling a word are inverse to each other.
Look-up is exact: it neither trims nor ignores case.
-/

namespace WafRules

/-- The symbol made from a spelling: capitals throughout, with an underscore
before a capital that follows a small letter or a digit. -/
def symbolOf (spelling : String) : String :=
  String.ofList (go spelling.toList)
where
  go : Text → Text
    | c :: d :: s =>
      if (c.isLower || c.isDigit) && d.isUpper then c.toUpper :: '_' :: go (d :: s)
      else c.toUpper :: go (d :: s)
    | s => s.map Char.toUpper

class Vocabulary (α : Type) where
  /-- Every word, in the order of declaration. -/
  all : List α
  spelling : α → String
  /-- The name under which a word is listed, apart from how it is written. -/
  symbol : α → String := fun a => symbolOf (spelling a)
  mem_all : ∀ a, a ∈ all
  spellings_nodup : (all.map spelling).Nodup

namespace Vocabulary

variable {α : Type} [Vocabulary α]

/-- The spelling of a word, as it stands in rule text. -/
def text (a : α) : Text := (spelling a).toList

/-- The word that is spelled exactly like this, if there is one. -/
def ofText? (s : Text) : Option α := all.find? fun a => text a == s

theorem text_of_ofText?_eq_some {s : Text} {a : α} (h : ofText? s = some a) :
    text a = s := by
  simpa using List.find?_some h

theorem spelling_injective {a b : α} (h : spelling a = spelling b) : a = b := by
  obtain ⟨i, hi, rfl⟩ := List.getElem_of_mem (mem_all a)
  obtain ⟨j, hj, rfl⟩ := List.getElem_of_mem (mem_all b)
  have inside {k : Nat} (hk : k < (all : List α).length) :
      k < ((all : List α).map spelling).length := by rwa [List.length_map]
  have hi' := inside hi
  have hj' := inside hj
  have spelled : ((all : List α).map spelling)[i] = (all.map spelling)[j] := by
    rwa [List.getElem_map, List.getElem_map]
  obtain rfl := (List.getElem_inj spellings_nodup).mp spelled
  rfl

theorem text_injective {a b : α} (h : text a = text b) : a = b :=
  spelling_injective (String.toList_inj.mp h)

@[simp]
theorem ofText?_text (a : α) : ofText? (text a) = some a := by
  cases h : (ofText? (text a) : Option α) with
  | none => simpa using List.find?_eq_none.mp h a (mem_all a)
  | some b => rw [text_injective (text_of_ofText?_eq_some h)]

end Vocabulary

end WafRules
